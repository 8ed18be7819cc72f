import SqlSyntax.Proofs.Bearing.Statement
import SqlSyntax.Proofs.Checks
import SqlSyntax.Proofs.Walks
import SqlSyntax.Proofs.Ways

/-!
# Aggregates where rows are chosen

The check of a clause goes down from it and stops at each query and at each aggregate that it
meets. So an aggregate is reported if and only if it is misplaced in the clause: neither a query nor
another aggregate stands between the two (`Tree.Misplaced`).

Another clause of this sort can stand below the clause only inside a query, because it belongs to a
statement, and below a clause there are no statements but queries (`Tree.Way.unfiltered`). So no
aggregate is misplaced in two clauses.

The last child is searched first, and so the aggregates are reported in the reverse of their order
in the tree (`Session.Builds.aggregates_backward`).
-/

namespace SqlSyntax

open SqlSyntax.Tree SqlSyntax.Validation

variable {source : Source} {mode : Mode} {t u w c d : Tree} {between : List Tree}

/-! ## Aggregates -/

namespace Tree

/-- A call of a function that aggregates, without `OVER`. -/
structure Aggregates (source : Source) (t : Tree) : Prop where
  call : t.kind = .functionCall
  unwindowed : ∀ c ∈ t.children, c.kind ≠ .windowSpec
  name : foldCase (t.name source) ∈ aggregates

/-- A query between a clause and an aggregate has the aggregate to itself, and so has another
aggregate. -/
def Shields (source : Source) (t : Tree) : Prop :=
  t.kind ∈ [Kind.selectStmt, .compoundSelect, .subqueryExpr, .derivedTable] ∨ t.Aggregates source

/-- An aggregate below a clause that belongs to it. -/
structure Misplaced (source : Source) (clause t : Tree) : Prop where
  aggregates : t.Aggregates source
  found : clause.Finds (Shields source) t

end Tree

namespace Validation

/-- The words that a clause that chooses or groups rows begins with. -/
def clauseWords (clause : Kind) : String := if clause = .whereClause then "WHERE" else "GROUP BY"

theorem isAggregate_iff : isAggregate source t ↔ t.Aggregates source := by
  simp only [isAggregate, Bool.and_eq_true, beq_iff_eq, Option.isNone_iff_eq_none, child?,
    List.find?_eq_none, List.contains_iff_mem]
  constructor
  · rintro ⟨⟨hcall, hwindow⟩, hname⟩
    exact ⟨hcall, hwindow, hname⟩
  · exact fun h => ⟨⟨h.call, h.unwindowed⟩, h.name⟩

theorem isQueryBlock_iff {k : Kind} : k.isQueryBlock ↔
    k ∈ [Kind.selectStmt, .compoundSelect, .subqueryExpr, .derivedTable] := by
  cases k <;> decide

/-! ## The search -/

mutual
/-- A tree that is an aggregate is found itself, and from others what they find. -/
theorem mem_outerAggregates : ∀ t : Tree, u ∈ outerAggregates source t ↔
    u.Aggregates source ∧ (u = t ∨ ¬ t.Shields source ∧ t.Finds (Shields source) u)
  | .node n cs => by
    rw [outerAggregates]
    split
    · next hblock =>
      have hshields : (node n cs).Shields source := .inl (isQueryBlock_iff.1 hblock)
      refine iff_of_false List.not_mem_nil ?_
      rintro ⟨hu, rfl | ⟨hfree, -⟩⟩
      · have hcall : n.kind = .functionCall := hu.call
        rw [hcall] at hblock
        cases hblock
      · exact hfree hshields
    · next hblock =>
      split
      · next haggregate =>
        have haggregate := isAggregate_iff.1 haggregate
        rw [List.mem_singleton]
        refine ⟨fun h => ⟨h ▸ haggregate, .inl h⟩, ?_⟩
        rintro ⟨-, rfl | ⟨hfree, -⟩⟩
        · rfl
        · exact absurd (.inr haggregate) hfree
      · next haggregate =>
        have hfree : ¬ (node n cs).Shields source :=
          not_or.2 ⟨mt isQueryBlock_iff.2 hblock, mt isAggregate_iff.2 haggregate⟩
        rw [mem_outerAggregatesOf cs, finds_iff]
        refine and_congr_right fun hu => ⟨fun h => .inr ⟨hfree, h⟩, ?_⟩
        rintro (rfl | ⟨-, h⟩)
        · exact absurd (.inr hu) hfree
        · exact h

theorem mem_outerAggregatesOf : ∀ ts : List Tree, u ∈ outerAggregatesOf source ts ↔
    u.Aggregates source ∧ ∃ c ∈ ts, u = c ∨ ¬ c.Shields source ∧ c.Finds (Shields source) u
  | [] => by simp [outerAggregatesOf]
  | t :: ts => by
    rw [outerAggregatesOf, List.mem_append, mem_outerAggregates t, mem_outerAggregatesOf ts,
      List.exists_mem_cons_iff, or_comm, ← and_or_left]
end

mutual
/-- What is found is found in the reverse of its order in the tree. -/
theorem outerAggregates_sublist : ∀ t : Tree,
    (outerAggregates source t).reverse.Sublist t.preorder
  | .node n cs => by
    rw [outerAggregates, preorder_node]
    split
    · exact List.nil_sublist _
    · split
      · exact (List.nil_sublist _).cons_cons _
      · exact (outerAggregatesOf_sublist cs).cons _

theorem outerAggregatesOf_sublist : ∀ ts : List Tree,
    (outerAggregatesOf source ts).reverse.Sublist (ts.flatMap preorder)
  | [] => List.nil_sublist _
  | t :: ts => by
    rw [outerAggregatesOf, List.reverse_append, List.flatMap_cons]
    exact (outerAggregates_sublist t).append (outerAggregatesOf_sublist ts)
end

/-- The aggregates that are misplaced in a clause, in their order in the tree. -/
def misplacedCalls (source : Source) (clause : Tree) : List Tree :=
  (outerAggregatesOf source clause.children).reverse

theorem mem_misplacedCalls : u ∈ misplacedCalls source c ↔ c.Misplaced source u := by
  rw [misplacedCalls, List.mem_reverse, mem_outerAggregatesOf, ← finds_iff]
  exact ⟨fun h => ⟨h.1, h.2⟩, fun h => ⟨h.aggregates, h.found⟩⟩

theorem misplacedCalls_sublist (source : Source) (c : Tree) :
    (misplacedCalls source c).Sublist c.preorder := by
  obtain ⟨n, cs⟩ := c
  rw [preorder_node]
  exact (outerAggregatesOf_sublist cs).cons _

theorem isFilter_iff {k : Kind} : k.isFilter ↔ k = .whereClause ∨ k = .groupByClause := by
  cases k <;> decide

/-- What is reported of a clause: the last misplaced aggregate first. -/
theorem check_filter (hc : c.kind.isFilter) : check source mode c =
    (misplacedCalls source c).reverse.map fun u =>
      violation (.misplacedAggregate (u.name source) (clauseWords c.kind)) u := by
  rcases isFilter_iff.1 hc with hkind | hkind <;>
    simp [check, hkind, checkNoAggregates, misplacedCalls, clauseWords]

end Validation

/-! ## Clauses below clauses -/

/-- Below a node that is no statement a clause that chooses or groups rows stands only inside a
query. -/
theorem Tree.Way.unfiltered (h : c.Way between d) (hordered : c.Everywhere Ordered)
    (hfiltered : c.kind.isFiltered = false) (hcommand : c.kind.isCommand = false)
    (hfree : ∀ w ∈ between, w.kind ≠ .selectStmt) : d.kind.isFilter = false := by
  induction h with
  | @child t u hu =>
    have hbears := hordered.root.bears u hu
    simp_all [Kind.bears]
  | @down t c u between hc way ih =>
    obtain ⟨hselect, hfree⟩ := List.forall_mem_cons.1 hfree
    have hcommand : c.kind.isCommand = false := by
      have hbears := hordered.root.bears c hc
      simp_all [Kind.bears]
    refine ih (hordered.children c hc) ?_ hcommand hfree
    generalize c.kind = k at hselect hcommand
    cases k <;> first | rfl | exact absurd rfl hselect | cases hcommand

/-- An aggregate belongs to one clause. -/
theorem Tree.Misplaced.clause_eq (ht : t.ids.Nodup) (hordered : t.Everywhere Ordered)
    (hc : c ∈ t.preorder) (hd : d ∈ t.preorder) (hcfilter : c.kind.isFilter)
    (hdfilter : d.kind.isFilter) (h : c.Misplaced source u) (h' : d.Misplaced source u) :
    c = d := by
  -- where one clause is on the way from the other, it is no such clause
  have hnone : ∀ {c d : Tree} {between}, c ∈ t.preorder → c.kind.isFilter → d.kind.isFilter →
      c.Way between u → (∀ w ∈ between, ¬ w.Shields source) → d ∉ between := by
    intro c d between hc hcfilter hdfilter way hfree hmem
    obtain ⟨above, below, rfl, habove⟩ := way.upTo hmem
    have hunfiltered := habove.unfiltered (fun w hw => hordered w (mem_preorder_trans hw hc))
      (by generalize c.kind = k at hcfilter; cases k <;> first | rfl | cases hcfilter)
      (by generalize c.kind = k at hcfilter; cases k <;> first | rfl | cases hcfilter)
      (fun w hw hselect => hfree w (List.mem_append_left _ hw) (.inl (by rw [hselect]; decide)))
    rw [hunfiltered] at hdfilter
    cases hdfilter
  obtain ⟨between, way, hfree⟩ := h.found
  obtain ⟨between', way', hfree'⟩ := h'.found
  rcases way.eq_or_mem ht hc hd way' with heq | hmem | hmem
  · exact heq
  · exact absurd hmem (hnone hc hcfilter hdfilter way hfree)
  · exact absurd hmem (hnone hd hdfilter hcfilter way' hfree')

/-! ## What is reported -/

namespace Validation

/-- The numbers of the nodes that the check of a node reports for misplaced aggregates. -/
def reported (source : Source) (mode : Mode) (t : Tree) : List Nat :=
  ((check source mode t).filter (·.breach.rule = .misplacedAggregate)).map (·.node)

theorem reported_filter (hc : c.kind.isFilter) :
    reported source mode c = (misplacedCalls source c).reverse.map (·.head.id) := by
  rw [reported, check_filter hc, List.filter_eq_self.2, List.map_map]
  · rfl
  · intro v hv
    obtain ⟨u, -, rfl⟩ := List.mem_map.1 hv
    rfl

theorem reported_eq_nil (hc : c.kind.isFilter = false) : reported source mode c = [] := by
  rw [reported, List.map_eq_nil_iff, List.filter_eq_nil_iff]
  intro v hv hrule
  have hrules := rule_mem_of_mem_check hv
  rw [of_decide_eq_true hrule] at hrules
  generalize c.kind = k at hc hrules
  cases k <;> first | exact absurd hrules (by decide) | cases hc

theorem reported_nodup (ht : t.ids.Nodup) (hc : c ∈ t.preorder) :
    (reported source mode c).Nodup := by
  cases hfilter : c.kind.isFilter
  · rw [reported_eq_nil hfilter]
    exact .nil
  · rw [reported_filter hfilter, List.map_reverse, List.nodup_reverse]
    exact ((misplacedCalls_sublist source c).map _).nodup ((ids_sublist hc).nodup ht)

/-- No node is reported for two clauses. -/
theorem reported_disjoint (ht : t.ids.Nodup) (hordered : t.Everywhere Ordered)
    (hc : c ∈ t.preorder) (hd : d ∈ t.preorder) (hne : c ≠ d) :
    List.Disjoint (reported source mode c) (reported source mode d) := by
  intro i hi hi'
  have hfilter : ∀ {c : Tree}, i ∈ reported source mode c → c.kind.isFilter := by
    intro c hi
    by_contra hfilter
    rw [reported_eq_nil (Bool.eq_false_iff.2 hfilter)] at hi
    cases hi
  have hcfilter := hfilter hi
  have hdfilter := hfilter hi'
  rw [reported_filter hcfilter, List.map_reverse, List.mem_reverse] at hi
  rw [reported_filter hdfilter, List.map_reverse, List.mem_reverse] at hi'
  obtain ⟨u, hu, rfl⟩ := List.mem_map.1 hi
  obtain ⟨w, hw, hid⟩ := List.mem_map.1 hi'
  have hmem := mem_preorder_trans ((misplacedCalls_sublist source c).subset hu) hc
  have hmem' := mem_preorder_trans ((misplacedCalls_sublist source d).subset hw) hd
  obtain rfl := eq_of_id ht hmem hmem' hid.symm
  exact hne ((mem_misplacedCalls.1 hu).clause_eq ht hordered hc hd hcfilter hdfilter
    (mem_misplacedCalls.1 hw))

end Validation

/-- The check of a clause reports the aggregates that are misplaced in it and nothing else, each of
them once, and the checks of all nodes together report no node twice for this. -/
theorem Session.Builds.misplaced_aggregates {s : Session} (h : s.Builds source t) (mode : Mode) :
    (∀ clause ∈ t.preorder, clause.kind = .whereClause ∨ clause.kind = .groupByClause →
      ∃ calls : List Tree, check source mode clause = calls.map (fun u =>
          violation (.misplacedAggregate (u.name source) (clauseWords clause.kind)) u) ∧
        (calls.map (·.head.id)).Nodup ∧ ∀ u, u ∈ calls ↔ clause.Misplaced source u) ∧
    (((validateAll source mode t).filter (·.breach.rule = .misplacedAggregate)).map
      (·.node)).Nodup := by
  refine ⟨fun clause hclause hkind => ?_, ?_⟩
  · have hfilter := isFilter_iff.2 hkind
    have hnodup : (reported source mode clause).Nodup := reported_nodup h.nodup hclause
    rw [reported_filter hfilter] at hnodup
    refine ⟨(misplacedCalls source clause).reverse, check_filter hfilter, hnodup, fun u => ?_⟩
    rw [List.mem_reverse, mem_misplacedCalls]
  · rw [validateAll, List.filter_flatMap, List.map_flatMap]
    have hids : (t.preorder.map (·.head.id)).Nodup := h.nodup
    have hpreorder : t.preorder.Nodup := hids.of_map _
    refine List.nodup_flatMap.2 ⟨fun c hc => reported_nodup h.nodup hc, ?_⟩
    exact hpreorder.imp_of_mem fun hc hd hne => reported_disjoint h.nodup h.ordered hc hd hne

/-- An aggregate in another one is not misplaced in the clause, and neither are those of a query in
it. That query has a clause of its own, with an aggregate that is misplaced there. -/
theorem Session.Builds.misplaced_aggregates_nested :
    let text := "SELECT 1 WHERE COUNT(*) > SUM(MAX(a)) OR (SELECT MIN(b) FROM t GROUP BY AVG(c))"
    ∃ (t clause : Tree) (calls : List Tree), ({} : Session).Builds text.toList t ∧
      clause ∈ t.children ∧ calls.length = 2 ∧ (∀ u, u ∈ calls ↔ clause.Misplaced text.toList u) ∧
      (((validateAll text.toList .production t).filter
        (·.breach.rule = .misplacedAggregate)).map (·.node)).Nodup ∧
      (validateAll text.toList .production t).length = 3 := by
  intro text
  have hfound : (Script.single.run (({} : Session).scope .one text.toList)
      (({} : Session).start (tokenize text.toList))).answer.toOption.map (fun t =>
        ((validateAll text.toList .production t).length,
          t.children.map fun c => (c.kind, (check text.toList .production c).length))) =
      some (3, [(.selectList, 0), (.whereClause, 2)]) := by
    decide +kernel
  obtain ⟨t, hbuilds, hseen⟩ := exists_of_run hfound
  obtain ⟨hall, hchildren⟩ := Prod.mk.inj hseen
  obtain ⟨_, cs, hcs, -, hchildren⟩ := List.map_eq_cons_iff.1 hchildren
  obtain ⟨clause, cs, rfl, hclause, -⟩ := List.map_eq_cons_iff.1 hchildren
  simp only [Prod.mk.injEq] at hclause
  have hmem : clause ∈ t.children := by simp [hcs]
  obtain ⟨hclauses, hnodup⟩ := hbuilds.misplaced_aggregates .production
  obtain ⟨calls, hcheck, -, hcalls⟩ :=
    hclauses clause (mem_preorder_child hmem) (.inl hclause.1)
  refine ⟨t, clause, calls, hbuilds, hmem, ?_, hcalls, hnodup, hall⟩
  rw [← hclause.2, hcheck, List.length_map]

/-- The aggregates that are misplaced in a clause are reported in the reverse of their order in the
tree. So where a clause has all violations of a statement, the first of them is at the aggregate
that comes last. -/
theorem Session.Builds.aggregates_backward {s : Session} (h : s.Builds source t) (mode : Mode)
    (hc : c ∈ t.preorder) (hkind : c.kind = .whereClause ∨ c.kind = .groupByClause) :
    ∃ calls : List Tree, calls.Sublist c.preorder ∧ (calls.map (·.head.id)).Nodup ∧
      (∀ u, u ∈ calls ↔ c.Misplaced source u) ∧
      check source mode c = calls.reverse.map (fun u =>
        violation (.misplacedAggregate (u.name source) (clauseWords c.kind)) u) ∧
      (validateAll source mode t = check source mode c → validate source mode t =
        calls.getLast?.map fun u =>
          violation (.misplacedAggregate (u.name source) (clauseWords c.kind)) u) := by
  have hfilter := isFilter_iff.2 hkind
  have hcheck : check source mode c = _ := check_filter hfilter
  have hnodup : (reported source mode c).Nodup := reported_nodup h.nodup hc
  rw [reported_filter hfilter, List.map_reverse, List.nodup_reverse] at hnodup
  refine ⟨misplacedCalls source c, misplacedCalls_sublist source c, hnodup,
    fun u => mem_misplacedCalls, hcheck, fun hall => ?_⟩
  rw [validate, hall, hcheck, List.head?_map, List.head?_reverse]

/-- Two aggregates in one clause. -/
theorem Session.Builds.aggregates_backward_two :
    let text := "SELECT a FROM t WHERE COUNT(*) > SUM(a)"
    ∃ (t clause : Tree) (calls : List Tree), ({} : Session).Builds text.toList t ∧
      clause ∈ t.children ∧ calls.length = 2 ∧ calls.Sublist clause.preorder ∧
      (∀ u, u ∈ calls ↔ clause.Misplaced text.toList u) ∧
      validate text.toList .production t = calls.getLast?.map fun u =>
        violation (.misplacedAggregate (u.name text.toList) "WHERE") u := by
  intro text
  have hfound : (Script.single.run (({} : Session).scope .one text.toList)
      (({} : Session).start (tokenize text.toList))).answer.toOption.map (fun t =>
        t.children.map fun c => (c.kind, (check text.toList .production c).length,
          decide (validateAll text.toList .production t = check text.toList .production c))) =
      some [(.selectList, 0, false), (.fromClause, 0, false), (.whereClause, 2, true)] := by
    decide +kernel
  obtain ⟨t, hbuilds, hchildren⟩ := exists_of_run hfound
  obtain ⟨_, cs, hcs, -, hchildren⟩ := List.map_eq_cons_iff.1 hchildren
  obtain ⟨_, cs, rfl, -, hchildren⟩ := List.map_eq_cons_iff.1 hchildren
  obtain ⟨clause, cs, rfl, hclause, -⟩ := List.map_eq_cons_iff.1 hchildren
  simp only [Prod.mk.injEq, decide_eq_true_eq] at hclause
  obtain ⟨hkind, hlength, hall⟩ := hclause
  have hmem : clause ∈ t.children := by simp [hcs]
  obtain ⟨calls, hsublist, -, hcalls, hcheck, hfirst⟩ :=
    hbuilds.aggregates_backward .production (mem_preorder_child hmem) (.inl hkind)
  refine ⟨t, clause, calls, hbuilds, hmem, ?_, hsublist, hcalls, ?_⟩
  · rw [← hlength, hcheck, List.length_map, List.length_reverse]
  · rw [hkind] at hfirst
    exact hfirst hall

/-- `COUNT` comes before `SUM` in the clause and in the tree. But `SUM` is reported first, and the
statement is refused for it. -/
theorem Session.Builds.last_aggregate_first :
    let text := "SELECT a FROM t WHERE COUNT(*) > SUM(a)"
    (Script.single.run (({} : Session).scope .one text.toList)
      (({} : Session).start (tokenize text.toList))).answer.toOption.map (fun t =>
        ((t.preorder.filter (isAggregate text.toList)).map (·.head.span),
          (validateAll text.toList .production t).map fun v => (v.breach, v.span),
          (validate text.toList .production t).map (·.span))) =
      some ([⟨22, 30⟩, ⟨33, 39⟩], [(.misplacedAggregate "SUM" "WHERE", ⟨33, 39⟩),
        (.misplacedAggregate "COUNT" "WHERE", ⟨22, 30⟩)], some ⟨33, 39⟩) ∧
    (({} : Session).parse text.toList).1.isOk = false := by
  decide +kernel

end SqlSyntax
