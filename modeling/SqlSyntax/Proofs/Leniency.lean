import SqlSyntax.Proofs.Aggregates
import SqlSyntax.Proofs.Options
import SqlSyntax.Proofs.Widths

/-!
# What permissive mode drops

In permissive mode two rules are held less strictly. A join may go without a condition, and `HAVING`
without `GROUP BY`, if the select list has one value over all rows: no column is selected but inside
an aggregate or a query (`Tree.Single`).

Whether a violation is dropped can be told from the violation, since its node is the `HAVING`, which
stands under one query only. So production mode reports the violations of permissive mode and those
that are dropped (`Session.Builds.permissive_drops`).
-/

namespace SqlSyntax

open SqlSyntax.Tree SqlSyntax.Validation

variable {source : Source} {mode : Mode} {t u c select list having : Tree} {v : Violation}

/-! ## Values over a group -/

/-- What stands for columns of rows. -/
def Kind.isColumn (k : Kind) : Bool := k == .columnRef || k == .wildcard || k == .qualifiedWildcard

namespace Tree

/-- Over a group the tree has one value, whatever columns stand in it. -/
def Conceals (source : Source) (t : Tree) : Prop :=
  t.Aggregates source ∨ t.kind = .subqueryExpr ∨ t.kind = .existsExpr

/-- The items of a select list have one value over all rows: columns stand in them inside aggregates
and queries only. -/
def Single (source : Source) (select : Tree) : Prop :=
  ∀ list ∈ select.children, list.kind = .selectList → ∀ column : Tree, column.kind.isColumn →
    ¬ list.Finds (Conceals source) column

theorem Ordered.children_eq_nil (h : t.Ordered) (hatom : t.kind.isAtom) : t.children = [] := by
  refine List.eq_nil_iff_forall_not_mem.2 fun c hc => ?_
  have hbears := h.bears c hc
  simp [Kind.bears, hatom] at hbears

end Tree

namespace Validation

/-- What the value of a tree over a group depends on. -/
theorem isGroupConstant_node {n : Node} {cs : List Tree} :
    isGroupConstant source (node n cs) = false ↔ n.kind.isAtom = false ∧
      (n.kind.isColumn ∨ ¬ (node n cs).Conceals source ∧ areGroupConstant source cs = false) := by
  have hroot : (node n cs).kind = n.kind := rfl
  rw [isGroupConstant]
  by_cases hliteral : n.kind.isLiteral
  · simp [hliteral, Kind.isAtom_of_isLiteral hliteral]
  rw [if_neg hliteral]
  split
  · next hkind => simp [hkind]
  · next hkind => simp [hkind]
  · next hkind => simp [hkind, hroot, Conceals, Kind.isColumn]
  · next hkind => simp [hkind, hroot, Conceals, Kind.isColumn]
  · next hkind => simp [hkind, Kind.isColumn]
  · next hkind => simp [hkind, Kind.isColumn]
  · next hkind => simp [hkind, Kind.isColumn]
  · next k hparameter halias hquery hexists hcolumn hwildcard hqualified =>
    have hconceals : (node n cs).Conceals source ↔ isAggregate source (node n cs) := by
      rw [isAggregate_iff]
      exact or_iff_left (not_or.2 ⟨hquery, hexists⟩)
    have hatom : n.kind.isAtom = false := by
      generalize n.kind = k at hliteral hparameter halias
      cases k <;> first | rfl | exact absurd rfl hliteral | exact (hparameter rfl).elim |
        exact (halias rfl).elim
    have hcolumn : ¬ n.kind.isColumn := by
      generalize n.kind = k at hcolumn hwildcard hqualified
      cases k <;> first | decide | exact (hcolumn rfl).elim | exact (hwildcard rfl).elim |
        exact (hqualified rfl).elim
    simp [hatom, hcolumn, hconceals]

mutual
/-- A tree varies over a group if it is a column or has one that nothing conceals. -/
theorem isGroupConstant_eq_false : ∀ {t : Tree}, t.Everywhere Ordered →
    (isGroupConstant source t = false ↔ ∃ u : Tree, u.kind.isColumn ∧
      (u = t ∨ ¬ t.Conceals source ∧ t.Finds (Conceals source) u))
  | .node n cs, h => by
    have hbelow := areGroupConstant_eq_false (everywhere_node.1 h).2
    rw [isGroupConstant_node, hbelow]
    constructor
    · rintro ⟨-, hcolumn | ⟨hconceals, u, hu, hfound⟩⟩
      · exact ⟨node n cs, hcolumn, .inl rfl⟩
      · exact ⟨u, hu, .inr ⟨hconceals, finds_iff.2 hfound⟩⟩
    · rintro ⟨u, hu, rfl | ⟨hconceals, hfound⟩⟩
      · refine ⟨?_, .inl hu⟩
        have hu : n.kind.isColumn := hu
        generalize n.kind = k at hu
        cases k <;> first | rfl | exact absurd hu (by decide)
      · refine ⟨?_, .inr ⟨hconceals, u, hu, finds_iff.1 hfound⟩⟩
        -- nothing is found under a node that nothing stands under
        obtain ⟨c, hc, -⟩ := finds_iff.1 hfound
        exact Bool.eq_false_iff.2 fun hatom => by
          rw [h.root.children_eq_nil hatom] at hc
          cases hc

theorem areGroupConstant_eq_false : ∀ {ts : List Tree}, (∀ t ∈ ts, t.Everywhere Ordered) →
    (areGroupConstant source ts = false ↔ ∃ u : Tree, u.kind.isColumn ∧
      ∃ c ∈ ts, u = c ∨ ¬ c.Conceals source ∧ c.Finds (Conceals source) u)
  | [], _ => by simp [areGroupConstant]
  | t :: ts, h => by
    obtain ⟨ht, hts⟩ := List.forall_mem_cons.1 h
    rw [areGroupConstant, Bool.and_eq_false_iff, isGroupConstant_eq_false ht,
      areGroupConstant_eq_false hts, ← exists_or]
    exact exists_congr fun u => by rw [List.exists_mem_cons_iff, ← and_or_left]
end

/-- The check of permissive mode asks just for this of a select list. -/
theorem single_iff (h : select.Everywhere Ordered) (hobeys : select.Obeys)
    (hkind : select.kind = .selectStmt) : select.Single source ↔
      (select.child? .selectList).any fun list => areGroupConstant source list.children := by
  have hfills : Fills ([.before] ++ .exactly 1 (·.kind == .selectList) ::
      (Kind.selectStmt.middle.tail ++ Place.behind)) select.children := by
    have hfills := hobeys.fills_query (by rw [hkind]; rfl)
    rwa [hkind] at hfills
  have hchild : ∀ list ∈ select.children, list.kind = .selectList →
      select.child? .selectList = some list := by
    intro list hlist hlistKind
    refine hfills.child?_eq rfl (fun q hq d hd hd' => ?_) hlist hlistKind
    simp only [Kind.middle, Place.behind, List.tail_cons, List.cons_append, List.nil_append,
      List.mem_cons, List.not_mem_nil, or_false] at hq
    rcases hq with rfl | rfl | rfl | rfl | rfl | rfl | rfl | rfl <;>
      simp [Place.before, Place.optional, hd'] at hd
  obtain ⟨list, hlist, hadmits⟩ := hfills.exists_mem (List.mem_append_right _ List.mem_cons_self)
    Nat.one_pos
  have hlistKind : list.kind = .selectList := beq_iff_eq.1 hadmits
  rw [hchild list hlist hlistKind, Option.any_some, ← Bool.not_eq_false,
    areGroupConstant_eq_false (h.children list hlist).children]
  constructor
  · rintro hsingle ⟨u, hu, hfound⟩
    exact hsingle list hlist hlistKind u hu (finds_iff.2 hfound)
  · intro hnone list' hlist' hlistKind' u hu hfound
    obtain rfl :=
      Option.some.inj ((hchild list hlist hlistKind).symm.trans (hchild list' hlist' hlistKind'))
    exact hnone ⟨u, hu, finds_iff.1 hfound⟩

end Validation

/-! ## What is dropped -/

/-- In permissive mode a violation is dropped: it is a join without a condition, or the `HAVING` of
a query whose items have one value over all rows. -/
def Tree.Pardons (source : Source) (t : Tree) (v : Violation) : Prop :=
  v.breach.rule = .joinWithoutCondition ∨
    v.breach.rule = .havingWithoutGroupBy ∧ ∃ select ∈ t.preorder, select.kind = .selectStmt ∧
      (∃ having ∈ select.children, having.kind = .havingClause ∧ v.node = having.head.id) ∧
      select.Single source

namespace Validation

/-- The `HAVING` of a query is reported. -/
theorem mem_checkHaving (hv : v ∈ checkHaving source mode select) :
    v.breach.rule = .havingWithoutGroupBy ∧
      ∃ having ∈ select.children, having.kind = .havingClause ∧ v.node = having.head.id := by
  refine ⟨rule_of_checkHaving hv, ?_⟩
  unfold checkHaving at hv
  split at hv
  · cases hv
  next having hhaving =>
    dsimp only at hv
    split at hv
    · cases hv
    · rw [List.mem_singleton.1 hv]
      exact ⟨having, List.mem_of_find?_eq_some hhaving, by simpa using List.find?_some hhaving, rfl⟩

/-- Over one group permissive mode asks nothing of `HAVING`. -/
theorem checkHaving_single : checkHaving source .permissive select =
    if (select.child? .selectList).any fun list => areGroupConstant source list.children then []
    else checkHaving source .production select := by
  unfold checkHaving
  split
  · simp
  · split <;> simp [*]

/-- The mode matters to queries and joins only. -/
theorem check_mode (hselect : u.kind ≠ .selectStmt) (hjoin : ¬ u.kind.isJoin) (mode' : Mode) :
    check source mode u = check source mode' u := by
  unfold check
  split <;> first | rfl | contradiction | simp [hjoin]

theorem check_of_isJoin (hjoin : u.kind.isJoin) : check source mode u = checkJoin mode u := by
  unfold check
  split <;> first | exact if_pos hjoin | simp_all [Kind.isJoin]

/-- A `HAVING` is dropped with its own query only. -/
theorem pardons_iff (ht : t.ids.Nodup) (hselect : select ∈ t.preorder)
    (hkind : select.kind = .selectStmt) (hv : v ∈ checkHaving source mode select) :
    t.Pardons source v ↔ select.Single source := by
  obtain ⟨hrule, having, hhaving, hhavingKind, hnode⟩ := mem_checkHaving hv
  constructor
  · rintro (hjoin | ⟨-, other, hother, -, ⟨c, hc, -, hid⟩, hsingle⟩)
    · rw [hrule] at hjoin
      cases hjoin
    · obtain rfl := eq_of_child_id ht hselect hother hhaving hc (hnode.symm.trans hid)
      exact hsingle
  · exact fun hsingle => .inr ⟨hrule, select, hselect, hkind,
      ⟨having, hhaving, hhavingKind, hnode⟩, hsingle⟩

open scoped Classical in
/-- What is reported of a node. -/
theorem check_filter_pardons (ht : t.ids.Nodup) (hordered : t.Everywhere Ordered)
    (hcomplete : t.Complete) (hu : u ∈ t.preorder) : check source .permissive u =
      (check source .production u).filter fun v => ¬ t.Pardons source v := by
  by_cases hselect : u.kind = .selectStmt
  · have hsingle : u.Single source ↔ _ :=
      single_iff (fun w hw => hordered w (mem_preorder_trans hw hu)) (hcomplete u hu) hselect
    have hcheck (mode : Mode) : check source mode u = checkHaving source mode u := by
      rw [check, hselect]
    rw [hcheck, hcheck, checkHaving_single]
    split
    · next h =>
      refine (List.filter_eq_nil_iff.2 fun v hv => ?_).symm
      simpa using (pardons_iff ht hu hselect hv).2 (hsingle.2 h)
    · next h =>
      refine (List.filter_eq_self.2 fun v hv => ?_).symm
      simpa using mt (pardons_iff ht hu hselect hv).1 (mt hsingle.1 h)
  by_cases hjoin : u.kind.isJoin
  · rw [check_of_isJoin hjoin, check_of_isJoin hjoin, checkJoin_permissive]
    refine (List.filter_eq_nil_iff.2 fun v hv => ?_).symm
    have hpardons : t.Pardons source v := .inl (rule_of_checkJoin hv)
    simpa using hpardons
  · rw [check_mode hselect hjoin .production]
    refine (List.filter_eq_self.2 fun v hv => ?_).symm
    have hrules := rule_mem_of_mem_check hv
    have hfree : ¬ t.Pardons source v := by
      rintro (hrule | ⟨hrule, -⟩) <;> rw [hrule] at hrules <;>
        generalize u.kind = k at hrules hselect hjoin <;>
        cases k <;> first | exact hselect rfl | exact hjoin rfl | exact absurd hrules (by decide)
    simpa using hfree

end Validation

open scoped Classical in
/-- The violations of permissive mode are those of production mode, in their order, without those
that are dropped. -/
theorem Session.Builds.permissive_drops {s : Session} (h : s.Builds source t) :
    validateAll source .permissive t =
      (validateAll source .production t).filter fun v => ¬ t.Pardons source v := by
  rw [validateAll, validateAll, List.filter_flatMap]
  exact List.flatMap_congr fun u hu => check_filter_pardons h.nodup h.ordered h.complete hu

open scoped Classical in
/-- The inner query selects a column, and so its `HAVING` is reported in both modes. For the outer
one the column stands inside a query. -/
theorem Session.Builds.permissive_drops_outer :
    let text := "SELECT SUM(a), (SELECT b FROM u JOIN w HAVING 1) FROM t JOIN v HAVING 2"
    ∃ t, ({} : Session).Builds text.toList t ∧
      (validateAll text.toList .production t).map (·.breach.rule) = [.havingWithoutGroupBy,
        .havingWithoutGroupBy, .joinWithoutCondition, .joinWithoutCondition] ∧
      ((validateAll text.toList .production t).filter fun v =>
        ¬ t.Pardons text.toList v).map (·.breach.rule) = [.havingWithoutGroupBy] := by
  intro text
  have hfound : (Script.single.run (({} : Session).scope .one text.toList)
      (({} : Session).start (tokenize text.toList))).answer.toOption.map (fun t =>
        ((validateAll text.toList .production t).map (·.breach.rule),
          (validateAll text.toList .permissive t).map (·.breach.rule))) =
      some ([.havingWithoutGroupBy, .havingWithoutGroupBy, .joinWithoutCondition,
        .joinWithoutCondition], [.havingWithoutGroupBy]) := by
    decide +kernel
  obtain ⟨t, hbuilds, hseen⟩ := exists_of_run hfound
  obtain ⟨hproduction, hpermissive⟩ := Prod.mk.inj hseen
  exact ⟨t, hbuilds, hproduction, hbuilds.permissive_drops ▸ hpermissive⟩

end SqlSyntax
