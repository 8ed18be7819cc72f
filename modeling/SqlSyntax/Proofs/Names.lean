import Mathlib.Data.Finset.Card
import SqlSyntax.Proofs.Bearing.Statement
import SqlSyntax.Proofs.Checks

/-!
# Names that repeat

The tables of a `WITH` and the columns of a table are looked at from the first on, each with the
names of those before it. So of those that share a name all but the first are reported, and together
with the names that there are these are all of them (`Validation.countP_withRepeats`). What else
stands under the node is passed over, and a `WITH` has nothing else.
-/

namespace SqlSyntax

open SqlSyntax.Tree SqlSyntax.Validation

variable {source : Source} {mode : Mode} {t u w c : Tree} {v : Violation} {rule : Rule}
  {ts : List Tree} {x : Tree × Bool}

/-- The names of some trees, in upper case, each of them once. -/
def Tree.names (source : Source) (ts : List Tree) : Finset String :=
  ((ts.map (·.name source)).map foldCase).toFinset

namespace Validation

/-! ## Repetitions -/

theorem fst_mem_of_mem_withRepeats {seen : List String} (h : x ∈ withRepeats source seen ts) :
    x.1 ∈ ts := by
  induction ts generalizing seen with
  | nil => cases h
  | cons t ts ih =>
    rcases List.mem_cons.1 h with rfl | h
    · exact List.mem_cons_self
    · exact List.mem_cons_of_mem t (ih h)

/-- Each tree has a name that was seen before, or it is the first with a new one. -/
theorem countP_withRepeats (source : Source) (seen : List String) (ts : List Tree) :
    (withRepeats source seen ts).countP (·.2) + (names source ts \ seen.toFinset).card =
      ts.length := by
  induction ts generalizing seen with
  | nil => simp [withRepeats, names]
  | cons t ts ih =>
    have hrest := ih (foldCase (t.name source) :: seen)
    have hnames : names source (t :: ts) = insert (foldCase (t.name source)) (names source ts) :=
      List.toFinset_cons
    rw [List.toFinset_cons] at hrest
    rw [withRepeats, List.countP_cons, hnames, List.length_cons]
    by_cases hseen : foldCase (t.name source) ∈ seen
    · have hmem := List.mem_toFinset.2 hseen
      rw [Finset.insert_eq_of_mem hmem] at hrest
      rw [Finset.insert_sdiff_of_mem _ hmem, if_pos (List.contains_iff_mem.2 hseen)]
      omega
    · have hmem := mt List.mem_toFinset.1 hseen
      have hcard : (insert (foldCase (t.name source)) (names source ts) \ seen.toFinset).card =
          (names source ts \ insert (foldCase (t.name source)) seen.toFinset).card + 1 := by
        rw [← Finset.insert_sdiff_insert, Finset.sdiff_insert, Finset.card_erase_add_one
          (Finset.mem_sdiff.2 ⟨Finset.mem_insert_self .., hmem⟩)]
      rw [hcard, if_neg (mt List.contains_iff_mem.1 hseen)]
      omega

/-- Where a check reports a tree once if its name was seen before, and not else. -/
theorem countP_flatMap_withRepeats {seen : List String} {report : Tree × Bool → List Violation}
    (h : ∀ x, (report x).countP (·.breach.rule = rule) = if x.2 then 1 else 0) :
    ((withRepeats source seen ts).flatMap report).countP (·.breach.rule = rule) =
      (withRepeats source seen ts).countP (·.2) := by
  generalize withRepeats source seen ts = l
  induction l with
  | nil => rfl
  | cons x l ih =>
    rw [List.flatMap_cons, List.countP_append, ih, h, List.countP_cons, Nat.add_comm]

theorem countP_checkWith (source : Source) (u : Tree) :
    (checkWith source u).countP (·.breach.rule = .duplicateTable) +
      (names source u.children).card = u.children.length := by
  have hrecursive (c : Tree) :
      (if u.head.has .recursive then checkRecursion source c else []).countP
        (·.breach.rule = .duplicateTable) = 0 := by
    refine List.countP_eq_zero.2 fun v hv => ?_
    split at hv
    · simp [rule_of_checkRecursion hv]
    · cases hv
  have hcount := countP_withRepeats source [] u.children
  rw [List.toFinset_nil, Finset.sdiff_empty] at hcount
  rw [← hcount, checkWith, countP_flatMap_withRepeats fun x => ?_]
  dsimp only
  rw [List.countP_append, hrecursive, Nat.add_zero]
  split <;> rfl

theorem countP_checkColumns (source : Source) (u : Tree) :
    (checkColumns source u).countP (·.breach.rule = .duplicateColumn) +
      (names source (u.children.filter (·.kind == .columnDef))).card =
        (u.children.filter (·.kind == .columnDef)).length := by
  have hcount := countP_withRepeats source [] (u.children.filter (·.kind == .columnDef))
  rw [List.toFinset_nil, Finset.sdiff_empty] at hcount
  rw [← hcount, checkColumns, List.filterMap_eq_flatMap_toList,
    countP_flatMap_withRepeats fun x => ?_]
  dsimp only
  split <;> rfl

/-! ## The nodes that are reported -/

/-- A name is reported at a child of the node that is checked. -/
theorem exists_child (h : v ∈ check source mode w)
    (hrule : v.breach.rule = .duplicateTable ∨ v.breach.rule = .duplicateColumn) :
    ∃ c ∈ w.children, v.node = c.head.id := by
  have hrules := rule_mem_of_mem_check h
  have hkind : w.kind = .withClause ∨ w.kind = .createTableStmt := by
    generalize w.kind = k at hrules
    cases k <;> first
      | exact .inl rfl
      | exact .inr rfl
      | exact absurd hrules (by rcases hrule with hrule | hrule <;> rw [hrule] <;> decide)
  rcases hkind with hkind | hkind <;> rw [check, hkind] at h
  · obtain ⟨x, hx, h⟩ := List.mem_flatMap.1 h
    rcases List.mem_append.1 h with h | h
    · split at h
      · rw [List.mem_singleton.1 h]
        exact ⟨x.1, fst_mem_of_mem_withRepeats hx, rfl⟩
      · cases h
    · split at h
      · rw [rule_of_checkRecursion h] at hrule
        rcases hrule with hrule | hrule <;> cases hrule
      · cases h
  · obtain ⟨x, hx, h⟩ := List.mem_filterMap.1 h
    dsimp only at h
    split at h
    · rw [← Option.some.inj h]
      exact ⟨x.1, List.mem_of_mem_filter (fst_mem_of_mem_withRepeats hx), rfl⟩
    · cases h

/-- What is reported of a rule at the children of a node. -/
def reportsUnder (source : Source) (mode : Mode) (t u : Tree) (rule : Rule) : List Violation :=
  (validateAll source mode t).filter fun v =>
    v.breach.rule = rule ∧ ∃ c ∈ u.children, v.node = c.head.id

/-- The check of the node has found it. -/
theorem length_reportsUnder (ht : t.ids.Nodup) (hu : u ∈ t.preorder)
    (hrule : rule = .duplicateTable ∨ rule = .duplicateColumn) :
    (reportsUnder source mode t u rule).length =
      (check source mode u).countP (·.breach.rule = rule) := by
  have hself : (check source mode u).countP (fun v =>
      v.breach.rule = rule ∧ ∃ c ∈ u.children, v.node = c.head.id) =
        (check source mode u).countP (·.breach.rule = rule) := by
    refine List.countP_congr fun v hv => ?_
    simp only [decide_eq_true_eq, and_iff_left_iff_imp]
    exact fun hv' => exists_child hv (hv' ▸ hrule)
  -- the checks of other nodes report their own children
  have hothers (ws : List Tree) (hws : ws ⊆ t.preorder) (hne : u ∉ ws) :
      (ws.flatMap (check source mode)).countP (fun v =>
        v.breach.rule = rule ∧ ∃ c ∈ u.children, v.node = c.head.id) = 0 := by
    refine List.countP_eq_zero.2 fun v hv hreport => ?_
    obtain ⟨w, hw, hv⟩ := List.mem_flatMap.1 hv
    obtain ⟨hv', c, hc, hnode⟩ := of_decide_eq_true hreport
    obtain ⟨d, hd, hnode'⟩ := exists_child hv (hv' ▸ hrule)
    obtain rfl := eq_of_child_id ht (hws hw) hu hd hc (hnode'.symm.trans hnode)
    exact hne hw
  have hpreorder : t.preorder.Nodup := List.Nodup.of_map (fun u : Tree => u.head.id) ht
  obtain ⟨before, after, hsplit⟩ := List.append_of_mem hu
  rw [hsplit] at hothers hpreorder
  obtain ⟨-, hafter, hbefore⟩ := List.nodup_append.1 hpreorder
  rw [reportsUnder, ← List.countP_eq_length_filter, validateAll, hsplit, List.flatMap_append,
    List.flatMap_cons, List.countP_append, List.countP_append, hself,
    hothers before (List.subset_append_left ..) fun hmem => hbefore u hmem u List.mem_cons_self rfl,
    hothers after (List.subset_append_of_subset_right _ (List.subset_cons_self ..))
      (List.nodup_cons.1 hafter).1, Nat.zero_add, Nat.add_zero]

end Validation

/-- In a tree that a call makes, as many tables of a `WITH` are reported for their names as there
are more tables than names up to case, and the same goes for the columns of a table, whatever stands
between them. -/
theorem Session.Builds.repeated_names {s : Session} (h : s.Builds source t) (mode : Mode)
    (hu : u ∈ t.preorder) :
    (u.kind = .withClause →
      let tables := u.children.filter (·.kind == .commonTableExpr)
      (reportsUnder source mode t u .duplicateTable).length + (names source tables).card =
        tables.length) ∧
    (u.kind = .createTableStmt →
      let columns := u.children.filter (·.kind == .columnDef)
      (reportsUnder source mode t u .duplicateColumn).length + (names source columns).card =
        columns.length) := by
  constructor
  · intro hkind
    dsimp only
    have htables : u.children.filter (·.kind == .commonTableExpr) = u.children := by
      refine List.filter_eq_self.2 fun c hc => ?_
      have hbears := (h.ordered u hu).bears c hc
      simp_all [Kind.bears]
    rw [htables, length_reportsUnder h.nodup hu (.inl rfl), check, hkind]
    exact countP_checkWith source u
  · intro hkind
    dsimp only
    rw [length_reportsUnder h.nodup hu (.inr rfl), check, hkind]
    exact countP_checkColumns source u

/-- Two tables of one name, once in quotes, and two columns of one name, with a constraint between
them. -/
theorem Session.Builds.repeated_names_cased :
    (let text := "WITH a AS (SELECT 1), \"A\" AS (SELECT 2) SELECT 3"
      ∃ t clause, ({} : Session).Builds text.toList t ∧ clause ∈ t.children ∧
        clause.kind = .withClause ∧
        (reportsUnder text.toList .production t clause .duplicateTable).length = 1) ∧
    (let text := "CREATE TABLE t (a INT, UNIQUE (a), [A] INT)"
      ∃ t, ({} : Session).Builds text.toList t ∧ t.kind = .createTableStmt ∧
        t.children.map Tree.kind = [.tableRef, .columnDef, .uniqueConstraint, .columnDef] ∧
        (reportsUnder text.toList .production t t .duplicateColumn).length = 1) := by
  have hcount {source : Source} {ts : List Tree} (h : ts.map (·.name source) = ["a", "A"]) :
      ts.length = 2 ∧ (names source ts).card = 1 := by
    have hfold : ["a", "A"].map foldCase = ["A", "A"] := by decide +kernel
    refine ⟨by rw [← List.length_map, h]; rfl, ?_⟩
    rw [names, h, hfold]
    simp
  constructor
  · intro text
    have hfound : (Script.single.run (({} : Session).scope .one text.toList)
        (({} : Session).start (tokenize text.toList))).answer.toOption.map (fun t =>
          t.children.map fun c => (c.kind,
            (c.children.filter (·.kind == .commonTableExpr)).map (·.name text.toList))) =
        some [(.withClause, ["a", "A"]), (.selectList, [])] := by
      decide +kernel
    obtain ⟨t, hbuilds, hchildren⟩ := exists_of_run hfound
    obtain ⟨clause, cs, hcs, hclause, -⟩ := List.map_eq_cons_iff.1 hchildren
    obtain ⟨hkind, htables⟩ := Prod.mk.inj hclause
    have hmem : clause ∈ t.children := by simp [hcs]
    have hreports := (hbuilds.repeated_names .production (mem_preorder_child hmem)).1 hkind
    dsimp only at hreports
    rw [(hcount htables).1, (hcount htables).2] at hreports
    exact ⟨t, clause, hbuilds, hmem, hkind, Nat.add_right_cancel hreports⟩
  · intro text
    have hfound : (Script.single.run (({} : Session).scope .one text.toList)
        (({} : Session).start (tokenize text.toList))).answer.toOption.map (fun t =>
          (t.kind, t.children.map Tree.kind,
            (t.children.filter (·.kind == .columnDef)).map (·.name text.toList))) =
        some (.createTableStmt, [.tableRef, .columnDef, .uniqueConstraint, .columnDef],
          ["a", "A"]) := by
      decide +kernel
    obtain ⟨t, hbuilds, hseen⟩ := exists_of_run hfound
    obtain ⟨hkind, hseen⟩ := Prod.mk.inj hseen
    obtain ⟨hchildren, hcolumns⟩ := Prod.mk.inj hseen
    have hreports := (hbuilds.repeated_names .production t.mem_preorder_self).2 hkind
    dsimp only at hreports
    rw [(hcount hcolumns).1, (hcount hcolumns).2] at hreports
    exact ⟨t, hbuilds, hkind, hchildren, Nat.add_right_cancel hreports⟩

end SqlSyntax
