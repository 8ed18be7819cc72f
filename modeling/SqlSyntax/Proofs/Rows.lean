import SqlSyntax.Proofs.Checks
import SqlSyntax.Proofs.Numbering

/-!
# Rows of different widths

The check of `VALUES` takes all children of its node for rows and the first of them for the one that
sets the width. But a query has its clauses under the same node, a `WITH` before the rows and the
order and the limit behind them, so these are counted and compared as well: a limit has one child,
and only rows of one value go with it (`Session.Builds.limit_counts_as_row`). Rows that differ are
found all the same, and rows that stand alone are reported if and only if two of them differ.
-/

namespace SqlSyntax

open SqlSyntax.Tree SqlSyntax.Validation

variable {source : Source} {mode : Mode} {t u w c : Tree} {v : Violation}

namespace Validation

theorem kind_of_valuesArity (h : v ∈ check source mode u) (hrule : v.breach.rule = .valuesArity) :
    u.kind = .valuesStmt ∨ u.kind = .valuesClause ∨ u.kind = .insertStmt := by
  have hrules := rule_mem_of_mem_check h
  rw [hrule] at hrules
  generalize u.kind = k at hrules ⊢
  cases k <;> first | exact .inl rfl | exact .inr (.inl rfl) | exact .inr (.inr rfl) |
    exact absurd hrules (by decide)

/-- A node that is checked for rows has the child that is reported, so the number of the child tells
which node it is. -/
theorem ne_first_of_mem_checkRows (ht : t.ids.Nodup) (hu : u ∈ t.preorder) (hw : w ∈ t.preorder)
    (hc : c ∈ u.children) (h : v ∈ checkRows w) (hnode : v.node = c.head.id) :
    ∃ first ∈ u.children.head?, c.children.length ≠ first.children.length := by
  obtain ⟨first, rows, hchildren, row, hrow, hne, rfl⟩ := mem_checkRows.1 h
  have hrow : row ∈ w.children := hchildren ▸ List.mem_cons_of_mem first hrow
  obtain rfl := eq_of_child_id ht hu hw hc hrow hnode.symm
  obtain rfl := eq_of_id ht (mem_preorder_trans (mem_preorder_child hc) hu)
    (mem_preorder_trans (mem_preorder_child hrow) hu) hnode.symm
  exact ⟨first, by simp [hchildren], hne⟩

/-- Among the children of `VALUES` those are reported that are not as wide as the first. -/
theorem exists_violation_iff (ht : t.ids.Nodup) (hu : u ∈ t.preorder) (hkind : u.kind = .valuesStmt)
    (hc : c ∈ u.children) :
    (∃ v ∈ validateAll source mode t, v.breach.rule = .valuesArity ∧ v.node = c.head.id) ↔
      ∃ first ∈ u.children.head?, c.children.length ≠ first.children.length := by
  constructor
  · rintro ⟨v, hv, hrule, hnode⟩
    obtain ⟨w, hw, hv⟩ := mem_validateAll.1 hv
    rcases kind_of_valuesArity hv hrule with hwkind | hwkind | hwkind <;> rw [check, hwkind] at hv
    · exact ne_first_of_mem_checkRows ht hu hw hc hv hnode
    · exact ne_first_of_mem_checkRows ht hu hw hc hv hnode
    -- an insertion is no `VALUES`, and its clause is none either
    · obtain ⟨-, x, hx, ⟨hxkind, row, hrow, hrowNode⟩ | hxNode⟩ := mem_checkInsert hv
      · have hxmem := mem_preorder_trans (mem_preorder_child hx) hw
        obtain rfl := eq_of_child_id ht hu hxmem hc hrow (hnode.symm.trans hrowNode)
        exact absurd (hkind.symm.trans hxkind) (by decide)
      · obtain rfl := eq_of_child_id ht hu hw hc hx (hnode.symm.trans hxNode)
        exact absurd (hkind.symm.trans hwkind) (by decide)
  · rintro ⟨first, hfirst, hne⟩
    obtain ⟨rows, hchildren⟩ := List.head?_eq_some_iff.1 hfirst
    have hrow : c ∈ rows := by
      rcases List.mem_cons.1 (hchildren ▸ hc) with rfl | hrow
      · exact absurd rfl hne
      · exact hrow
    refine ⟨violation (.rowArity c.children.length first.children.length) c,
      mem_validateAll.2 ⟨u, hu, ?_⟩, rfl, rfl⟩
    rw [check, hkind]
    exact mem_checkRows.2 ⟨first, rows, hchildren, c, hrow, hne, rfl⟩

end Validation

/-- Under a `VALUES` in a tree that a call makes, those children are reported that have not as many
children as the first. So one of them is reported if and only if two of them differ in that, and
always if two rows differ, whatever clauses stand beside them. -/
theorem Session.Builds.values_rows {s : Session} (h : s.Builds source t) (mode : Mode)
    (hu : u ∈ t.preorder) (hkind : u.kind = .valuesStmt) :
    (∀ c ∈ u.children,
      (∃ v ∈ validateAll source mode t, v.breach.rule = .valuesArity ∧ v.node = c.head.id) ↔
        ∃ first ∈ u.children.head?, c.children.length ≠ first.children.length) ∧
    ((∃ v ∈ validateAll source mode t, v.breach.rule = .valuesArity ∧
        ∃ c ∈ u.children, v.node = c.head.id) ↔
      ∃ c ∈ u.children, ∃ d ∈ u.children, c.children.length ≠ d.children.length) ∧
    ((∃ c ∈ u.children, ∃ d ∈ u.children, c.kind = .valuesRow ∧ d.kind = .valuesRow ∧
        c.children.length ≠ d.children.length) →
      ∃ v ∈ validateAll source mode t, v.breach.rule = .valuesArity ∧
        ∃ c ∈ u.children, v.node = c.head.id) := by
  have hat : ∀ c ∈ u.children,
      (∃ v ∈ validateAll source mode t, v.breach.rule = .valuesArity ∧ v.node = c.head.id) ↔
        ∃ first ∈ u.children.head?, c.children.length ≠ first.children.length :=
    fun c hc => exists_violation_iff h.nodup hu hkind hc
  have hsome : (∃ v ∈ validateAll source mode t, v.breach.rule = .valuesArity ∧
      ∃ c ∈ u.children, v.node = c.head.id) ↔
        ∃ c ∈ u.children, ∃ d ∈ u.children, c.children.length ≠ d.children.length := by
    constructor
    · rintro ⟨v, hv, hrule, c, hc, hnode⟩
      obtain ⟨first, hfirst, hne⟩ := (hat c hc).1 ⟨v, hv, hrule, hnode⟩
      exact ⟨c, hc, first, List.mem_of_head? hfirst, hne⟩
    · rintro ⟨c, hc, d, hd, hne⟩
      obtain ⟨first, hfirst⟩ : ∃ first, first ∈ u.children.head? :=
        Option.isSome_iff_exists.1 (List.isSome_head?.2 (List.ne_nil_of_mem hc))
      -- one of the two differs from the first
      obtain ⟨e, he, hne⟩ : ∃ e ∈ u.children, e.children.length ≠ first.children.length := by
        by_cases heq : c.children.length = first.children.length
        · exact ⟨d, hd, heq ▸ hne.symm⟩
        · exact ⟨c, hc, heq⟩
      obtain ⟨v, hv, hrule, hnode⟩ := (hat e he).2 ⟨first, hfirst, hne⟩
      exact ⟨v, hv, hrule, e, he, hnode⟩
  exact ⟨hat, hsome, fun ⟨c, hc, d, hd, _, _, hne⟩ => hsome.2 ⟨c, hc, d, hd, hne⟩⟩

/-- Two rows of two values and one of three, behind a `WITH` with two tables. -/
theorem Session.Builds.values_rows_with :
    let text := "WITH a AS (SELECT 1), b AS (SELECT 2) VALUES (1, 2), (3, 4, 5), (6, 7)"
    ∃ t row, ({} : Session).Builds text.toList t ∧ row ∈ t.children ∧ row.kind = .valuesRow ∧
      ∃ v ∈ validateAll text.toList .production t, v.breach.rule = .valuesArity ∧
        v.node = row.head.id := by
  intro text
  have hfound : (Script.single.run (({} : Session).scope .one text.toList)
      (({} : Session).start (tokenize text.toList))).answer.toOption.map (fun t =>
        (t.kind, t.children.map fun c => (c.kind, c.children.length))) =
      some (.valuesStmt,
        [(.withClause, 2), (.valuesRow, 2), (.valuesRow, 3), (.valuesRow, 2)]) := by
    decide +kernel
  rcases hrun : (Script.single.run (({} : Session).scope .one text.toList)
      (({} : Session).start (tokenize text.toList))).answer with f | t
  · rw [hrun] at hfound
    cases hfound
  rw [hrun] at hfound
  obtain ⟨hkind, hchildren⟩ := Prod.mk.inj (Option.some.inj hfound)
  obtain ⟨clause, cs, hcs, hclause, hchildren⟩ := List.map_eq_cons_iff.1 hchildren
  obtain ⟨first, cs, rfl, -, hchildren⟩ := List.map_eq_cons_iff.1 hchildren
  obtain ⟨second, cs, rfl, hsecond, -⟩ := List.map_eq_cons_iff.1 hchildren
  simp only [Prod.mk.injEq] at hclause hsecond
  have hbuilds : ({} : Session).Builds text.toList t := .single hrun
  have hmem : second ∈ t.children := by simp [hcs]
  have hreported := (hbuilds.values_rows .production t.mem_preorder_self hkind).1 second hmem
  exact ⟨t, second, hbuilds, hmem, hsecond.1,
    hreported.2 ⟨clause, by simp [hcs], by rw [hclause.2, hsecond.2]; decide⟩⟩

/-- One row, which no other can differ from, and a limit. The limit is reported as a row, and the
statement is refused. -/
theorem Session.Builds.limit_counts_as_row :
    let text := "VALUES (1, 2) LIMIT 1"
    (Script.single.run (({} : Session).scope .one text.toList)
      (({} : Session).start (tokenize text.toList))).answer.toOption.map (fun t =>
        (t.shape, (validateAll text.toList .production t).map fun v =>
          (v.breach, (t.preorder.find? (·.head.id == v.node)).map Tree.kind))) =
      some ([.valuesStmt, .valuesRow, .integerLiteral, .integerLiteral, .limitClause,
        .integerLiteral], [(.rowArity 1 2, some .limitClause)]) ∧
    (({} : Session).parse text.toList).1.isOk = false := by
  decide +kernel

end SqlSyntax
