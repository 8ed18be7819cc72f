import SqlSyntax.Proofs.Bearing.Statement
import SqlSyntax.Proofs.Rows
import SqlSyntax.Proofs.Widths

/-!
# What is inserted into columns

Two checks hold the rows of an insertion to its list of columns: that of the insertion compares the
first row with the list, and that of the rows compares the others with the first row. Violations of
both are of one rule, and both checks report rows, as the check of `VALUES` does. But a child has
one parent, so the child that is reported tells which checks can report it (`Tree.Misfit`).

An insertion has one list of columns, whatever else stands beside it, and nothing stands under its
rows but rows. So the two checks together pass if and only if all rows are as wide as the list
(`Session.Builds.insertion_widths`).
-/

namespace SqlSyntax

open SqlSyntax.Tree SqlSyntax.Validation

variable {source : Source} {mode : Mode} {t u w c p q columns clause : Tree} {v : Violation}
  {operands joins : List Tree} {i n : Nat}

/-! ## What is found of an insertion -/

namespace Validation

/-- Of an insertion into a list of columns its first row or its query is reported. -/
theorem mem_checkInsert_iff : v ∈ checkInsert u ↔ ∃ columns, u.child? .columnList = some columns ∧
    ∃ c ∈ u.children,
      (c.kind = .valuesClause ∧ ∃ row, c.children.head? = some row ∧
        row.children.length ≠ columns.children.length ∧
        v = violation (.insertRowArity row.children.length columns.children.length) row) ∨
      c.kind.isQuery ∧ ∃ n, arity? c = some n ∧ n ≠ columns.children.length ∧
        v = violation (.insertQueryArity n columns.children.length) c := by
  unfold checkInsert
  rcases hcolumns : u.child? .columnList with _ | columns
  · simp
  simp only [List.mem_flatMap, Option.some.injEq, exists_eq_left']
  refine exists_congr fun c => and_congr_right fun _ => ?_
  by_cases hclause : c.kind = .valuesClause
  · have hquery : Kind.isQuery .valuesClause = false := rfl
    rcases hrow : c.children.head? with _ | row <;> simp [hclause, hquery]
  · by_cases hquery : c.kind.isQuery
    · rcases harity : arity? c with _ | n <;> simp [hclause, hquery]
    · simp [hclause, hquery]

end Validation

/-- A child of a node is not as wide as it should be. -/
inductive Tree.Misfit (t : Tree) : Tree → Tree → Prop
  /-- A row is not as wide as the first. -/
  | row {p first row : Tree} (kind : p.kind = .valuesStmt ∨ p.kind = .valuesClause)
    (head : p.children.head? = some first) (mem : row ∈ p.children)
    (ne : row.children.length ≠ first.children.length) : Misfit t p row
  /-- The first row of an insertion is not as wide as the list of columns. -/
  | first {u columns clause first : Tree} (mem : u ∈ t.preorder) (kind : u.kind = .insertStmt)
    (columns_eq : u.child? .columnList = some columns) (clause_mem : clause ∈ u.children)
    (clause_kind : clause.kind = .valuesClause) (head : clause.children.head? = some first)
    (ne : first.children.length ≠ columns.children.length) : Misfit t clause first
  /-- The query of an insertion is not as wide as the list of columns. -/
  | query {u columns query : Tree} {n : Nat} (kind : u.kind = .insertStmt)
    (columns_eq : u.child? .columnList = some columns) (mem : query ∈ u.children)
    (isQuery : query.kind.isQuery) (arity_eq : arity? query = some n)
    (ne : n ≠ columns.children.length) : Misfit t u query

theorem Tree.Misfit.mem (h : t.Misfit p c) : c ∈ p.children := by
  cases h with
  | row _ _ mem _ => exact mem
  | first _ _ _ _ _ head _ => exact List.mem_of_head? head
  | query _ _ mem _ _ _ => exact mem

namespace Validation

/-- Children that are not as wide as they should be are reported, and no others. -/
theorem exists_violation_iff_misfit :
    (∃ v ∈ validateAll source mode t, v.breach.rule = .valuesArity ∧ v.node = i) ↔
      ∃ p ∈ t.preorder, ∃ c, t.Misfit p c ∧ c.head.id = i := by
  constructor
  · rintro ⟨v, hv, hrule, rfl⟩
    obtain ⟨w, hw, hv⟩ := mem_validateAll.1 hv
    have hrows : w.kind = .valuesStmt ∨ w.kind = .valuesClause → v ∈ checkRows w →
        ∃ p ∈ t.preorder, ∃ c, t.Misfit p c ∧ c.head.id = v.node := by
      intro hkind hv
      obtain ⟨first, rows, hchildren, row, hrow, hne, rfl⟩ := mem_checkRows.1 hv
      refine ⟨w, hw, row, .row hkind (by rw [hchildren]; rfl) ?_ hne, rfl⟩
      exact hchildren ▸ List.mem_cons_of_mem first hrow
    rcases kind_of_valuesArity hv hrule with hkind | hkind | hkind <;> rw [check, hkind] at hv
    · exact hrows (.inl hkind) hv
    · exact hrows (.inr hkind) hv
    · obtain ⟨columns, hcolumns, c, hc, ⟨hclause, row, hrow, hne, rfl⟩ |
        ⟨hquery, n, hn, hne, rfl⟩⟩ := mem_checkInsert_iff.1 hv
      · exact ⟨c, mem_preorder_trans (mem_preorder_child hc) hw, row,
          .first hw hkind hcolumns hc hclause hrow hne, rfl⟩
      · exact ⟨w, hw, c, .query hkind hcolumns hc hquery hn hne, rfl⟩
  · rintro ⟨p, hp, c, hmisfit, rfl⟩
    cases hmisfit with
    | @row _ first _ kind head mem ne =>
      obtain ⟨rows, hchildren⟩ := List.head?_eq_some_iff.1 head
      have hrow : c ∈ rows :=
        (List.mem_cons.1 (hchildren ▸ mem)).resolve_left fun heq => ne (heq ▸ rfl)
      have hv := mem_checkRows.2 ⟨first, rows, hchildren, c, hrow, ne, rfl⟩
      refine ⟨violation (.rowArity c.children.length first.children.length) c,
        mem_validateAll.2 ⟨p, hp, ?_⟩, rfl, rfl⟩
      rcases kind with kind | kind <;> rw [check, kind] <;> exact hv
    | @first u columns _ _ mem kind columns_eq clause_mem clause_kind head ne =>
      refine ⟨violation (.insertRowArity c.children.length columns.children.length) c,
        mem_validateAll.2 ⟨u, mem, ?_⟩, rfl, rfl⟩
      rw [check, kind]
      exact mem_checkInsert_iff.2
        ⟨_, columns_eq, p, clause_mem, .inl ⟨clause_kind, c, head, ne, rfl⟩⟩
    | @query _ columns _ n kind columns_eq mem isQuery arity_eq ne =>
      refine ⟨violation (.insertQueryArity n columns.children.length) c,
        mem_validateAll.2 ⟨p, hp, ?_⟩, rfl, rfl⟩
      rw [check, kind]
      exact mem_checkInsert_iff.2 ⟨_, columns_eq, c, mem, .inr ⟨isQuery, _, arity_eq, ne, rfl⟩⟩

end Validation

/-! ## The parts of an insertion -/

namespace Tree.Ordered

/-- An insertion has one list of columns. -/
theorem child?_columnList (h : u.Ordered) (hkind : u.kind = .insertStmt)
    (hcolumns : columns ∈ u.children) (hlist : columns.kind = .columnList) :
    u.child? .columnList = some columns := by
  have hfills : Fills ([.before, .optional (·.kind == .conflictAction),
      .optional (·.kind == .tableRef)] ++ .optional (·.kind == .columnList) ::
      [.optional fun t => t.kind == .valuesClause || t.kind.isQuery,
        .optional (·.kind == .returningClause)]) u.children := h.inserts hkind
  refine hfills.child?_eq rfl (fun q hq d hd hd' => ?_) hcolumns hlist
  simp only [List.cons_append, List.nil_append, List.mem_cons, List.not_mem_nil, or_false] at hq
  rcases hq with rfl | rfl | rfl | rfl | rfl <;>
    simp [Place.before, Place.optional, hd', Kind.isQuery] at hd

end Tree.Ordered

/-! ## The width of what is inserted -/

/-- A query is as wide as its leftmost operand. -/
theorem Tree.Chain.arity?_eq (h : t.Chain operands joins) (hcomplete : t.Complete) :
    ∃ first rest, operands = first :: rest ∧
      (¬ first.Starred → arity? t = some first.width) := by
  induction h with
  | @operand t core =>
    exact ⟨t, [], rfl, fun hstar => arity?_core hcomplete.root core hstar⟩
  | @joined t left right operands joins kind queries _ core ih =>
    have hleft : left ∈ t.children := List.mem_of_mem_filter (queries ▸ List.mem_cons_self)
    obtain ⟨first, rest, rfl, hfirst⟩ := ih (hcomplete.children left hleft)
    exact ⟨first, rest ++ [right], rfl, fun hstar =>
      (arity?_compound kind queries).trans (hfirst hstar)⟩

section

variable (h : t.Everywhere Ordered) (ht : t.ids.Nodup) (hu : u ∈ t.preorder)
  (hkind : u.kind = .insertStmt) (hcolumns : u.child? .columnList = some columns)
  (hclause : clause ∈ u.children) (hclauseKind : clause.kind = .valuesClause)

include ht hu hkind hclause hclauseKind

include h in
/-- What is reported at an insertion with rows, at its rows or at one of them is a row. -/
theorem Tree.Misfit.parent_eq (hmisfit : t.Misfit p c) (hp : p ∈ t.preorder)
    (hw : w ∈ u :: clause :: clause.children) (hid : c.head.id = w.head.id) : p = clause := by
  have hc := mem_preorder_trans (mem_preorder_child hmisfit.mem) hp
  have hclauseMem := mem_preorder_trans (mem_preorder_child hclause) hu
  rcases List.mem_cons.1 hw with rfl | hw
  · -- a statement that is no query stands under others of its sort only
    obtain rfl := eq_of_id ht hc hu hid
    have hbears := (h p hp).bears c hmisfit.mem
    cases hmisfit with
    | row kind => rcases kind with kind | kind <;> simp [kind, hkind, Kind.bears] at hbears
    | first _ _ _ _ kind => simp [kind, hkind, Kind.bears] at hbears
    | query _ _ _ isQuery => simp [hkind, Kind.isQuery] at isQuery
  rcases List.mem_cons.1 hw with rfl | hw
  · obtain rfl := eq_of_child_id ht hp hu hmisfit.mem hclause hid
    obtain rfl := eq_of_id ht hc hclauseMem hid
    cases hmisfit with
    | row kind => simp [hkind] at kind
    | first _ _ _ _ kind => simp [hkind] at kind
    | query _ _ _ isQuery => simp [hclauseKind, Kind.isQuery] at isQuery
  · exact eq_of_child_id ht hp hclauseMem hmisfit.mem hw hid

include hcolumns

/-- The first row is held to the list of columns and the others to the first row, so all are held to
the list. -/
theorem exists_misfit_row : (∃ row, t.Misfit clause row) ↔
    ∃ row ∈ clause.children, row.children.length ≠ columns.children.length := by
  constructor
  · rintro ⟨row, hmisfit⟩
    cases hmisfit with
    | @row _ first _ _ head mem ne =>
      by_cases hfirst : first.children.length = columns.children.length
      · exact ⟨row, mem, hfirst ▸ ne⟩
      · exact ⟨first, List.mem_of_head? head, hfirst⟩
    | first mem _ columns_eq clause_mem _ head ne =>
      obtain rfl := eq_of_child_id ht mem hu clause_mem hclause rfl
      obtain rfl := Option.some.inj (columns_eq.symm.trans hcolumns)
      exact ⟨row, List.mem_of_head? head, ne⟩
    | query kind => simp [hclauseKind] at kind
  · rintro ⟨row, hrow, hne⟩
    obtain ⟨first, hfirst⟩ : ∃ first, clause.children.head? = some first :=
      Option.isSome_iff_exists.1 (List.isSome_head?.2 (List.ne_nil_of_mem hrow))
    by_cases hwidth : row.children.length = first.children.length
    · exact ⟨first, .first hu hkind hcolumns hclause hclauseKind hfirst (hwidth ▸ hne)⟩
    · exact ⟨row, .row (.inr hclauseKind) hfirst hrow hwidth⟩

end

/-- A query is reported under an insertion if its width is known and is not that of the list. -/
theorem exists_misfit_query (ht : t.ids.Nodup) (hu : u ∈ t.preorder) (hkind : u.kind = .insertStmt)
    (hcolumns : u.child? .columnList = some columns) (hq : q ∈ u.children)
    (hquery : q.kind.isQuery) :
    (∃ p ∈ t.preorder, ∃ c, t.Misfit p c ∧ c.head.id = q.head.id) ↔
      ∃ n, arity? q = some n ∧ n ≠ columns.children.length := by
  constructor
  · rintro ⟨p, hp, c, hmisfit, hid⟩
    obtain rfl := eq_of_child_id ht hp hu hmisfit.mem hq hid
    obtain rfl := eq_of_id ht (mem_preorder_trans (mem_preorder_child hmisfit.mem) hp)
      (mem_preorder_trans (mem_preorder_child hq) hp) hid
    cases hmisfit with
    | row kind => simp [hkind] at kind
    | first _ _ _ _ kind => simp [hkind] at kind
    | query _ columns_eq _ _ arity_eq ne =>
      obtain rfl := Option.some.inj (columns_eq.symm.trans hcolumns)
      exact ⟨_, arity_eq, ne⟩
  · rintro ⟨n, hn, hne⟩
    exact ⟨u, hu, q, .query hkind hcolumns hq hquery hn hne, rfl⟩

/-- An insertion into a list of columns takes rows or a query. Nothing stands beside the rows, and
all of them are as wide as the list if and only if nothing is reported for its width at the
insertion, at the clause of the rows, or at one of them. A query is reported for its width if and
only if it is not as wide as the list, where no star leaves the width of its leftmost operand open.
-/
theorem Session.Builds.insertion_widths {s : Session} (h : s.Builds source t) (mode : Mode)
    (hu : u ∈ t.preorder) (hkind : u.kind = .insertStmt) (hcolumns : columns ∈ u.children)
    (hlist : columns.kind = .columnList) :
    (∀ clause ∈ u.children, clause.kind = .valuesClause →
      (∀ row ∈ clause.children, row.kind = .valuesRow) ∧
      ((∀ v ∈ validateAll source mode t, v.breach.rule = .valuesArity →
          ∀ w ∈ u :: clause :: clause.children, v.node ≠ w.head.id) ↔
        ∀ row ∈ clause.children, row.children.length = columns.children.length)) ∧
    ∀ q ∈ u.children, q.kind.isQuery →
      (∃ first rest joins, q.Chain (first :: rest) joins) ∧
      ∀ first rest joins, q.Chain (first :: rest) joins → ¬ first.Starred →
        ((∃ v ∈ validateAll source mode t, v.breach.rule = .valuesArity ∧ v.node = q.head.id) ↔
          first.width ≠ columns.children.length) := by
  have hchild := (h.ordered u hu).child?_columnList hkind hcolumns hlist
  refine ⟨fun clause hclause hclauseKind => ?_, fun q hq hquery => ?_⟩
  · have hclauseMem := mem_preorder_trans (mem_preorder_child hclause) hu
    refine ⟨fun row hrow => ?_, ?_⟩
    · have hbears := (h.ordered clause hclauseMem).bears row hrow
      simp_all [Kind.bears]
    have hrows := exists_misfit_row h.nodup hu hkind hchild hclause hclauseKind
    constructor
    · intro hnone row hrow
      by_contra hne
      obtain ⟨c, hmisfit⟩ := hrows.2 ⟨row, hrow, hne⟩
      obtain ⟨v, hv, hrule, hnode⟩ : ∃ v ∈ validateAll source mode t,
          v.breach.rule = .valuesArity ∧ v.node = c.head.id :=
        exists_violation_iff_misfit.2 ⟨clause, hclauseMem, c, hmisfit, rfl⟩
      exact hnone v hv hrule c (by simp [hmisfit.mem]) hnode
    · intro hwidth v hv hrule w hw hnode
      obtain ⟨p, hp, c, hmisfit, hid⟩ := exists_violation_iff_misfit.1 ⟨v, hv, hrule, hnode⟩
      obtain rfl := hmisfit.parent_eq h.ordered h.nodup hu hkind hclause hclauseKind hp hw hid
      obtain ⟨row, hrow, hne⟩ := hrows.1 ⟨c, hmisfit⟩
      exact hne (hwidth row hrow)
  · have hqMem := mem_preorder_trans (mem_preorder_child hq) hu
    have hcomplete : q.Complete := fun c hc => h.complete c (mem_preorder_trans hc hqMem)
    constructor
    · obtain ⟨operands, joins, hchain⟩ := exists_chain hcomplete hquery
      obtain ⟨first, rest, rfl, -⟩ := hchain.arity?_eq hcomplete
      exact ⟨first, rest, joins, hchain⟩
    intro first rest joins hchain hstar
    obtain ⟨_, _, heq, harity⟩ := hchain.arity?_eq hcomplete
    obtain ⟨rfl, rfl⟩ := List.cons.inj heq
    rw [exists_violation_iff_misfit, exists_misfit_query h.nodup hu hkind hchild hq hquery,
      harity hstar]
    simp

/-- A row that is not as wide as two columns, between the other parts of an insertion. -/
theorem Session.Builds.insertion_widths_returning :
    let text := "WITH x AS (SELECT 1) INSERT OR IGNORE INTO t (a, b) VALUES (1, 2), (3) RETURNING a"
    ∃ t clause, ({} : Session).Builds text.toList t ∧ clause ∈ t.children ∧
      clause.kind = .valuesClause ∧ ∃ v ∈ validateAll text.toList .production t,
        v.breach.rule = .valuesArity ∧
          ∃ w ∈ t :: clause :: clause.children, v.node = w.head.id := by
  intro text
  have hfound : (Script.single.run (({} : Session).scope .one text.toList)
      (({} : Session).start (tokenize text.toList))).answer.toOption.map (fun t =>
        (t.kind, t.children.map fun c => (c.kind, c.children.map (·.children.length)))) =
      some (.insertStmt, [(.withClause, [1]), (.conflictAction, []), (.tableRef, []),
        (.columnList, [0, 0]), (.valuesClause, [2, 1]), (.returningClause, [0])]) := by
    decide +kernel
  obtain ⟨t, hbuilds, hseen⟩ := exists_of_run hfound
  obtain ⟨hkind, hchildren⟩ := Prod.mk.inj hseen
  obtain ⟨_, cs, hcs, -, hchildren⟩ := List.map_eq_cons_iff.1 hchildren
  obtain ⟨_, cs, rfl, -, hchildren⟩ := List.map_eq_cons_iff.1 hchildren
  obtain ⟨_, cs, rfl, -, hchildren⟩ := List.map_eq_cons_iff.1 hchildren
  obtain ⟨columns, cs, rfl, hcolumns, hchildren⟩ := List.map_eq_cons_iff.1 hchildren
  obtain ⟨clause, cs, rfl, hclause, -⟩ := List.map_eq_cons_iff.1 hchildren
  simp only [Prod.mk.injEq] at hcolumns hclause
  have hwidth : columns.children.length = 2 := by simpa using congrArg List.length hcolumns.2
  obtain ⟨_, _, hrows, -, htail⟩ := List.map_eq_cons_iff.1 hclause.2
  obtain ⟨row, _, rfl, hrow, -⟩ := List.map_eq_cons_iff.1 htail
  have hmem : clause ∈ t.children := by simp [hcs]
  have hreported := ((hbuilds.insertion_widths .production t.mem_preorder_self hkind
    (by simp [hcs]) hcolumns.1).1 clause hmem hclause.1).2
  refine ⟨t, clause, hbuilds, hmem, hclause.1, ?_⟩
  by_contra hnone
  have hall := hreported.1 fun v hv hrule w hw hnode => hnone ⟨v, hv, hrule, w, hw, hnode⟩
  have hwide := hall row (by simp [hrows])
  rw [hrow, hwidth] at hwide
  cases hwide

end SqlSyntax
