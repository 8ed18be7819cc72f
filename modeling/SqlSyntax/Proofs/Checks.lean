import Mathlib.Data.List.Basic
import SqlSyntax.Validation

/-!
# What the checks of nodes report

A violation does not say which check found it. But each check has rules of its own, so the rule of a
violation tells the kind of the node that was checked (`Validation.rule_mem_of_mem_check`).
-/

namespace SqlSyntax

variable {source : Source} {mode : Mode} {t : Tree} {v : Violation}

namespace Validation

/-- The rules that a node of a kind is checked for. -/
def rulesOf (k : Kind) : List Rule :=
  match k with
  | .selectStmt => [.havingWithoutGroupBy]
  | .compoundSelect => [.setOperationArity]
  | .valuesStmt | .valuesClause | .insertStmt => [.valuesArity]
  | .whereClause | .groupByClause => [.misplacedAggregate]
  | .withClause => [.duplicateTable, .recursiveTable]
  | .createTableStmt => [.duplicateColumn]
  | k => if k.isJoin then [.joinWithoutCondition] else []

theorem rule_of_checkHaving (h : v ∈ checkHaving source mode t) :
    v.breach.rule = .havingWithoutGroupBy := by
  unfold checkHaving at h
  split at h
  · cases h
  · dsimp only at h
    split at h
    · cases h
    · rw [List.mem_singleton.1 h]
      rfl

theorem rule_of_checkJoin (h : v ∈ checkJoin mode t) : v.breach.rule = .joinWithoutCondition := by
  unfold checkJoin at h
  dsimp only at h
  split at h
  · cases h
  · rw [List.mem_singleton.1 h]
    rfl

/-- A set operation is reported itself. -/
theorem mem_checkCompound (h : v ∈ checkCompound source t) :
    v.breach.rule = .setOperationArity ∧ v.node = t.head.id := by
  unfold checkCompound at h
  split at h
  · split at h
    · split at h
      · cases h
      · rw [List.mem_singleton.1 h]
        exact ⟨rfl, rfl⟩
    · cases h
  · cases h

/-- Rows are reported that are not as wide as the first. -/
theorem mem_checkRows : v ∈ checkRows t ↔ ∃ first rows, t.children = first :: rows ∧ ∃ row ∈ rows,
    row.children.length ≠ first.children.length ∧
      v = violation (.rowArity row.children.length first.children.length) row := by
  unfold checkRows
  split
  · next h => simp [h]
  · next first rows h =>
    simp only [List.mem_map, List.mem_filter, bne_iff_ne, h, List.cons.injEq]
    constructor
    · rintro ⟨row, ⟨hrow, hne⟩, rfl⟩
      exact ⟨first, rows, ⟨rfl, rfl⟩, row, hrow, hne, rfl⟩
    · rintro ⟨_, _, ⟨rfl, rfl⟩, row, hrow, hne, rfl⟩
      exact ⟨row, ⟨hrow, hne⟩, rfl⟩

/-- Of an insertion its first row is reported or its query. -/
theorem mem_checkInsert (h : v ∈ checkInsert t) : v.breach.rule = .valuesArity ∧
    ∃ c ∈ t.children, (c.kind = .valuesClause ∧ ∃ row ∈ c.children, v.node = row.head.id) ∨
      v.node = c.head.id := by
  unfold checkInsert at h
  split at h
  · cases h
  · dsimp only at h
    obtain ⟨c, hc, h⟩ := List.mem_flatMap.1 h
    split at h
    · next hkind =>
      split at h
      · next row hrow =>
        split at h
        · cases h
        · rw [List.mem_singleton.1 h]
          exact ⟨rfl, c, hc, .inl ⟨beq_iff_eq.1 hkind, row, List.mem_of_head? hrow, rfl⟩⟩
      · cases h
    · split at h
      · split at h
        · split at h
          · cases h
          · rw [List.mem_singleton.1 h]
            exact ⟨rfl, c, hc, .inr rfl⟩
        · cases h
      · cases h

theorem rule_of_checkNoAggregates (h : v ∈ checkNoAggregates source t) :
    v.breach.rule = .misplacedAggregate := by
  obtain ⟨u, -, rfl⟩ := List.mem_map.1 h
  rfl

theorem rule_of_checkRecursion (h : v ∈ checkRecursion source t) :
    v.breach.rule = .recursiveTable := by
  unfold checkRecursion at h
  split at h
  · cases h
  · split at h
    · rw [List.mem_singleton.1 h]
      rfl
    · cases h

theorem rule_of_checkWith (h : v ∈ checkWith source t) :
    v.breach.rule = .duplicateTable ∨ v.breach.rule = .recursiveTable := by
  obtain ⟨⟨table, repeated⟩, -, h⟩ := List.mem_flatMap.1 h
  rcases List.mem_append.1 h with h | h
  · split at h
    · rw [List.mem_singleton.1 h]
      exact .inl rfl
    · cases h
  · split at h
    · exact .inr (rule_of_checkRecursion h)
    · cases h

theorem rule_of_checkColumns (h : v ∈ checkColumns source t) :
    v.breach.rule = .duplicateColumn := by
  obtain ⟨⟨column, repeated⟩, -, h⟩ := List.mem_filterMap.1 h
  dsimp only at h
  split at h
  · rw [← Option.some.inj h]
    rfl
  · cases h

theorem rulesOf_of_isJoin {k : Kind} (h : k.isJoin) : rulesOf k = [.joinWithoutCondition] := by
  cases k <;> first | rfl | cases h

/-- The rule of a violation tells which nodes are checked for it. -/
theorem rule_mem_of_mem_check (h : v ∈ check source mode t) : v.breach.rule ∈ rulesOf t.kind := by
  unfold check at h
  split at h
  · next hkind => exact hkind ▸ List.mem_singleton.2 (rule_of_checkHaving h)
  · next hkind => exact hkind ▸ List.mem_singleton.2 (mem_checkCompound h).1
  · next hkind =>
    obtain ⟨_, _, -, _, -, -, rfl⟩ := mem_checkRows.1 h
    exact hkind ▸ List.mem_singleton_self _
  · next hkind =>
    obtain ⟨_, _, -, _, -, -, rfl⟩ := mem_checkRows.1 h
    exact hkind ▸ List.mem_singleton_self _
  · next hkind => exact hkind ▸ List.mem_singleton.2 (mem_checkInsert h).1
  · next hkind => exact hkind ▸ List.mem_singleton.2 (rule_of_checkNoAggregates h)
  · next hkind => exact hkind ▸ List.mem_singleton.2 (rule_of_checkNoAggregates h)
  · next hkind => exact hkind ▸ List.mem_pair.2 (rule_of_checkWith h)
  · next hkind => exact hkind ▸ List.mem_singleton.2 (rule_of_checkColumns h)
  · split at h
    · next hjoin => exact rulesOf_of_isJoin hjoin ▸ List.mem_singleton.2 (rule_of_checkJoin h)
    · cases h

theorem mem_validateAll :
    v ∈ validateAll source mode t ↔ ∃ u ∈ t.preorder, v ∈ check source mode u :=
  List.mem_flatMap

end Validation

end SqlSyntax
