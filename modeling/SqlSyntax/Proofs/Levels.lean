import SqlSyntax.Proofs.Growth

/-!
# Levels of operators

The operators of a level are taken with the level as their power to the left and with one more to
the right. So what stands to the right of an operator is of a greater level, and what stands to the
left is of no lesser one.
-/

namespace SqlSyntax

def BinaryOp.level : BinaryOp → Nat
  | .or => 1
  | .and => 3
  | .eq | .notEq | .is | .like | .glob => 7
  | .concat => 9
  | .bitAnd | .bitOr | .bitXor | .leftShift | .rightShift => 11
  | .lt | .ltEq | .gt | .gtEq => 13
  | .add | .sub => 15
  | .mul | .div | .mod => 17

def UnaryOp.level : UnaryOp → Nat
  | .not => 5
  | .neg | .plus | .bitNot => 19

/-- The level of `IS`, `IN`, `BETWEEN`, `LIKE` and `GLOB`. -/
def Power.words : Nat := 7

namespace Power

theorem right_of_joining? {kind : TokenKind} {next : Option TokenKind} {l r : Nat}
    (h : joining? kind next = some (l, r)) : r = l + 1 := by
  unfold joining? at h
  split at h <;> (try split at h) <;> simp_all [comparison] <;> omega

theorem level_of_joining? {kind : TokenKind} {next : Option TokenKind} {l r : Nat} {op : BinaryOp}
    (h : joining? kind next = some (l, r)) (hop : BinaryOp.ofToken? kind = some op) :
    l = op.level := by
  unfold BinaryOp.ofToken? at hop
  split at hop <;> simp only [Option.some.injEq, reduceCtorEq] at hop <;> subst hop <;>
    simp only [joining?, Option.some.injEq, Prod.mk.injEq] at h <;> exact h.1.symm

theorem words_of_joining? {k : Keyword} {next : Option TokenKind} {l r : Nat}
    (h : joining? (.keyword k) next = some (l, r)) (hor : k ≠ .OR) (hand : k ≠ .AND) :
    l = words := by
  unfold joining? at h
  split at h <;> (try split at h) <;> simp_all [comparison, words]

/-- Only what `NOT` is depends on the token after it. -/
theorem joining?_next {kind : TokenKind} (h : kind ≠ .keyword .NOT) (a b : Option TokenKind) :
    joining? kind a = joining? kind b := by
  unfold joining?
  split
  all_goals first | rfl | exact absurd rfl h

/-- `NOT` between two operands is before a comparison that has the same powers without it. -/
theorem joining?_not {next : Option TokenKind} {l r : Nat}
    (h : joining? (.keyword .NOT) next = some (l, r)) :
    ∃ k : Keyword, next = some (.keyword k) ∧ k ≠ .NOT ∧
      ∀ after, joining? (.keyword k) after = some (l, r) := by
  simp only [joining?] at h
  split_ifs at h with hnegates
  unfold negates at hnegates
  split at hnegates
  all_goals first
    | exact ⟨_, rfl, by decide, fun _ => h⟩
    | simp at hnegates

theorem operator_of_leading? {kind : TokenKind} {power : Nat} (h : leading? kind = some power) :
    ∃ op, UnaryOp.ofToken? kind = some op ∧ power = op.level := by
  unfold leading? at h
  split at h <;> simp only [Option.some.injEq, reduceCtorEq] at h <;> subst h
  all_goals exact ⟨_, rfl, rfl⟩

end Power

end SqlSyntax
