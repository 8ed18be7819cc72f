import SqlSyntax.Operator
import SqlSyntax.Token

/-!
# Binding powers

Operators bind their operands with a power; the greater power wins. An operator between two
operands has one power to its left and a greater one to its right, so that chains of operators of
one level group to the left (`joining_lt`).
-/

namespace SqlSyntax.Power

/-- The power of `NOT` before an operand. -/
def not : Nat := 5

/-- The power to the right of comparisons with a word, such as `LIKE`. -/
def comparison : Nat := 8

/-- The power of a sign before an operand. -/
def sign : Nat := 19

/-- The power of `COLLATE` and `::` after an operand. -/
def trailing : Nat := 21

/-- More than any operator after an operand has. -/
def primary : Nat := trailing + 1

/-- The power of an operator before its operand. -/
def leading? : TokenKind → Option Nat
  | .minus | .plus | .bitNot => some sign
  | .keyword .NOT => some not
  | _ => none

/-- Whether `NOT` negates the comparison that comes next. -/
def negates : Option TokenKind → Bool
  | some (.keyword .IN) | some (.keyword .BETWEEN) => true
  | some (.keyword .LIKE) | some (.keyword .GLOB) => true
  | _ => false

/-- The powers of an operator between two operands, given the token after it. -/
def joining? (kind : TokenKind) (next : Option TokenKind) : Option (Nat × Nat) :=
  match kind with
  | .keyword .OR => some (1, 2)
  | .keyword .AND => some (3, 4)
  | .eq | .notEq => some (7, comparison)
  | .keyword .IS | .keyword .IN | .keyword .BETWEEN => some (7, comparison)
  | .keyword .LIKE | .keyword .GLOB => some (7, comparison)
  | .keyword .NOT => if negates next then some (7, comparison) else none
  | .concat => some (9, 10)
  | .bitOr | .bitAnd | .bitXor | .leftShift | .rightShift => some (11, 12)
  | .lt | .ltEq | .gt | .gtEq => some (13, 14)
  | .plus | .minus => some (15, 16)
  | .star | .slash | .percent => some (17, 18)
  | _ => none

/-- The power of an operator after its operand. -/
def trailing? : TokenKind → Option Nat
  | .keyword .COLLATE | .doubleColon => some trailing
  | _ => none

theorem joining_lt {kind : TokenKind} {next : Option TokenKind} {l r : Nat}
    (h : joining? kind next = some (l, r)) : l < r := by
  unfold joining? at h
  split at h <;> (try split at h) <;> simp_all [comparison] <;> omega

end Power

/-- The operator that a token between two operands stands for. -/
def BinaryOp.ofToken? : TokenKind → Option BinaryOp
  | .plus => some .add
  | .minus => some .sub
  | .star => some .mul
  | .slash => some .div
  | .percent => some .mod
  | .eq => some .eq
  | .notEq => some .notEq
  | .lt => some .lt
  | .ltEq => some .ltEq
  | .gt => some .gt
  | .gtEq => some .gtEq
  | .keyword .AND => some .and
  | .keyword .OR => some .or
  | .keyword .IS => some .is
  | .keyword .LIKE => some .like
  | .keyword .GLOB => some .glob
  | .concat => some .concat
  | .bitAnd => some .bitAnd
  | .bitOr => some .bitOr
  | .bitXor => some .bitXor
  | .leftShift => some .leftShift
  | .rightShift => some .rightShift
  | _ => none

/-- The operator that a token before an operand stands for. -/
def UnaryOp.ofToken? : TokenKind → Option UnaryOp
  | .minus => some .neg
  | .plus => some .plus
  | .keyword .NOT => some .not
  | .bitNot => some .bitNot
  | _ => none

end SqlSyntax
