import SqlSyntax.Grammar.Parser

/-!
# Type names

One word or more, and up to two numbers in parentheses: `INTEGER`, `DOUBLE PRECISION`,
`VARCHAR(10)`, `DECIMAL(10, 2)`.
-/

namespace SqlSyntax

open SqlSyntax.Parser

/-- The number that a text writes with digits after an optional plus sign, if it is below
`2 ^ 32`. -/
def unsigned? (text : String) : Option Nat :=
  let digits := match text.toList with
    | '+' :: cs => cs
    | cs => cs
  if digits.isEmpty || !digits.all Char.isDigit then none
  else (some (digits.foldl (fun n c => 10 * n + (c.toNat - '0'.toNat)) 0)).filter (· < 0x100000000)

/-- A number in a type name; only a natural number has a value. -/
def typeParameter : Parser (Option Nat) := do
  let negative ← consume .minus
  if !negative then discard <| consume .plus
  match ← takeIf? fun t => t.kind == .integer || t.kind == .float with
  | some t => return if negative then none else unsigned? t.text
  | none => unexpected "number"

/-- The numbers of a type name and where it ends. -/
def typeParameters : Parser (Option Nat × Option Nat) := do
  if !(← consume .leftParen) then return (none, none)
  let first ← typeParameter
  let second ← if ← consume .comma then typeParameter else pure none
  discard <| expect .rightParen "')'"
  return (first, second)

/-- The text of a type name and the type that it stands for. -/
def typeName : Parser (Text × DataType) := do
  match ← many (takeIf? Token.isTypeWord) with
  | [] => unexpected "type name"
  | first :: others =>
    let (p, q) ← typeParameters
    let words := ((first :: others).map Token.text).dropWhile (·.isEmpty)
    let stop := (← get).lastEnd
    return (.slice ⟨first.span.start, stop⟩, .ofName (" ".intercalate words) p q)

end SqlSyntax
