import SqlSyntax.Text.Position

/-!
# Broken rules

What can be wrong with a statement that the grammar accepts. A breach names the numbers and names
that its message shows, and belongs to one of eight rules.
-/

namespace SqlSyntax

inductive Rule where
  | havingWithoutGroupBy
  | joinWithoutCondition
  | setOperationArity
  | valuesArity
  | misplacedAggregate
  | recursiveTable
  | duplicateTable
  | duplicateColumn
deriving DecidableEq, Inhabited

def Rule.name : Rule → String
  | .havingWithoutGroupBy => "having-requires-group-by"
  | .joinWithoutCondition => "join-requires-condition"
  | .setOperationArity => "set-operation-arity"
  | .valuesArity => "values-arity"
  | .misplacedAggregate => "misplaced-aggregate"
  | .recursiveTable => "recursive-cte"
  | .duplicateTable => "duplicate-cte"
  | .duplicateColumn => "duplicate-column"

inductive Breach where
  | havingWithoutGroupBy
  | joinWithoutCondition
  /-- The operands of a set operation have different numbers of columns. -/
  | operandArity (operator : String) (left right : Nat)
  /-- A row has not as many values as the first one. -/
  | rowArity (count expected : Nat)
  /-- The first row of an insertion has not as many values as there are columns. -/
  | insertRowArity (count expected : Nat)
  /-- The query of an insertion has not as many columns as are inserted into. -/
  | insertQueryArity (count expected : Nat)
  /-- An aggregate is called where rows are chosen or grouped. -/
  | misplacedAggregate (name clause : String)
  /-- A recursive table reads itself without a set operation. -/
  | recursiveTable (name : String)
  | duplicateTable (name : String)
  | duplicateColumn (name : String)
deriving DecidableEq, Inhabited

namespace Breach

def rule : Breach → Rule
  | .havingWithoutGroupBy => .havingWithoutGroupBy
  | .joinWithoutCondition => .joinWithoutCondition
  | .operandArity .. => .setOperationArity
  | .rowArity .. | .insertRowArity .. | .insertQueryArity .. => .valuesArity
  | .misplacedAggregate .. => .misplacedAggregate
  | .recursiveTable _ => .recursiveTable
  | .duplicateTable _ => .duplicateTable
  | .duplicateColumn _ => .duplicateColumn

def message : Breach → String
  | .havingWithoutGroupBy => "HAVING clause requires GROUP BY"
  | .joinWithoutCondition => "JOIN requires an ON or USING condition"
  | .operandArity op l r => s!"{op} operands select {l} and {r} columns"
  | .rowArity n width => s!"VALUES row has {n} values, expected {width}"
  | .insertRowArity n width => s!"INSERT row has {n} values for {width} columns"
  | .insertQueryArity n width => s!"INSERT query selects {n} columns for {width} columns"
  | .misplacedAggregate name clause =>
    s!"aggregate function {name} is not allowed in {clause}"
  | .recursiveTable name =>
    s!"recursive common table expression '{name}' needs an anchor "
      ++ "and a recursive member joined by a set operator"
  | .duplicateTable name => s!"common table expression '{name}' is defined twice"
  | .duplicateColumn name => s!"column '{name}' is defined twice"

end Breach

/-- A breach and the node it was found at. -/
structure Violation where
  breach : Breach
  location : Location
  span : Span
  node : Nat
deriving DecidableEq, Inhabited

/-- The message with the place, for a human reader. -/
def Violation.display (v : Violation) : String :=
  s!"{v.breach.message} (line {v.location.line}, column {v.location.column})"

end SqlSyntax
