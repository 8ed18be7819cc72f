/-!
# Configuration

What a parse allows and how deep it may go. How much stack it takes to go as deep lies with the
machine that runs it; `StackUse` stands for that.
-/

namespace SqlSyntax

/-- How strictly the rules for whole statements are applied. -/
inductive Mode where
  /-- Every rule applies. -/
  | production
  /-- Joins without a condition pass, and so does `HAVING` over a single group. -/
  | permissive
deriving DecidableEq, Inhabited

namespace Mode

def name : Mode → String
  | .production => "production"
  | .permissive => "permissive"

def ofName? : String → Option Mode
  | "production" => some .production
  | "permissive" => some .permissive
  | _ => none

end Mode

structure Config where
  mode : Mode := .production
  /-- The most levels that may be open at once; zero counts as one. -/
  maxDepth : Nat := 1000
  /-- Bytes of stack that a parse may take; zero stands for no bound. -/
  stackBudget : Nat := 1024 * 1024
  /-- No nodes for parentheses around an expression. -/
  compactTree : Bool := false
  /-- Only spellings of the ANSI standard. -/
  strictAnsi : Bool := false
  /-- Maintenance statements and `::` casts. -/
  allowExtensions : Bool := true
deriving DecidableEq, Inhabited

namespace Config

/-- The most levels that may be open at once. -/
def depthLimit (c : Config) : Nat := max c.maxDepth 1

/-- Whether so many bytes of stack are more than the budget. -/
def exceedsStack (c : Config) (used : Nat) : Bool :=
  c.stackBudget != 0 && decide (c.stackBudget < used)

end Config

/-- Bytes of stack in use where one more level is asked for, by the tokens that were taken and the
levels that are open then. In a run over some tokens these tell which productions are at work. -/
abbrev StackUse := Nat → Nat → Nat

/-- As many bytes for each level. -/
def StackUse.even : StackUse := fun _ depth => 1024 * (depth + 1)

end SqlSyntax
