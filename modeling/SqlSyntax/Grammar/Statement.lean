import SqlSyntax.Grammar.Schema
import SqlSyntax.Grammar.Utility

/-!
# Statements

A statement is told by its first word. `Nested.upTo n` ties the productions that occur inside one
another together, to a depth of `n` calls. A call is made only after a token was taken, so one
call more than there are tokens is enough (`Nested.forTokens`).
-/

namespace SqlSyntax

open SqlSyntax.Parser

namespace Statement

/-- A statement after its `WITH`. -/
def afterWith (self : Nested) (clause : Tree) : Parser Tree := do
  match ← currentKind with
  | some (.keyword .INSERT) | some (.keyword .REPLACE) => prepend (← Change.insert self) clause
  | some (.keyword .UPDATE) => prepend (← Change.update self) clause
  | some (.keyword .DELETE) => prepend (← Change.delete self) clause
  | _ => Query.afterWith self clause

/-- A statement that only the dialect with extensions has. -/
def extension (self : Nested) (t : Token) (k : Keyword) : Parser Tree := do
  if (← read).config.allowExtensions then
    match k with
    | .PRAGMA => Utility.pragma self
    | .VACUUM => Utility.vacuum self
    | .ATTACH => Utility.attachDatabase self
    | .DETACH => Utility.detachDatabase
    | _ => Utility.upkeep .reindexStmt .REINDEX
  else fail (.atToken (.extensionDisabled k) t)

/-- A statement whose first token `t` is the keyword `k`. -/
def ofKeyword (self : Nested) (t : Token) (k : Keyword) : Parser Tree := do
  match k with
  | .SELECT | .VALUES => query self
  | .WITH => afterWith self (← Query.withClause self)
  | .INSERT | .REPLACE => Change.insert self
  | .UPDATE => Change.update self
  | .DELETE => Change.delete self
  | .CREATE => Schema.create self
  | .DROP => Schema.drop
  | .ALTER => Schema.alter self
  | .TRUNCATE => Schema.truncate
  | .BEGIN | .START => Utility.begin
  | .COMMIT | .END => Utility.commit
  | .ROLLBACK => Utility.rollback
  | .SAVEPOINT => Utility.savepoint
  | .RELEASE => Utility.release
  | .EXPLAIN => Utility.explain self
  | .SET => Utility.setting self
  | .PRAGMA | .VACUUM | .ATTACH | .DETACH | .REINDEX => extension self t k
  | .ANALYZE => Utility.upkeep .analyzeStmt .ANALYZE
  | _ => unexpected "statement"

end Statement

/-- A statement, without the semicolon after it. -/
def statement (self : Nested) : Parser Tree := deeper do
  let some t ← current | unexpected "statement"
  match t.keyword? with
  | some k => Statement.ofKeyword self t k
  | none => unexpected "statement"

namespace Nested

/-- The productions with calls of one another up to a depth. A level is built when it is called. -/
def upTo : Nat → Nested
  | 0 => ⟨fun _ => unexpected "expression", unexpected "SELECT", unexpected "table",
      unexpected "statement"⟩
  | n + 1 => {
      expression := fun power scope => SqlSyntax.expression (upTo n) power scope
      query := fun scope => SqlSyntax.query (upTo n) scope
      joinTree := fun scope => SqlSyntax.joinTree (upTo n) scope
      statement := fun scope => SqlSyntax.statement (upTo n) scope }

theorem upTo_succ (n : Nat) :
    upTo (n + 1) = ⟨SqlSyntax.expression (upTo n), SqlSyntax.query (upTo n),
      SqlSyntax.joinTree (upTo n), SqlSyntax.statement (upTo n)⟩ := rfl

/-- The productions for that many tokens. -/
def forTokens (n : Nat) : Nested := upTo (n + 1)

end Nested

end SqlSyntax
