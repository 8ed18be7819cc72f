import SqlSyntax.Grammar.Change

/-!
# Transactions, settings and maintenance

The short statements: transactions and savepoints, `EXPLAIN`, `SET`, and those that look after a
database.
-/

namespace SqlSyntax

open SqlSyntax.Parser

namespace Utility

/-- The mode of a transaction, if one follows. -/
def transactionMode? (statement : Tree) : Parser Tree := do
  let modes : List Keyword := [.DEFERRED, .IMMEDIATE, .EXCLUSIVE]
  match ← takeIf? (·.keyword?.any modes.contains) with
  | some mode => setText statement mode
  | none => return statement

/-- `BEGIN [DEFERRED|IMMEDIATE|EXCLUSIVE] [TRANSACTION]` or `START TRANSACTION`. -/
def begin : Parser Tree := do
  let some t ← advance | unexpected "BEGIN"
  let statement ← nodeAt .beginStmt t
  if t.kind == .keyword .START then
    discard <| expectKeyword .TRANSACTION
    finish statement
  else
    let statement ← transactionMode? statement
    discard <| consumeKeyword .TRANSACTION
    finish statement

/-- `COMMIT [TRANSACTION]` or `END [TRANSACTION]`. -/
def commit : Parser Tree := do
  let some t ← advance | unexpected "COMMIT"
  let statement ← nodeAt .commitStmt t
  discard <| consumeKeyword .TRANSACTION
  finish statement

/-- The statement with a name that comes next. -/
def finishNamed (statement : Tree) (what : String) : Parser Tree := do
  let name ← expectName what
  finish (← setText statement name)

/-- `ROLLBACK [TRANSACTION] [TO [SAVEPOINT] name]`. -/
def rollback : Parser Tree := do
  let statement ← nodeAt .rollbackStmt (← expectKeyword .ROLLBACK)
  discard <| consumeKeyword .TRANSACTION
  if ← consumeKeyword .TO then
    discard <| consumeKeyword .SAVEPOINT
    finishNamed statement "savepoint name"
  else finish statement

/-- `SAVEPOINT name`. -/
def savepoint : Parser Tree := do
  finishNamed (← nodeAt .savepointStmt (← expectKeyword .SAVEPOINT)) "savepoint name"

/-- `RELEASE [SAVEPOINT] name`. -/
def release : Parser Tree := do
  let statement ← nodeAt .releaseStmt (← expectKeyword .RELEASE)
  discard <| consumeKeyword .SAVEPOINT
  finishNamed statement "savepoint name"

/-- `QUERY PLAN` as a mark of an explanation, if it follows. -/
def queryPlan? (statement : Tree) : Parser Tree := do
  if ← consumeKeyword .QUERY then
    discard <| expectKeyword .PLAN
    flag statement .queryPlan
  else return statement

/-- `EXPLAIN [QUERY PLAN] statement`. -/
def explain (self : Nested) : Parser Tree := do
  let statement ← queryPlan? (← nodeAt .explainStmt (← expectKeyword .EXPLAIN))
  finish (← attach statement (← self.statement))

/-- `SET name = value, ...`. -/
def setting (self : Nested) : Parser Tree := do
  let statement ← nodeAt .setStmt (← expectKeyword .SET)
  finish (← attachList (Change.assignment self) statement)

/-- A value of a pragma: a word, or an expression. -/
def pragmaValue (self : Nested) : Parser Tree := do
  match ← takeIf? fun t => t.kind == .identifier || t.keyword?.isSome with
  | some word => namedNode .identifier word
  | none => self.expression 0

/-- `PRAGMA name [= value | (value)]`. -/
def pragma (self : Nested) : Parser Tree := do
  let statement ← nodeAt .pragmaStmt (← expectKeyword .PRAGMA)
  let statement ← attach statement (← objectName .objectName)
  if ← consume .eq then finish (← attach statement (← pragmaValue self))
  else if ← consume .leftParen then
    let value ← pragmaValue self
    discard <| expect .rightParen "')'"
    finish (← attach statement value)
  else finish statement

/-- Whether a name comes next. -/
def seesName : Parser Bool := return (← current).any Token.isName

/-- `VACUUM [schema] [INTO file]`. -/
def vacuum (self : Nested) : Parser Tree := do
  let statement ← nodeAt .vacuumStmt (← expectKeyword .VACUUM)
  let statement ← attachIf (← seesName) (objectName .objectName) statement
  finish (← attachIf (← consumeKeyword .INTO) (self.expression 0) statement)

/-- `ATTACH [DATABASE] file AS name`. -/
def attachDatabase (self : Nested) : Parser Tree := do
  let statement ← nodeAt .attachStmt (← expectKeyword .ATTACH)
  discard <| consumeKeyword .DATABASE
  let statement ← attach statement (← self.expression 0)
  discard <| expectKeyword .AS
  finishNamed statement "schema name"

/-- `DETACH [DATABASE] name`. -/
def detachDatabase : Parser Tree := do
  let statement ← nodeAt .detachStmt (← expectKeyword .DETACH)
  discard <| consumeKeyword .DATABASE
  finishNamed statement "schema name"

/-- `REINDEX [name]` or `ANALYZE [name]`, as a node of a kind. -/
def upkeep (kind : Kind) (k : Keyword) : Parser Tree := do
  let statement ← nodeAt kind (← expectKeyword k)
  finish (← attachIf (← seesName) (objectName .objectName) statement)

end Utility

end SqlSyntax
