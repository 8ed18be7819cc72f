import SqlSyntax.Grammar.Change

/-!
# Schema statements

`CREATE`, `DROP`, `ALTER TABLE` and `TRUNCATE`, with the columns and constraints of tables.
-/

namespace SqlSyntax

open SqlSyntax.Parser

namespace Schema

/-- `ON CONFLICT action` of a constraint, if it follows. -/
def onConflict? (node : Tree) : Parser Tree := do
  if (← seesKeyword .ON) && (← kindAt 1) == some (.keyword .CONFLICT) then
    let on ← expectKeyword .ON
    discard advance
    attach node (← Change.conflictAction on (← Change.conflictWord))
  else return node

/-- `NULL` or `DEFAULT` after `SET` in a referential action. -/
def expectNullOrDefault : Parser Unit := do
  if ← consumeKeyword .NULL then return ()
  else if ← consumeKeyword .DEFAULT then return ()
  else unexpected "NULL or DEFAULT"

/-- Takes a word of a spelling, whether it is a keyword or not. -/
def expectSpelling (word : String) : Parser Token := do
  match ← takeIf? (sameWord ·.text word) with
  | some t => return t
  | none => unexpected word

/-- What a reference does when its row is deleted or changed, on the node of the reference. -/
def referentialAction (node : Tree) : Parser Tree := do
  let some t ← current | unexpected "referential action"
  if t.kind == .keyword .CASCADE then
    discard advance
    flag node .cascade
  else if t.kind == .keyword .RESTRICT then
    discard advance
    flag node .restrict
  else if t.kind == .keyword .SET then
    discard advance
    expectNullOrDefault
    return node
  else if sameWord t.text "NO" then
    discard advance
    discard <| expectSpelling "ACTION"
    return node
  else unexpected "referential action"

/-- `ON DELETE action` or `ON UPDATE action`, if one follows, on the node of a reference. -/
def onChange? (node : Tree) : Parser (Option Tree) := do
  if ← seesKeyword .ON then
    match ← kindAt 1 with
    | some (.keyword .DELETE) | some (.keyword .UPDATE) =>
      discard advance
      discard advance
      return some (← referentialAction node)
    | _ => return none
  else return none

/-- `REFERENCES table [(columns)] [ON {DELETE|UPDATE} action]...`. -/
def references : Parser Tree := do
  discard <| expectKeyword .REFERENCES
  let node ← objectName .referencesClause
  let node ← attachIf (← sees .leftParen) columnList node
  finish (← iterate onChange? node)

/-- `CONSTRAINT name`, if it follows. -/
def constraintName? : Parser (Option Token) := do
  if ← consumeKeyword .CONSTRAINT then return some (← expectName "constraint name")
  else return none

/-- `CHECK (condition)` after its keyword; the node starts at `start`. -/
def check (self : Nested) (start : Token) : Parser Tree := do
  let node ← nodeAt .checkConstraint start
  discard <| expect .leftParen "'('"
  let condition ← self.expression 0
  discard <| expect .rightParen "')'"
  attach node condition

/-- A constraint with its name, if it has one. -/
def finishConstraint (name : Option Token) (node : Tree) : Parser Tree :=
  match name with
  | some t => do finish (← setText node t)
  | none => finish node

/-- `AUTOINCREMENT` as a mark of a primary key, if it follows. -/
def autoincrement? (node : Tree) : Parser Tree := do
  flagIf (← consumeKeyword .AUTOINCREMENT) .autoincrement node

/-- A constraint of a column from its own keyword on, if one follows; the node starts at
`start`. -/
def columnConstraintBody? (self : Nested) (start : Token) (kind : TokenKind) :
    Parser (Option Tree) := do
  match kind with
  | .keyword .PRIMARY =>
    discard advance
    discard <| expectKeyword .KEY
    let node ← direction (← nodeAt .primaryKeyConstraint start)
    return some (← autoincrement? (← onConflict? node))
  | .keyword .NOT =>
    discard advance
    discard <| expectKeyword .NULL
    return some (← onConflict? (← nodeAt .notNullConstraint start))
  | .keyword .NULL =>
    discard advance
    return some (← nodeAt .nullConstraint start)
  | .keyword .UNIQUE =>
    discard advance
    return some (← onConflict? (← nodeAt .uniqueConstraint start))
  | .keyword .CHECK =>
    discard advance
    return some (← check self start)
  | .keyword .DEFAULT =>
    discard advance
    let node ← nodeAt .defaultConstraint start
    return some (← attach node (← self.expression Power.primary))
  | .keyword .COLLATE =>
    discard advance
    let collation ← expectNamePart "collation name"
    return some (← setText (← nodeAt .collateConstraint start) collation)
  | .keyword .REFERENCES =>
    let target ← references
    return some (← attach (← nodeAt .foreignKeyConstraint start) target)
  | _ => return none

/-- A constraint of a column, if one follows. -/
def columnConstraint? (self : Nested) : Parser (Option Tree) := do
  match ← current with
  | none => return none
  | some start =>
    let name ← constraintName?
    match ← current with
    | none => unexpected "constraint"
    | some t =>
      match ← columnConstraintBody? self start t.kind with
      | some node => return some (← finishConstraint name node)
      | none => if name.isSome then unexpected "constraint" else return none

/-- The type of a column, if its words follow. -/
def columnType? (column : Tree) : Parser Tree := do
  match ← current with
  | none => return column
  | some start =>
    if start.isTypeWord then
      let (text, dataType) ← typeName
      let type ← nodeAt .typeName start
      let type ← finish (← amend type fun n => { n with text, dataType := some dataType })
      let column ← attach column type
      amend column fun n => { n with dataType := some dataType }
    else return column

/-- `name [type] [constraints]`. -/
def columnDefinition (self : Nested) : Parser Tree := do
  let name ← expectName "column name"
  let column ← columnType? (← namedNode .columnDef name)
  finish (← attachWhile (columnConstraint? self) column)

/-- A constraint of a table after its own keyword `t`; the node starts at `start`. -/
def tableConstraintBody (self : Nested) (start t : Token) : Parser Tree := do
  match t.kind with
  | .keyword .PRIMARY =>
    discard <| expectKeyword .KEY
    let node ← nodeAt .primaryKeyConstraint start
    onConflict? (← attach node (← columnList))
  | .keyword .UNIQUE =>
    let node ← nodeAt .uniqueConstraint start
    onConflict? (← attach node (← columnList))
  | .keyword .CHECK => check self start
  | .keyword .FOREIGN =>
    discard <| expectKeyword .KEY
    let node ← nodeAt .foreignKeyConstraint start
    let node ← attach node (← columnList)
    attach node (← references)
  | _ => fail (.unexpected "PRIMARY KEY, UNIQUE, CHECK or FOREIGN KEY" t)

/-- `[CONSTRAINT name]` and a constraint of a table. -/
def tableConstraint (self : Nested) : Parser Tree := do
  let some start ← current | unexpected "table constraint"
  let name ← constraintName?
  let some t ← advance | unexpected "table constraint"
  finishConstraint name (← tableConstraintBody self start t)

/-- A column or a constraint of a table. -/
def tableElement (self : Nested) : Parser Tree := do
  if ← seesOneOf [.CONSTRAINT, .PRIMARY, .UNIQUE, .CHECK, .FOREIGN] then tableConstraint self
  else columnDefinition self

/-- `WITHOUT ROWID` as a mark of a table, if it follows. -/
def withoutRowid? (statement : Tree) : Parser Tree := do
  match ← takeKeyword? .WITHOUT with
  | none => return statement
  | some t =>
    match ← takeIf? (sameWord ·.text "ROWID") with
    | some _ => flag statement .withoutRowid
    | none => fail (.atToken .rowidMissing t)

/-- `name AS query` or `name (elements) [WITHOUT ROWID]`, on the node of the statement. -/
def createTable (self : Nested) (statement : Tree) : Parser Tree := do
  let statement ← attach statement (← objectName .tableRef)
  if ← consumeKeyword .AS then attach statement (← self.query)
  else
    discard <| expect .leftParen "'(' or AS"
    let statement ← attachList (tableElement self) statement
    discard <| expect .rightParen "')'"
    withoutRowid? statement

/-- An expression of an index, with its direction. -/
def indexedColumn (self : Nested) : Parser Tree := do
  let key ← self.expression 0
  let column ← attach (← nodeOver .indexedColumn key) key
  finish (← direction column)

/-- `name ON table (expr, ...) [WHERE condition]`, on the node of the statement. -/
def createIndex (self : Nested) (statement : Tree) : Parser Tree := do
  let statement ← attach statement (← objectName .objectName)
  discard <| expectKeyword .ON
  let statement ← attach statement (← objectName .tableRef)
  discard <| expect .leftParen "'('"
  let statement ← attachList (indexedColumn self) statement
  discard <| expect .rightParen "')'"
  Query.whereClause? self statement

/-- `name [(columns)] AS query`, on the node of the statement. -/
def createView (self : Nested) (statement : Tree) : Parser Tree := do
  let statement ← attach statement (← objectName .objectName)
  let statement ← attachIf (← sees .leftParen) columnList statement
  discard <| expectKeyword .AS
  attach statement (← self.query)

/-- When a trigger fires, on the node of the statement. -/
def triggerTime (statement : Tree) : Parser Tree := do
  if ← consumeKeyword .BEFORE then flag statement .before
  else if ← consumeKeyword .AFTER then flag statement .after
  else if ← consumeKeyword .INSTEAD then
    discard <| expectKeyword .OF
    flag statement .insteadOf
  else return statement

/-- The columns of a trigger event after `UPDATE OF`; the node starts at the event. -/
def eventColumns (t : Token) : Parser Tree := do
  finish (← attachList columnName (← nodeAt .columnList t))

/-- Whether columns follow the event of a trigger. -/
def hasEventColumns (t : Token) : Parser Bool :=
  if t.kind == .keyword .UPDATE then consumeKeyword .OF else return false

/-- What a trigger fires on: `DELETE`, `INSERT` or `UPDATE [OF columns]`. -/
def triggerEvent : Parser Tree := do
  match ← takeIf? (·.keyword?.any [Keyword.DELETE, .INSERT, .UPDATE].contains) with
  | none => unexpected "DELETE, INSERT or UPDATE"
  | some t =>
    let event ← namedNode .triggerEvent t
    finish (← attachIf (← hasEventColumns t) (eventColumns t) event)

/-- `FOR EACH ROW` as a mark of a trigger, if it follows. -/
def eachRow? (statement : Tree) : Parser Tree := do
  if ← consumeKeyword .FOR then
    discard <| expectKeyword .EACH
    discard <| expectKeyword .ROW
    flag statement .forEachRow
  else return statement

/-- `WHEN condition` of a trigger, if it follows. -/
def triggerCondition? (self : Nested) (statement : Tree) : Parser Tree := do
  match ← takeKeyword? .WHEN with
  | some t =>
    let clause ← nodeAt .whenClause t
    attach statement (← finish (← attach clause (← self.expression 0)))
  | none => return statement

/-- The body of a trigger with the next statement and its semicolon, unless the body ends. -/
def triggerStatement? (self : Nested) (body : Tree) : Parser (Option Tree) := do
  if ← seesKeyword .END then return none
  else if ← atEnd then unexpected "END"
  else
    let body ← attach body (← self.statement)
    discard <| expect .semicolon "';'"
    return some body

/-- `BEGIN statements END`. -/
def triggerBody (self : Nested) : Parser Tree := do
  let body ← nodeAt .triggerBody (← expectKeyword .BEGIN)
  let body ← iterate (triggerStatement? self) body
  discard advance
  finish body

/-- `name [time] event ON table [FOR EACH ROW] [WHEN condition] BEGIN statements END`, on the node
of the statement. -/
def createTrigger (self : Nested) (statement : Tree) : Parser Tree := do
  let statement ← attach statement (← objectName .objectName)
  let statement ← triggerTime statement
  let statement ← attach statement (← triggerEvent)
  discard <| expectKeyword .ON
  let statement ← attach statement (← objectName .tableRef)
  let statement ← eachRow? statement
  let statement ← triggerCondition? self statement
  attach statement (← triggerBody self)

/-- What `CREATE` makes and whether it may be temporary. -/
def creationKind? : TokenKind → Option (Kind × Bool)
  | .keyword .TABLE => some (.createTableStmt, true)
  | .keyword .INDEX => some (.createIndexStmt, false)
  | .keyword .VIEW => some (.createViewStmt, true)
  | .keyword .TRIGGER => some (.createTriggerStmt, true)
  | .keyword .SCHEMA | .keyword .DATABASE => some (.createSchemaStmt, false)
  | _ => none

/-- What stands after `CREATE ... [IF NOT EXISTS]`, on the node of the statement. -/
def creationBody (self : Nested) (statement : Tree) : Parser Tree := do
  match statement.kind with
  | .createTableStmt => createTable self statement
  | .createIndexStmt => createIndex self statement
  | .createViewStmt => createView self statement
  | .createTriggerStmt => createTrigger self statement
  | _ => attach statement (← objectName .objectName)

/-- `TEMP` or `TEMPORARY`, if one follows. -/
def temporary? : Parser Bool := do
  if ← consumeKeyword .TEMP then return true else consumeKeyword .TEMPORARY

/-- `IF NOT EXISTS` as a mark of a statement, if it follows. -/
def ifNotExists? (statement : Tree) : Parser Tree := do
  if ← consumeKeyword .IF then
    discard <| expectKeyword .NOT
    discard <| expectKeyword .EXISTS
    flag statement .ifNotExists
  else return statement

/-- The kind of what `CREATE` makes, which the token `t` names, if the words before it allow it. -/
def creationKind (temporary unique : Bool) (t : Token) : Parser Kind := do
  match creationKind? t.kind with
  | none => unexpected "TABLE, INDEX, VIEW, TRIGGER or SCHEMA"
  | some (kind, mayBeTemporary) =>
    if temporary && !mayBeTemporary then fail (.atToken .temporaryNotAllowed t)
    else if unique && kind != .createIndexStmt then fail (.atToken .uniqueNotAllowed t)
    else return kind

/-- `CREATE [TEMP] [UNIQUE] {TABLE|INDEX|VIEW|TRIGGER|SCHEMA} [IF NOT EXISTS] ...`. -/
def create (self : Nested) : Parser Tree := do
  let start ← expectKeyword .CREATE
  let temporary ← temporary?
  let unique ← consumeKeyword .UNIQUE
  let some t ← current | unexpected "TABLE, INDEX, VIEW, TRIGGER or SCHEMA"
  let kind ← creationKind temporary unique t
  discard advance
  let statement ← flagIf temporary .temporary (← nodeAt kind start)
  let statement ← flagIf unique .unique statement
  finish (← creationBody self (← ifNotExists? statement))

/-- `CASCADE` or `RESTRICT`, if one follows, as a mark of the node. -/
def dropBehavior? (statement : Tree) : Parser Tree := do
  if ← consumeKeyword .CASCADE then flag statement .cascade
  else if ← consumeKeyword .RESTRICT then flag statement .restrict
  else return statement

/-- `IF EXISTS` as a mark of a statement, if it follows. -/
def ifExists? (statement : Tree) : Parser Tree := do
  if ← consumeKeyword .IF then
    discard <| expectKeyword .EXISTS
    flag statement .ifExists
  else return statement

/-- `DROP {TABLE|INDEX|VIEW|TRIGGER|SCHEMA} [IF EXISTS] names [CASCADE|RESTRICT]`. -/
def drop : Parser Tree := do
  let start ← expectKeyword .DROP
  match ← takeIf? fun t => (creationKind? t.kind).isSome with
  | none => unexpected "TABLE, INDEX, VIEW, TRIGGER or SCHEMA"
  | some t =>
    let statement ← ifExists? (← setText (← nodeAt .dropStmt start) t)
    let statement ← attachList (objectName .objectName) statement
    finish (← dropBehavior? statement)

/-- `TO name` after `RENAME`, whose token is `t`. -/
def renameTable (t : Token) : Parser Tree := do
  let name ← expectName "table name"
  setText (← nodeAt .renameTable t) name

/-- `[COLUMN] name TO name` after `RENAME`, whose token is `t`. -/
def renameColumn (t : Token) : Parser Tree := do
  discard <| consumeKeyword .COLUMN
  let before ← expectName "column name"
  discard <| expectKeyword .TO
  let after ← expectName "column name"
  let node ← nodeAt .renameColumn t
  let before ← namedNode .identifier before
  let after ← namedNode .identifier after
  attach (← attach node before) after

/-- What `ALTER TABLE name` does, after its keyword `t`. -/
def alteration (self : Nested) (t : Token) : Parser Tree := do
  match t.kind with
  | .keyword .RENAME => if ← consumeKeyword .TO then renameTable t else renameColumn t
  | .keyword .ADD =>
    discard <| consumeKeyword .COLUMN
    let node ← nodeAt .addColumn t
    attach node (← columnDefinition self)
  | .keyword .DROP =>
    discard <| consumeKeyword .COLUMN
    let name ← expectName "column name"
    setText (← nodeAt .dropColumn t) name
  | _ => fail (.unexpected "RENAME, ADD or DROP" t)

/-- `ALTER TABLE name` with one alteration. -/
def alter (self : Nested) : Parser Tree := do
  let start ← expectKeyword .ALTER
  discard <| expectKeyword .TABLE
  let statement ← nodeAt .alterTableStmt start
  let statement ← attach statement (← objectName .tableRef)
  let some t ← advance | unexpected "RENAME, ADD or DROP"
  finish (← attach statement (← finish (← alteration self t)))

/-- `TRUNCATE [TABLE] name`. -/
def truncate : Parser Tree := do
  let start ← expectKeyword .TRUNCATE
  discard <| consumeKeyword .TABLE
  let statement ← nodeAt .truncateStmt start
  finish (← attach statement (← objectName .tableRef))

end Schema

end SqlSyntax
