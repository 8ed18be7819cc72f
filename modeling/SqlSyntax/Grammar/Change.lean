import SqlSyntax.Grammar.Query

/-!
# Changes of data

`INSERT`, `REPLACE`, `UPDATE` and `DELETE`, each with a `RETURNING` at its end.
-/

namespace SqlSyntax

open SqlSyntax.Parser

namespace Change

/-- What to do on a conflict. -/
def conflictWord : Parser Token := do
  let actions : List Keyword := [.ROLLBACK, .ABORT, .REPLACE, .FAIL, .IGNORE]
  match ← takeIf? (·.keyword?.any actions.contains) with
  | some t => return t
  | none => unexpected "ROLLBACK, ABORT, REPLACE, FAIL or IGNORE"

/-- What to do on a conflict, as a node that starts at the words before it. -/
def conflictAction (start word : Token) : Parser Tree := do
  finish (← setText (← nodeAt .conflictAction start) word)

/-- `OR action` of a statement, if it follows. -/
def orAction? (statement : Tree) : Parser Tree := do
  match ← takeKeyword? .OR with
  | some t =>
    let word ← conflictWord
    let statement ← attach statement (← conflictAction t word)
    flagIf (word.kind == .keyword .REPLACE) .replace statement
  | none => return statement

/-- `RETURNING columns` of a statement, if it follows. -/
def returning? (self : Nested) (statement : Tree) : Parser Tree := do
  if ← consumeKeyword .RETURNING then
    attach statement (← within .selectList (Query.resultColumns self .returningClause))
  else return statement

/-- What stands before the `=` of an assignment: `column` or `(column, ...)`. -/
def assigned : Parser Tree := do
  let some t ← current | unexpected "column name"
  if t.kind == .leftParen then
    let node ← nodeAt .assignment t
    attach node (← columnList)
  else namedNode .assignment (← expectName "column name")

/-- `=` or `TO`. -/
def assignmentSign : Parser Unit := do
  if ← consume .eq then return ()
  else if ← consumeKeyword .TO then return ()
  else unexpected "'='"

/-- `column = value` or `(column, ...) = value`. -/
def assignment (self : Nested) : Parser Tree := do
  let node ← assigned
  assignmentSign
  finish (← attach node (← self.expression 0))

/-- Columns that are inserted into, unless the parenthesis that follows opens a query. -/
def insertColumns? (statement : Tree) : Parser Tree := do
  if ← sees .leftParen then
    match ← kindAt 1 with
    | some (.keyword .SELECT) | some (.keyword .WITH) | some (.keyword .VALUES) =>
      return statement
    | _ => attach statement (← columnList)
  else return statement

/-- What is inserted: rows, a query, or nothing but defaults. -/
def insertSource (self : Nested) (statement : Tree) : Parser Tree := do
  match ← currentKind with
  | some (.keyword .VALUES) => attach statement (← Query.values self .valuesClause)
  | some (.keyword .DEFAULT) =>
    discard advance
    discard <| expectKeyword .VALUES
    flag statement .defaultValues
  | some (.keyword .SELECT) | some (.keyword .WITH) => attach statement (← self.query)
  | some .leftParen =>
    discard advance
    let query ← within .subquery self.query
    discard <| expect .rightParen "')'"
    attach statement query
  | _ => unexpected "VALUES, SELECT or DEFAULT VALUES"

/-- The table that is inserted into, with an alias only after `AS`. -/
def insertTable : Parser Tree := do
  let table ← objectName .tableRef
  if ← seesKeyword .AS then withAlias table else return table

/-- `REPLACE` as a mark of an insertion whose first word it is, or `OR action`. -/
def insertAction (statement : Tree) (word : Token) : Parser Tree :=
  if word.kind == .keyword .REPLACE then flag statement .replace else orAction? statement

/-- `INSERT [OR action] INTO ...` or `REPLACE INTO ...`. -/
def insert (self : Nested) : Parser Tree := do
  let some t ← advance | unexpected "INSERT"
  let statement ← insertAction (← nodeAt .insertStmt t) t
  discard <| expectKeyword .INTO
  let statement ← attach statement (← insertTable)
  let statement ← insertSource self (← insertColumns? statement)
  finish (← returning? self statement)

/-- A table with its alias, if one follows. -/
def target : Parser Tree := do withAlias (← objectName .tableRef)

/-- `SET column = value, ...` as a clause. -/
def setClause (self : Nested) : Parser Tree := do
  let clause ← nodeAt .setClause (← expectKeyword .SET)
  finish (← attachList (assignment self) clause)

/-- `UPDATE [OR action] table SET assignments [FROM tables] [WHERE condition]`. -/
def update (self : Nested) : Parser Tree := do
  let statement ← orAction? (← nodeAt .updateStmt (← expectKeyword .UPDATE))
  let statement ← attach statement (← target)
  let statement ← attach statement (← setClause self)
  let statement ← Query.fromClause? target statement
  let statement ← Query.whereClause? self statement
  finish (← returning? self statement)

/-- `DELETE FROM table [WHERE condition]`. -/
def delete (self : Nested) : Parser Tree := do
  let statement ← nodeAt .deleteStmt (← expectKeyword .DELETE)
  discard <| expectKeyword .FROM
  let statement ← attach statement (← target)
  let statement ← Query.whereClause? self statement
  finish (← returning? self statement)

end Change

end SqlSyntax
