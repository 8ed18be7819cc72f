import SqlSyntax.Grammar.Expression

/-!
# Queries

A query is one select core or more with set operators between them, which group to the left, and
then the order and the limit of the whole. A `WITH` before it becomes the first child of the
outermost node.
-/

namespace SqlSyntax

open SqlSyntax.Parser

namespace Query

/-- `*`, `table.*`, or an expression with an alias. -/
def resultColumn (self : Nested) : Parser Tree := do
  match ← take? .star with
  | some star => nodeAt .wildcard star
  | none =>
    if ← seesQualifiedStar then columnReference true
    else
      let value ← self.expression 0
      match ← aliasName? with
      | none => return value
      | some name => aliased (← attach (← nodeOver .resultColumn value) value) name

/-- Result columns with commas between them, under a node of a kind. -/
def resultColumns (self : Nested) (kind : Kind) : Parser Tree := do
  let some first ← current | unexpected "select item"
  finish (← attachList (resultColumn self) (← nodeAt kind first))

/-- A table name, a query in parentheses, or a join in parentheses. -/
def tablePrimary (self : Nested) : Parser Tree := do
  let some t ← current | unexpected "table"
  if t.kind != .leftParen then withAlias (← objectName .tableRef)
  else
    discard advance
    if ← Expression.seesQuery then
      withAlias (← Expression.subquery self .derivedTable t)
    else
      let tables ← self.joinTree
      discard <| expect .rightParen "')'"
      return tables

/-- The kind of a join and whether it says `OUTER`, if words of a join come next. -/
def joinKind? : Parser (Option (Kind × Bool)) := do
  let sided (kind : Kind) : Parser (Option (Kind × Bool)) := do
    discard advance
    return some (kind, ← consumeKeyword .OUTER)
  match ← currentKind with
  | some (.keyword .JOIN) => return some (.innerJoin, false)
  | some (.keyword .INNER) =>
    discard advance
    return some (.innerJoin, false)
  | some (.keyword .CROSS) =>
    discard advance
    return some (.crossJoin, false)
  | some (.keyword .LEFT) => sided .leftJoin
  | some (.keyword .RIGHT) => sided .rightJoin
  | some (.keyword .FULL) => sided .fullJoin
  | _ => return none

/-- A clause with one expression after its keyword, in a context of its own. -/
def clause (self : Nested) (kind : Kind) (context : Context) (t : Token) : Parser Tree := do
  let node ← nodeAt kind t
  finish (← attach node (← within context (self.expression 0)))

/-- `(name, ...)` after its `USING`. -/
def usingColumns (t : Token) : Parser Tree := do
  let node ← nodeAt .usingClause t
  discard <| expect .leftParen "'('"
  let node ← attachList columnName node
  discard <| expect .rightParen "')'"
  finish node

/-- `ON condition` or `USING (name, ...)` of a join, if one follows. -/
def joinCondition? (self : Nested) (join : Tree) : Parser Tree := do
  match ← takeKeyword? .ON with
  | some t => attach join (← clause self .onCondition .joinCondition t)
  | none =>
    match ← takeKeyword? .USING with
    | some t => attach join (← usingColumns t)
    | none => return join

/-- The tables on the left with the next table that is joined to them. -/
def joined? (self : Nested) (left : Tree) : Parser (Option Tree) := do
  let natural ← consumeKeyword .NATURAL
  match ← joinKind? with
  | none => if natural then unexpected "JOIN" else return none
  | some (kind, outer) =>
    discard <| expectKeyword .JOIN
    let right ← tablePrimary self
    let join ← flagIf natural .natural (← nodeOver kind left)
    let join ← flagIf outer .outer join
    let join ← attach (← attach join left) right
    return some (← finish (← joinCondition? self join))

/-- `WHERE condition` of a statement, if it follows. -/
def whereClause? (self : Nested) (statement : Tree) : Parser Tree := do
  match ← takeKeyword? .WHERE with
  | some t => attach statement (← clause self .whereClause .whereClause t)
  | none => return statement

/-- `FROM` with items of a sort, if it follows. -/
def fromClause? (item : Parser Tree) (statement : Tree) : Parser Tree := do
  match ← takeKeyword? .FROM with
  | some t =>
    let node ← nodeAt .fromClause t
    attach statement (← finish (← within .fromClause (attachList item node)))
  | none => return statement

/-- `GROUP BY exprs` of a query, if it follows. -/
def groupBy? (self : Nested) (select : Tree) : Parser Tree := do
  match ← takeKeyword? .GROUP with
  | some t =>
    discard <| expectKeyword .BY
    let node ← nodeAt .groupByClause t
    attach select (← finish (← within .groupByClause (attachList (self.expression 0) node)))
  | none => return select

/-- `HAVING condition` of a query, if it follows. -/
def having? (self : Nested) (select : Tree) : Parser Tree := do
  match ← takeKeyword? .HAVING with
  | some t => attach select (← clause self .havingClause .havingClause t)
  | none => return select

/-- `(expr, ...)` as a row of `VALUES`. -/
def valuesRow (self : Nested) : Parser Tree := do
  let row ← nodeAt .valuesRow (← expect .leftParen "'('")
  let row ← attachList (self.expression 0) row
  discard <| expect .rightParen "')'"
  finish row

/-- `VALUES row, ...` under a node of a kind. -/
def values (self : Nested) (kind : Kind) : Parser Tree := do
  let node ← nodeAt kind (← expectKeyword .VALUES)
  finish (← attachList (valuesRow self) node)

/-- `DISTINCT` or `ALL`, if one follows, as a mark of the node. -/
def quantifier? (node : Tree) : Parser Tree := do
  if ← consumeKeyword .DISTINCT then flag node .distinct
  else if ← consumeKeyword .ALL then flag node .all
  else return node

/-- `SELECT` with its clauses. -/
def select (self : Nested) : Parser Tree := do
  let node ← quantifier? (← nodeAt .selectStmt (← expectKeyword .SELECT))
  let node ← attach node (← within .selectList (resultColumns self .selectList))
  let node ← fromClause? self.joinTree node
  let node ← whereClause? self node
  let node ← groupBy? self node
  finish (← having? self node)

/-- `SELECT` or `VALUES` without set operators. -/
def core (self : Nested) : Parser Tree := do
  if ← seesKeyword .VALUES then values self .valuesStmt else select self

/-- A set operator and whether it keeps duplicates, if one follows. -/
def setOperator? : Parser (Option (Token × Bool)) := do
  match ← takeKeyword? .UNION with
  | some t =>
    if ← consumeKeyword .ALL then return some (t, true)
    else
      discard <| consumeKeyword .DISTINCT
      return some (t, false)
  | none =>
    let other ← takeIf? fun t => t.kind == .keyword .INTERSECT || t.kind == .keyword .EXCEPT
    return other.map (·, false)

/-- The query on the left with the next operand of a set operation. -/
def combined? (self : Nested) (left : Tree) : Parser (Option Tree) := do
  match ← setOperator? with
  | none => return none
  | some (t, all) =>
    let right ← core self
    let node ← setText (← nodeOver .compoundSelect left) t
    let node ← flagIf all .all node
    return some (← finish (← attach (← attach node left) right))

/-- The numbers of a `LIMIT` whose first is read: the count stands under the node, and a number
that is skipped first under a node of its own. -/
def limitNumbers (self : Nested) (limit first : Tree) : Parser (Tree × Option Tree) := do
  match ← take? .comma with
  | some comma =>
    let limit ← attach limit (← self.expression 0)
    let offset ← nodeAt .offsetClause comma
    return (limit, some (← attach offset first))
  | none =>
    let limit ← attach limit first
    match ← takeKeyword? .OFFSET with
    | some word =>
      let offset ← nodeAt .offsetClause word
      return (limit, some (← attach offset (← self.expression 0)))
    | none => return (limit, none)

/-- The node of a skipped number under a query, if there is one. -/
def attachOffset (query : Tree) : Option Tree → Parser Tree
  | some offset => do attach query (← finish offset)
  | none => return query

/-- `LIMIT count [OFFSET skip]` or `LIMIT skip, count` of a query, if it follows. -/
def limit? (self : Nested) (query : Tree) : Parser Tree := do
  match ← takeKeyword? .LIMIT with
  | none => return query
  | some t =>
    let limit ← nodeAt .limitClause t
    let first ← self.expression 0
    let (limit, offset) ← limitNumbers self limit first
    attachOffset (← attach query (← finish limit)) offset

/-- A query without a `WITH`. -/
def body (self : Nested) : Parser Tree := do
  let query ← iterate (combined? self) (← core self)
  let query ← attachIf (← seesKeyword .ORDER) (Expression.orderBy self) query
  finish (← limit? self query)

/-- `name [(columns)] AS (query)`. -/
def commonTable (self : Nested) : Parser Tree := do
  let name ← expectName "common table expression name"
  let node ← namedNode .commonTableExpr name
  let node ← attachIf (← sees .leftParen) columnList node
  discard <| expectKeyword .AS
  discard <| expect .leftParen "'('"
  let query ← within .subquery self.query
  discard <| expect .rightParen "')'"
  finish (← attach node query)

/-- `WITH [RECURSIVE]` and its tables. -/
def withClause (self : Nested) : Parser Tree := do
  let node ← nodeAt .withClause (← expectKeyword .WITH)
  let node ← flagIf (← consumeKeyword .RECURSIVE) .recursive node
  finish (← attachList (commonTable self) node)

/-- A query after its `WITH`. -/
def afterWith (self : Nested) (clause : Tree) : Parser Tree := do
  finish (← prepend (← body self) clause)

end Query

/-- A query with its own `WITH`. -/
def query (self : Nested) : Parser Tree := deeper do
  if ← seesKeyword .WITH then Query.afterWith self (← Query.withClause self)
  else Query.body self

/-- A table with the tables joined to it. -/
def joinTree (self : Nested) : Parser Tree := deeper do
  iterate (Query.joined? self) (← Query.tablePrimary self)

end SqlSyntax
