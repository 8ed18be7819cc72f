import SqlSyntax.Grammar.Name
import SqlSyntax.Grammar.Power
import SqlSyntax.Grammar.TypeName

/-!
# Expressions

An expression is an operand and then operators, each taken as long as it binds at least as tightly
as asked for. What stands to the right of an operator is an expression of its right power, so
`1 + 2 * 3 - 4` groups as powers tell and chains group to the left.

An operator node after its left operand is numbered before or after the right one as each
construct says: `BETWEEN`, `LIKE`, `IS` and `IN` come before, the plain operators after.
-/

namespace SqlSyntax

open SqlSyntax.Parser

namespace Expression

/-- `NULLS FIRST` or `NULLS LAST` on a node, if one follows. -/
def nullsOrder (item : Tree) : Parser Tree := do
  if ← consumeKeyword .NULLS then
    if ← consumeKeyword .FIRST then flag item .nullsFirst
    else
      discard <| expectKeyword .LAST
      flag item .nullsLast
  else return item

/-- `expr [ASC|DESC] [NULLS FIRST|LAST]`. -/
def orderByItem (self : Nested) : Parser Tree := do
  let key ← self.expression 0
  let item ← attach (← nodeOver .orderByItem key) key
  finish (← nullsOrder (← direction item))

/-- An `ORDER BY` clause. -/
def orderBy (self : Nested) : Parser Tree := do
  let t ← expectKeyword .ORDER
  discard <| expectKeyword .BY
  let clause ← nodeAt .orderByClause t
  finish (← within .orderByClause (attachList (orderByItem self) clause))

/-- Whether a query comes next. -/
def seesQuery : Parser Bool := seesOneOf [.SELECT, .WITH, .VALUES]

/-- A query after its opening parenthesis under a node, up to the closing one. -/
def enclosedQuery (self : Nested) (node : Tree) : Parser Tree := do
  let node ← attach node (← within .subquery self.query)
  discard <| expect .rightParen "')'"
  finish node

/-- `(query)` as an expression or a table, after its opening parenthesis. -/
def subquery (self : Nested) (kind : Kind) (opening : Token) : Parser Tree := do
  enclosedQuery self (← flag (← nodeAt kind opening) .isSubquery)

/-- A row `(a, b)` after its first expression. -/
def row (self : Nested) (opening : Token) (first : Tree) : Parser Tree := do
  let node ← attach (← nodeAt .rowValue opening) first
  let node ← attachWhile (afterComma? (self.expression 0)) node
  discard <| expect .rightParen "')'"
  finish node

/-- An expression with its parentheses: a node of its own, or a mark in a compact tree. -/
def enclosed (opening : Token) (inner : Tree) : Parser Tree := do
  if (← read).config.compactTree then flag inner .parenthesized
  else finish (← attach (← nodeAt .parenExpr opening) inner)

/-- `(expr)`, a row `(a, b)` or a query in parentheses. -/
def parenthesized (self : Nested) : Parser Tree := deeper do
  let opening ← expect .leftParen "'('"
  if ← seesQuery then subquery self .subqueryExpr opening
  else
    let first ← self.expression 0
    if ← sees .comma then row self opening first
    else
      discard <| expect .rightParen "')'"
      enclosed opening first

/-- The kind of a literal or a parameter. -/
def literalKind? : TokenKind → Option Kind
  | .integer => some .integerLiteral
  | .float => some .floatLiteral
  | .string => some .stringLiteral
  | .blob => some .blobLiteral
  | .keyword .TRUE | .keyword .FALSE => some .booleanLiteral
  | .keyword .NULL => some .nullLiteral
  | .parameter => some .parameter
  | _ => none

/-- A literal or a parameter of a kind. -/
def literal (kind : Kind) (t : Token) : Parser Tree := do
  let node ← namedNode kind t
  if kind == .booleanLiteral then amend node fun n => { n with dataType := some .boolean }
  else return node

/-- `PARTITION BY exprs` of a window, if it follows. -/
def partition? (self : Nested) (node : Tree) : Parser Tree := do
  match ← takeKeyword? .PARTITION with
  | some t =>
    discard <| expectKeyword .BY
    let clause ← nodeAt .partitionByClause t
    attach node (← finish (← attachList (self.expression 0) clause))
  | none => return node

/-- The window after its `OVER`: a name, or `([PARTITION BY exprs] [ORDER BY items])`. -/
def window (self : Nested) (word : Token) : Parser Tree := do
  if ← sees .leftParen then
    discard advance
    let node ← partition? self (← nodeAt .windowSpec word)
    let node ← attachIf (← seesKeyword .ORDER) (orderBy self) node
    discard <| expect .rightParen "')'"
    finish node
  else
    let name ← expectName "window name"
    finish (← setText (← nodeAt .windowSpec word) name)

/-- `OVER window` of a call, if it follows. -/
def over? (self : Nested) (node : Tree) : Parser Tree := do
  match ← takeKeyword? .OVER with
  | some word => attach node (← window self word)
  | none => return node

/-- `*` or `[DISTINCT] args`, or nothing before the closing parenthesis. -/
def arguments (self : Nested) (node : Tree) : Parser Tree := do
  if ← consume .star then flag node .starArgs
  else if ← sees .rightParen then return node
  else
    let node ← flagIf (← consumeKeyword .DISTINCT) .distinct node
    within .functionArgument (attachList (self.expression 0) node)

/-- `name([DISTINCT] args)` or `name(*)`, with a window after it. -/
def call (self : Nested) : Parser Tree := do
  let some name ← advance | unexpected "function name"
  let node ← namedNode .functionCall name
  discard <| expect .leftParen "'('"
  let node ← arguments self node
  discard <| expect .rightParen "')'"
  finish (← over? self node)

/-- A type name on a node. -/
def setType (node : Tree) : Parser Tree := do
  let (text, dataType) ← typeName
  amend node fun n => { n with text, dataType := some dataType }

/-- `CAST(expr AS type)`. -/
def cast (self : Nested) : Parser Tree := do
  let node ← nodeAt .castExpr (← expectKeyword .CAST)
  discard <| expect .leftParen "'('"
  let node ← attach node (← within .functionArgument (self.expression 0))
  discard <| expectKeyword .AS
  let node ← setType node
  discard <| expect .rightParen "')'"
  finish node

/-- `EXTRACT(unit FROM expr)`. -/
def extract (self : Nested) : Parser Tree := do
  let node ← nodeAt .extractExpr (← expectKeyword .EXTRACT)
  discard <| expect .leftParen "'('"
  let node ← setText node (← expectNamePart "date/time field")
  discard <| expectKeyword .FROM
  let node ← attach node (← within .functionArgument (self.expression 0))
  discard <| expect .rightParen "')'"
  finish node

/-- `WHEN condition THEN result`, if it follows. -/
def whenArm? (self : Nested) : Parser (Option Tree) := do
  match ← takeKeyword? .WHEN with
  | none => return none
  | some t =>
    let arm ← nodeAt .whenClause t
    let condition ← self.expression 0
    discard <| expectKeyword .THEN
    let result ← self.expression 0
    return some (← finish (← attach (← attach arm condition) result))

/-- `ELSE result`, if it follows. -/
def otherwise? (self : Nested) (node : Tree) : Parser Tree := do
  match ← takeKeyword? .ELSE with
  | some t =>
    let clause ← nodeAt .elseClause t
    attach node (← finish (← attach clause (← self.expression 0)))
  | none => return node

/-- One arm of a `CASE` or more. -/
def arms (self : Nested) (node : Tree) : Parser Tree := do
  match ← whenArm? self with
  | some arm => attachWhile (whenArm? self) (← attach node arm)
  | none => unexpected "WHEN"

/-- `CASE [operand] WHEN .. THEN .. [ELSE ..] END`. -/
def caseOf (self : Nested) : Parser Tree := do
  let node ← nodeAt .caseExpr (← expectKeyword .CASE)
  let node ← within .caseExpression do
    let node ← attachIf (!(← seesKeyword .WHEN)) (self.expression 0) node
    let node ← otherwise? self (← arms self node)
    discard <| expectKeyword .END
    return node
  finish node

/-- `EXISTS (query)`. -/
def existence (self : Nested) : Parser Tree := do
  let node ← nodeAt .existsExpr (← expectKeyword .EXISTS)
  discard <| expect .leftParen "'('"
  enclosedQuery self node

/-- `POSITION(needle IN haystack)`. -/
def position (self : Nested) : Parser Tree := do
  let some t ← advance | unexpected "POSITION"
  let node ← nodeAt .positionExpr t
  discard <| expect .leftParen "'('"
  let node ← within .functionArgument do
    let needle ← self.expression Power.comparison
    discard <| expectKeyword .IN
    let haystack ← self.expression 0
    attach (← attach node needle) haystack
  discard <| expect .rightParen "')'"
  finish node

/-- `s FROM start [FOR length]` or `s, start [, length]`. -/
def substringArguments (self : Nested) (node : Tree) : Parser Tree := do
  let node ← attach node (← self.expression 0)
  if ← consumeKeyword .FROM then
    let node ← attach node (← self.expression 0)
    attachIf (← consumeKeyword .FOR) (self.expression 0) node
  else
    discard <| expect .comma "FROM or ','"
    let node ← attach node (← self.expression 0)
    attachIf (← consume .comma) (self.expression 0) node

/-- `SUBSTRING(s FROM start [FOR length])` or `SUBSTRING(s, start [, length])`. -/
def substring (self : Nested) : Parser Tree := do
  let some t ← advance | unexpected "SUBSTRING"
  let node ← nodeAt .substringExpr t
  discard <| expect .leftParen "'('"
  let node ← within .functionArgument (substringArguments self node)
  discard <| expect .rightParen "')'"
  finish node

/-- A name, or a call if a parenthesis follows it. -/
def named (self : Nested) (t : Token) : Parser Tree := do
  if (← kindAt 1) != some .leftParen then columnReference false
  else if t.kind == .identifier && sameWord t.text "POSITION" then position self
  else if t.kind == .identifier && sameWord t.text "SUBSTRING" then substring self
  else call self

/-- An operand without operators around it. -/
def primary (self : Nested) : Parser Tree := do
  let some t ← current | unexpected "expression"
  match literalKind? t.kind with
  | some kind =>
    discard advance
    literal kind t
  | none =>
    match t.kind with
    | .leftParen => parenthesized self
    | .keyword .CASE => caseOf self
    | .keyword .CAST => cast self
    | .keyword .EXTRACT => extract self
    | .keyword .EXISTS => existence self
    | .keyword .LEFT | .keyword .RIGHT =>
      if (← kindAt 1) == some .leftParen then call self else unexpected "expression"
    | _ => if t.isName then named self t else unexpected "expression"

/-- The operator `t` before its operand, whose operators bind at least as tightly as `power`. -/
def unary (self : Nested) (t : Token) (power : Nat) : Parser Tree := do
  let inner ← self.expression power
  let node ← nodeAt .unaryExpr t
  let node ← amend node fun n => { n with operator := (UnaryOp.ofToken? t.kind).map .unary }
  finish (← attach node inner)

/-- An operand with the operators before it. -/
def operand (self : Nested) : Parser Tree := do
  let some t ← current | unexpected "expression"
  match Power.leading? t.kind with
  | none => primary self
  | some power =>
    discard advance
    if t.kind == .keyword .NOT && (← seesKeyword .EXISTS) then
      flag (← existence self) .negated
    else unary self t power

/-- The items of a list in parentheses under a node, of which there may be none. -/
def listItems (self : Nested) (list : Tree) : Parser Tree := do
  if ← sees .rightParen then return list
  else attachList (self.expression 0) list

/-- The list after `IN` and its opening parenthesis. -/
def memberList (self : Nested) (opening : Token) : Parser Tree := do
  let list ← listItems self (← nodeAt .exprList opening)
  discard <| expect .rightParen "')'"
  finish list

/-- `IN` after its keyword, with a list or a query. -/
def membership (self : Nested) (left : Tree) : Parser Tree := do
  let node ← attach (← nodeOver .inExpr left) left
  let opening ← expect .leftParen "'('"
  if ← seesQuery then attach node (← subquery self .subqueryExpr opening)
  else attach node (← memberList self opening)

/-- `BETWEEN low AND high`, after its keyword. -/
def range (self : Nested) (left : Tree) (power : Nat) : Parser Tree := do
  let node ← nodeOver .betweenExpr left
  let low ← self.expression power
  discard <| expectKeyword .AND
  let high ← self.expression power
  attach (← attach (← attach node left) low) high

/-- Gives a tree an operator between two operands. -/
def setOperator (node : Tree) (op : BinaryOp) : Parser Tree :=
  amend node fun n => { n with operator := some (.binary op) }

/-- `LIKE pattern [ESCAPE text]` or `GLOB pattern`, after its keyword. -/
def likeness (self : Nested) (left : Tree) (op : BinaryOp) (power : Nat) : Parser Tree := do
  let node ← setOperator (← nodeOver .likeExpr left) op
  let pattern ← self.expression power
  let node ← attach (← attach node left) pattern
  attachIf (← consumeKeyword .ESCAPE) (self.expression power) node

/-- `IS [NOT] operand`, after its keyword. -/
def identity (self : Nested) (left : Tree) (power : Nat) : Parser Tree := do
  let node ← setOperator (← nodeOver .isExpr left) .is
  let negated ← consumeKeyword .NOT
  let right ← self.expression power
  flagIf negated .negated (← attach (← attach node left) right)

/-- A plain operator between two operands, after its token. -/
def binary (self : Nested) (left : Tree) (t : Token) (power : Nat) : Parser Tree := do
  if (← read).config.strictAnsi && (t.text == "==" || t.text == "!=") then
    fail (.atToken (.operatorSpelling t.text) t)
  else
    match BinaryOp.ofToken? t.kind with
    | none => fail (.atToken .unknownOperator t)
    | some op =>
      let right ← self.expression power
      let node ← setOperator (← nodeOver .binaryExpr left) op
      attach (← attach node left) right

/-- The operator `op` after an operand, which is already taken, with its other operands. -/
def application (self : Nested) (left : Tree) (op : Token) (power : Nat) : Parser Tree :=
  match op.kind with
  | .keyword .IN => membership self left
  | .keyword .BETWEEN => range self left power
  | .keyword .LIKE => likeness self left .like power
  | .keyword .GLOB => likeness self left .glob power
  | .keyword .IS => identity self left power
  | _ => binary self left op power

/-- The operator `t` after an operand, maybe with a `NOT` before it, with its other operands. -/
def joining (self : Nested) (left : Tree) (t : Token) (power : Nat) : Parser Tree := do
  discard advance
  if t.kind == .keyword .NOT then
    let some op ← advance | unexpected "IN, LIKE, GLOB or BETWEEN"
    finish (← flag (← application self left op power) .negated)
  else finish (← application self left t power)

/-- `::type` after an operand and the sign. -/
def signCast (left : Tree) (t : Token) : Parser Tree := do
  let config := (← read).config
  if config.strictAnsi || !config.allowExtensions then fail (.atToken .castSpelling t)
  else finish (← setType (← attach (← nodeOver .castExpr left) left))

/-- `COLLATE name` after an operand and the keyword. -/
def collation (left : Tree) : Parser Tree := do
  let name ← expectNamePart "collation name"
  let node ← setText (← nodeOver .collateExpr left) name
  finish (← attach node left)

/-- `COLLATE name` or `::type` after an operand. -/
def trailing (left : Tree) (t : Token) : Parser Tree := do
  discard advance
  if t.kind == .doubleColon then signCast left t else collation left

/-- The operand with the next operator that binds at least as tightly as `power`. -/
def grow? (self : Nested) (power : Nat) (left : Tree) : Parser (Option Tree) := do
  let some t ← current | return none
  match Power.trailing? t.kind with
  | some p => if p < power then return none else return some (← trailing left t)
  | none =>
    match Power.joining? t.kind (← kindAt 1) with
    | some (l, r) => if l < power then return none else return some (← joining self left t r)
    | none => return none

end Expression

/-- An expression whose operators bind at least as tightly as `power`. -/
def expression (self : Nested) (power : Nat) : Parser Tree := deeper do
  iterate (Expression.grow? self power) (← Expression.operand self)

end SqlSyntax
