import SqlSyntax.Config
import SqlSyntax.Keyword
import SqlSyntax.Tree
import SqlSyntax.Validation.Breach

/-!
# Rules for whole statements

Rules that a statement has to keep beyond the grammar: how clauses depend on one another, how wide
queries and rows are, where aggregates may stand, and that names differ. Each node is checked on
its own, and the violations of a tree come in the preorder of the nodes that were checked.
-/

namespace SqlSyntax

namespace Validation

/-- Functions that aggregate rows when they are called without a window. -/
def aggregates : List String := [
  "COUNT", "SUM", "AVG", "MIN", "MAX", "TOTAL", "GROUP_CONCAT", "STRING_AGG", "ARRAY_AGG", "EVERY"]

/-- Whether a tree is a call of an aggregate. -/
def isAggregate (source : Source) (t : Tree) : Bool :=
  t.kind == .functionCall && (t.child? .windowSpec).isNone &&
    aggregates.contains (foldCase (t.name source))

/-- A breach at the root of a tree. -/
def violation (breach : Breach) (t : Tree) : Violation :=
  ⟨breach, t.head.location, t.head.span, t.head.id⟩

/-! ## Groups -/

mutual
/-- Whether a tree has one value over a group: aggregates, literals, parameters, queries and
expressions over those. -/
def isGroupConstant (source : Source) : Tree → Bool
  | .node n cs =>
    if n.kind.isLiteral then true
    else
      match n.kind with
      | .parameter | .alias | .subqueryExpr | .existsExpr => true
      | .columnRef | .wildcard | .qualifiedWildcard => false
      | _ => isAggregate source (.node n cs) || areGroupConstant source cs

def areGroupConstant (source : Source) : List Tree → Bool
  | [] => true
  | t :: ts => isGroupConstant source t && areGroupConstant source ts
end

/-- `HAVING` needs `GROUP BY`; in permissive mode it may also have one group of all rows. -/
def checkHaving (source : Source) (mode : Mode) (select : Tree) : List Violation :=
  match select.child? .havingClause with
  | none => []
  | some having =>
    let grouped := (select.child? .groupByClause).isSome
    let single := mode == .permissive &&
      (select.child? .selectList).any fun list => areGroupConstant source list.children
    if grouped || single then [] else [violation .havingWithoutGroupBy having]

/-- A join has a condition unless it is a cross or natural join. -/
def checkJoin (mode : Mode) (join : Tree) : List Violation :=
  let free := join.kind == .crossJoin || join.head.has .natural || mode == .permissive
  let hasCondition :=
    join.children.any fun c => c.kind == .onCondition || c.kind == .usingClause
  if free || hasCondition then [] else [violation .joinWithoutCondition join]

/-! ## Widths -/

mutual
/-- The number of columns of a query, unless a star leaves it open. -/
def arity? : Tree → Option Nat
  | .node n cs =>
    match n.kind with
    | .selectStmt => do
      let list ← cs.find? (·.kind == .selectList)
      if list.children.any fun c => c.kind == .wildcard || c.kind == .qualifiedWildcard then none
      else some list.children.length
    | .valuesStmt => (cs.find? (·.kind == .valuesRow)).map (·.children.length)
    | .compoundSelect => firstArity? cs
    | _ => none

/-- The number of columns of the first query among some trees. -/
def firstArity? : List Tree → Option Nat
  | [] => none
  | t :: ts => if t.kind.isQuery then arity? t else firstArity? ts
end

/-- The first two operands of a set operation are equally wide. -/
def checkCompound (source : Source) (compound : Tree) : List Violation :=
  match compound.children.filter (·.kind.isQuery) with
  | left :: right :: _ =>
    match arity? left, arity? right with
    | some l, some r =>
      if l = r then [] else [violation (.operandArity (compound.name source) l r) compound]
    | _, _ => []
  | _ => []

/-- The children of a list of rows are as wide as the first. -/
def checkRows (values : Tree) : List Violation :=
  match values.children with
  | [] => []
  | first :: rows =>
    let width := first.children.length
    (rows.filter (·.children.length != width)).map fun row =>
      violation (.rowArity row.children.length width) row

/-- What is inserted is as wide as the list of columns. -/
def checkInsert (insert : Tree) : List Violation :=
  match insert.child? .columnList with
  | none => []
  | some columns =>
    let width := columns.children.length
    insert.children.flatMap fun c =>
      if c.kind == .valuesClause then
        match c.children.head? with
        | some row =>
          if row.children.length = width then []
          else [violation (.insertRowArity row.children.length width) row]
        | none => []
      else if c.kind.isQuery then
        match arity? c with
        | some n => if n = width then [] else [violation (.insertQueryArity n width) c]
        | none => []
      else []

/-! ## Aggregates -/

mutual
/-- The aggregates of a query block, last child first, without those inside another aggregate or
another query block. -/
def outerAggregates (source : Source) : Tree → List Tree
  | .node n cs =>
    if n.kind.isQueryBlock then []
    else if isAggregate source (.node n cs) then [.node n cs]
    else outerAggregatesOf source cs

def outerAggregatesOf (source : Source) : List Tree → List Tree
  | [] => []
  | t :: ts => outerAggregatesOf source ts ++ outerAggregates source t
end

/-- A clause that chooses or groups rows has no aggregates. -/
def checkNoAggregates (source : Source) (clause : Tree) : List Violation :=
  let name := if clause.kind == .whereClause then "WHERE" else "GROUP BY"
  (outerAggregatesOf source clause.children).map fun t =>
    violation (.misplacedAggregate (t.name source) name) t

/-! ## Names -/

/-- Some trees, each with whether its name in upper case was seen before. -/
def withRepeats (source : Source) : List String → List Tree → List (Tree × Bool)
  | _, [] => []
  | seen, t :: ts =>
    let name := foldCase (t.name source)
    (t, seen.contains name) :: withRepeats source (name :: seen) ts

/-- Whether a query reads the table of a name. -/
def readsTable (source : Source) (name : String) (body : Tree) : Bool :=
  body.preorder.any fun t =>
    t.kind == .tableRef && t.head.schema == .none && sameWord (t.name source) name

/-- A table that reads itself is a set operation. -/
def checkRecursion (source : Source) (table : Tree) : List Violation :=
  match table.children.find? (·.kind.isQuery) with
  | none => []
  | some body =>
    if readsTable source (table.name source) body && body.kind != .compoundSelect then
      [violation (.recursiveTable (table.name source)) table]
    else []

/-- The tables of a `WITH` have different names, and recursive ones an anchor. -/
def checkWith (source : Source) (clause : Tree) : List Violation :=
  (withRepeats source [] clause.children).flatMap fun (table, repeated) =>
    (if repeated then [violation (.duplicateTable (table.name source)) table] else []) ++
      (if clause.head.has .recursive then checkRecursion source table else [])

/-- The columns of a table have different names. -/
def checkColumns (source : Source) (table : Tree) : List Violation :=
  let columns := table.children.filter (·.kind == .columnDef)
  (withRepeats source [] columns).filterMap fun (column, repeated) =>
    if repeated then some (violation (.duplicateColumn (column.name source)) column) else none

/-- The rules for one node. -/
def check (source : Source) (mode : Mode) (t : Tree) : List Violation :=
  match t.kind with
  | .selectStmt => checkHaving source mode t
  | .compoundSelect => checkCompound source t
  | .valuesStmt | .valuesClause => checkRows t
  | .insertStmt => checkInsert t
  | .whereClause | .groupByClause => checkNoAggregates source t
  | .withClause => checkWith source t
  | .createTableStmt => checkColumns source t
  | kind => if kind.isJoin then checkJoin mode t else []

end Validation

/-- Every violation of a statement. -/
def validateAll (source : Source) (mode : Mode) (t : Tree) : List Violation :=
  t.preorder.flatMap (Validation.check source mode)

/-- The first violation of a statement. -/
def validate (source : Source) (mode : Mode) (t : Tree) : Option Violation :=
  (validateAll source mode t).head?

end SqlSyntax
