import SqlSyntax.DataType
import SqlSyntax.Flag
import SqlSyntax.Kind
import SqlSyntax.Operator
import SqlSyntax.Text.Position

/-!
# Syntax trees

A node says what it stands for and where it was found. Its texts are spans of the source, or
copies where the text differs from what was written. The identifier of a node is its place in the
order in which one run made its nodes; that order is not the order of `preorder`.
-/

namespace SqlSyntax

/-- A text of a node: missing, a span of the source, or a copy. -/
inductive Text where
  | none
  | slice (span : Span)
  | copied (value : String)
deriving DecidableEq, Inhabited

/-- The characters of a text; a span that is no piece of the source has none. -/
def Text.resolve (source : Source) : Text → Option String
  | .none => Option.none
  | .slice span => source.at? span
  | .copied value => some value

/-- The innermost construct that a node was made in. -/
inductive Context where
  | selectList | fromClause | whereClause | groupByClause | havingClause | orderByClause
  | joinCondition | caseExpression | functionArgument | subquery
deriving DecidableEq, Inhabited

def Context.name : Context → String
  | .selectList => "select list"
  | .fromClause => "FROM clause"
  | .whereClause => "WHERE clause"
  | .groupByClause => "GROUP BY clause"
  | .havingClause => "HAVING clause"
  | .orderByClause => "ORDER BY clause"
  | .joinCondition => "join condition"
  | .caseExpression => "CASE expression"
  | .functionArgument => "function argument"
  | .subquery => "subquery"

structure Node where
  kind : Kind
  id : Nat
  /-- The name, literal or keyword that the node holds. -/
  text : Text := .none
  /-- The table before a column or a star. -/
  qualifier : Text := .none
  schema : Text := .none
  catalog : Text := .none
  flags : Flags := .empty
  dataType : Option DataType := none
  operator : Option Operator := none
  context : Option Context := none
  location : Location
  span : Span
deriving DecidableEq, Inhabited

namespace Node

def has (n : Node) (f : Flag) : Bool := n.flags.has f

/-- The node with one more flag. -/
def mark (n : Node) (f : Flag) : Node := { n with flags := n.flags.insert f }

/-- The node with the parts of a qualified name, the last of which is its own. -/
def withName (n : Node) (parts : List Text) : Node :=
  { n with
    text := parts.reverse.getD 0 .none
    schema := parts.reverse.getD 1 .none
    catalog := parts.reverse.getD 2 .none }

/-- The node with the parts of a column name, the last of which is its own. -/
def withColumn (n : Node) (parts : List Text) : Node :=
  { n with
    text := parts.reverse.getD 0 .none
    qualifier := parts.reverse.getD 1 .none
    schema := parts.reverse.getD 2 .none
    catalog := parts.reverse.getD 3 .none }

end Node

inductive Tree where
  | node (head : Node) (children : List Tree)
deriving Inhabited

namespace Tree

def head : Tree → Node
  | .node n _ => n

def children : Tree → List Tree
  | .node _ cs => cs

def kind (t : Tree) : Kind := t.head.kind

def leaf (n : Node) : Tree := .node n []

/-- The tree with another root node above the same children. -/
def mapHead (f : Node → Node) : Tree → Tree
  | .node n cs => .node (f n) cs

/-- The tree with more children after those it has. -/
def append (t : Tree) (more : List Tree) : Tree := .node t.head (t.children ++ more)

/-- The tree with one more child before those it has. -/
def prepend (t child : Tree) : Tree := .node t.head (child :: t.children)

/-- The first child of a kind. -/
def child? (t : Tree) (kind : Kind) : Option Tree := t.children.find? (·.kind == kind)

mutual
/-- The subtrees, each before its children and these in order, with `rest` after them. -/
def preorderThen (rest : List Tree) : Tree → List Tree
  | .node n cs => .node n cs :: preorderAllThen rest cs

/-- The subtrees of a list of trees, one tree after the other, with `rest` after them. -/
def preorderAllThen (rest : List Tree) : List Tree → List Tree
  | [] => rest
  | t :: ts => preorderThen (preorderAllThen rest ts) t
end

/-- The subtrees, each before its children and these in order. -/
def preorder (t : Tree) : List Tree := preorderThen [] t

mutual
theorem preorderThen_eq (rest : List Tree) : ∀ t, preorderThen rest t = preorder t ++ rest
  | .node n cs => by
    simp only [preorder, preorderThen, preorderAllThen_eq rest cs, preorderAllThen_eq [] cs,
      List.append_nil, List.cons_append]

theorem preorderAllThen_eq (rest : List Tree) :
    ∀ ts, preorderAllThen rest ts = ts.flatMap preorder ++ rest
  | [] => rfl
  | t :: ts => by
    rw [preorderAllThen, preorderThen_eq _ t, preorderAllThen_eq rest ts, List.flatMap_cons,
      List.append_assoc]
end

theorem preorder_node (n : Node) (cs : List Tree) :
    preorder (.node n cs) = .node n cs :: cs.flatMap preorder := by
  rw [preorder, preorderThen, preorderAllThen_eq, List.append_nil]

mutual
/-- The subtrees in preorder, each with the node above it, with `rest` after them. -/
def withParentsThen (rest : List (Option Node × Tree)) (parent : Option Node) :
    Tree → List (Option Node × Tree)
  | .node n cs => (parent, .node n cs) :: withParentsAllThen rest n cs

/-- The subtrees of the children of a node in preorder, each with the node above it, with `rest`
after them. -/
def withParentsAllThen (rest : List (Option Node × Tree)) (parent : Node) :
    List Tree → List (Option Node × Tree)
  | [] => rest
  | t :: ts => withParentsThen (withParentsAllThen rest parent ts) (some parent) t
end

/-- The subtrees in preorder, each with the node above it. -/
def withParents (t : Tree) : List (Option Node × Tree) := withParentsThen [] none t

/-- The number of nodes. -/
def size (t : Tree) : Nat := t.preorder.length

/-- The first subtree of a kind in preorder. -/
def find? (t : Tree) (kind : Kind) : Option Tree := t.preorder.find? (·.kind == kind)

/-- The kinds of the nodes in preorder. -/
def shape (t : Tree) : List Kind := t.preorder.map kind

/-- The name of the root; empty if it has none. -/
def name (source : Source) (t : Tree) : String := (t.head.text.resolve source).getD ""

end Tree

end SqlSyntax
