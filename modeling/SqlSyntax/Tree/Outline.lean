import SqlSyntax.Text.Source
import SqlSyntax.Tree

/-!
# Outlines

A tree as text: one line for each node in preorder, indented by two blanks for each level. A line
shows the kind and then what the node has of operator, name, data type and flags.
-/

namespace SqlSyntax

/-- The name of a node with its qualifier. -/
def Node.qualifiedName (source : Source) (n : Node) : Option String :=
  match n.qualifier.resolve source, n.text.resolve source with
  | some q, some t => some s!"{q}.{t}"
  | some q, none => some q
  | none, t => t

/-- The line of a node, without indentation and line end. -/
def Node.outline (source : Source) (n : Node) : String :=
  let parts := [
    n.operator.map Operator.sql,
    n.qualifiedName source,
    n.dataType.map fun t => s!"[{t.sql}]",
    if n.flags == .empty then none else some n.flags.render]
  " ".intercalate (n.kind.name :: parts.flatMap Option.toList)

namespace Tree

mutual
/-- The lines of a tree whose root is at a depth. -/
def outlineAt (source : Source) (depth : Nat) : Tree → Option String
  | .node n cs => do
    let below ← outlineAll source (depth + 1) cs
    let gap ← indent? (2 * depth)
    return gap ++ n.outline source ++ "\n" ++ below

/-- The lines of a list of trees at a depth. -/
def outlineAll (source : Source) (depth : Nat) : List Tree → Option String
  | [] => some ""
  | t :: ts => do
    let first ← outlineAt source depth t
    let others ← outlineAll source depth ts
    return first ++ others
end

/-- The tree as text, unless it is too deep for its lines to be indented. -/
def outline? (source : Source) (t : Tree) : Option String := t.outlineAt source 0

end Tree

end SqlSyntax
