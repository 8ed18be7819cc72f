import SqlSyntax.Forest

/-!
# Walks with a stack

A walk gives one node at a time. It keeps a stack of the nodes that it has come to and not yet
given, the next one on top. The children of a node go onto the stack in its place, turned round so
that the first of them is on top.
-/

namespace SqlSyntax.Forest

/-- The nodes that a walk has come to and not yet given, the next one last. -/
structure Walk where
  stack : Array SlotHandle

namespace Walk

/-- A walk that begins at a node. -/
def start (h : SlotHandle) : Walk := ⟨#[h]⟩

/-- The handles from a place on in reverse order, those before it as they are. -/
def reverseFrom (mark : Nat) (stack : Array SlotHandle) : Array SlotHandle :=
  stack.extract 0 mark ++ (stack.extract mark stack.size).reverse

/-- The next node and what is left of the walk after it. -/
def next? (f : Forest) (w : Walk) : Option (SlotHandle × Walk) :=
  w.stack.back?.map fun h =>
    let rest := w.stack.pop
    (h, ⟨reverseFrom rest.size (rest ++ f.children h)⟩)

/-- The nodes of a walk that ends after so many at most. -/
def run? (f : Forest) (limit : Nat) (w : Walk) : Option (List SlotHandle) :=
  match w.next? f, limit with
  | none, _ => some []
  | some _, 0 => none
  | some (h, rest), limit + 1 => (rest.run? f limit).map (h :: ·)

end Walk

end SqlSyntax.Forest
