import SqlSyntax.Storage.SlotArena
import SqlSyntax.Tree

/-!
# Forests

Nodes that can be put under one another and taken away again. A node knows its parent, its first
and last child and its next sibling, so that a child is appended or removed without a copy of the
others. Handles name nodes until the next reset or clear.

An edit that cannot be made fails, and what it had changed before that stays.
-/

namespace SqlSyntax

/-- The links of a node. -/
structure Links where
  parent : Option SlotHandle := none
  firstChild : Option SlotHandle := none
  lastChild : Option SlotHandle := none
  nextSibling : Option SlotHandle := none
  childCount : Nat := 0

structure Entry where
  node : Node
  links : Links := {}

structure Forest where
  entries : Array Entry := #[]
  generation : UInt32 := 0
  /-- Bytes of copied texts; an empty copy counts one. -/
  copied : Nat := 0
  /-- Whether a node or a copy was stored since the start or the last clear. -/
  holdsStorage : Bool := false

/-- Why an edit cannot be made. -/
inductive EditError where
  | ownChild
  | alreadyAttached (node : SlotHandle)
  | notAChild (node parent : SlotHandle)
  | stale (node : SlotHandle)
deriving DecidableEq

def EditError.message : EditError → String
  | .ownChild => "assertion `left != right` failed: a node cannot be its own child"
  | .alreadyAttached h => s!"node {h.render} is already attached"
  | .notAChild h p => s!"node {h.render} is not a child of {p.render}"
  | .stale h => s!"stale node handle {h.render}"

/-- Edits of a forest. -/
abbrev Edit := EStateM EditError Forest

namespace Forest

/-! ## Look-up -/

/-- The handle of the node that was stored after `slot` others. -/
def handle (f : Forest) (slot : Nat) : SlotHandle := ⟨0, slot, f.generation⟩

/-- The entry of a handle of this generation. -/
def get? (f : Forest) (h : SlotHandle) : Option Entry :=
  if h.generation = f.generation ∧ h.chunk = 0 then f.entries[h.slot]? else none

def isLive (f : Forest) (h : SlotHandle) : Bool := (f.get? h).isSome

/-- A node and its siblings after it, of which there are at most so many. -/
def siblings (f : Forest) : Nat → Option SlotHandle → List SlotHandle
  | 0, _ => []
  | _, none => []
  | n + 1, some h => h :: siblings f n ((f.get? h).bind (·.links.nextSibling))

/-- The children of a node in order. -/
def children (f : Forest) (h : SlotHandle) : List SlotHandle :=
  f.siblings f.entries.size ((f.get? h).bind (·.links.firstChild))

/-- The first child of a kind. -/
def findChild? (f : Forest) (h : SlotHandle) (kind : Kind) : Option SlotHandle :=
  (f.children h).find? fun c => (f.get? c).any (·.node.kind == kind)

/-- The trees below some live nodes, down to a depth. -/
def treesBelow (f : Forest) : Nat → List SlotHandle → List Tree
  | 0, _ => []
  | n + 1, hs => hs.filterMap fun h =>
      (f.get? h).map fun e => .node e.node (treesBelow f n (f.children h))

/-- The tree below a live node. No branch is longer than there are nodes. -/
def tree? (f : Forest) (h : SlotHandle) : Option Tree := (f.treesBelow f.entries.size [h]).head?

/-- The handles of a pending list, each with those below it before the next one; at most so many. -/
def walkFrom (f : Forest) : Nat → List SlotHandle → List SlotHandle
  | 0, _ => []
  | _, [] => []
  | n + 1, h :: pending => h :: walkFrom f n (f.children h ++ pending)

/-- A node and those below it in preorder; a handle that names nothing is alone. -/
def walk (f : Forest) (h : SlotHandle) : List SlotHandle := f.walkFrom (f.entries.size + 1) [h]

/-- The first node of a kind in preorder from a node on. -/
def find? (f : Forest) (h : SlotHandle) (kind : Kind) : Option SlotHandle :=
  (f.walk h).find? fun d => (f.get? d).any (·.node.kind == kind)

/-! ## Edits -/

/-- The entry of a handle that must name a node. -/
def entry (h : SlotHandle) : Edit Entry := do
  match (← get).get? h with
  | some e => return e
  | none => throw (.stale h)

/-- Changes the entry of a handle that must name a node. -/
def modifyEntry (h : SlotHandle) (change : Entry → Entry) : Edit Unit := do
  discard <| entry h
  modify fun f => { f with entries := f.entries.modify h.slot change }

/-- Changes the links of a handle that must name a node. -/
def relink (h : SlotHandle) (change : Links → Links) : Edit Unit :=
  modifyEntry h fun e => { e with links := change e.links }

/-- Changes the node of a handle that must name one. -/
def modifyNode (h : SlotHandle) (change : Node → Node) : Edit Unit :=
  modifyEntry h fun e => { e with node := change e.node }

/-- Stores a node that has no parent and no children. -/
def alloc (kind : Kind) (location : Location) (span : Span) : Edit SlotHandle :=
  modifyGet fun f =>
    (f.handle f.entries.size,
      { f with
        entries := f.entries.push { node := { kind, id := f.entries.size, location, span } }
        holdsStorage := true })

/-- Keeps a copy of a text. -/
def copy (text : String) : Edit Text :=
  modifyGet fun f =>
    (.copied text,
      { f with copied := f.copied + max text.utf8ByteSize 1, holdsStorage := true })

/-- Appends a child. It must have neither parent nor sibling. -/
def addChild (parent child : SlotHandle) : Edit Unit := do
  if parent = child then throw .ownChild
  let links := (← entry child).links
  if links.parent.isSome || links.nextSibling.isSome then throw (.alreadyAttached child)
  relink child fun l => { l with parent := some parent }
  if let some previous := (← entry parent).links.lastChild then
    relink previous fun l => { l with nextSibling := some child }
  relink parent fun l =>
    { l with
      firstChild := l.firstChild.or (some child)
      lastChild := some child
      childCount := l.childCount + 1 }

/-- The child before another one in a list of children, if that is in the list. -/
def previousIn (child : SlotHandle) : Option SlotHandle → List SlotHandle →
    Option (Option SlotHandle)
  | _, [] => none
  | previous, h :: hs => if h = child then some previous else previousIn child (some h) hs

/-- Takes a child away. It must be one of the children of the parent. -/
def removeChild (parent child : SlotHandle) : Edit Unit := do
  discard <| entry parent
  match previousIn child none ((← get).children parent) with
  | none => throw (.notAChild child parent)
  | some previous =>
    let next := (← entry child).links.nextSibling
    match previous with
    | some h => relink h fun l => { l with nextSibling := next }
    | none => relink parent fun l => { l with firstChild := next }
    relink parent fun l =>
      { l with
        lastChild := if l.lastChild = some child then previous else l.lastChild
        childCount := l.childCount - 1 }
    relink child fun l => { l with parent := none, nextSibling := none }

/-- Puts a child before the others, which are taken away and appended again. -/
def prependChild (parent child : SlotHandle) : Edit Unit := do
  let others := (← get).children parent
  others.forM (removeChild parent)
  addChild parent child
  others.forM (addChild parent)

/-- An edit at the node that was stored after `number` others, if there is one. -/
def numbered (number : Nat) (e : SlotHandle → Edit α) : Edit α := do
  let h := (← get).handle number
  discard <| entry h
  e h

/-- Forgets every node and copy and keeps the storage. -/
def reset (f : Forest) : Forest :=
  { f with entries := #[], generation := f.generation + 1, copied := 0 }

/-- Forgets every node and copy and gives up the storage. -/
def clear (f : Forest) : Forest := { f.reset with holdsStorage := false }

end Forest

end SqlSyntax
