import SqlSyntax.Forest
import SqlSyntax.Storage.ByteArena

/-!
# Stores

What a run makes lies in two arenas: its nodes in one of slots, where a handle names a chunk and a
slot in it, and the texts that it copies in one of bytes, where a node holds the range of its text.
A store is kept from run to run. A reset forgets the nodes and the texts, but the chunks and blocks
stay and are filled again.

A run changes what is stored step by step (`Command`). A store and a forest take the same steps:
the forest lies flat, counts its nodes and knows texts by their value. Both name a node by its
number in the order in which the run made its nodes; a store looks up the handle that the run was
given for it.

A reservation that the system refuses is remembered, and nothing is stored after it. The run goes
on without storage and does not end with an error about it.
-/

namespace SqlSyntax

/-- A text as a node stores it: missing, a span of the source, or a range of the copied texts. -/
inductive StoredText where
  | none
  | slice (span : Span)
  | copied (range : ByteHandle)
deriving DecidableEq

structure StoredNode where
  kind : Kind
  id : UInt32
  text : StoredText := .none
  qualifier : StoredText := .none
  schema : StoredText := .none
  catalog : StoredText := .none
  flags : Flags := .empty
  dataType : Option DataType := none
  operator : Option Operator := none
  context : Option Context := none
  location : Location
  span : Span
  parent : Option SlotHandle := none
  firstChild : Option SlotHandle := none
  lastChild : Option SlotHandle := none
  nextSibling : Option SlotHandle := none
  childCount : UInt32 := 0

/-- What can be read of a stored node: its texts in characters, and its links as the places in the
arena that they name. -/
structure Seen where
  kind : Kind
  id : UInt32
  text : Option String
  qualifier : Option String
  schema : Option String
  catalog : Option String
  flags : Flags
  dataType : Option DataType
  operator : Option Operator
  context : Option Context
  location : Location
  span : Span
  parent : Option (Nat × Nat)
  firstChild : Option (Nat × Nat)
  lastChild : Option (Nat × Nat)
  nextSibling : Option (Nat × Nat)
  childCount : UInt32
deriving DecidableEq

/-- Why a step cannot be made. -/
inductive StoreError where
  | edit (e : EditError)
  /-- The system has no storage for it. -/
  | storage (e : StorageError)

structure Store where
  /-- The nodes. How many bytes one of them takes lies with the machine. -/
  nodes : SlotArena StoredNode := { unit := 224 }
  strings : ByteArena := .empty
  /-- The identifier of the next node. -/
  nextId : UInt32 := 0
  /-- The handles that the run was given for its nodes, in the order of the nodes. -/
  handles : Array SlotHandle := #[]
  /-- The texts that the run copied and their ranges, the last one first. -/
  copies : List (String × ByteHandle) := []
  /-- What was wrong with the first step of the run that could not be made. -/
  failed : Option StoreError := none

/-- Steps on a store. -/
abbrev StoreEdit := EStateM StoreError Store

/-- The text that is stored, where copies lie in an arena. -/
def StoredText.load (strings : ByteArena) : StoredText → Text
  | .none => .none
  | .slice span => .slice span
  | .copied range => .copied ((strings.text? range).getD "")

/-- The characters of a stored text. -/
def StoredText.resolve (strings : ByteArena) (source : Source) : StoredText → Option String
  | .none => Option.none
  | .slice span => source.at? span
  | .copied range => strings.text? range

/-- The node that is stored, as the one with a number. -/
def StoredNode.load (strings : ByteArena) (number : Nat) (n : StoredNode) : Node where
  kind := n.kind
  id := number
  text := n.text.load strings
  qualifier := n.qualifier.load strings
  schema := n.schema.load strings
  catalog := n.catalog.load strings
  flags := n.flags
  dataType := n.dataType
  operator := n.operator
  context := n.context
  location := n.location
  span := n.span

/-- What can be read of the node that is stored. -/
def StoredNode.seen (strings : ByteArena) (source : Source) (n : StoredNode) : Seen where
  kind := n.kind
  id := n.id
  text := n.text.resolve strings source
  qualifier := n.qualifier.resolve strings source
  schema := n.schema.resolve strings source
  catalog := n.catalog.resolve strings source
  flags := n.flags
  dataType := n.dataType
  operator := n.operator
  context := n.context
  location := n.location
  span := n.span
  parent := n.parent.map (·.place)
  firstChild := n.firstChild.map (·.place)
  lastChild := n.lastChild.map (·.place)
  nextSibling := n.nextSibling.map (·.place)
  childCount := n.childCount

namespace Store

/-- A store without chunks and blocks, for nodes of some bytes. -/
def new (unit : Nat) (supply : Supply) : Store := { nodes := { unit }, strings := { supply } }

/-! ## Texts -/

/-- The range of the last copy of a text. -/
def range? (s : Store) (value : String) : Option ByteHandle :=
  (s.copies.find? (·.1 == value)).map (·.2)

/-- How a text is stored: as it was if it is the same, and else as the last copy of it. -/
def save (s : Store) (old : StoredText) (text : Text) : StoredText :=
  if old.load s.strings = text then old
  else
    match text with
    | .none => .none
    | .slice span => .slice span
    | .copied value => (s.range? value).elim .none .copied

/-- The stored node after a change of the node with a number. -/
def amended (s : Store) (number : Nat) (change : Node → Node) (n : StoredNode) : StoredNode :=
  let m := change (n.load s.strings number)
  { n with
    kind := m.kind
    text := s.save n.text m.text
    qualifier := s.save n.qualifier m.qualifier
    schema := s.save n.schema m.schema
    catalog := s.save n.catalog m.catalog
    flags := m.flags
    dataType := m.dataType
    operator := m.operator
    context := m.context
    location := m.location
    span := m.span }

/-! ## Look-up -/

/-- What can be read of the node of a handle. -/
def look? (s : Store) (source : Source) (h : SlotHandle) : Option Seen :=
  (s.nodes.get? h).map (·.seen s.strings source)

/-- A node and its siblings after it, of which there are at most so many. -/
def siblings (s : Store) : Nat → Option SlotHandle → List SlotHandle
  | 0, _ => []
  | _, none => []
  | n + 1, some h => h :: siblings s n ((s.nodes.get? h).bind (·.nextSibling))

/-- The children of a node in order. -/
def children (s : Store) (h : SlotHandle) : List SlotHandle :=
  s.siblings s.nodes.size ((s.nodes.get? h).bind (·.firstChild))

/-! ## Steps -/

/-- The handle of the node with a number. -/
def handle (number : Nat) : StoreEdit SlotHandle := do
  let s ← get
  match s.handles[number]? with
  | some h => return h
  | none => throw (.edit (.stale ⟨0, number, s.nodes.generation⟩))

/-- The node of a handle that must name one. -/
def node (h : SlotHandle) : StoreEdit StoredNode := do
  match (← get).nodes.get? h with
  | some n => return n
  | none => throw (.edit (.stale h))

/-- Changes the node of a handle that must name one. -/
def modifyNode (h : SlotHandle) (change : StoredNode → StoredNode) : StoreEdit Unit := do
  let n ← node h
  modify fun s => { s with nodes := s.nodes.set h (change n) }

/-- Stores a node that has no parent and no children. -/
def alloc (kind : Kind) (location : Location) (span : Span) : StoreEdit SlotHandle := do
  let s ← get
  match s.nodes.allocate { kind, id := s.nextId, location, span } with
  | (.ok h, nodes) =>
    set { s with nodes, nextId := s.nextId + 1, handles := s.handles.push h }
    return h
  | (.error e, nodes) =>
    set { s with nodes }
    throw (.storage e)

/-- Keeps a copy of a text. -/
def copy (text : String) : StoreEdit Unit := do
  let s ← get
  match s.strings.allocateText text with
  | (.ok range, strings) => set { s with strings, copies := (text, range) :: s.copies }
  | (.error e, strings) =>
    set { s with strings }
    throw (.storage e)

/-- Changes the node with a number. -/
def amend (number : Nat) (change : Node → Node) : StoreEdit Unit := do
  let h ← handle number
  let s ← get
  modifyNode h (s.amended number change)

/-- Appends a child. It must have neither parent nor sibling. -/
def addChild (parent child : SlotHandle) : StoreEdit Unit := do
  if parent = child then throw (.edit .ownChild)
  let n ← node child
  if n.parent.isSome || n.nextSibling.isSome then throw (.edit (.alreadyAttached child))
  modifyNode child fun n => { n with parent := some parent }
  if let some previous := (← node parent).lastChild then
    modifyNode previous fun n => { n with nextSibling := some child }
  modifyNode parent fun n =>
    { n with
      firstChild := n.firstChild.or (some child)
      lastChild := some child
      childCount := n.childCount + 1 }

/-- Takes a child away. It must be one of the children of the parent. -/
def removeChild (parent child : SlotHandle) : StoreEdit Unit := do
  discard <| node parent
  match Forest.previousIn child none ((← get).children parent) with
  | none => throw (.edit (.notAChild child parent))
  | some previous =>
    let next := (← node child).nextSibling
    match previous with
    | some h => modifyNode h fun n => { n with nextSibling := next }
    | none => modifyNode parent fun n => { n with firstChild := next }
    modifyNode parent fun n =>
      { n with
        lastChild := if n.lastChild = some child then previous else n.lastChild
        childCount := n.childCount - 1 }
    modifyNode child fun n => { n with parent := none, nextSibling := none }

/-- Puts a child before the others, which are taken away and appended again. -/
def prependChild (parent child : SlotHandle) : StoreEdit Unit := do
  let others := (← get).children parent
  others.forM (removeChild parent)
  addChild parent child
  others.forM (addChild parent)

/-- Forgets every node and copy and keeps the storage. -/
def reset (s : Store) : Store where
  nodes := s.nodes.reset
  strings := s.strings.reset

end Store

/-! ## Commands -/

/-- The steps by which a run changes what is stored. -/
inductive Command where
  /-- Stores a node with a context. -/
  | alloc (kind : Kind) (location : Location) (span : Span) (context : Option Context)
  /-- Reads a node. -/
  | look (number : Nat)
  | amend (number : Nat) (change : Node → Node)
  | attach (parent child : Nat)
  | prepend (parent child : Nat)
  | copy (text : String)

namespace Command

def onForest : Command → Edit Unit
  | alloc kind location span context => do
    let h ← Forest.alloc kind location span
    Forest.modifyNode h fun n => { n with context }
  | look number => Forest.numbered number fun h => discard (Forest.entry h)
  | amend number change => Forest.numbered number fun h => Forest.modifyNode h change
  | attach parent child =>
    Forest.numbered parent fun p => Forest.numbered child fun c => Forest.addChild p c
  | prepend parent child =>
    Forest.numbered parent fun p => Forest.numbered child fun c => Forest.prependChild p c
  | copy text => discard (Forest.copy text)

def onStore : Command → StoreEdit Unit
  | alloc kind location span context => do
    let h ← Store.alloc kind location span
    Store.modifyNode h fun n => { n with context }
  | look number => do discard <| Store.node (← Store.handle number)
  | amend number change => Store.amend number change
  | attach parent child => do
    let p ← Store.handle parent
    Store.addChild p (← Store.handle child)
  | prepend parent child => do
    let p ← Store.handle parent
    Store.prependChild p (← Store.handle child)
  | copy text => Store.copy text

end Command

/-- The store after a step. Once one cannot be made, no more are made. -/
def Store.after (c : Command) (s : Store) : Store :=
  if s.failed.isSome then s
  else
    match c.onStore.run s with
    | .ok _ s => s
    | .error e s => { s with failed := some e }

end SqlSyntax
