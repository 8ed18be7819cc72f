import SqlSyntax.Storage.ByteArena

/-!
# Slot arenas

An arena of values of one size. Chunks are filled from the first on; a chunk is never moved once
it is there. A handle names a chunk, a slot in it and the generation; after a reset or a clear it
names nothing. Handles hold 32-bit numbers.
-/

namespace SqlSyntax

structure Chunk (α : Type) where
  capacity : Nat
  slots : Array α := #[]

def Chunk.hasRoom (c : Chunk α) : Bool := c.slots.size < c.capacity

structure SlotHandle where
  chunk : Nat
  slot : Nat
  generation : UInt32
deriving DecidableEq

/-- The chunk and the slot that a handle names. -/
def SlotHandle.place (h : SlotHandle) : Nat × Nat := (h.chunk, h.slot)

/-- The handle as listings show it. -/
def SlotHandle.render (h : SlotHandle) : String :=
  let generation := h.generation.toNat
  s!"Idx({h.chunk}:{h.slot}@{generation})"

structure SlotArena (α : Type) where
  /-- Bytes of a value. -/
  unit : Nat
  chunks : Array (Chunk α) := #[]
  /-- The chunk that the next value tries first. -/
  current : Nat := 0
  generation : UInt32 := 0

namespace SlotArena

variable {α : Type}

/-- How many values the chunk after `existing` others takes. Values without bytes need no room. -/
def chunkCapacity (unit existing : Nat) : Nat :=
  if unit = 0 then 0xFFFFFFFFFFFFFFFF else (Growth.inUnits unit).blockSize existing 1

/-- The first chunk with room from `i` on; the number of chunks if there is none. -/
def roomFrom (chunks : Array (Chunk α)) (i : Nat) : Nat :=
  if h : i < chunks.size then
    if chunks[i].hasRoom then i else roomFrom chunks (i + 1)
  else chunks.size
termination_by chunks.size - i

/-- The arena whose current chunk has room. -/
def withRoom (a : SlotArena α) : SlotArena α :=
  let i := roomFrom a.chunks a.current
  if i < a.chunks.size then { a with current := i }
  else
    let capacity := chunkCapacity a.unit a.chunks.size
    { a with chunks := a.chunks.push ⟨capacity, #[]⟩, current := a.chunks.size }

/-- Stores a value in the next slot. -/
def alloc (a : SlotArena α) (value : α) : SlotHandle × SlotArena α :=
  let a := a.withRoom
  let slot := (a.chunks[a.current]?.map (·.slots.size)).getD 0
  (⟨a.current, slot, a.generation⟩,
    { a with chunks := a.chunks.modify a.current fun c => { c with slots := c.slots.push value } })

/-- Stores a value, unless the system has no chunk for it or no handle can name the slot. A chunk
that was appended stays also then. -/
def allocate (a : SlotArena α) (value : α) : Except StorageError SlotHandle × SlotArena α :=
  let bytes := chunkCapacity a.unit a.chunks.size * a.unit
  if roomFrom a.chunks a.current = a.chunks.size ∧ 0x7FFFFFFFFFFFFFFF ≤ bytes then
    (.error (.exhausted bytes), { a with current := a.chunks.size - 1 })
  else
    let (h, stored) := a.alloc value
    match ByteArena.handleNumber h.chunk, ByteArena.handleNumber h.slot with
    | .ok _, .ok _ => (.ok h, stored)
    | .error e, _ | .ok _, .error e => (.error e, a.withRoom)

/-- The value of a handle. -/
def get? (a : SlotArena α) (h : SlotHandle) : Option α :=
  if h.generation = a.generation then a.chunks[h.chunk]?.bind (·.slots[h.slot]?) else none

/-- Stores another value under a handle that names one. -/
def set (a : SlotArena α) (h : SlotHandle) (value : α) : SlotArena α :=
  if (a.get? h).isSome then
    { a with chunks := a.chunks.modify h.chunk fun c =>
        { c with slots := c.slots.modify h.slot fun _ => value } }
  else a

/-- The number of values. -/
def size (a : SlotArena α) : Nat := a.chunks.toList.foldr (·.slots.size + ·) 0

/-- Bytes of all chunks. -/
def allocated (a : SlotArena α) : Nat := a.chunks.toList.foldr (·.capacity + ·) 0 * a.unit

/-- Bytes of all values. -/
def used (a : SlotArena α) : Nat := a.size * a.unit

/-- Forgets every value and keeps the chunks. -/
def reset (a : SlotArena α) : SlotArena α :=
  { a with
    chunks := a.chunks.map fun c => { c with slots := #[] }
    current := 0
    generation := a.generation + 1 }

/-- Forgets every value and gives up the chunks. -/
def clear (a : SlotArena α) : SlotArena α :=
  { a with chunks := #[], current := 0, generation := a.generation + 1 }

/-- What listings show of an arena. -/
def render (a : SlotArena α) : String :=
  let generation := a.generation.toNat
  s!"TypedArena \x7b chunks: {a.chunks.size}, len: {a.size}, generation: {generation} \x7d"

end SlotArena

end SqlSyntax
