import SqlSyntax.Storage.Growth

/-!
# Byte arenas

An arena hands out ranges of bytes from the front of its blocks and takes them back all at once.
A handle names a range and the generation it was handed out in; after a reset or a clear it names
nothing. A reset keeps the blocks, so that they are used again in their order.

A block starts at an address that the system chooses; `Supply` stands for its choices. It has no
block of `2 ^ 63 - 1` bytes or more. Handles hold 32-bit numbers.
-/

namespace SqlSyntax

/-- The address of each block that a system will hand out, by the number of blocks before it. -/
abbrev Supply := Nat → Nat

/-- Blocks far apart, at multiples of every usual alignment. -/
def Supply.spaced : Supply := fun n => (n + 1) <<< 40

structure Block where
  address : Nat
  capacity : Nat
  used : Nat := 0
  /-- What was written last at each offset. -/
  contents : Nat → UInt8 := fun _ => 0

namespace Block

/-- The offset at which `size` bytes at a multiple of `align` fit behind those in use. -/
def fit? (b : Block) (size align : Nat) : Option Nat :=
  let cursor := b.address + b.used + (align - 1)
  if 0x10000000000000000 ≤ cursor then none
  else
    let start := cursor / align * align - b.address
    if start + size ≤ b.capacity then some start else none

/-- The block with bytes written from an offset on. -/
def write (b : Block) (offset : Nat) (bytes : List UInt8) : Block :=
  { b with contents := fun i =>
      if offset ≤ i then bytes.getD (i - offset) (b.contents i) else b.contents i }

/-- Some bytes from an offset on. -/
def read (b : Block) (offset length : Nat) : List UInt8 :=
  (List.range length).map fun i => b.contents (offset + i)

end Block

structure ByteHandle where
  block : Nat
  offset : Nat
  length : Nat
  generation : UInt32
deriving DecidableEq

structure ByteArena where
  blocks : Array Block := #[]
  /-- The block that the next request tries first. -/
  current : Nat := 0
  generation : UInt32 := 0
  supply : Supply := .spaced
  /-- Blocks that the system has handed out. -/
  supplied : Nat := 0

namespace ByteArena

/-- An arena without blocks. -/
def empty : ByteArena := {}

/-- A block from the system, and the arena that has asked for it but does not hold it. -/
def request (a : ByteArena) (capacity : Nat) : Except StorageError (Block × ByteArena) :=
  if 0x7FFFFFFFFFFFFFFF ≤ capacity then .error (.exhausted capacity)
  else .ok (⟨a.supply a.supplied, capacity, 0, fun _ => 0⟩, { a with supplied := a.supplied + 1 })

/-- The arena with one more block at the end, which the next request tries first. -/
def push (a : ByteArena) (b : Block) : ByteArena :=
  { a with blocks := a.blocks.push b, current := a.blocks.size }

/-- An arena with one block of the base size. -/
def new : ByteArena :=
  match empty.request Growth.bytes.base with
  | .ok (b, a) => a.push b
  | .error _ => empty

/-- The least power of two from `align` on. -/
def roundAlign (align : Nat) : Nat :=
  if align ≤ 1 then 1 else 1 <<< ((align - 1).log2 + 1)

/-- The first block from the current one on in which a request fits, and where. -/
def findFit? (a : ByteArena) (size align : Nat) : Option (Nat × Nat) :=
  ((List.range a.blocks.size).drop a.current).findSome? fun i =>
    (a.blocks[i]?.bind (·.fit? size align)).map (i, ·)

/-- Space for a request: the block, the offset, and the arena that tries that block first. -/
def findSpace (a : ByteArena) (size align : Nat) :
    Except StorageError (Nat × Nat × ByteArena) :=
  match a.findFit? size align with
  | some (i, offset) => .ok (i, offset, { a with current := i })
  | none =>
    let required := size + (align - 1)
    if 0x10000000000000000 ≤ required then .error (.exhausted size)
    else do
      let (b, asked) ← a.request (Growth.bytes.blockSize a.blocks.size required)
      match b.fit? size align with
      | some offset => return (a.blocks.size, offset, asked.push b)
      | none => throw (.exhausted required)

/-- A number as a handle holds it. -/
def handleNumber (n : Nat) : Except StorageError Nat :=
  if n < 0x100000000 then .ok n else .error (.exhausted n)

/-- The handle of a range, unless one of its numbers is too large for a handle. -/
def handle (a : ByteArena) (block offset length : Nat) : Except StorageError ByteHandle := do
  return ⟨← handleNumber block, ← handleNumber offset, ← handleNumber length, a.generation⟩

/-- The arena in which a range of a block is in use. -/
def occupy (a : ByteArena) (block stop : Nat) : ByteArena :=
  { a with blocks := a.blocks.modify block fun b => { b with used := stop } }

/-- Hands out `size` bytes at a multiple of the least power of two from `align` on. An empty range
takes a byte too, so that handles differ. A block that was appended stays also if no handle can
name the range. -/
def allocate (a : ByteArena) (size align : Nat) : Except StorageError ByteHandle × ByteArena :=
  let reserve := max size 1
  let align := roundAlign align
  if 0x10000000000000000 ≤ align then (.error (.exhausted reserve), a)
  else
    match a.findSpace reserve align with
    | .error e => (.error e, a)
    | .ok (block, offset, a) =>
      match a.handle block offset size with
      | .error e => (.error e, a)
      | .ok h => (.ok h, a.occupy block (offset + reserve))

/-- The block of a handle, if the handle is of this generation. -/
def block? (a : ByteArena) (h : ByteHandle) : Option Block :=
  if h.generation = a.generation then a.blocks[h.block]? else none

/-- The address of a range. -/
def address? (a : ByteArena) (h : ByteHandle) : Option Nat :=
  (a.block? h).map (·.address + h.offset)

/-- The bytes of a range. -/
def bytes? (a : ByteArena) (h : ByteHandle) : Option (List UInt8) := do
  let b ← a.block? h
  if h.offset + h.length ≤ b.capacity then some (b.read h.offset h.length) else none

/-- The text of a range, if its bytes are the UTF-8 form of one. -/
def text? (a : ByteArena) (h : ByteHandle) : Option String := do
  String.fromUTF8? ⟨(← a.bytes? h).toArray⟩

/-- Writes as many bytes as the range has; a handle that names nothing changes nothing. -/
def write (a : ByteArena) (h : ByteHandle) (bytes : List UInt8) : ByteArena :=
  if (a.bytes? h).isSome then
    { a with blocks := a.blocks.modify h.block (·.write h.offset (bytes.take h.length)) }
  else a

/-- Hands out a range and writes a text to it. -/
def allocateText (a : ByteArena) (text : String) : Except StorageError ByteHandle × ByteArena :=
  match a.allocate text.utf8ByteSize 1 with
  | (.ok h, a) => (.ok h, a.write h text.toUTF8.toList)
  | (.error e, a) => (.error e, a)

/-- Bytes of all blocks. -/
def allocated (a : ByteArena) : Nat := a.blocks.toList.foldr (·.capacity + ·) 0

/-- Bytes in use, with the gaps between them. -/
def used (a : ByteArena) : Nat := a.blocks.toList.foldr (·.used + ·) 0

/-- Takes back every range and keeps the blocks. -/
def reset (a : ByteArena) : ByteArena :=
  { a with
    blocks := a.blocks.map fun b => { b with used := 0 }
    current := 0
    generation := a.generation + 1 }

/-- Takes back every range and gives up the blocks. -/
def clear (a : ByteArena) : ByteArena :=
  { a with blocks := #[], current := 0, generation := a.generation + 1 }

/-- Moves the blocks to a new arena, where the handles go on to name their ranges. -/
def take (a : ByteArena) : ByteArena × ByteArena := (a, a.clear)

end ByteArena

end SqlSyntax
