/-!
# Growth of storage

Storage grows by blocks, each twice as large as the one before, from a base up to a maximum. A
request that the next block would not hold gets a later one of these sizes, and a request above
the maximum gets a block of its own size. A block always covers the request (`le_blockSize`), but
the system may not have it (`StorageError`).
-/

namespace SqlSyntax

inductive StorageError where
  /-- A block of this many bytes cannot be had, or no handle can say so large a number. -/
  | exhausted (requested : Nat)
  /-- The storage is in use further up. -/
  | busy
deriving DecidableEq, Inhabited

def StorageError.message : StorageError → String
  | .exhausted n => s!"arena exhausted: could not reserve {n} bytes"
  | .busy => "thread-local arena is already in use on this thread"

structure Growth where
  base : Nat
  max : Nat

namespace Growth

/-- Growth of byte storage: from 32 KiB to 1 MiB. -/
def bytes : Growth := ⟨32 * 1024, 1024 * 1024⟩

/-- The same growth in units of some bytes each, at least one unit at a time. -/
def inUnits (unit : Nat) : Growth :=
  let unit := Nat.max unit 1
  let base := Nat.max (bytes.base / unit) 1
  ⟨base, Nat.max (bytes.max / unit) base⟩

/-- The size of the block after `existing` others, as a 64-bit word; the maximum where the word
is not between base and maximum. -/
def step (g : Growth) (existing : Nat) : Nat :=
  let size := if existing < 64 then g.base <<< existing % 0x10000000000000000 else 0
  Nat.max (if g.base ≤ size ∧ size ≤ g.max then size else g.max) 1

/-- A size doubled up to the maximum until it covers a request. -/
def cover (max required size : Nat) : Nat :=
  if size < required ∧ 0 < size ∧ required ≤ max then cover max required (min (2 * size) max)
  else size
termination_by required - size

/-- The capacity of the block after `existing` others for a request. -/
def blockSize (g : Growth) (existing required : Nat) : Nat :=
  if g.max < required then required else cover g.max required (g.step existing)

theorem le_cover {max required size : Nat} (h : required ≤ max) (pos : 0 < size) :
    required ≤ cover max required size := by
  fun_induction cover max required size with
  | case1 size hs ih => exact ih (by omega)
  | case2 size hs => omega

theorem le_blockSize (g : Growth) (existing required : Nat) :
    required ≤ g.blockSize existing required := by
  unfold blockSize
  split
  · exact Nat.le_refl _
  · exact le_cover (by omega) (Nat.lt_of_lt_of_le Nat.zero_lt_one (Nat.le_max_right ..))

end Growth

end SqlSyntax
