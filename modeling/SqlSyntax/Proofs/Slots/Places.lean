import Mathlib.Algebra.BigOperators.Group.Finset.Basic
import Mathlib.Algebra.Order.BigOperators.Group.Finset
import Mathlib.Data.Prod.Lex
import SqlSyntax.Proofs.Memory.Refusal
import SqlSyntax.Proofs.Memory.Sizes

/-!
# Places of values

The values of a slot arena stand in its chunks in the order in which they came, without a gap. So
where a value goes is told by its bytes and by the number of values before it (`SlotArena.place`),
whatever chunks there are already. An arena that holds `n` values holds them in the first `n` places
(`SlotArena.Holds`), and the next one goes to the place after them or nowhere
(`SlotArena.Holds.allocate`).
-/

namespace SqlSyntax

namespace SlotArena

variable {α : Type}

/-! ## The order of the places -/

section Order

/-- The chunk and the slot of the value that comes after `n` others. -/
def place (unit : Nat) : Nat → Nat × Nat
  | 0 => (0, 0)
  | n + 1 =>
    if (place unit n).2 + 1 < chunkCapacity unit (place unit n).1 then
      ((place unit n).1, (place unit n).2 + 1)
    else ((place unit n).1 + 1, 0)

/-- How many of the first `n` values are in a chunk. -/
def fill (unit n i : Nat) : Nat :=
  if i < (place unit n).1 then chunkCapacity unit i
  else if i = (place unit n).1 then (place unit n).2
  else 0

variable (unit n i m : Nat)

theorem chunkCapacity_pos : 0 < chunkCapacity unit i := by
  unfold chunkCapacity
  split
  · decide
  · exact Growth.le_blockSize (Growth.inUnits unit) i 1

theorem slot_lt : (place unit n).2 < chunkCapacity unit (place unit n).1 := by
  cases n with
  | zero => exact chunkCapacity_pos unit 0
  | succ n =>
    rw [place]
    split
    · assumption
    · exact chunkCapacity_pos unit _

/-- A chunk has at most the bytes of the largest block, unless one value has more. -/
theorem bytes_chunk_le : chunkCapacity unit i * unit ≤ max Growth.bytes.max unit := by
  rcases Nat.eq_zero_or_pos unit with rfl | hpos
  · exact Nat.zero_le _
  · have hunit : Nat.max unit 1 = unit := Nat.max_eq_left hpos
    have hmax : Growth.bytes.max / unit * unit ≤ Growth.bytes.max := Nat.div_mul_le_self ..
    have hbase : Growth.bytes.base / unit * unit ≤ Growth.bytes.base := Nat.div_mul_le_self ..
    have hbytes : Growth.bytes.base ≤ Growth.bytes.max := by decide
    rw [chunkCapacity_eq (Nat.ne_of_gt hpos)]
    refine (Nat.mul_le_mul_right unit (Nat.min_le_left ..)).trans ?_
    show max (Growth.bytes.max / Nat.max unit 1)
      (max (Growth.bytes.base / Nat.max unit 1) 1) * unit ≤ _
    rw [hunit, ← Nat.mul_max_mul_right, ← Nat.mul_max_mul_right]
    omega

theorem le_sum_chunkCapacity : m ≤ ∑ i ∈ Finset.range m, chunkCapacity unit i := by
  induction m with
  | zero => exact Nat.zero_le _
  | succ m ih =>
    have hpos := chunkCapacity_pos unit m
    rw [Finset.sum_range_succ]
    omega

/-- The chunks before are full. -/
theorem sum_chunkCapacity :
    ∑ i ∈ Finset.range (place unit n).1, chunkCapacity unit i + (place unit n).2 = n := by
  induction n with
  | zero => rfl
  | succ n ih =>
    have hlt := slot_lt unit n
    rw [place]
    split
    · dsimp only
      omega
    · dsimp only
      rw [Finset.sum_range_succ]
      omega

theorem place_strictMono : StrictMono fun n => toLex (place unit n) := by
  refine strictMono_nat_of_lt_succ fun n => Prod.Lex.toLex_lt_toLex.2 ?_
  rw [place]
  split
  · exact .inr ⟨rfl, Nat.lt_succ_self _⟩
  · exact .inl (Nat.lt_succ_self _)

/-- A value that the first chunks have room for goes to one of them. -/
theorem chunk_lt (h : n < ∑ i ∈ Finset.range m, chunkCapacity unit i) : (place unit n).1 < m := by
  by_contra hle
  have hsum := Finset.sum_le_sum_of_subset (f := chunkCapacity unit)
    (Finset.range_subset_range.2 (Nat.le_of_not_lt hle))
  have hplace := sum_chunkCapacity unit n
  omega

theorem fill_zero : fill unit 0 i = 0 := by
  unfold fill
  split
  · next h => exact absurd h (Nat.not_lt_zero i)
  · exact ite_self 0

theorem fill_succ : fill unit (n + 1) i =
    fill unit n i + if i = (place unit n).1 then 1 else 0 := by
  have hlt := slot_lt unit n
  unfold fill
  rw [place]
  split <;> grind

theorem sum_fill : ∑ i ∈ Finset.range m, fill unit n i =
    if m ≤ (place unit n).1 then ∑ i ∈ Finset.range m, chunkCapacity unit i else n := by
  induction m with
  | zero => rfl
  | succ m ih =>
    rw [Finset.sum_range_succ, ih, fill, Finset.sum_range_succ]
    rcases Nat.lt_trichotomy m (place unit n).1 with h | h | h
    · rw [if_pos (Nat.le_of_lt h), if_pos h, if_pos (Nat.succ_le_of_lt h)]
    · have hplace := sum_chunkCapacity unit n
      rw [if_pos (Nat.le_of_eq h), if_neg (Nat.not_lt.2 (Nat.le_of_eq h.symm)), if_pos h,
        if_neg (by omega), h, hplace]
    · rw [if_neg (by omega), if_neg (by omega), if_neg (by omega), if_neg (by omega), Nat.add_zero]

end Order

/-! ## Arenas -/

/-- How many values the chunks take. -/
def room (a : SlotArena α) : Nat := a.chunks.toList.foldr (·.capacity + ·) 0

/-- The handle of the place after `n` values. -/
def handleAfter (a : SlotArena α) (n : Nat) : SlotHandle :=
  ⟨(place a.unit n).1, (place a.unit n).2, a.generation⟩

/-- The place after `n` values can be had: the system has its chunk, and a handle can name it. -/
def Storable (unit n : Nat) : Prop :=
  chunkCapacity unit (place unit n).1 * unit < 0x7FFFFFFFFFFFFFFF ∧
    (place unit n).1 < 2 ^ 32 ∧ (place unit n).2 < 2 ^ 32

instance (unit n : Nat) : Decidable (Storable unit n) :=
  inferInstanceAs (Decidable (_ ∧ _ ∧ _))

/-- Values that the system has a block for can be stored as long as they can be counted in 32
bits. -/
theorem storable_of_lt {unit n : Nat} (hunit : unit < 0x7FFFFFFFFFFFFFFF) (hn : n < 2 ^ 32) :
    Storable unit n := by
  have hsum := sum_chunkCapacity unit n
  have hchunks := le_sum_chunkCapacity unit (place unit n).1
  have hbytes := bytes_chunk_le unit (place unit n).1
  exact ⟨Nat.lt_of_le_of_lt hbytes (Nat.max_lt.2 ⟨by decide, hunit⟩), by omega, by omega⟩

/-- The arena holds `n` values, in the first `n` places. -/
structure Holds (a : SlotArena α) (n : Nat) : Prop where
  chunks : ∀ {i : Nat} {c : Chunk α}, a.chunks[i]? = some c →
    c.capacity = chunkCapacity a.unit i ∧ c.slots.size = fill a.unit n i
  /-- The system had the chunks. -/
  granted : ∀ i < a.chunks.size, chunkCapacity a.unit i * a.unit < 0x7FFFFFFFFFFFFFFF
  current_le : a.current ≤ (place a.unit n).1
  /-- The next place is in a chunk that is there, or it is the first one of the next chunk. -/
  reached : (place a.unit n).1 < a.chunks.size ∨ place a.unit n = (a.chunks.size, 0)

/-- What is answered to a request to store a value after `n` others. -/
inductive Answers (a : SlotArena α) (n : Nat) (value : α) :
    Except StorageError SlotHandle × SlotArena α → Prop
  | stored {b : SlotArena α} (storable : Storable a.unit n) (holds : b.Holds (n + 1))
    (get? : ∀ g, b.get? g = if g = a.handleAfter n then some value else a.get? g) :
    Answers a n value (.ok (a.handleAfter n), b)
  | refused {b : SlotArena α} {e : StorageError} (full : ¬ Storable a.unit n) (holds : b.Holds n)
    (get? : ∀ g, b.get? g = a.get? g) : Answers a n value (.error e, b)

variable {a b : SlotArena α} {n : Nat}

theorem handleAfter_injective (a : SlotArena α) : Function.Injective a.handleAfter :=
  fun _ _ h => (place_strictMono a.unit).injective
    (congrArg (toLex ∘ SlotHandle.place) h)

/-! What requests leave as it is. -/

theorem unit_withRoom (a : SlotArena α) : a.withRoom.unit = a.unit := by
  unfold withRoom
  dsimp only
  split <;> rfl

theorem generation_withRoom (a : SlotArena α) : a.withRoom.generation = a.generation := by
  unfold withRoom
  dsimp only
  split <;> rfl

theorem current_withRoom_lt (a : SlotArena α) : a.withRoom.current < a.withRoom.chunks.size := by
  unfold withRoom
  dsimp only
  split
  · assumption
  · exact Nat.lt_of_lt_of_eq (Nat.lt_succ_self _) (Array.size_push ..).symm

/-- A new chunk holds nothing. -/
theorem get?_withRoom (a : SlotArena α) (g : SlotHandle) : a.withRoom.get? g = a.get? g := by
  unfold get?
  rw [generation_withRoom]
  split
  · unfold withRoom
    dsimp only
    split
    · rfl
    · rw [Array.getElem?_push]
      split
      · next hchunk =>
        rw [hchunk, Array.getElem?_eq_none (Nat.le_refl _)]
        rfl
      · rfl
  · rfl

/-- The value goes to the end of the current chunk. -/
theorem alloc_eq (a : SlotArena α) (value : α) :
    ∃ c, a.withRoom.chunks[a.withRoom.current]? = some c ∧
      a.alloc value = (⟨a.withRoom.current, c.slots.size, a.generation⟩,
        { a.withRoom with chunks := a.withRoom.chunks.modify a.withRoom.current fun c =>
            { c with slots := c.slots.push value } }) := by
  have hcurrent := Array.getElem?_eq_getElem (current_withRoom_lt a)
  refine ⟨_, hcurrent, ?_⟩
  rw [← generation_withRoom a]
  unfold alloc
  dsimp only
  rw [hcurrent]
  rfl

theorem getElem?_alloc (a : SlotArena α) (value : α) (i : Nat) :
    (a.alloc value).2.chunks[i]? = a.withRoom.chunks[i]?.map fun c =>
      if i = a.withRoom.current then { c with slots := c.slots.push value } else c :=
  getElem?_modify_eq_map ..

/-- A value that is stored can be read with its handle, and the others are as before. -/
theorem get?_alloc (a : SlotArena α) (value : α) (g : SlotHandle) :
    (a.alloc value).2.get? g = if g = (a.alloc value).1 then some value else a.get? g := by
  obtain ⟨c, hc, hrun⟩ := a.alloc_eq value
  have hhandle : (a.alloc value).1 = ⟨a.withRoom.current, c.slots.size, a.generation⟩ := by
    rw [hrun]
  have hgeneration : (a.alloc value).2.generation = a.withRoom.generation := rfl
  rw [hhandle, ← get?_withRoom a g, get?, get?, hgeneration, generation_withRoom]
  by_cases hg : g.generation = a.generation
  · rw [if_pos hg, if_pos hg, getElem?_alloc]
    by_cases hchunk : g.chunk = a.withRoom.current
    · rw [hchunk, hc, Option.map_some, if_pos rfl, Option.bind_some, Option.bind_some,
        Array.getElem?_push]
      refine if_congr ⟨fun hslot => ?_, fun hsame => ?_⟩ rfl rfl
      · rw [← hchunk, ← hslot, ← hg]
      · rw [hsame]
    · simp only [if_neg hchunk, Option.map_id']
      rw [if_neg fun hsame => hchunk (congrArg SlotHandle.chunk hsame)]
  · rw [if_neg hg, if_neg hg, if_neg fun hsame => hg (congrArg SlotHandle.generation hsame)]

/-! What requests keep. -/

/-- The search for room ends at the chunk of the next place. -/
theorem roomFrom_eq {chunks : Array (Chunk α)} {i j : Nat} (hij : i ≤ j) (hj : j ≤ chunks.size)
    (hfull : ∀ k c, k < j → chunks[k]? = some c → c.hasRoom = false)
    (hroom : ∀ c, chunks[j]? = some c → c.hasRoom) : roomFrom chunks i = j := by
  fun_induction roomFrom chunks i with
  | case1 i hi hhas =>
    refine Nat.le_antisymm hij (Nat.le_of_not_lt fun hlt => ?_)
    rw [hfull i _ hlt (Array.getElem?_eq_getElem hi)] at hhas
    cases hhas
  | case2 i hi hhas ih =>
    refine ih (Nat.lt_of_le_of_ne hij ?_)
    rintro rfl
    exact hhas (hroom _ (Array.getElem?_eq_getElem hi))
  | case3 i hi => omega

theorem fill_of_lt {unit i : Nat} (h : i < (place unit n).1) :
    fill unit n i = chunkCapacity unit i :=
  if_pos h

theorem fill_chunk (unit n : Nat) : fill unit n (place unit n).1 = (place unit n).2 := by
  rw [fill, if_neg (Nat.lt_irrefl _), if_pos rfl]

namespace Holds

theorem chunk_le (h : a.Holds n) : (place a.unit n).1 ≤ a.chunks.size := by
  rcases h.reached with hlt | heq
  · exact Nat.le_of_lt hlt
  · rw [heq]

theorem roomFrom_eq (h : a.Holds n) : roomFrom a.chunks a.current = (place a.unit n).1 := by
  refine SlotArena.roomFrom_eq h.current_le h.chunk_le (fun k c hk hc => ?_) fun c hc => ?_
  · obtain ⟨hcapacity, hslots⟩ := h.chunks hc
    rw [Chunk.hasRoom, hslots, hcapacity, fill_of_lt hk]
    exact decide_eq_false (Nat.lt_irrefl _)
  · obtain ⟨hcapacity, hslots⟩ := h.chunks hc
    rw [Chunk.hasRoom, hslots, hcapacity, fill_chunk]
    exact decide_eq_true (slot_lt a.unit n)

/-- The chunk of the next place is there or can be had, and then it is the current one. -/
theorem withRoom (h : a.Holds n)
    (hgranted : chunkCapacity a.unit (place a.unit n).1 * a.unit < 0x7FFFFFFFFFFFFFFF) :
    a.withRoom.Holds n ∧ a.withRoom.current = (place a.unit n).1 := by
  unfold SlotArena.withRoom
  dsimp only
  rw [h.roomFrom_eq]
  split
  · next hlt => exact ⟨⟨h.chunks, h.granted, Nat.le_refl _, .inl hlt⟩, rfl⟩
  · next hge =>
    have hplace : place a.unit n = (a.chunks.size, 0) := h.reached.resolve_left hge
    have hchunk : a.chunks.size = (place a.unit n).1 := congrArg Prod.fst hplace.symm
    refine ⟨⟨fun {i c} hc => ?_, fun i hi => ?_, Nat.le_of_eq hchunk, .inl ?_⟩, hchunk⟩
    · rw [Array.getElem?_push] at hc
      split at hc
      · next hi =>
        obtain rfl := Option.some.inj hc
        refine ⟨congrArg (chunkCapacity a.unit) hi.symm, ?_⟩
        show 0 = fill a.unit n i
        rw [hi, hchunk, fill_chunk, hplace]
      · exact h.chunks hc
    · rw [Array.size_push] at hi
      rcases Nat.lt_or_eq_of_le (Nat.le_of_lt_succ hi) with hlt | rfl
      · exact h.granted i hlt
      · rwa [hchunk]
    · rw [Array.size_push, ← hchunk]
      exact Nat.lt_succ_self _

theorem alloc (h : a.Holds n) (value : α)
    (hgranted : chunkCapacity a.unit (place a.unit n).1 * a.unit < 0x7FFFFFFFFFFFFFFF) :
    (a.alloc value).1 = a.handleAfter n ∧ (a.alloc value).2.Holds (n + 1) := by
  obtain ⟨hroom, hcurrent⟩ := h.withRoom hgranted
  obtain ⟨c, hc, hrun⟩ := a.alloc_eq value
  have hslots := (hroom.chunks hc).2
  rw [unit_withRoom, hcurrent, fill_chunk] at hslots
  have hunit : (a.alloc value).2.unit = a.unit := unit_withRoom a
  have hcurrent' : (a.alloc value).2.current = (place a.unit n).1 := hcurrent
  have hsize : (a.alloc value).2.chunks.size = a.withRoom.chunks.size := Array.size_modify
  have hlt : (place a.unit n).1 < a.withRoom.chunks.size := hcurrent ▸ current_withRoom_lt a
  refine ⟨by rw [hrun, hcurrent, hslots, handleAfter], fun {i d} hd => ?_, fun i hi => ?_, ?_, ?_⟩
  · rw [getElem?_alloc] at hd
    obtain ⟨c, hc, rfl⟩ := Option.map_eq_some_iff.1 hd
    obtain ⟨hcapacity, hslots⟩ := hroom.chunks hc
    rw [unit_withRoom] at hcapacity hslots
    rw [hunit, fill_succ, hcurrent]
    split
    · exact ⟨hcapacity, (Array.size_push ..).trans (congrArg (· + 1) hslots)⟩
    · exact ⟨hcapacity, hslots⟩
  · rw [hunit]
    exact unit_withRoom a ▸ hroom.granted i (hsize ▸ hi)
  · rw [hunit, hcurrent', place]
    split
    · exact Nat.le_refl _
    · exact Nat.le_succ _
  · rw [hunit, hsize, place]
    split
    · exact .inl hlt
    · rcases Nat.lt_or_eq_of_le (Nat.succ_le_of_lt hlt) with hlt | heq
      · exact .inl hlt
      · exact .inr (Prod.ext heq rfl)

/-- A request is granted if the next place can be had, and then it gets that place. -/
theorem allocate (h : a.Holds n) (value : α) : a.Answers n value (a.allocate value) := by
  unfold SlotArena.allocate
  dsimp only
  rw [h.roomFrom_eq]
  split
  · next hmissing =>
    obtain ⟨hchunk, hbytes⟩ := hmissing
    rw [← hchunk] at hbytes
    refine .refused (fun hstorable => Nat.not_lt.2 hbytes hstorable.1)
      ⟨h.chunks, h.granted, ?_, h.reached⟩ fun _ => rfl
    exact Nat.le_trans (Nat.sub_le _ _) (Nat.le_of_eq hchunk.symm)
  · next hhad =>
    have hgranted :
        chunkCapacity a.unit (place a.unit n).1 * a.unit < 0x7FFFFFFFFFFFFFFF := by
      rcases h.reached with hlt | heq
      · exact h.granted _ hlt
      · have hchunk : (place a.unit n).1 = a.chunks.size := congrArg Prod.fst heq
        exact Nat.lt_of_not_le fun hbytes => hhad ⟨hchunk, hchunk ▸ hbytes⟩
    obtain ⟨hhandle, hholds⟩ := h.alloc value hgranted
    have hget := a.get?_alloc value
    rcases hrun : a.alloc value with ⟨g, b⟩
    rw [hrun] at hhandle hholds hget
    obtain rfl : g = a.handleAfter n := hhandle
    dsimp only
    split
    · next hchunk hslot =>
      exact .stored ⟨hgranted, (ByteArena.handleNumber_eq_ok hchunk).1,
        (ByteArena.handleNumber_eq_ok hslot).1⟩ hholds hget
    · next hchunk =>
      exact .refused (fun hstorable =>
        Nat.not_lt.2 (ByteArena.handleNumber_eq_error hchunk) hstorable.2.1)
        (h.withRoom hgranted).1 a.get?_withRoom
    · next hslot =>
      exact .refused (fun hstorable =>
        Nat.not_lt.2 (ByteArena.handleNumber_eq_error hslot) hstorable.2.2)
        (h.withRoom hgranted).1 a.get?_withRoom

theorem answer (h : a.Holds n) (value : α) : (a.allocate value).1.toOption =
    if Storable a.unit n then some (a.handleAfter n) else none := by
  have hanswers := h.allocate value
  rcases hrun : a.allocate value with ⟨r, b⟩
  rw [hrun] at hanswers
  cases hanswers with
  | stored storable => exact (if_pos storable).symm
  | refused full => exact (if_neg full).symm

theorem after (h : a.Holds n) (value : α) :
    (a.allocate value).2.Holds (if Storable a.unit n then n + 1 else n) := by
  have hanswers := h.allocate value
  rcases hrun : a.allocate value with ⟨r, b⟩
  rw [hrun] at hanswers
  cases hanswers with
  | stored storable holds => rwa [if_pos storable]
  | refused full holds => rwa [if_neg full]

/-- The places after the values are empty. -/
theorem get?_handleAfter_of_le {m : Nat} (h : a.Holds n) (hle : n ≤ m) :
    a.get? (a.handleAfter m) = none := by
  have hplaces := Prod.Lex.toLex_le_toLex.1 ((place_strictMono a.unit).monotone hle)
  refine (if_pos rfl).trans ?_
  show a.chunks[(place a.unit m).1]?.bind _ = none
  rcases hc : a.chunks[(place a.unit m).1]? with _ | c
  · rfl
  · refine Array.getElem?_eq_none (Nat.le_trans (Nat.le_of_eq (h.chunks hc).2) ?_)
    show fill a.unit n (place a.unit m).1 ≤ (place a.unit m).2
    unfold fill
    split
    · omega
    · split
      · omega
      · exact Nat.zero_le _

/-- Another value in a slot changes no slot. -/
theorem set (h : a.Holds n) (g : SlotHandle) (value : α) : (a.set g value).Holds n := by
  unfold SlotArena.set
  split
  · refine ⟨fun {i c} hc => ?_, fun i hi => ?_, h.current_le, ?_⟩
    · rw [Array.getElem?_modify] at hc
      split at hc
      · obtain ⟨d, hd, rfl⟩ := Option.map_eq_some_iff.1 hc
        obtain ⟨hcapacity, hslots⟩ := h.chunks hd
        exact ⟨hcapacity, Array.size_modify.trans hslots⟩
      · exact h.chunks hc
    · exact h.granted i (Array.size_modify ▸ hi)
    · rw [Array.size_modify]
      exact h.reached
  · exact h

theorem reset (h : a.Holds n) : a.reset.Holds 0 := by
  refine ⟨fun {i c} hc => ?_, fun i hi => ?_, Nat.zero_le _, ?_⟩
  · rw [SlotArena.reset, Array.getElem?_map] at hc
    obtain ⟨d, hd, rfl⟩ := Option.map_eq_some_iff.1 hc
    exact ⟨(h.chunks hd).1, (fill_zero a.unit i).symm⟩
  · exact h.granted i (Array.size_map ▸ hi)
  · rw [SlotArena.reset, Array.size_map]
    exact (Nat.eq_zero_or_pos a.chunks.size).symm.imp id fun hsize => by rw [hsize]; rfl

end Holds

/-- An arena without chunks holds nothing. -/
theorem holds_zero (h : a.chunks = #[]) (hcurrent : a.current = 0) : a.Holds 0 := by
  obtain ⟨unit, chunks, current, generation⟩ := a
  obtain rfl : chunks = #[] := h
  obtain rfl : current = 0 := hcurrent
  exact ⟨fun hc => by simp at hc, fun i hi => absurd hi (Nat.not_lt_zero i), Nat.zero_le _,
    .inr rfl⟩

/-! ## Writing -/

theorem unit_set (a : SlotArena α) (h : SlotHandle) (value : α) :
    (a.set h value).unit = a.unit := by
  unfold set
  split <;> rfl

theorem generation_set (a : SlotArena α) (h : SlotHandle) (value : α) :
    (a.set h value).generation = a.generation := by
  unfold set
  split <;> rfl

theorem handleAfter_set (a : SlotArena α) (h : SlotHandle) (value : α) :
    (a.set h value).handleAfter = a.handleAfter := by
  unfold set
  split <;> rfl

/-- What is written to a handle is its value then, and the others are as before. -/
theorem get?_set (a : SlotArena α) (h : SlotHandle) (value : α) (g : SlotHandle) :
    (a.set h value).get? g = if g = h ∧ (a.get? h).isSome then some value else a.get? g := by
  by_cases hsome : (a.get? h).isSome
  · obtain ⟨old, hold⟩ := Option.isSome_iff_exists.1 hsome
    have hgeneration : h.generation = a.generation :=
      of_not_not fun hne => by rw [get?, if_neg hne] at hold; cases hold
    rw [get?, if_pos hgeneration] at hold
    obtain ⟨c, hc, hslot⟩ := Option.bind_eq_some_iff.1 hold
    rw [if_congr (and_iff_left hsome) rfl rfl, get?, get?, generation_set]
    by_cases hg : g.generation = a.generation
    · rw [if_pos hg, if_pos hg, set, if_pos hsome]
      dsimp only
      rw [Array.getElem?_modify]
      by_cases hchunk : h.chunk = g.chunk
      · rw [if_pos hchunk, ← hchunk, hc, Option.map_some, Option.bind_some, Option.bind_some,
          Array.getElem?_modify]
        by_cases hsame : h.slot = g.slot
        · have heq : g = h :=
            (SlotHandle.mk.injEq ..).mpr ⟨hchunk.symm, hsame.symm, hg.trans hgeneration.symm⟩
          rw [if_pos hsame, if_pos heq, ← hsame, hslot, Option.map_some]
        · rw [if_neg hsame, if_neg fun heq => hsame (congrArg SlotHandle.slot heq).symm]
      · rw [if_neg hchunk, if_neg fun heq => hchunk (congrArg SlotHandle.chunk heq).symm]
    · rw [if_neg hg, if_neg hg, if_neg fun heq : g = h => hg (heq ▸ hgeneration)]
  · rw [set, if_neg hsome, if_neg fun hboth => hsome hboth.2]

/-! ## Sizes -/

/-- A sum over chunks, of what is told by the number of the chunk. -/
theorem foldr_eq_sum {f : Chunk α → Nat} : ∀ {chunks : List (Chunk α)} {g : Nat → Nat},
    (∀ (i : Nat) (c : Chunk α), chunks[i]? = some c → f c = g i) →
    chunks.foldr (f · + ·) 0 = ∑ i ∈ Finset.range chunks.length, g i
  | [], _, _ => rfl
  | c :: chunks, g, h => by
    rw [List.foldr_cons, List.length_cons, Finset.sum_range_succ',
      foldr_eq_sum (g := fun i => g (i + 1)) fun i d hd => h (i + 1) d hd, h 0 c rfl, Nat.add_comm]

namespace Holds

theorem room_eq (h : a.Holds n) :
    a.room = ∑ i ∈ Finset.range a.chunks.size, chunkCapacity a.unit i :=
  foldr_eq_sum fun _ _ hc => (h.chunks (Array.getElem?_toList ▸ hc)).1

theorem size_eq (h : a.Holds n) : a.size = n := by
  have hsum : a.size = ∑ i ∈ Finset.range a.chunks.size, fill a.unit n i :=
    foldr_eq_sum fun _ _ hc => (h.chunks (Array.getElem?_toList ▸ hc)).2
  rw [hsum, sum_fill]
  rcases h.reached with hlt | heq
  · exact if_neg (Nat.not_le.2 hlt)
  · have hplace := sum_chunkCapacity a.unit n
    rw [heq] at hplace ⊢
    exact (if_pos (Nat.le_refl _)).trans hplace

end Holds

/-! ## Many values -/

/-- Stores values one after the other, and goes on where one is refused. -/
def allocateAll (a : SlotArena α) : List α → List (Option SlotHandle) × SlotArena α
  | [] => ([], a)
  | value :: values =>
    let (answer, a) := a.allocate value
    let (answers, a) := a.allocateAll values
    (answer.toOption :: answers, a)

/-- What a request makes of an arena. -/
theorem allocate_cases (a : SlotArena α) (value : α) :
    (∃ i, (a.allocate value).2 = { a with current := i }) ∨ (a.allocate value).2 = a.withRoom ∨
      (a.allocate value).2 = (a.alloc value).2 := by
  unfold allocate
  dsimp only
  split
  · exact .inl ⟨_, rfl⟩
  · split
    · exact .inr (.inr rfl)
    · exact .inr (.inl rfl)
    · exact .inr (.inl rfl)

theorem unit_allocate (a : SlotArena α) (value : α) : (a.allocate value).2.unit = a.unit := by
  rcases a.allocate_cases value with ⟨i, heq⟩ | heq | heq
  · rw [heq]
  · rw [heq, unit_withRoom]
  · rw [heq]
    exact unit_withRoom a

theorem generation_allocate (a : SlotArena α) (value : α) :
    (a.allocate value).2.generation = a.generation := by
  rcases a.allocate_cases value with ⟨i, heq⟩ | heq | heq
  · rw [heq]
  · rw [heq, generation_withRoom]
  · rw [heq]
    exact generation_withRoom a

namespace Holds

/-- No chunk is added if there is one with the next place. -/
theorem size_chunks (h : a.Holds n) (hlt : (place a.unit n).1 < a.chunks.size) (value : α) :
    (a.allocate value).2.chunks.size = a.chunks.size := by
  have hroom : a.withRoom.chunks = a.chunks := by
    unfold SlotArena.withRoom
    dsimp only
    rw [h.roomFrom_eq, if_pos hlt]
  rcases a.allocate_cases value with ⟨i, heq⟩ | heq | heq
  · rw [heq]
  · rw [heq, hroom]
  · rw [heq]
    exact Array.size_modify.trans (congrArg Array.size hroom)

/-- Values that the chunks take need no further chunk. -/
theorem size_chunks_allocateAll {values : List α} (h : a.Holds n)
    (hroom : n + values.length ≤ a.room) :
    (a.allocateAll values).2.chunks.size = a.chunks.size := by
  induction values generalizing a n with
  | nil => rfl
  | cons value values ih =>
    rw [List.length_cons] at hroom
    have hlt : (place a.unit n).1 < a.chunks.size := by
      refine chunk_lt a.unit n a.chunks.size ?_
      rw [← h.room_eq]
      omega
    have hsize := h.size_chunks hlt value
    have hafter := h.after value
    refine (ih hafter ?_).trans hsize
    rw [hafter.room_eq, hsize, unit_allocate, ← h.room_eq]
    split <;> omega

/-- Two arenas that hold the same number of values give the same places to the next ones. -/
theorem allocateAll_places {values values' : List α} (ha : a.Holds n) (hb : b.Holds n)
    (hunit : a.unit = b.unit) (hlength : values.length = values'.length) :
    (a.allocateAll values).1.map (·.map SlotHandle.place) =
      (b.allocateAll values').1.map (·.map SlotHandle.place) := by
  induction values generalizing values' a b n with
  | nil =>
    obtain rfl := List.eq_nil_of_length_eq_zero hlength.symm
    rfl
  | cons value values ih =>
    obtain ⟨value', values', rfl⟩ := List.exists_cons_of_length_eq_add_one hlength.symm
    have hafter := hb.after value'
    rw [← hunit] at hafter
    have hrest := ih (ha.after value) hafter
      (by rw [unit_allocate, unit_allocate, hunit]) (Nat.succ.inj hlength)
    rw [SlotArena.allocateAll, SlotArena.allocateAll, List.map_cons, List.map_cons, hrest,
      ha.answer, hb.answer, hunit]
    split <;> simp only [handleAfter, SlotHandle.place, hunit, Option.map]

end Holds

end SlotArena

end SqlSyntax
