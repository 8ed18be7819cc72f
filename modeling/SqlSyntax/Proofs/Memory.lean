import SqlSyntax.Proofs.Memory.Bytes

/-!
# Byte arenas as memory

A byte arena is used as a memory: ranges are handed out, written and read, and taken back all at
once. `Held` is an arena together with a record of its use, the leases, which tells of each range
that was handed out the round, what was asked for, and what it should hold by now. A lease is live
in the round in which it was given; each time the ranges are taken back a new round begins.

`Held.Sound` is what every call keeps. From it follows, for an arena of any supply after any calls,
that live ranges lie apart, in their blocks and at their alignments, that they hold what was written
to them, and that the handles of earlier rounds name nothing (`ByteArena.calls_keep_memory`).
-/

namespace SqlSyntax

/-! ## Leases -/

/-- The record of a range that was handed out. -/
structure Lease where
  handle : ByteHandle
  /-- The alignment that was asked for. -/
  align : Nat
  /-- How often the arena had taken all ranges back. -/
  round : Nat
  /-- What the range held when it was handed out, and all that was written to it since. -/
  content : List UInt8

/-- The lease after bytes were written through a handle in a round. -/
def Lease.written (r : Lease) (round : Nat) (h : ByteHandle) (bytes : List UInt8) : Lease where
  handle := r.handle
  align := r.align
  round := r.round
  content := if r.round = round ∧ r.handle = h then overwritten r.content bytes else r.content

/-- An arena and the record of its use. -/
structure Held where
  arena : ByteArena
  /-- How often the arena has taken all ranges back. -/
  round : Nat := 0
  leases : List Lease := []
  /-- Whether in this round ranges were written through handles of this arena only. -/
  own : Bool := true

namespace Held

variable (m : Held)

/-- The leases of this round. -/
def live : List Lease := m.leases.filter (·.round = m.round)

/-- A handle that was handed out, in one of the last `2 ^ 32` rounds. -/
def issued (h : ByteHandle) : Bool :=
  m.leases.any fun r => r.handle = h ∧ m.round < r.round + 2 ^ 32

/-! What the calls make of an arena and of its record. -/

/-- An arena that has handed out a range, and what that holds. -/
def add (a : ByteArena) (h : ByteHandle) (align : Nat) (content : List UInt8) : Held :=
  { m with arena := a, leases := ⟨h, align, m.round, content⟩ :: m.leases }

def allocate (size align : Nat) : Held :=
  match m.arena.allocate size align with
  | (.ok h, a) => m.add a h align ((a.bytes? h).getD [])
  | (.error _, a) => { m with arena := a }

def allocateText (text : String) : Held :=
  match m.arena.allocateText text with
  | (.ok h, a) => m.add a h 1 text.toUTF8.toList
  | (.error _, a) => { m with arena := a }

def write (h : ByteHandle) (bytes : List UInt8) : Held where
  arena := m.arena.write h bytes
  round := m.round
  leases := m.leases.map (·.written m.round h bytes)
  own := m.own && (m.issued h || (m.arena.bytes? h).isNone)

/-- A new round, in an arena that has taken all ranges back. -/
def next (a : ByteArena) : Held := { m with arena := a, round := m.round + 1, own := true }

/-- What every call keeps. -/
structure Sound : Prop where
  used_le : ∀ {i : Nat} {b}, m.arena.blocks[i]? = some b → b.used ≤ b.capacity
  generation : m.arena.generation = .ofNat m.round
  given : ∀ r ∈ m.leases, r.round ≤ m.round ∧ r.handle.generation = .ofNat r.round
  placed : ∀ r ∈ m.leases, r.round = m.round → ∃ b, m.arena.blocks[r.handle.block]? = some b ∧
    r.handle.stop ≤ b.used ∧ ByteArena.roundAlign r.align ∣ b.address + r.handle.offset
  apart : m.leases.Pairwise fun r r' => r.round = m.round → r'.round = m.round →
    ByteArena.Apart r.handle r'.handle
  contents : m.own → ∀ r ∈ m.leases, r.round = m.round →
    m.arena.bytes? r.handle = some r.content

variable {m}

/-! ## Rounds -/

/-- A handle of an earlier round names nothing, unless all generations were used since. -/
theorem Sound.block?_eq_none (hm : m.Sound) {r : Lease} (hr : r ∈ m.leases)
    (hround : r.round < m.round) (hlast : m.round < r.round + 2 ^ 32) :
    m.arena.block? r.handle = none := by
  refine if_neg fun heq => ?_
  rw [hm.generation, (hm.given r hr).2] at heq
  exact generation_ne hround hlast heq

/-- A new round begins without live ranges. -/
theorem Sound.next (hm : m.Sound) {a : ByteArena}
    (hused : ∀ {i : Nat} {b : Block}, a.blocks[i]? = some b → b.used ≤ b.capacity)
    (hgeneration : a.generation = m.arena.generation + 1) : (m.next a).Sound := by
  have hpast : ∀ r ∈ m.leases, r.round ≠ m.round + 1 := fun r hr h => by
    have hle := (hm.given r hr).1
    omega
  refine ⟨hused, ?_, fun r hr => ?_, fun r hr h => absurd h (hpast r hr), ?_,
    fun _ r hr h => absurd h (hpast r hr)⟩
  · show a.generation = .ofNat (m.round + 1)
    rw [hgeneration, hm.generation, UInt32.ofNat_add]
    rfl
  · obtain ⟨hle, hgeneration⟩ := hm.given r hr
    exact ⟨Nat.le_succ_of_le hle, hgeneration⟩
  · exact List.pairwise_of_forall_mem_list fun r hr r' _ h => absurd h (hpast r hr)

theorem Sound.reset (hm : m.Sound) : (m.next m.arena.reset).Sound := by
  refine hm.next (fun {i b} hb => ?_) rfl
  rw [ByteArena.reset, Array.getElem?_map] at hb
  obtain ⟨b, -, rfl⟩ := Option.map_eq_some_iff.1 hb
  exact Nat.zero_le _

theorem Sound.clear (hm : m.Sound) : (m.next m.arena.clear).Sound :=
  hm.next (fun hb => by simp [ByteArena.clear] at hb) rfl

/-! ## New ranges -/

/-- Where the arena only grew, the record is as good as before. -/
theorem Sound.grows (hm : m.Sound) {a : ByteArena} (ha : m.arena.Grows a) :
    Sound { m with arena := a } where
  used_le hb := by
    rcases ha.fresh hb with hb | hb
    · exact hm.used_le hb
    · rw [hb]
      exact Nat.zero_le _
  generation := ha.generation.trans hm.generation
  given := hm.given
  placed r hr hround := by
    obtain ⟨b, hb, hplaced⟩ := hm.placed r hr hround
    exact ⟨b, ha.kept hb, hplaced⟩
  apart := hm.apart
  contents hown r hr hround := ha.bytes? (hm.contents hown r hr hround)

/-- A range that was free is apart from all others. -/
theorem Sound.lease (hm : m.Sound) {h : ByteHandle} {align : Nat} (hfree : m.arena.Free h align)
    (hgeneration : h.generation = m.arena.generation) {content : List UInt8}
    (hcontent : m.arena.bytes? h = some content) :
    (m.add (m.arena.occupy h.block h.stop) h align content).Sound := by
  obtain ⟨b, hb, hused, hstop, hdvd⟩ := hfree
  have hbefore : ∀ r ∈ m.leases, r.round = m.round → r.handle.block = h.block →
      r.handle.stop ≤ h.offset := by
    intro r hr hround hblock
    obtain ⟨c, hc, hplaced, -⟩ := hm.placed r hr hround
    rw [hblock, hb] at hc
    obtain rfl := Option.some.inj hc
    omega
  have hblocks (i : Nat) := m.arena.getElem?_occupy h.block h.stop i
  refine ⟨fun {i c} hc => ?_, hm.generation, fun r hr => ?_, fun r hr hround => ?_, ?_,
    fun hown r hr hround => ?_⟩
  · obtain ⟨c, hc', rfl⟩ := Option.map_eq_some_iff.1 ((hblocks i).symm.trans hc)
    split
    · next hi =>
      rw [hi, hb] at hc'
      exact Option.some.inj hc' ▸ hstop
    · exact hm.used_le hc'
  · rcases List.mem_cons.1 hr with rfl | hr
    · exact ⟨Nat.le_refl _, hgeneration.trans hm.generation⟩
    · exact hm.given r hr
  · rcases List.mem_cons.1 hr with rfl | hr
    · refine ⟨{ b with used := h.stop }, (hblocks h.block).trans ?_, Nat.le_refl _, hdvd⟩
      rw [hb, Option.map_some, if_pos rfl]
    · obtain ⟨c, hc, hplaced, hdvd'⟩ := hm.placed r hr hround
      refine ⟨if r.handle.block = h.block then { c with used := h.stop } else c,
        (hblocks r.handle.block).trans (by rw [hc, Option.map_some]), ?_⟩
      split
      · next hblock =>
        exact ⟨(hbefore r hr hround hblock).trans (Nat.le_add_right _ _), hdvd'⟩
      · exact ⟨hplaced, hdvd'⟩
  · refine List.pairwise_cons.2 ⟨fun r hr _ hround => ?_, hm.apart⟩
    by_cases hblock : r.handle.block = h.block
    · exact .inr (.inr (hbefore r hr hround hblock))
    · exact .inl (Ne.symm hblock)
  · refine (m.arena.bytes?_occupy h.block h.stop r.handle).trans ?_
    rcases List.mem_cons.1 hr with rfl | hr
    · exact hcontent
    · exact hm.contents hown r hr hround

/-- A range that is free can be read. -/
theorem exists_bytes?_of_free {a : ByteArena} {h : ByteHandle} {align : Nat}
    (hfree : a.Free h align) (hgeneration : h.generation = a.generation) :
    ∃ content, a.bytes? h = some content ∧ content.length = h.length := by
  obtain ⟨b, hb, -, hstop, -⟩ := hfree
  have hblock : a.block? h = some b := by rw [ByteArena.block?, if_pos hgeneration, hb]
  unfold ByteHandle.stop at hstop
  exact ⟨_, ByteArena.bytes?_of_block? hblock (by omega), by simp [Block.read]⟩

theorem Sound.allocate (hm : m.Sound) (size align : Nat) : (m.allocate size align).Sound := by
  unfold Held.allocate
  rcases m.arena.allocate_cases size align with
    ⟨e, a, hrun, hgrows⟩ | ⟨h, a, hrun, hgrows, hfree, -, hgeneration⟩
  · rw [hrun]
    exact hm.grows hgrows
  · rw [hrun]
    have hgeneration' := hgeneration.trans hgrows.generation.symm
    obtain ⟨content, hcontent, -⟩ := exists_bytes?_of_free hfree hgeneration'
    have hget : ((a.occupy h.block h.stop).bytes? h).getD [] = content := by
      rw [ByteArena.bytes?_occupy, hcontent]
      rfl
    dsimp only
    rw [hget]
    exact (hm.grows hgrows).lease hfree hgeneration' hcontent

/-! ## Writing -/

/-- A handle of a live range, or one that names nothing. -/
theorem Sound.cases_of_issued (hm : m.Sound) {h : ByteHandle}
    (hissued : m.issued h || (m.arena.bytes? h).isNone) :
    m.arena.bytes? h = none ∨ ∃ r ∈ m.leases, r.round = m.round ∧ r.handle = h := by
  rcases Bool.or_eq_true_iff.1 hissued with hissued | hnone
  · obtain ⟨r, hr, hrecord⟩ := List.any_eq_true.1 hissued
    obtain ⟨rfl, hlast⟩ := of_decide_eq_true hrecord
    rcases Nat.lt_or_eq_of_le (hm.given r hr).1 with hround | hround
    · exact .inl (ByteArena.bytes?_eq_none (hm.block?_eq_none hr hround hlast))
    · exact .inr ⟨r, hr, hround, rfl⟩
  · exact .inl (Option.isNone_iff_eq_none.1 hnone)

/-- Two live leases are of one range or of two that are apart. -/
theorem Sound.apart_of_ne (hm : m.Sound) {r r' : Lease} (hr : r ∈ m.leases) (hr' : r' ∈ m.leases)
    (hround : r.round = m.round) (hround' : r'.round = m.round) (hne : r.handle ≠ r'.handle) :
    ByteArena.Apart r.handle r'.handle := by
  have hpair : m.leases.Pairwise fun r r' => r.round = m.round → r'.round = m.round →
      r.handle ≠ r'.handle → ByteArena.Apart r.handle r'.handle :=
    hm.apart.imp fun h hround hround' _ => h hround hround'
  have hflip : m.leases.Pairwise (flip fun r r' => r.round = m.round → r'.round = m.round →
      r.handle ≠ r'.handle → ByteArena.Apart r.handle r'.handle) :=
    hm.apart.imp fun h hround' hround _ => (h hround hround').symm
  exact hpair.forall_of_forall_of_flip (fun _ _ _ _ h => absurd rfl h) hflip hr hr'
    hround hround' hne

theorem Sound.write (hm : m.Sound) (h : ByteHandle) (bytes : List UInt8) :
    (m.write h bytes).Sound where
  used_le {i c} hc := by
    obtain ⟨change, hchange, hframe⟩ := m.arena.getElem?_write_frame h bytes i
    rw [Held.write, hchange] at hc
    obtain ⟨b, hb, rfl⟩ := Option.map_eq_some_iff.1 hc
    rw [(hframe b).2.1, (hframe b).2.2]
    exact hm.used_le hb
  generation := (m.arena.generation_write h bytes).trans hm.generation
  given _ hmem := by
    obtain ⟨r, hr, rfl⟩ := List.mem_map.1 hmem
    exact hm.given r hr
  placed _ hmem hround := by
    obtain ⟨r, hr, rfl⟩ := List.mem_map.1 hmem
    obtain ⟨b, hb, hplaced⟩ := hm.placed r hr hround
    obtain ⟨change, hchange, hframe⟩ := m.arena.getElem?_write_frame h bytes r.handle.block
    refine ⟨change b, hchange.trans (by rw [hb]; rfl), ?_⟩
    rw [(hframe b).1, (hframe b).2.2]
    exact hplaced
  apart := List.pairwise_map.2 hm.apart
  contents howns _ hmem hlive := by
    obtain ⟨hown, hissued⟩ := Bool.and_eq_true_iff.1 howns
    obtain ⟨r, hr, rfl⟩ := List.mem_map.1 hmem
    have hround : r.round = m.round := hlive
    have hcontent := hm.contents hown r hr hround
    show (m.arena.write h bytes).bytes? r.handle =
      some (if r.round = m.round ∧ r.handle = h then _ else _)
    rcases hm.cases_of_issued hissued with hnone | ⟨r', hr', hround', rfl⟩
    · rw [ByteArena.write_of_bytes?_eq_none hnone, if_neg]
      · exact hcontent
      · rintro ⟨-, rfl⟩
        rw [hnone] at hcontent
        cases hcontent
    · by_cases hsame : r.handle = r'.handle
      · rw [if_pos ⟨hround, hsame⟩, ← hsame]
        exact ByteArena.bytes?_write_self hcontent bytes
      · rw [if_neg fun h => hsame h.2,
          ByteArena.bytes?_write_apart (hm.apart_of_ne hr hr' hround hround' hsame)]
        exact hcontent

/-! ## Texts -/

theorem toList_loop (bytes : ByteArray) (i : Nat) (done : List UInt8) :
    ByteArray.toList.loop bytes i done = done.reverse ++ bytes.data.toList.drop i := by
  fun_induction ByteArray.toList.loop bytes i done with
  | case1 i done h ih =>
    have hget : bytes.get! i = bytes.data.toList.get ⟨i, h⟩ := getElem!_pos bytes.data i h
    rw [ih, List.reverse_cons, List.append_assoc,
      List.drop_eq_getElem_cons (show i < bytes.data.toList.length from h), hget]
    rfl
  | case2 i done h => rw [List.drop_eq_nil_of_le (Nat.le_of_not_lt h), List.append_nil]

theorem toList_eq_data (bytes : ByteArray) : bytes.toList = bytes.data.toList := by
  rw [ByteArray.toList, toList_loop, List.reverse_nil, List.nil_append, List.drop_zero]

theorem length_toUTF8 (text : String) : text.toUTF8.toList.length = text.utf8ByteSize := by
  rw [toList_eq_data]
  rfl

/-- What is written at once to a range is what it holds from the start. -/
theorem Sound.write_add {a : ByteArena} {h : ByteHandle} {align : Nat} {content bytes : List UInt8}
    (hm : (m.add a h align content).Sound) (hlength : bytes.length = content.length) :
    (m.add a h align content).write h bytes = m.add (a.write h bytes) h align bytes := by
  have hothers : m.leases.map (·.written m.round h bytes) = m.leases := by
    refine (List.map_congr_left fun r hr => ?_).trans (List.map_id _)
    have hother : ¬ (r.round = m.round ∧ r.handle = h) := by
      rintro ⟨hround, rfl⟩
      exact ByteArena.not_apart_self _ ((List.pairwise_cons.1 hm.apart).1 r hr rfl hround)
    rw [Lease.written, if_neg hother]
    rfl
  have hissued : (m.add a h align content).issued h := by
    refine List.any_eq_true.2 ⟨_, List.mem_cons_self, decide_eq_true ⟨rfl, ?_⟩⟩
    exact Nat.lt_add_of_pos_right (Nat.two_pow_pos 32)
  have hown : (m.own && ((m.add a h align content).issued h ||
      ((m.add a h align content).arena.bytes? h).isNone)) = m.own := by
    rw [hissued, Bool.true_or, Bool.and_true]
  show Held.mk _ m.round (Lease.mk h align m.round
    (if m.round = m.round ∧ h = h then overwritten content bytes else content) ::
      m.leases.map (·.written m.round h bytes)) (m.own && _) = _
  rw [hothers, hown, if_pos ⟨rfl, rfl⟩, overwritten_of_length_eq hlength]
  rfl

/-- A text is handed out as a range of its length, to which its bytes are written. -/
theorem Sound.allocateText (hm : m.Sound) (text : String) : (m.allocateText text).Sound := by
  unfold Held.allocateText ByteArena.allocateText
  rcases m.arena.allocate_cases text.utf8ByteSize 1 with
    ⟨e, a, hrun, hgrows⟩ | ⟨h, a, hrun, hgrows, hfree, hlength, hgeneration⟩
  · rw [hrun]
    exact hm.grows hgrows
  · have hgeneration' := hgeneration.trans hgrows.generation.symm
    obtain ⟨content, hcontent, hread⟩ := exists_bytes?_of_free hfree hgeneration'
    have hlease : (m.add (a.occupy h.block h.stop) h 1 content).Sound :=
      (hm.grows hgrows).lease hfree hgeneration' hcontent
    rw [hrun]
    dsimp only
    rw [← hlease.write_add (by rw [length_toUTF8, hread, hlength])]
    exact hlease.write h _

/-! ## What follows from the record -/

/-- An arena is a memory for the live ranges. -/
structure IsMemory (m : Held) : Prop where
  used_le : ∀ b ∈ m.arena.blocks, b.used ≤ b.capacity
  /-- A live range lies in a block; an empty one takes a byte. -/
  inside : ∀ r ∈ m.live, ∃ b, m.arena.block? r.handle = some b ∧ r.handle.stop ≤ b.capacity
  apart : m.live.Pairwise fun r r' => ByteArena.Apart r.handle r'.handle
  /-- The alignment is the one that was asked for, rounded up to a power of two. -/
  aligned : ∀ r ∈ m.live, ∃ place, m.arena.address? r.handle = some place ∧
    2 ^ Nat.clog 2 r.align ∣ place
  contents : m.own → ∀ r ∈ m.live, m.arena.bytes? r.handle = some r.content
  written : ∀ r ∈ m.live, ∀ bytes, (m.arena.write r.handle bytes).bytes? r.handle =
    (m.arena.bytes? r.handle).map (overwritten · bytes)
  unchanged : ∀ r ∈ m.live, ∀ r' ∈ m.live, r.handle ≠ r'.handle → ∀ bytes,
    (m.arena.write r'.handle bytes).bytes? r.handle = m.arena.bytes? r.handle
  /-- The handle of an earlier round names nothing, unless all generations were used since. -/
  stale : ∀ r ∈ m.leases, r.round < m.round → m.round < r.round + 2 ^ 32 →
    m.arena.block? r.handle = none
  /-- Blocks that are moved to another arena take the live ranges with them. -/
  taken : ∀ r ∈ m.live, m.arena.take.1.bytes? r.handle = m.arena.bytes? r.handle ∧
    m.arena.take.2.block? r.handle = none

theorem mem_live {r : Lease} : r ∈ m.live ↔ r ∈ m.leases ∧ r.round = m.round := by
  rw [live, List.mem_filter, decide_eq_true_iff]

theorem Sound.isMemory (hm : m.Sound) : m.IsMemory := by
  have hblock {r : Lease} (hr : r ∈ m.live) : ∃ b, m.arena.block? r.handle = some b ∧
      r.handle.stop ≤ b.used ∧ b.used ≤ b.capacity ∧
        2 ^ Nat.clog 2 r.align ∣ b.address + r.handle.offset := by
    obtain ⟨hr, hround⟩ := mem_live.1 hr
    obtain ⟨b, hb, hstop, hdvd⟩ := hm.placed r hr hround
    refine ⟨b, ?_, hstop, hm.used_le hb, ByteArena.roundAlign_eq r.align ▸ hdvd⟩
    rw [ByteArena.block?, if_pos, hb]
    rw [(hm.given r hr).2, hround, hm.generation]
  refine ⟨fun b hb => ?_, fun r hr => ?_, ?_, fun r hr => ?_, fun hown r hr => ?_,
    fun r hr bytes => ?_, fun r hr r' hr' hne bytes => ?_, fun r hr => hm.block?_eq_none hr,
    fun r hr => ⟨rfl, ?_⟩⟩
  · obtain ⟨i, hi, rfl⟩ := Array.mem_iff_getElem.1 hb
    exact hm.used_le (Array.getElem?_eq_getElem hi)
  · obtain ⟨b, hb, hstop, hused, -⟩ := hblock hr
    exact ⟨b, hb, hstop.trans hused⟩
  · refine List.pairwise_filter.2 (hm.apart.imp fun h hround hround' => ?_)
    exact h (of_decide_eq_true hround) (of_decide_eq_true hround')
  · obtain ⟨b, hb, -, -, hdvd⟩ := hblock hr
    exact ⟨_, by rw [ByteArena.address?, hb]; rfl, hdvd⟩
  · obtain ⟨hr, hround⟩ := mem_live.1 hr
    exact hm.contents hown r hr hround
  · obtain ⟨b, hb, hstop, hused, -⟩ := hblock hr
    have hread : m.arena.bytes? r.handle = some _ := ByteArena.bytes?_of_block? hb (by
      unfold ByteHandle.stop at hstop
      omega)
    rw [ByteArena.bytes?_write_self hread, hread, Option.map_some]
  · obtain ⟨hr, hround⟩ := mem_live.1 hr
    obtain ⟨hr', hround'⟩ := mem_live.1 hr'
    exact ByteArena.bytes?_write_apart (hm.apart_of_ne hr hr' hround hround' hne) bytes
  · rw [ByteArena.block?]
    split <;> rfl

end Held

/-! ## Calls -/

namespace ByteArena

/-- An arena for a system with a first block or without. -/
def start (supply : Supply) (based : Bool) : ByteArena :=
  if based then
    match request { supply } Growth.bytes.base with
    | .ok (b, a) => a.push b
    | .error _ => { supply }
  else { supply }

-- With blocks far apart, these are the arenas as they are made in the first place.
example : start .spaced true = new ∧ start .spaced false = empty := ⟨rfl, rfl⟩

/-- What may be done to some arenas, of which each is named by its place in a list. -/
inductive Call where
  | allocate (arena size align : Nat)
  | allocateText (arena : Nat) (text : String)
  | write (arena : Nat) (h : ByteHandle) (bytes : List UInt8)
  | reset (arena : Nat)
  | clear (arena : Nat)
  | take (arena : Nat)

/-- The arenas after a call; a new one is the last. -/
def Call.on (arenas : List Held) : Call → List Held
  | allocate i size align => arenas.modify i (·.allocate size align)
  | allocateText i text => arenas.modify i (·.allocateText text)
  | write i h bytes => arenas.modify i (·.write h bytes)
  | reset i => arenas.modify i fun m => m.next m.arena.reset
  | clear i => arenas.modify i fun m => m.next m.arena.clear
  | take i =>
    arenas.modify i (fun m => m.next m.arena.take.2) ++
      (arenas[i]?.map fun m => { m with arena := m.arena.take.1 }).toList

theorem Call.forall_modify {P : Held → Prop} {change : Held → Held}
    (hchange : ∀ m, P m → P (change m)) :
    ∀ {arenas : List Held} {i : Nat}, (∀ m ∈ arenas, P m) → ∀ m ∈ arenas.modify i change, P m
  | [], 0, _, _, hm => nomatch hm
  | [], _ + 1, _, _, hm => nomatch hm
  | m :: arenas, 0, h, _, hm => by
    obtain ⟨hfirst, hrest⟩ := List.forall_mem_cons.1 h
    exact (List.forall_mem_cons (p := P)).2 ⟨hchange m hfirst, hrest⟩ _ hm
  | m :: arenas, i + 1, h, _, hm => by
    obtain ⟨hfirst, hrest⟩ := List.forall_mem_cons.1 h
    exact (List.forall_mem_cons (p := P)).2 ⟨hfirst, forall_modify hchange hrest⟩ _ hm

/-- A call keeps what the records say of all arenas. -/
theorem Call.sound {arenas : List Held} (h : ∀ m ∈ arenas, m.Sound) (call : Call) :
    ∀ m ∈ call.on arenas, m.Sound := by
  cases call with
  | allocate i size align => exact forall_modify (fun m hm => hm.allocate size align) h
  | allocateText i text => exact forall_modify (fun m hm => hm.allocateText text) h
  | write i h' bytes => exact forall_modify (fun m hm => hm.write h' bytes) h
  | reset i => exact forall_modify (fun m hm => hm.reset) h
  | clear i => exact forall_modify (fun m hm => hm.clear) h
  | take i =>
    intro m hm
    rcases List.mem_append.1 hm with hm | hm
    · exact forall_modify (fun m hm => hm.clear) h m hm
    · obtain ⟨m', hm', rfl⟩ := Option.map_eq_some_iff.1 (Option.mem_toList.1 hm)
      exact h m' (List.mem_of_getElem? hm')

theorem Call.all_sound : ∀ (calls : List Call) {arenas : List Held},
    (∀ m ∈ arenas, m.Sound) → ∀ m ∈ calls.foldl Call.on arenas, m.Sound
  | [], _, h => h
  | call :: calls, _, h => all_sound calls (call.sound h)

theorem start_sound (supply : Supply) (based : Bool) :
    Held.Sound { arena := start supply based } := by
  have hempty : Held.Sound { arena := { supply } } :=
    ⟨fun hb => by simp at hb, rfl, nofun, nofun, .nil, nofun⟩
  unfold start
  split
  · rcases hrequest : request { supply } Growth.bytes.base with e | ⟨b, a⟩
    · exact hempty
    · obtain ⟨hused, rfl⟩ := of_request hrequest
      exact hempty.grows (.push hused _)
  · exact hempty

/-- Whatever is done to a new arena and to those that its blocks are moved to, each of them is a
memory: blocks are never overfull, live ranges lie apart in their blocks and at their alignments and
hold what was written to them, and the handles of earlier rounds name nothing. -/
theorem calls_keep_memory (supply : Supply) (based : Bool) (calls : List Call) :
    ∀ m ∈ calls.foldl Call.on [{ arena := start supply based }], m.IsMemory := by
  have hstart := List.forall_mem_singleton.2 (start_sound supply based)
  exact fun m hm => (Call.all_sound calls hstart m hm).isMemory

/-- One of two ranges is written, and then the blocks move. -/
theorem calls_keep_memory_taken :
    ∃ m ∈ [.allocate 0 2 8, .allocate 0 3 8, .write 0 ⟨0, 8, 3, 0⟩ [7, 8], .take 0].foldl Call.on
        [{ arena := start .spaced false }],
      m.live.map (·.content) = [[7, 8, 0], [0, 0]] ∧
      ∀ r ∈ m.live, m.arena.bytes? r.handle = some r.content := by
  have hlast : ([.allocate 0 2 8, .allocate 0 3 8, .write 0 ⟨0, 8, 3, 0⟩ [7, 8],
      .take 0].foldl Call.on [{ arena := start .spaced false }])[1]?.map
        (fun m => (m.own, m.live.map (·.content))) = some (true, [[7, 8, 0], [0, 0]]) := by
    decide +kernel
  obtain ⟨m, hm, hrecord⟩ := Option.map_eq_some_iff.1 hlast
  obtain ⟨hown, hlive⟩ := Prod.mk.inj hrecord
  have hmem := List.mem_of_getElem? hm
  exact ⟨m, hmem, hlive, (calls_keep_memory .spaced false _ m hmem).contents hown⟩

end ByteArena

end SqlSyntax
