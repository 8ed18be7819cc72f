import SqlSyntax.Proofs.Slots.Places

/-!
# Slot arenas as stores

A slot arena is used as a store: values are put in, written and read under their handles, and
forgotten all at once. `Stored` is an arena together with a record of its use, the deposits, which
tells of each value its handle, the round in which it was stored, and what it should be by now. A
deposit is live in its own round; each time the values are forgotten a new round begins.

`Stored.Sound` is what every call keeps: the live deposits have the first places, in their order.
From it follows, for values of any size and after any calls, that live handles are in order and name
what was written last, that those of earlier rounds name nothing, that a value gets the next place
if that can be had, and that after a reset the values go to the same places again
(`SlotArena.calls_keep_values`).
-/

namespace SqlSyntax

variable {α : Type}

/-! ## Deposits -/

/-- The record of a value that was stored. -/
structure Deposit (α : Type) where
  handle : SlotHandle
  /-- How often the arena had forgotten all values. -/
  round : Nat
  /-- The value that was stored, or the last that was written to it since. -/
  value : α

/-- The deposit after a value was written through a handle in a round. -/
def Deposit.written (d : Deposit α) (round : Nat) (h : SlotHandle) (value : α) : Deposit α where
  handle := d.handle
  round := d.round
  value := if d.round = round ∧ d.handle = h then value else d.value

/-- An arena and the record of its use, the last deposit first. -/
structure Stored (α : Type) where
  arena : SlotArena α
  /-- How often the arena has forgotten all values. -/
  round : Nat := 0
  deposits : List (Deposit α) := []

namespace Stored

variable (m : Stored α)

/-- The deposits of this round. -/
def live : List (Deposit α) := m.deposits.filter (·.round = m.round)

/-! What the calls make of an arena and of its record. -/

def allocate (value : α) : Stored α :=
  match m.arena.allocate value with
  | (.ok h, a) => { m with arena := a, deposits := ⟨h, m.round, value⟩ :: m.deposits }
  | (.error _, a) => { m with arena := a }

def set (h : SlotHandle) (value : α) : Stored α where
  arena := m.arena.set h value
  round := m.round
  deposits := m.deposits.map (·.written m.round h value)

/-- A new round, in an arena that has forgotten all values. -/
def next (a : SlotArena α) : Stored α := { m with arena := a, round := m.round + 1 }

/-- What every call keeps. -/
structure Sound : Prop where
  generation : m.arena.generation = .ofNat m.round
  given : ∀ d ∈ m.deposits, d.round ≤ m.round ∧ d.handle.generation = .ofNat d.round
  holds : m.arena.Holds m.live.length
  placed : m.live.map (·.handle) = (List.range m.live.length).reverse.map m.arena.handleAfter
  kept : ∀ d ∈ m.live, m.arena.get? d.handle = some d.value

variable {m}

theorem mem_live {d : Deposit α} : d ∈ m.live ↔ d ∈ m.deposits ∧ d.round = m.round := by
  rw [live, List.mem_filter, decide_eq_true_iff]

/-! ## Rounds -/

/-- A handle of an earlier round names nothing, unless all generations were used since. -/
theorem Sound.get?_eq_none (hm : m.Sound) {d : Deposit α} (hd : d ∈ m.deposits)
    (hround : d.round < m.round) (hlast : m.round < d.round + 2 ^ 32) :
    m.arena.get? d.handle = none := by
  refine if_neg fun heq => ?_
  rw [hm.generation, (hm.given d hd).2] at heq
  exact generation_ne hround hlast heq

/-- A new round begins without values. -/
theorem Sound.next (hm : m.Sound) {a : SlotArena α} (hholds : a.Holds 0)
    (hgeneration : a.generation = m.arena.generation + 1) :
    (m.next a).Sound ∧ (m.next a).live = [] := by
  have hlive : (m.next a).live = [] := by
    refine List.filter_eq_nil_iff.2 fun d hd => ?_
    have hle := (hm.given d hd).1
    exact fun hround => absurd (of_decide_eq_true hround) (by
      show d.round ≠ m.round + 1
      omega)
  refine ⟨⟨?_, fun d hd => ?_, by rwa [hlive], by rw [hlive]; rfl, by rw [hlive]; nofun⟩, hlive⟩
  · show a.generation = .ofNat (m.round + 1)
    rw [hgeneration, hm.generation, UInt32.ofNat_add]
    rfl
  · obtain ⟨hle, hgeneration⟩ := hm.given d hd
    exact ⟨Nat.le_succ_of_le hle, hgeneration⟩

/-! ## Values -/

/-- The handles of the live deposits are those of the first places. -/
theorem Sound.exists_place (hm : m.Sound) {d : Deposit α} (hd : d ∈ m.live) :
    ∃ n < m.live.length, d.handle = m.arena.handleAfter n := by
  have hhandle := List.mem_map_of_mem (f := (·.handle)) hd
  rw [hm.placed] at hhandle
  obtain ⟨n, hn, heq⟩ := List.mem_map.1 hhandle
  exact ⟨n, List.mem_range.1 (List.mem_reverse.1 hn), heq.symm⟩

theorem Sound.allocate (hm : m.Sound) (value : α) : (m.allocate value).Sound := by
  have hanswers := hm.holds.allocate value
  have hunit := m.arena.unit_allocate value
  have hgeneration := m.arena.generation_allocate value
  unfold Stored.allocate
  rcases hrun : m.arena.allocate value with ⟨r, a⟩
  rw [hrun] at hanswers hunit hgeneration
  have hhandles : a.handleAfter = m.arena.handleAfter := by
    funext n
    rw [SlotArena.handleAfter, SlotArena.handleAfter, hunit, hgeneration]
  cases hanswers with
  | refused full holds get? =>
    exact ⟨hgeneration.trans hm.generation, hm.given, holds, hhandles ▸ hm.placed,
      fun d hd => (get? _).trans (hm.kept d hd)⟩
  | stored storable holds get? =>
    have hlive : live { m with
        arena := a
        deposits := ⟨m.arena.handleAfter m.live.length, m.round, value⟩ :: m.deposits } =
        ⟨m.arena.handleAfter m.live.length, m.round, value⟩ :: m.live :=
      List.filter_cons_of_pos (decide_eq_true rfl)
    refine ⟨hgeneration.trans hm.generation, fun d hd => ?_, ?_, ?_, fun d hd => ?_⟩
    · rcases List.mem_cons.1 hd with rfl | hd
      · exact ⟨Nat.le_refl _, hm.generation⟩
      · exact hm.given d hd
    · rwa [hlive]
    · rw [hlive, List.map_cons, hm.placed, List.length_cons, List.range_succ, List.reverse_append,
        List.reverse_singleton, List.map_append, hhandles]
      rfl
    · rw [hlive] at hd
      refine (get? _).trans ?_
      rcases List.mem_cons.1 hd with rfl | hd
      · exact if_pos rfl
      · obtain ⟨n, hn, hhandle⟩ := hm.exists_place hd
        have hne : d.handle ≠ m.arena.handleAfter m.live.length := fun heq =>
          Nat.ne_of_lt hn (m.arena.handleAfter_injective (hhandle.symm.trans heq))
        exact (if_neg hne).trans (hm.kept d hd)

theorem Sound.length_live_allocate (hm : m.Sound) (value : α) :
    (m.allocate value).live.length = if SlotArena.Storable m.arena.unit m.live.length then
      m.live.length + 1 else m.live.length := by
  have hanswer := hm.holds.answer value
  unfold Stored.allocate
  rcases hrun : m.arena.allocate value with ⟨_ | h, a⟩ <;> rw [hrun] at hanswer <;>
    split at hanswer
  · cases hanswer
  · next hfull => exact (if_neg hfull).symm
  · next hstorable =>
    rw [if_pos hstorable]
    have hlive : live { m with arena := a, deposits := ⟨h, m.round, value⟩ :: m.deposits } =
        ⟨h, m.round, value⟩ :: m.live := List.filter_cons_of_pos (decide_eq_true rfl)
    exact congrArg List.length hlive
  · cases hanswer

theorem length_live_set (h : SlotHandle) (value : α) :
    (m.set h value).live.length = m.live.length := by
  have hlive : (m.set h value).live = m.live.map (·.written m.round h value) := List.filter_map
  rw [hlive, List.length_map]

theorem Sound.set (hm : m.Sound) (h : SlotHandle) (value : α) : (m.set h value).Sound := by
  have hlive : (m.set h value).live = m.live.map (·.written m.round h value) := List.filter_map
  refine ⟨(m.arena.generation_set h value).trans hm.generation, fun _ hmem => ?_, ?_, ?_,
    fun _ hmem => ?_⟩
  · obtain ⟨d, hd, rfl⟩ := List.mem_map.1 hmem
    exact hm.given d hd
  · rw [hlive, List.length_map]
    exact hm.holds.set h value
  · rw [hlive, List.length_map, List.map_map]
    exact hm.placed.trans (by rw [← m.arena.handleAfter_set h value]; rfl)
  · rw [hlive] at hmem
    obtain ⟨d, hd, rfl⟩ := List.mem_map.1 hmem
    have hround := (mem_live.1 hd).2
    have hkept := hm.kept d hd
    show (m.arena.set h value).get? d.handle =
      some (if d.round = m.round ∧ d.handle = h then value else d.value)
    rw [SlotArena.get?_set]
    by_cases hsame : d.handle = h
    · rw [if_pos ⟨hsame, by rw [← hsame, hkept]; rfl⟩, if_pos ⟨hround, hsame⟩]
    · rw [if_neg fun hboth => hsame hboth.1, if_neg fun hboth => hsame hboth.2]
      exact hkept

/-! ## What follows from the record -/

/-- An arena is a store for the live deposits. -/
structure IsStore (m : Stored α) : Prop where
  /-- A handle comes after those that were issued before. -/
  ordered : m.live.Pairwise fun d d' =>
    toLex d'.handle.place < toLex d.handle.place
  distinct : (m.live.map (·.handle)).Nodup
  kept : ∀ d ∈ m.live, m.arena.get? d.handle = some d.value
  /-- The handle of an earlier round names nothing, unless all generations were used since. -/
  stale : ∀ d ∈ m.deposits, d.round < m.round → m.round < d.round + 2 ^ 32 →
    m.arena.get? d.handle = none
  size_eq : m.arena.size = m.live.length
  /-- One more value is stored exactly if the next place can be had. Then it is read with the handle
  of that place, and in any case the other handles name what they named. -/
  answers : ∀ value : α, m.arena.Answers m.live.length value (m.arena.allocate value)
  /-- A reset arena adds no chunk for as many values as its chunks take. -/
  reused : ∀ values : List α, values.length ≤ m.arena.room →
    (m.arena.reset.allocateAll values).2.chunks.size = m.arena.chunks.size

theorem Sound.isStore (hm : m.Sound) : m.IsStore := by
  have hordered : (m.live.map (·.handle)).Pairwise fun g g' =>
      toLex g'.place < toLex g.place := by
    rw [hm.placed, List.pairwise_map, List.pairwise_reverse]
    exact List.pairwise_lt_range.imp fun hlt => SlotArena.place_strictMono m.arena.unit hlt
  refine ⟨List.pairwise_map.1 hordered, ?_, hm.kept, fun d hd => hm.get?_eq_none hd,
    hm.holds.size_eq, hm.holds.allocate, fun values hroom => ?_⟩
  · exact hordered.imp fun hlt heq => by
      rw [heq] at hlt
      exact absurd hlt (lt_irrefl _)
  · have hreset := hm.holds.reset
    have hsize : m.arena.reset.chunks.size = m.arena.chunks.size := Array.size_map
    refine (hreset.size_chunks_allocateAll ?_).trans hsize
    rw [hreset.room_eq, hsize, Nat.zero_add]
    exact hroom.trans (Nat.le_of_eq hm.holds.room_eq)

end Stored

/-! ## Calls -/

namespace SlotArena

/-- What may be done to an arena. -/
inductive Call (α : Type) where
  | allocate (value : α)
  | set (h : SlotHandle) (value : α)
  | reset
  | clear

def Call.on (m : Stored α) : Call α → Stored α
  | .allocate value => m.allocate value
  | .set h value => m.set h value
  | .reset => m.next m.arena.reset
  | .clear => m.next m.arena.clear

/-- A new arena for values of some bytes, after calls. -/
def afterCalls (unit : Nat) (calls : List (Call α)) : Stored α :=
  calls.foldl Call.on { arena := { unit } }

theorem Call.sound {m : Stored α} (hm : m.Sound) (call : Call α) : (call.on m).Sound := by
  cases call with
  | allocate value => exact hm.allocate value
  | set h value => exact hm.set h value
  | reset => exact (hm.next hm.holds.reset rfl).1
  | clear => exact (hm.next (holds_zero rfl rfl) rfl).1

/-- The bytes of a value stay what they are. -/
theorem Call.unit_on (m : Stored α) (call : Call α) :
    (call.on m).arena.unit = m.arena.unit := by
  cases call with
  | allocate value =>
    have hunit := m.arena.unit_allocate value
    rw [Call.on, Stored.allocate]
    split
    · next hrun => rwa [hrun] at hunit
    · next hrun => rwa [hrun] at hunit
  | set h value =>
    rw [Call.on, Stored.set, SlotArena.set]
    split <;> rfl
  | reset => rfl
  | clear => rfl

theorem afterCalls_sound (unit : Nat) (calls : List (Call α)) :
    (afterCalls unit calls).Sound ∧ (afterCalls unit calls).arena.unit = unit := by
  have hall {m : Stored α} (hm : m.Sound) (hunit : m.arena.unit = unit) :
      (calls.foldl Call.on m).Sound ∧ (calls.foldl Call.on m).arena.unit = unit := by
    induction calls generalizing m with
    | nil => exact ⟨hm, hunit⟩
    | cons call calls ih => exact ih (call.sound hm) ((call.unit_on m).trans hunit)
  exact hall ⟨rfl, nofun, holds_zero rfl rfl, rfl, nofun⟩ rfl

/-- How many values were handed in since all were last forgotten, if there were `n` before the
call. -/
def Call.requests (n : Nat) : Call α → Nat
  | .allocate _ => n + 1
  | .set _ _ => n
  | .reset => 0
  | .clear => 0

/-- How many values were handed in by calls since all were last forgotten. -/
def requests (calls : List (Call α)) : Nat := calls.foldl Call.requests 0

/-- Of `n` values that were handed in all are there, or as many as have a place. -/
def Keeps (m : Stored α) (n : Nat) : Prop :=
  m.live.length = n ∨ m.live.length < n ∧ ¬ Storable m.arena.unit m.live.length

theorem Call.keeps {m : Stored α} {n : Nat} (hm : m.Sound) (h : Keeps m n) (call : Call α) :
    Keeps (call.on m) (call.requests n) := by
  have hunit := call.unit_on m
  cases call with
  | allocate value =>
    have hlength : ((Call.allocate value).on m).live.length = _ := hm.length_live_allocate value
    unfold Keeps
    rw [hlength, hunit, Call.requests]
    split
    · next hstorable =>
      obtain heq | ⟨-, hfull⟩ := h
      · exact .inl (congrArg (· + 1) heq)
      · exact absurd hstorable hfull
    · next hfull =>
      refine .inr ⟨Nat.lt_succ_of_le ?_, hfull⟩
      exact h.elim Nat.le_of_eq fun hless => Nat.le_of_lt hless.1
  | set handle value =>
    have hlength : ((Call.set handle value).on m).live.length = _ :=
      Stored.length_live_set handle value
    unfold Keeps
    rwa [hlength, hunit]
  | reset => exact .inl (congrArg List.length (hm.next hm.holds.reset rfl).2)
  | clear => exact .inl (congrArg List.length (hm.next (holds_zero rfl rfl) rfl).2)

theorem afterCalls_keeps (unit : Nat) (calls : List (Call α)) :
    Keeps (afterCalls unit calls) (requests calls) := by
  have hall {m : Stored α} {n : Nat} (hm : m.Sound) (h : Keeps m n) :
      Keeps (calls.foldl Call.on m) (calls.foldl Call.requests n) := by
    induction calls generalizing m n with
    | nil => exact h
    | cons call calls ih => exact ih (call.sound hm) (call.keeps hm h)
  exact hall ⟨rfl, nofun, holds_zero rfl rfl, rfl, nofun⟩ (.inl rfl)

/-- Whatever is done to a new arena, it is a store: live handles are in order, hold what was written
to them last, and are all there is, while the handles of earlier rounds name nothing; and one more
value is stored under the handle of the next place if that can be had. So there are as many values
as were handed in since they were last forgotten, unless one of them had no place; and if the system
has a block for a value, no value lacks a place before `2 ^ 32` of them are there. After a reset the
arena gives values the places which any arena for values of the same size gives to its first ones,
and adds no chunk as long as they fit in those that it has. -/
theorem calls_keep_values (unit : Nat) (calls : List (Call α)) :
    (afterCalls unit calls).IsStore ∧
    ((afterCalls unit calls).arena.size = requests calls ∨
      (afterCalls unit calls).arena.size < requests calls ∧
        ¬ Storable unit (afterCalls unit calls).arena.size) ∧
    (unit < 0x7FFFFFFFFFFFFFFF → ∀ n < 2 ^ 32, Storable unit n) ∧
    ∀ others : List (Call α), (afterCalls unit others).live = [] →
      ∀ values values' : List α, values.length = values'.length →
        ((afterCalls unit calls).arena.reset.allocateAll values).1.map (·.map SlotHandle.place) =
          ((afterCalls unit others).arena.allocateAll values').1.map (·.map SlotHandle.place) := by
  obtain ⟨hm, hunit⟩ := afterCalls_sound unit calls
  refine ⟨hm.isStore, ?_, fun hbytes n => storable_of_lt hbytes,
    fun others hlive values values' hlength => ?_⟩
  · have hkeeps := afterCalls_keeps unit calls
    rw [hm.holds.size_eq]
    rwa [Keeps, hunit] at hkeeps
  · obtain ⟨hm', hunit'⟩ := afterCalls_sound unit others
    have hholds := hm'.holds
    rw [hlive] at hholds
    exact hm.holds.reset.allocateAll_places hholds (hunit.trans hunit'.symm) hlength

/-- Values of 16 bytes: one was forgotten and one is there, so the next one gets the second place,
and then both are read. -/
theorem calls_keep_values_reset :
    let m := afterCalls 16 [.allocate 'a', .reset, .allocate 'b']
    m.arena.size = 1 ∧ (m.arena.allocate 'c').1 = .ok ⟨0, 1, 1⟩ ∧
      (m.arena.allocate 'c').2.get? ⟨0, 1, 1⟩ = some 'c' ∧
      (m.arena.allocate 'c').2.get? ⟨0, 0, 1⟩ = some 'b' := by
  have hnext :
      (afterCalls 16 [.allocate 'a', .reset, .allocate 'b']).arena.handleAfter 1 = ⟨0, 1, 1⟩ := by
    decide +kernel
  have hfirst :
      (afterCalls 16 [.allocate 'a', .reset, .allocate 'b']).arena.get? ⟨0, 0, 1⟩ = some 'b' := by
    decide +kernel
  obtain ⟨hstore, hrequests, hstorable, -⟩ :=
    calls_keep_values 16 [.allocate 'a', .reset, .allocate 'b']
  have hunit := (afterCalls_sound 16 [.allocate 'a', .reset, .allocate 'b']).2
  generalize afterCalls 16 [.allocate 'a', .reset, .allocate 'b'] = m at *
  have hsize : m.arena.size = 1 := by
    obtain heq | ⟨hless, hfull⟩ := hrequests
    · exact heq
    · exact absurd (hstorable (by decide) _ (hless.trans (by decide))) hfull
  have hanswers := hstore.answers 'c'
  rw [hstore.size_eq.symm.trans hsize] at hanswers
  rcases hrun : m.arena.allocate 'c' with ⟨r, b⟩
  dsimp only
  rw [hrun] at hanswers ⊢
  cases hanswers with
  | stored _ _ get? =>
    refine ⟨hsize, congrArg Except.ok hnext, (get? _).trans (if_pos hnext.symm), ?_⟩
    refine (get? _).trans ((if_neg ?_).trans hfirst)
    rw [hnext]
    decide
  | refused full => exact absurd (hunit ▸ hstorable (by decide) 1 (by decide)) full

end SlotArena

end SqlSyntax
