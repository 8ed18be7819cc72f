import SqlSyntax.Proofs.Memory.Bytes
import SqlSyntax.Proofs.Memory.Refusal

/-!
# Requests that are made again

A reset keeps the blocks, so the same requests come to the same places when they are made again.
The second run searches the same blocks from the same one on, and where the first run had to ask for
a block, that block is the next one now and was not reached before (`ByteArena.Retraces`). So it
needs no further block, and ends with the arena that the first run ended with
(`ByteArena.Retraces.allocateAll`).
-/

namespace SqlSyntax

/-- The block with nothing in use. -/
def Block.rewound (b : Block) : Block := { b with used := 0 }

/-- The handle for the same range in the next generation. -/
def ByteHandle.next (h : ByteHandle) : ByteHandle := { h with generation := h.generation + 1 }

namespace ByteArena

/-- Makes requests for sizes and alignments one after the other, up to the first that is refused. -/
def allocateAll (a : ByteArena) :
    List (Nat × Nat) → Except StorageError (List ByteHandle) × ByteArena
  | [] => (.ok [], a)
  | (size, align) :: requests =>
    match a.allocate size align with
    | (.error e, a) => (.error e, a)
    | (.ok h, a) =>
      match a.allocateAll requests with
      | (.error e, a) => (.error e, a)
      | (.ok hs, a) => (.ok (h :: hs), a)

variable {a b x x' y last : ByteArena} {size align i offset : Nat} {h : ByteHandle}
  {hs : List ByteHandle} {requests : List (Nat × Nat)}

theorem allocateAll_cons (hrun : x.allocateAll ((size, align) :: requests) = (.ok hs, last)) :
    ∃ h x' hs', x.allocate size align = (.ok h, x') ∧ x'.allocateAll requests = (.ok hs', last) ∧
      hs = h :: hs' := by
  rw [allocateAll] at hrun
  split at hrun
  · cases hrun
  · next h x' hfirst =>
    split at hrun
    · cases hrun
    · next hs' _ hrest =>
      cases hrun
      exact ⟨h, x', hs', hfirst, hrest, rfl⟩

/-! ## One request -/

theorem handle_eq_ok_iff {length : Nat} : a.handle i offset length = .ok h ↔
    h = ⟨i, offset, length, a.generation⟩ ∧ i < 2 ^ 32 ∧ offset < 2 ^ 32 ∧ length < 2 ^ 32 := by
  have hnumber {n : Nat} (hn : n < 2 ^ 32) : handleNumber n = .ok n := by
    rw [handleNumber]
    exact if_pos hn
  constructor
  · intro hh
    unfold handle at hh
    rcases hblock : handleNumber i with e | m
    · rw [hblock] at hh
      cases hh
    rcases hoffset : handleNumber offset with e | n
    · rw [hblock, hoffset] at hh
      cases hh
    rcases hlength : handleNumber length with e | l
    · rw [hblock, hoffset, hlength] at hh
      cases hh
    rw [hblock, hoffset, hlength] at hh
    cases hh
    obtain ⟨hi, rfl⟩ := handleNumber_eq_ok hblock
    obtain ⟨ho, rfl⟩ := handleNumber_eq_ok hoffset
    obtain ⟨hl, rfl⟩ := handleNumber_eq_ok hlength
    exact ⟨rfl, hi, ho, hl⟩
  · rintro ⟨rfl, hi, ho, hl⟩
    unfold handle
    rw [hnumber hi, hnumber ho, hnumber hl]
    rfl

/-- The arena after a request that was granted: it has moved on to a block with space, and takes
that into use. -/
theorem allocate_eq_ok (hrun : x.allocate size align = (.ok h, x')) :
    roundAlign align < 2 ^ 64 ∧ ∃ after,
      x.Turns (max size 1) (roundAlign align) h.block h.offset after ∧
      after.handle h.block h.offset size = .ok h ∧ x' = after.occupy h.block h.stop := by
  unfold allocate at hrun
  dsimp only at hrun
  split at hrun
  · cases (Prod.mk.inj hrun).1
  next halign =>
  rcases hspace : x.findSpace (max size 1) (roundAlign align) with e | ⟨i, offset, after⟩
  · rw [hspace] at hrun
    cases (Prod.mk.inj hrun).1
  rw [hspace] at hrun
  dsimp only at hrun
  rcases hhandle : after.handle i offset size with e | g
  · rw [hhandle] at hrun
    cases (Prod.mk.inj hrun).1
  · rw [hhandle] at hrun
    cases hrun
    obtain rfl := (handle_eq_ok_iff.1 hhandle).1
    exact ⟨Nat.lt_of_not_le halign, after, turns_of_findSpace hspace, hhandle, rfl⟩

/-- Where a request fits in a block that is there, it is granted without a new one. -/
theorem allocate_of_findFit? (halign : roundAlign align < 2 ^ 64)
    (hfit : y.findFit? (max size 1) (roundAlign align) = some (i, offset))
    (hhandle : y.handle i offset size = .ok h) :
    y.allocate size align = (.ok h, { y with current := i }.occupy i h.stop) := by
  have hspace : y.findSpace (max size 1) (roundAlign align) =
      .ok (i, offset, { y with current := i }) := by
    rw [findSpace, hfit]
  have hhandle' : { y with current := i }.handle i offset size = .ok h := hhandle
  obtain rfl := (handle_eq_ok_iff.1 hhandle).1
  unfold allocate
  dsimp only
  rw [if_neg (show ¬ 0x10000000000000000 ≤ roundAlign align by omega), hspace]
  dsimp only
  rw [hhandle']
  rfl

/-! ## Blocks stay -/

/-- The second arena has the blocks of the first one, where other parts of them may be in use. -/
def Keeps (a b : ByteArena) : Prop :=
  ∀ (i : Nat) (c : Block), a.blocks[i]? = some c →
    ∃ d : Block, b.blocks[i]? = some d ∧ d.rewound = c.rewound

theorem Keeps.refl (a : ByteArena) : a.Keeps a := fun _ c hc => ⟨c, hc, rfl⟩

theorem Keeps.trans (h : a.Keeps b) (h' : b.Keeps x) : a.Keeps x := by
  intro i c hc
  obtain ⟨d, hd, hdc⟩ := h i c hc
  obtain ⟨e, he, hed⟩ := h' i d hd
  exact ⟨e, he, hed.trans hdc⟩

theorem keeps_occupy (x : ByteArena) (i stop : Nat) : x.Keeps (x.occupy i stop) := by
  intro j c hc
  refine ⟨_, (getElem?_occupy x i stop j).trans (by rw [hc]; rfl), ?_⟩
  split <;> rfl

theorem keeps_allocate (x : ByteArena) (size align : Nat) : x.Keeps (x.allocate size align).2 := by
  have hkept {x' : ByteArena} (hgrows : x.Grows x') : x.Keeps x' :=
    fun i c hc => ⟨c, hgrows.kept hc, rfl⟩
  rcases x.allocate_cases size align with ⟨e, x', hrun, hgrows⟩ | ⟨h, x', hrun, hgrows, -⟩
  · rw [hrun]
    exact hkept hgrows
  · rw [hrun]
    exact (hkept hgrows).trans (keeps_occupy x' h.block h.stop)

theorem keeps_allocateAll (hrun : x.allocateAll requests = (.ok hs, last)) : x.Keeps last := by
  induction requests generalizing x hs with
  | nil =>
    cases hrun
    exact .refl _
  | cons request requests ih =>
    obtain ⟨h, x', hs', hfirst, hrest, -⟩ := allocateAll_cons hrun
    have hkeeps := keeps_allocate x request.1 request.2
    rw [hfirst] at hkeeps
    exact hkeeps.trans (ih hrest)

/-! ## Two runs -/

/-- The arena `y` is in the second run where `x` was in the first one, which ended in `last`: the
blocks that `x` had are as they were, and behind them are those that the first run still got. -/
structure Retraces (x y last : ByteArena) : Prop where
  current : y.current = x.current
  within : x.current ≤ x.blocks.size
  same : ∀ i < x.blocks.size, y.blocks[i]? = x.blocks[i]?
  ahead : ∀ i, x.blocks.size ≤ i → y.blocks[i]? = last.blocks[i]?.map Block.rewound

namespace Retraces

theorem fitIn? (hy : x.Retraces y last) (hi : i < x.blocks.size) :
    y.fitIn? size align i = x.fitIn? size align i := by
  rw [ByteArena.fitIn?, ByteArena.fitIn?, hy.same i hi]

/-- The search of the first run comes to the same place, and needs no new block. -/
theorem turns (hy : x.Retraces y last) {after : ByteArena} (h : x.Turns size align i offset after)
    (hkeeps : after.Keeps last) :
    y.findFit? size align = some (i, offset) ∧ i < after.blocks.size ∧
      after.Retraces { y with current := i } last := by
  cases h with
  | kept found =>
    obtain ⟨hle, hfit, hnone⟩ := findFit?_eq_some_iff.1 found
    obtain ⟨b, hb, -⟩ := fitIn?_eq_some.1 hfit
    have hi := (Array.getElem?_eq_some_iff.1 hb).1
    refine ⟨findFit?_eq_some_iff.2 ⟨hy.current ▸ hle, (hy.fitIn? hi).trans hfit, ?_⟩, hi, rfl,
      Nat.le_of_lt hi, hy.same, hy.ahead⟩
    intro j hj hji
    rw [hy.fitIn? (Nat.lt_trans hji hi)]
    exact hnone j (hy.current ▸ hj) hji
  | @grown _ b missing unused capacity fits =>
    have hsize : ({ x with supplied := x.supplied + 1 }.push b).blocks.size = x.blocks.size + 1 :=
      Array.size_push ..
    -- what the first run asked for is the next block of the second one
    have hnext : y.blocks[x.blocks.size]? = some b := by
      obtain ⟨d, hd, hrewound⟩ := hkeeps x.blocks.size b (Array.getElem?_push_size ..)
      have hb : b.rewound = b := by
        obtain ⟨_, _, _, _⟩ := b
        obtain rfl := unused
        rfl
      rw [hy.ahead _ (Nat.le_refl _), hd, Option.map_some, hrewound, hb]
    have hnone := findFit?_eq_none_iff.1 missing
    refine ⟨findFit?_eq_some_iff.2 ⟨hy.current ▸ hy.within,
      fitIn?_eq_some.2 ⟨b, hnext, fits⟩, fun j hj hlt => ?_⟩, by omega, rfl,
      by rw [hsize]; exact Nat.le_succ _, fun j hj => ?_, fun j hj => hy.ahead j (by omega)⟩
    · rw [hy.fitIn? hlt]
      exact hnone j (hy.current ▸ hj)
    · show y.blocks[j]? = (x.blocks.push b)[j]?
      rw [Array.getElem?_push]
      split
      · next heq => rw [heq, hnext]
      · exact hy.same j (by omega)

/-- Both runs take the same range into use. -/
theorem occupy (hy : x.Retraces y last) (stop : Nat) (hi : i < x.blocks.size) :
    (x.occupy i stop).Retraces (y.occupy i stop) last := by
  have hsize : (x.occupy i stop).blocks.size = x.blocks.size := Array.size_modify ..
  refine ⟨hy.current, hsize ▸ hy.within, fun j hj => ?_, fun j hj => ?_⟩
  · rw [getElem?_occupy, getElem?_occupy, hy.same j (by omega)]
  · have hne : j ≠ i := by omega
    simp only [getElem?_occupy, if_neg hne, Option.map_id']
    exact hy.ahead j (by omega)

/-- The second run ends with the arena of the first one. -/
theorem eq_last (hy : last.Retraces y last) :
    y = { y with blocks := last.blocks, current := last.current } := by
  have hblocks : y.blocks = last.blocks := by
    refine Array.ext_getElem? fun i => ?_
    by_cases hi : i < last.blocks.size
    · exact hy.same i hi
    · rw [hy.ahead i (by omega), Array.getElem?_eq_none (by omega)]
      rfl
  obtain ⟨blocks, current, generation, supply, supplied⟩ := y
  obtain rfl : blocks = last.blocks := hblocks
  obtain rfl : current = last.current := hy.current
  rfl

/-- The second run is granted what the first one was, and ends with the same blocks. -/
theorem allocateAll (hy : x.Retraces y last) (hrun : x.allocateAll requests = (.ok hs, last))
    (hgeneration : y.generation = x.generation + 1) :
    y.allocateAll requests = (.ok (hs.map ByteHandle.next),
      { y with blocks := last.blocks, current := last.current }) := by
  induction requests generalizing x y hs with
  | nil =>
    cases hrun
    rw [ByteArena.allocateAll, ← hy.eq_last]
    rfl
  | cons request requests ih =>
    obtain ⟨h, x', hs', hfirst, hrest, rfl⟩ := allocateAll_cons hrun
    obtain ⟨halign, after, hturns, hhandle, rfl⟩ := allocate_eq_ok hfirst
    obtain ⟨hfind, hi, hafter⟩ :=
      hy.turns hturns ((keeps_occupy after h.block h.stop).trans (keeps_allocateAll hrest))
    -- the numbers of the handle are the same, and its generation is the next one
    have hhandle' : y.handle h.block h.offset request.1 = .ok h.next := by
      obtain ⟨heq, hnumbers⟩ := handle_eq_ok_iff.1 hhandle
      refine handle_eq_ok_iff.2 ⟨?_, hnumbers⟩
      rw [hgeneration, ← hturns.generation_eq, ByteHandle.next, heq]
    have hstep := allocate_of_findFit? halign hfind hhandle'
    have hagain := ih (hafter.occupy h.stop hi) hrest
      (show y.generation = after.generation + 1 by rw [hturns.generation_eq, hgeneration])
    rw [ByteArena.allocateAll, hstep]
    dsimp only
    rw [show h.next.stop = h.stop from rfl, hagain]
    rfl

/-- A reset arena is at the start of the second run, if the first one began with one too. -/
theorem of_reset (hkeeps : a.reset.Keeps last) : a.reset.Retraces last.reset last := by
  have hreset (b : ByteArena) (i : Nat) : b.reset.blocks[i]? = b.blocks[i]?.map Block.rewound :=
    Array.getElem?_map
  refine ⟨rfl, Nat.zero_le _, fun i hi => ?_, fun i _ => hreset last i⟩
  obtain ⟨d, hd, hrewound⟩ := hkeeps i _ (Array.getElem?_eq_getElem hi)
  obtain ⟨c, -, hc⟩ := Option.map_eq_some_iff.1
    ((hreset a i).symm.trans (Array.getElem?_eq_getElem hi))
  rw [hreset, hd, Option.map_some, hrewound, Array.getElem?_eq_getElem hi, ← hc]
  rfl

end Retraces

theorem generation_allocate (x : ByteArena) (size align : Nat) :
    (x.allocate size align).2.generation = x.generation := by
  rcases x.allocate_cases size align with ⟨e, x', hrun, hgrows⟩ | ⟨h, x', hrun, hgrows, -⟩
  · rw [hrun]
    exact hgrows.generation
  · rw [hrun]
    exact hgrows.generation

theorem generation_allocateAll (hrun : x.allocateAll requests = (.ok hs, last)) :
    last.generation = x.generation := by
  induction requests generalizing x hs with
  | nil =>
    cases hrun
    rfl
  | cons request requests ih =>
    obtain ⟨h, x', hs', hfirst, hrest, -⟩ := allocateAll_cons hrun
    have hgeneration := generation_allocate x request.1 request.2
    rw [hfirst] at hgeneration
    exact (ih hrest).trans hgeneration

/-- Requests that are all granted after a reset are granted after another one too, at the same
places. That needs no further block, and but for its generation the arena is the same afterwards. -/
theorem allocateAll_again (hrun : a.reset.allocateAll requests = (.ok hs, b)) :
    ∃ hs' c, b.reset.allocateAll requests = (.ok hs', c) ∧ c.blocks.size = b.blocks.size ∧
      c.allocated = b.allocated ∧ hs' = hs.map ByteHandle.next ∧
      c = { b with generation := b.generation + 1 } := by
  have hretraces : a.reset.Retraces b.reset b := .of_reset (keeps_allocateAll hrun)
  have hgeneration : b.reset.generation = a.reset.generation + 1 :=
    congrArg (· + 1) (generation_allocateAll hrun)
  exact ⟨_, _, hretraces.allocateAll hrun hgeneration, rfl, rfl, rfl, rfl⟩

/-- The first request goes to a block of its own, the second one is placed behind it, and the third
one needs a block again. The first block is passed over both times. -/
theorem allocateAll_again_passing :
    let requests := [(40000, 1), (100, 16), (70000, 1)]
    ∃ hs b hs' c, new.reset.allocateAll requests = (.ok hs, b) ∧
      b.reset.allocateAll requests = (.ok hs', c) ∧ c.blocks.size = 3 ∧
      hs'.map (fun h => (h.block, h.offset, h.generation)) =
        [(1, 0, 2), (1, 40000, 2), (2, 0, 2)] := by
  intro requests
  have hseen : (new.reset.allocateAll requests).1.toOption.map
        (·.map fun h => (h.block, h.offset, h.generation)) =
      some [(1, 0, 1), (1, 40000, 1), (2, 0, 1)] ∧
      (new.reset.allocateAll requests).2.blocks.size = 3 := by
    decide +kernel
  rcases hrun : new.reset.allocateAll requests with ⟨e | hs, b⟩
  · rw [hrun] at hseen
    cases hseen.1
  rw [hrun] at hseen
  obtain ⟨hs', c, hagain, hsize, -, rfl, -⟩ := allocateAll_again hrun
  refine ⟨hs, b, _, c, rfl, hagain, hsize.trans hseen.2, ?_⟩
  have hnext := congrArg (List.map fun p : Nat × Nat × UInt32 => (p.1, p.2.1, p.2.2 + 1))
    (Option.some.inj hseen.1)
  rw [List.map_map] at hnext ⊢
  exact hnext

end ByteArena

end SqlSyntax
