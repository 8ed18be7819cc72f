import SqlSyntax.Proofs.Memory.Space

/-!
# Requests that are refused

A request is tried in the blocks from the current one on, and it is given the first that it fits in
(`ByteArena.findFit?_eq_some_iff`) or a new one. Where there is no space for it, nothing has
happened. But the numbers of the handle are looked at last, behind the search: if one of them is too
large, the request is refused with its space found, and the arena has moved on to the block of that
space, which it may have asked of the system just before (`ByteArena.MovesOn`).
-/

namespace SqlSyntax

namespace ByteArena

variable {a a' : ByteArena} {size align i offset : Nat} {e : StorageError} {h : ByteHandle}

/-! ## The search for space -/

/-- The offset at which a request fits in a block of the arena. -/
def fitIn? (a : ByteArena) (size align i : Nat) : Option Nat :=
  a.blocks[i]?.bind (·.fit? size align)

theorem fitIn?_eq_some : a.fitIn? size align i = some offset ↔
    ∃ b, a.blocks[i]? = some b ∧ b.fit? size align = some offset :=
  Option.bind_eq_some_iff

/-- The blocks that are searched, in their order. -/
theorem findFit?_eq (a : ByteArena) (size align : Nat) : a.findFit? size align =
    (List.range' a.current (a.blocks.size - a.current)).findSome? fun i =>
      (a.fitIn? size align i).map (i, ·) := by
  rw [findFit?, List.range_eq_range', List.drop_range', Nat.zero_add, Nat.mul_one]
  rfl

/-- The first block from the current one on that the request fits in. -/
theorem findFit?_eq_some_iff : a.findFit? size align = some (i, offset) ↔
    a.current ≤ i ∧ a.fitIn? size align i = some offset ∧
      ∀ j, a.current ≤ j → j < i → a.fitIn? size align j = none := by
  rw [findFit?_eq, List.findSome?_eq_some_iff]
  constructor
  · rintro ⟨before, k, behind, hsplit, hfit, hnone⟩
    obtain ⟨_, hoffset, hpair⟩ := Option.map_eq_some_iff.1 hfit
    obtain ⟨rfl, rfl⟩ := Prod.mk.inj hpair
    have hmem (j : Nat) : j ∈ before ++ k :: behind ↔
        a.current ≤ j ∧ j < a.current + (a.blocks.size - a.current) := by
      rw [← hsplit, List.mem_range'_1]
    obtain ⟨hle, hlt⟩ := (hmem k).1 (by simp)
    refine ⟨hle, hoffset, fun j hj hjk => ?_⟩
    -- the numbers behind `k` are larger
    have hsorted : (before ++ k :: behind).Pairwise (· < ·) :=
      hsplit ▸ List.pairwise_lt_range'
    have hbehind := (List.pairwise_cons.1 (List.pairwise_append.1 hsorted).2.1).1
    rcases List.mem_append.1 ((hmem j).2 ⟨hj, Nat.lt_trans hjk hlt⟩) with hbefore | hrest
    · exact Option.map_eq_none_iff.1 (hnone j hbefore)
    · rcases List.mem_cons.1 hrest with rfl | hrest
      · exact absurd hjk (Nat.lt_irrefl _)
      · exact absurd hjk (Nat.lt_asymm (hbehind j hrest))
  · rintro ⟨hle, hfit, hnone⟩
    obtain ⟨b, hb, -⟩ := fitIn?_eq_some.1 hfit
    have hlt := (Array.getElem?_eq_some_iff.1 hb).1
    refine ⟨List.range' a.current (i - a.current), i, List.range' (i + 1) (a.blocks.size - i - 1),
      ?_, by rw [hfit]; rfl, fun j hj => ?_⟩
    · rw [← List.range'_succ, show a.blocks.size - i - 1 + 1 = a.blocks.size - i by omega]
      have happend := List.range'_append_1 (s := a.current) (m := i - a.current)
        (n := a.blocks.size - i)
      rw [Nat.add_sub_cancel' hle] at happend
      rw [happend]
      congr 1
      omega
    · have hj := List.mem_range'_1.1 hj
      exact Option.map_eq_none_iff.2 (hnone j hj.1 (by omega))

theorem findFit?_eq_none_iff :
    a.findFit? size align = none ↔ ∀ j, a.current ≤ j → a.fitIn? size align j = none := by
  rw [findFit?_eq, List.findSome?_eq_none_iff]
  constructor
  · intro hnone j hj
    by_cases hlt : j < a.blocks.size
    · exact Option.map_eq_none_iff.1 (hnone j (List.mem_range'_1.2 ⟨hj, by omega⟩))
    · rw [fitIn?, Array.getElem?_eq_none (Nat.le_of_not_lt hlt)]
      rfl
  · intro hnone j hj
    exact Option.map_eq_none_iff.2 (hnone j (List.mem_range'_1.1 hj).1)

/-- The arena after a search that found space: it has moved on to the block, which is a new one if
the request fits in none that was there. -/
inductive Turns (a : ByteArena) (size align : Nat) : Nat → Nat → ByteArena → Prop
  | kept {i offset : Nat} (found : a.findFit? size align = some (i, offset)) :
    Turns a size align i offset { a with current := i }
  | grown {offset : Nat} {b : Block} (missing : a.findFit? size align = none) (unused : b.used = 0)
    (capacity : b.capacity = Growth.bytes.blockSize a.blocks.size (size + (align - 1)))
    (fits : b.fit? size align = some offset) :
    Turns a size align a.blocks.size offset ({ a with supplied := a.supplied + 1 }.push b)

theorem turns_of_findSpace (h : a.findSpace size align = .ok (i, offset, a')) :
    a.Turns size align i offset a' := by
  unfold findSpace at h
  split at h
  · next found =>
    cases h
    exact .kept found
  · next missing =>
    dsimp only [request] at h
    split at h
    · cases h
    · split at h
      · cases h
      · dsimp only [bind, Except.bind] at h
        split at h
        · next fits =>
          cases h
          exact .grown missing rfl rfl fits
        · cases h

namespace Turns

theorem current_eq (h : a.Turns size align i offset a') : a'.current = i := by
  cases h <;> rfl

theorem generation_eq (h : a.Turns size align i offset a') : a'.generation = a.generation := by
  cases h <;> rfl

theorem fitIn? (h : a.Turns size align i offset a') : a'.fitIn? size align i = some offset := by
  cases h with
  | kept found => exact (findFit?_eq_some_iff.1 found).2.1
  | grown missing unused capacity fits =>
    exact fitIn?_eq_some.2 ⟨_, Array.getElem?_push_size .., fits⟩

/-- Nothing is taken into use yet. -/
theorem used_eq (h : a.Turns size align i offset a') : a'.used = a.used := by
  cases h with
  | kept found => rfl
  | @grown _ b missing unused capacity fits =>
    rw [used, used, push, Array.toList_push, List.foldr_append, List.foldr_cons, List.foldr_nil,
      unused]

end Turns

/-! ## What is left behind -/

theorem handleNumber_eq_error {n : Nat} (h : handleNumber n = .error e) : 2 ^ 32 ≤ n := by
  unfold handleNumber at h
  split at h
  · cases h
  · next hle => exact Nat.le_of_not_lt hle

theorem handleNumber_eq_ok {m n : Nat} (h : handleNumber n = .ok m) : n < 2 ^ 32 ∧ m = n := by
  unfold handleNumber at h
  split at h
  · next hlt => exact ⟨hlt, (Except.ok.inj h).symm⟩
  · cases h

/-- A handle is refused for one of its numbers. -/
theorem handle_eq_error {length : Nat} (h : a.handle i offset length = .error e) :
    2 ^ 32 ≤ i ∨ 2 ^ 32 ≤ offset ∨ 2 ^ 32 ≤ length := by
  unfold handle at h
  rcases hblock : handleNumber i with e | n
  · exact .inl (handleNumber_eq_error hblock)
  rcases hoffset : handleNumber offset with e | n
  · exact .inr (.inl (handleNumber_eq_error hoffset))
  rcases hlength : handleNumber length with e | n
  · exact .inr (.inr (handleNumber_eq_error hlength))
  rw [hblock, hoffset, hlength] at h
  cases h

/-- What a refused request leaves behind if there was space for it, which no handle can name. -/
structure MovesOn (a : ByteArena) (size align : Nat) (a' : ByteArena) : Prop where
  /-- The request fits in the block that is the current one now, but one of the numbers of the
  handle is too large. -/
  unnamed : ∃ offset, a'.fitIn? (max size 1) (roundAlign align) a'.current = some offset ∧
    (2 ^ 32 ≤ a'.current ∨ 2 ^ 32 ≤ offset ∨ 2 ^ 32 ≤ size)
  /-- That block was there, or it is new, since the request fitted in no other. -/
  blocks : a'.blocks = a.blocks ∨
    a.findFit? (max size 1) (roundAlign align) = none ∧ ∃ b, a'.blocks = a.blocks.push b ∧
      b.capacity = Growth.bytes.blockSize a.blocks.size (max size 1 + (roundAlign align - 1))
  used_eq : a'.used = a.used
  generation_eq : a'.generation = a.generation

/-- A refused request leaves the arena as it was, unless there is space for it that no handle can
name. Then the arena has moved on to the block of that space, but takes nothing into use. -/
theorem allocate_refused (h : a.allocate size align = (.error e, a')) :
    a' = a ∨ a.MovesOn size align a' := by
  unfold allocate at h
  dsimp only at h
  split at h
  · exact .inl (Prod.mk.inj h).2.symm
  rcases hspace : a.findSpace (max size 1) (roundAlign align) with e | ⟨i, offset, after⟩
  · rw [hspace] at h
    exact .inl (Prod.mk.inj h).2.symm
  rw [hspace] at h
  dsimp only at h
  rcases hhandle : after.handle i offset size with e | g
  · rw [hhandle] at h
    obtain rfl := (Prod.mk.inj h).2
    have hturns := turns_of_findSpace hspace
    refine .inr ⟨⟨offset, ?_, ?_⟩, ?_, hturns.used_eq, hturns.generation_eq⟩
    · rw [hturns.current_eq]
      exact hturns.fitIn?
    · rw [hturns.current_eq]
      exact handle_eq_error hhandle
    · cases hturns with
      | kept found => exact .inl rfl
      | grown missing unused capacity fits => exact .inr ⟨missing, _, rfl, capacity⟩
  · rw [hhandle] at h
    cases (Prod.mk.inj h).1

/-- More bytes than there can be, for which no block is asked. -/
theorem allocate_refused_overflow : ∃ e a', new.allocate (2 ^ 64 - 1) 8 = (.error e, a') ∧
    (a' = new ∨ new.MovesOn (2 ^ 64 - 1) 8 a') ∧ a'.blocks.size = 1 := by
  have herror : (new.allocate (2 ^ 64 - 1) 8).1.isOk = false ∧
      (new.allocate (2 ^ 64 - 1) 8).2.blocks.size = 1 := by
    decide +kernel
  rcases hrun : new.allocate (2 ^ 64 - 1) 8 with ⟨e | g, a'⟩
  · rw [hrun] at herror
    exact ⟨e, a', rfl, allocate_refused hrun, herror.2⟩
  · rw [hrun] at herror
    cases herror.1

/-- The arena gets a block for `2 ^ 32` bytes before it finds that no handle can say so large a
number. It keeps that block, and places the next request there. -/
theorem large_request_leaves_block :
    let after := (new.allocate (2 ^ 32) 1).2
    (new.allocate (2 ^ 32) 1).1.toOption = none ∧ after.used = new.used ∧
    (new.blocks.size, new.allocated) = (1, 2 ^ 15) ∧
    (after.blocks.size, after.allocated) = (2, 2 ^ 15 + 2 ^ 32) ∧
    (new.allocate 8 8).1.toOption.map (fun h => (h.block, h.offset)) = some (0, 0) ∧
    (after.allocate 8 8).1.toOption.map (fun h => (h.block, h.offset)) = some (1, 0) := by
  decide +kernel

end ByteArena

end SqlSyntax
