import Mathlib.Algebra.GroupWithZero.Nat
import Mathlib.Data.Nat.Log
import SqlSyntax.Storage.ByteArena

/-!
# Space for requests

Space that is found for a request lies in one block, behind what is in use there, at an address that
is a multiple of the alignment (`Block.of_fit?`). To look for it may add a block, but changes none
(`ByteArena.Grows`), so the ranges that were handed out are still where they were
(`ByteArena.allocate_cases`).
-/

namespace SqlSyntax

/-- Where the range of a handle ends; an empty range takes a byte. -/
def ByteHandle.stop (h : ByteHandle) : Nat := h.offset + max h.length 1

/-- Rounds that are less than `2 ^ 32` apart have different generations. -/
theorem generation_ne {m n : Nat} (h : m < n) (hlast : n < m + 2 ^ 32) :
    UInt32.ofNat m ≠ UInt32.ofNat n := by
  intro heq
  have heq := congrArg UInt32.toNat heq
  rw [UInt32.toNat_ofNat', UInt32.toNat_ofNat'] at heq
  omega

/-- An array with one entry changed, entry by entry. -/
theorem getElem?_modify_eq_map {α : Type} (xs : Array α) (i : Nat) (change : α → α) (j : Nat) :
    (xs.modify i change)[j]? = xs[j]?.map fun x => if j = i then change x else x := by
  rw [Array.getElem?_modify]
  by_cases hj : j = i
  · rw [if_pos hj.symm]
    simp only [if_pos hj]
  · rw [if_neg (Ne.symm hj)]
    simp only [if_neg hj, Option.map_id']

/-- Space that fits is free, inside the block, and at a multiple of the alignment. -/
theorem Block.of_fit? {b : Block} {size align start : Nat} (halign : 0 < align)
    (h : b.fit? size align = some start) :
    b.used ≤ start ∧ start + size ≤ b.capacity ∧ align ∣ b.address + start := by
  unfold fit? at h
  dsimp only at h
  split at h
  · cases h
  split at h
  · next hend =>
    obtain rfl := Option.some.inj h
    have hpast := Nat.lt_div_mul_add (a := b.address + b.used + (align - 1)) halign
    have hdvd : align ∣ (b.address + b.used + (align - 1)) / align * align := ⟨_, Nat.mul_comm _ _⟩
    generalize (b.address + b.used + (align - 1)) / align * align = place at *
    refine ⟨by omega, hend, ?_⟩
    rwa [Nat.add_sub_cancel' (by omega)]
  · cases h

namespace ByteArena

/-- The second arena has the blocks of the first one, and maybe others of which nothing is in
use. -/
structure Grows (a a' : ByteArena) : Prop where
  generation : a'.generation = a.generation
  kept : ∀ {i : Nat} {b}, a.blocks[i]? = some b → a'.blocks[i]? = some b
  fresh : ∀ {i : Nat} {b}, a'.blocks[i]? = some b → a.blocks[i]? = some b ∨ b.used = 0

/-- The range of a handle is free in its block, and has the alignment that was asked for. -/
def Free (a : ByteArena) (h : ByteHandle) (align : Nat) : Prop :=
  ∃ b, a.blocks[h.block]? = some b ∧ b.used ≤ h.offset ∧ h.stop ≤ b.capacity ∧
    roundAlign align ∣ b.address + h.offset

variable {a a' : ByteArena} {b : Block} {size align capacity i offset : Nat}

/-- An alignment is rounded up to a power of two. -/
theorem roundAlign_eq (align : Nat) : roundAlign align = 2 ^ Nat.clog 2 align := by
  unfold roundAlign
  split
  · next h => rw [Nat.clog_of_right_le_one h, Nat.pow_zero]
  · next h =>
    have hclog : Nat.clog 2 align = (align - 1).log2 + 1 := by
      rw [Nat.log2_eq_log_two]
      refine Nat.le_antisymm ((Nat.clog_le_iff_le_pow (by decide)).2 ?_)
        ((Nat.lt_clog_iff_pow_lt (by decide)).2 ?_)
      · have hlt := Nat.lt_pow_succ_log_self (b := 2) (by decide) (align - 1)
        omega
      · have hle := Nat.pow_log_le_self 2 (x := align - 1) (by omega)
        omega
    rw [hclog, Nat.one_shiftLeft]

theorem roundAlign_pos (align : Nat) : 0 < roundAlign align := by
  rw [roundAlign_eq]
  exact Nat.two_pow_pos _

theorem Grows.refl (a : ByteArena) : a.Grows a := ⟨rfl, id, .inl⟩

theorem Grows.push (h : b.used = 0) (n : Nat) : a.Grows ({ a with supplied := n }.push b) := by
  refine ⟨rfl, fun {i c} hi => ?_, fun {i c} hi => ?_⟩
  · rw [ByteArena.push, Array.getElem?_push, if_neg]
    · exact hi
    · have hlt := (Array.getElem?_eq_some_iff.1 hi).1
      dsimp only
      omega
  · rw [ByteArena.push, Array.getElem?_push] at hi
    split at hi
    · exact .inr (Option.some.inj hi ▸ h)
    · exact .inl hi

theorem of_findFit? (h : a.findFit? size align = some (i, offset)) :
    ∃ b, a.blocks[i]? = some b ∧ b.fit? size align = some offset := by
  obtain ⟨j, -, hj⟩ := List.exists_of_findSome?_eq_some h
  obtain ⟨start, hstart, hpair⟩ := Option.map_eq_some_iff.1 hj
  obtain ⟨rfl, rfl⟩ := Prod.mk.inj hpair
  exact Option.bind_eq_some_iff.1 hstart

theorem of_request (h : a.request capacity = .ok (b, a')) :
    b.used = 0 ∧ a' = { a with supplied := a.supplied + 1 } := by
  unfold request at h
  split at h
  · cases h
  · cases h
    exact ⟨rfl, rfl⟩

/-- Space is found in a block that was there or in a new one. -/
theorem of_findSpace (h : a.findSpace size align = .ok (i, offset, a')) :
    a.Grows a' ∧ ∃ b, a'.blocks[i]? = some b ∧ b.fit? size align = some offset := by
  unfold findSpace at h
  split at h
  · next found hfound =>
    have hfit := of_findFit? hfound
    cases h
    exact ⟨⟨rfl, id, .inl⟩, hfit⟩
  · dsimp only at h
    split at h
    · cases h
    · rcases hrequest : a.request (Growth.bytes.blockSize a.blocks.size (size + (align - 1)))
        with e | ⟨b, asked⟩
      · rw [hrequest] at h
        cases h
      · obtain ⟨hused, rfl⟩ := of_request hrequest
        rw [hrequest] at h
        dsimp only [bind, Except.bind] at h
        split at h
        · next start hfit =>
          cases h
          exact ⟨.push hused _, b, Array.getElem?_push_size .., hfit⟩
        · cases h

theorem of_handle {h : ByteHandle} {length : Nat} (hh : a.handle i offset length = .ok h) :
    h = ⟨i, offset, length, a.generation⟩ := by
  unfold handle handleNumber at hh
  split at hh <;> try cases hh
  split at hh <;> try cases hh
  split at hh <;> cases hh
  rfl

/-- A request is refused, or it is given a range that was free. -/
theorem allocate_cases (a : ByteArena) (size align : Nat) :
    (∃ e a', a.allocate size align = (.error e, a') ∧ a.Grows a') ∨
    ∃ h a', a.allocate size align = (.ok h, a'.occupy h.block h.stop) ∧ a.Grows a' ∧
      a'.Free h align ∧ h.length = size ∧ h.generation = a.generation := by
  unfold allocate
  dsimp only
  split
  · exact .inl ⟨_, a, rfl, .refl a⟩
  rcases hspace : a.findSpace (max size 1) (roundAlign align) with e | ⟨i, offset, a'⟩
  · exact .inl ⟨e, a, rfl, .refl a⟩
  · obtain ⟨hgrows, b, hb, hfit⟩ := of_findSpace hspace
    obtain ⟨hused, hstop, hdvd⟩ := Block.of_fit? (roundAlign_pos align) hfit
    dsimp only
    rcases hhandle : a'.handle i offset size with e | h
    · exact .inl ⟨e, a', rfl, hgrows⟩
    · obtain rfl := of_handle hhandle
      exact .inr ⟨_, a', rfl, hgrows, ⟨b, hb, hused, hstop, hdvd⟩, rfl, hgrows.generation⟩

end ByteArena

end SqlSyntax
