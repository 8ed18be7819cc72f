import SqlSyntax.Proofs.Memory
import SqlSyntax.Proofs.Memory.Replay

/-!
# Copies of texts

Where only texts are copied to a byte arena, there is no gap between them: each takes as many bytes
as it has, and at least one. Every copy since the last reset can be read
(`ByteArena.HoldsCopies.text?`).
-/

namespace SqlSyntax

namespace ByteArena

variable {a : ByteArena} {copies : List (String × ByteHandle)} {h : ByteHandle}

/-! ## Bytes in use -/

/-- Where nothing is aligned, space begins right behind the bytes in use. -/
theorem offset_of_fit? {b : Block} {size offset : Nat} (hfit : b.fit? size 1 = some offset) :
    offset = b.used := by
  unfold Block.fit? at hfit
  dsimp only at hfit
  rw [Nat.div_one, Nat.mul_one, Nat.add_zero, Nat.add_sub_cancel_left] at hfit
  split at hfit
  · cases hfit
  · split at hfit <;> cases hfit
    rfl

/-- A sum over blocks of which one has changed. -/
theorem foldr_used_modify (change : Block → Block) : ∀ (blocks : List Block) {i : Nat} {b : Block},
    blocks[i]? = some b → (blocks.modify i change).foldr (·.used + ·) 0 + b.used =
      blocks.foldr (·.used + ·) 0 + (change b).used
  | c :: blocks, 0, b, hb => by
    obtain rfl := Option.some.inj hb
    rw [List.modify_zero_cons, List.foldr_cons, List.foldr_cons]
    omega
  | c :: blocks, i + 1, b, hb => by
    have ih := foldr_used_modify change blocks (i := i) (b := b) hb
    rw [List.modify_succ_cons, List.foldr_cons, List.foldr_cons]
    omega

theorem used_write (a : ByteArena) (h : ByteHandle) (bytes : List UInt8) :
    (a.write h bytes).used = a.used := by
  unfold write
  split
  · show ((a.blocks.modify h.block _).toList).foldr _ _ = _
    rw [Array.toList_modify]
    rcases hb : a.blocks.toList[h.block]? with _ | b
    · rw [List.modify_eq_self (List.getElem?_eq_none_iff.1 hb)]
      rfl
    · exact Nat.add_right_cancel (foldr_used_modify _ a.blocks.toList hb)
  · rfl

/-- A range without an alignment adds its bytes to those in use. -/
theorem used_allocate {a' : ByteArena} {size : Nat}
    (hrun : a.allocate size 1 = (.ok h, a')) : a'.used = a.used + max size 1 := by
  obtain ⟨-, after, hturns, hhandle, rfl⟩ := allocate_eq_ok hrun
  obtain ⟨b, hb, hfit⟩ := fitIn?_eq_some.1 hturns.fitIn?
  have hoffset : h.offset = b.used := offset_of_fit? hfit
  have hlength : h.length = size := by rw [(handle_eq_ok_iff.1 hhandle).1]
  have hsum := foldr_used_modify (fun b => { b with used := h.stop }) after.blocks.toList
    (i := h.block) (b := b) (by rwa [Array.getElem?_toList])
  have hbefore := hturns.used_eq
  unfold used at hbefore ⊢
  rw [occupy, Array.toList_modify]
  dsimp only [ByteHandle.stop] at hsum ⊢
  omega

theorem used_reset (a : ByteArena) : a.reset.used = 0 := by
  unfold used reset
  rw [Array.toList_map, List.foldr_map]
  induction a.blocks.toList with
  | nil => rfl
  | cons b blocks ih => exact (Nat.zero_add _).trans ih

/-! ## Copies that can be read -/

/-- The bytes of a text are the form of no other one. -/
theorem fromUTF8?_toList (text : String) :
    String.fromUTF8? ⟨text.toUTF8.toList.toArray⟩ = some text := by
  rw [Held.toList_eq_data, Array.toArray_toList]
  exact dif_pos text.isValidUTF8

/-- These copies lie in the arena, which nobody else writes to. -/
def HoldsCopies (a : ByteArena) (copies : List (String × ByteHandle)) : Prop :=
  ∃ m : Held, m.Sound ∧ m.own = true ∧ m.arena = a ∧ ∀ c ∈ copies, ∃ r ∈ m.leases,
    r.round = m.round ∧ r.handle = c.2 ∧ r.content = c.1.toUTF8.toList

namespace HoldsCopies

theorem text? (ha : a.HoldsCopies copies) {text : String} (hc : (text, h) ∈ copies) :
    a.text? h = some text := by
  obtain ⟨m, hm, hown, rfl, hcopies⟩ := ha
  obtain ⟨r, hr, hround, rfl, hcontent⟩ := hcopies _ hc
  have hbytes := hm.contents hown r hr hround
  rw [hcontent] at hbytes
  rw [ByteArena.text?, hbytes]
  exact fromUTF8?_toList text

theorem subset {fewer : List (String × ByteHandle)} (ha : a.HoldsCopies copies)
    (hsub : fewer ⊆ copies) : a.HoldsCopies fewer := by
  obtain ⟨m, hm, hown, harena, hcopies⟩ := ha
  exact ⟨m, hm, hown, harena, fun c hc => hcopies c (hsub hc)⟩

/-- An arena without blocks holds no copies. -/
theorem of_empty (hblocks : a.blocks = #[]) (hgeneration : a.generation = 0) :
    a.HoldsCopies [] := by
  refine ⟨{ arena := a }, ?_, rfl, rfl, List.forall_mem_nil _⟩
  refine ⟨fun hb => ?_, hgeneration, List.forall_mem_nil _, List.forall_mem_nil _, .nil,
    fun _ => List.forall_mem_nil _⟩
  rw [hblocks] at hb
  simp at hb

theorem reset (ha : a.HoldsCopies copies) : a.reset.HoldsCopies [] := by
  obtain ⟨m, hm, -, rfl, -⟩ := ha
  exact ⟨m.next m.arena.reset, hm.reset, rfl, rfl, List.forall_mem_nil _⟩

/-- A refused copy changes none of those that are there. -/
theorem allocateText_error (ha : a.HoldsCopies copies) {text : String} {e : StorageError}
    {a' : ByteArena} (hrun : a.allocateText text = (.error e, a')) : a'.HoldsCopies copies := by
  obtain ⟨m, hm, hown, rfl, hcopies⟩ := ha
  have hsound := hm.allocateText text
  rw [Held.allocateText, hrun] at hsound
  exact ⟨_, hsound, hown, rfl, hcopies⟩

/-- A copy is added to those that are there. -/
theorem allocateText_ok (ha : a.HoldsCopies copies) {text : String} {a' : ByteArena}
    (hrun : a.allocateText text = (.ok h, a')) :
    a'.HoldsCopies ((text, h) :: copies) ∧ a'.used = a.used + max text.utf8ByteSize 1 := by
  obtain ⟨m, hm, hown, rfl, hcopies⟩ := ha
  have hsound := hm.allocateText text
  rw [Held.allocateText, hrun] at hsound
  refine ⟨⟨_, hsound, hown, rfl, List.forall_mem_cons.2 ⟨?_, fun c hc => ?_⟩⟩, ?_⟩
  · exact ⟨_, List.mem_cons_self, rfl, rfl, rfl⟩
  · obtain ⟨r, hr, hlease⟩ := hcopies c hc
    exact ⟨r, List.mem_cons_of_mem _ hr, hlease⟩
  · unfold allocateText at hrun
    rcases hspace : m.arena.allocate text.utf8ByteSize 1 with ⟨e | g, after⟩ <;>
      rw [hspace] at hrun <;> cases hrun
    rw [used_write, used_allocate hspace]

end HoldsCopies

end ByteArena

end SqlSyntax
