import SqlSyntax.Proofs.Memory.Space

/-!
# Bytes of ranges

A range holds what is written to it (`ByteArena.bytes?_write_self`), and to write to one changes
none that is apart from it (`ByteArena.bytes?_write_apart`). Space that is taken into use and blocks
that are added change no bytes (`ByteArena.bytes?_occupy`, `ByteArena.Grows.bytes?`).
-/

namespace SqlSyntax

/-- Some bytes with others written over them, as many as there are. -/
def overwritten (content bytes : List UInt8) : List UInt8 :=
  bytes.take content.length ++ content.drop bytes.length

theorem overwritten_of_length_eq {content bytes : List UInt8} (h : bytes.length = content.length) :
    overwritten content bytes = bytes := by
  rw [overwritten, h, List.drop_length, List.append_nil, ← h, List.take_length]

namespace Block

variable (b : Block) {offset place length : Nat} {bytes : List UInt8}

theorem read_write_self (offset length : Nat) (bytes : List UInt8) :
    (b.write offset (bytes.take length)).read offset length =
      overwritten (b.read offset length) bytes := by
  refine List.ext_getElem ?_ fun i hi hi' => ?_
  · simp only [read, overwritten, List.length_map, List.length_range, List.length_append,
      List.length_take, List.length_drop]
    omega
  · simp only [read, List.length_map, List.length_range] at hi
    simp only [read, write, overwritten, List.getElem_map, List.getElem_range, List.length_map,
      List.length_range, List.getElem_append, List.length_take, List.getElem_take,
      List.getElem_drop, Nat.add_sub_cancel_left, if_pos (Nat.le_add_right offset i)]
    split
    · next hlt =>
      have hlength : i < (bytes.take length).length := by rwa [List.length_take]
      rw [List.getD_eq_getElem?_getD, List.getElem?_eq_getElem hlength, List.getElem_take]
      rfl
    · rw [List.getD_eq_getElem?_getD, List.getElem?_eq_none (by rw [List.length_take]; omega),
        show bytes.length + (i - min length bytes.length) = i by omega]
      rfl

theorem read_write_apart (h : place + length ≤ offset ∨ offset + bytes.length ≤ place) :
    (b.write offset bytes).read place length = b.read place length := by
  refine List.map_congr_left fun i hi => ?_
  have hi := List.mem_range.1 hi
  show (if offset ≤ place + i then _ else _) = _
  split
  · rw [List.getD_eq_getElem?_getD, List.getElem?_eq_none (by omega)]
    rfl
  · rfl

end Block

namespace ByteArena

variable {a a' : ByteArena} {g h : ByteHandle} {b : Block} {content : List UInt8}

/-- Two handles name different blocks, or ranges of one block of which one ends before the other
begins. -/
def Apart (g h : ByteHandle) : Prop := g.block ≠ h.block ∨ g.stop ≤ h.offset ∨ h.stop ≤ g.offset

theorem Apart.symm (hapart : Apart g h) : Apart h g := by
  rcases hapart with hne | hle | hle
  · exact .inl (Ne.symm hne)
  · exact .inr (.inr hle)
  · exact .inr (.inl hle)

theorem not_apart_self (h : ByteHandle) : ¬ Apart h h := by
  rintro (hne | hle | hle)
  · exact hne rfl
  · unfold ByteHandle.stop at hle
    omega
  · unfold ByteHandle.stop at hle
    omega

theorem bytes?_eq (a : ByteArena) (h : ByteHandle) : a.bytes? h = (a.block? h).bind fun b =>
    if h.offset + h.length ≤ b.capacity then some (b.read h.offset h.length) else none := rfl

theorem bytes?_of_block? (hb : a.block? h = some b) (hstop : h.offset + h.length ≤ b.capacity) :
    a.bytes? h = some (b.read h.offset h.length) := by
  rw [bytes?_eq, hb, Option.bind_some, if_pos hstop]

theorem bytes?_eq_none (hb : a.block? h = none) : a.bytes? h = none := by
  rw [bytes?_eq, hb]
  rfl

theorem write_of_bytes?_eq_none (hb : a.bytes? h = none) (bytes : List UInt8) :
    a.write h bytes = a := by
  rw [write, hb]
  rfl

/-- To write changes one block, and of that what it holds. -/
theorem getElem?_write (hb : (a.bytes? h).isSome) (bytes : List UInt8) (i : Nat) :
    (a.write h bytes).blocks[i]? = (a.blocks[i]?).map fun b =>
      if i = h.block then b.write h.offset (bytes.take h.length) else b := by
  rw [write, if_pos hb]
  exact getElem?_modify_eq_map ..

/-- To write moves no block and takes nothing into use. -/
theorem getElem?_write_frame (a : ByteArena) (h : ByteHandle) (bytes : List UInt8) (i : Nat) :
    ∃ change : Block → Block, (a.write h bytes).blocks[i]? = (a.blocks[i]?).map change ∧
      ∀ b, (change b).address = b.address ∧ (change b).capacity = b.capacity ∧
        (change b).used = b.used := by
  by_cases hb : (a.bytes? h).isSome
  · refine ⟨_, getElem?_write hb bytes i, fun b => ?_⟩
    split <;> exact ⟨rfl, rfl, rfl⟩
  · rw [write, if_neg hb]
    exact ⟨id, by rw [Option.map_id_fun, id], fun _ => ⟨rfl, rfl, rfl⟩⟩

theorem generation_write (a : ByteArena) (h : ByteHandle) (bytes : List UInt8) :
    (a.write h bytes).generation = a.generation := by
  unfold write
  split <;> rfl

/-- A range holds what is written to it. -/
theorem bytes?_write_self (hb : a.bytes? h = some content) (bytes : List UInt8) :
    (a.write h bytes).bytes? h = some (overwritten content bytes) := by
  rw [bytes?_eq, Option.bind_eq_some_iff] at hb
  obtain ⟨b, hblock, hread⟩ := hb
  split at hread
  · next hstop =>
    obtain rfl := Option.some.inj hread
    have hsome : (a.bytes? h).isSome := by rw [bytes?_of_block? hblock hstop]; rfl
    have hnew : (a.write h bytes).block? h = some (b.write h.offset (bytes.take h.length)) := by
      unfold block? at hblock ⊢
      split at hblock
      · next hgeneration =>
        rw [generation_write, if_pos hgeneration, getElem?_write hsome, hblock, Option.map_some,
          if_pos rfl]
      · cases hblock
    rw [bytes?_of_block? hnew hstop, Block.read_write_self]
  · cases hread

/-- To write to a range changes none that is apart from it. -/
theorem bytes?_write_apart (hapart : Apart g h) (bytes : List UInt8) :
    (a.write h bytes).bytes? g = a.bytes? g := by
  by_cases hsome : (a.bytes? h).isSome
  · rw [bytes?_eq, bytes?_eq, block?, block?, generation_write]
    split
    · rw [getElem?_write hsome]
      rcases a.blocks[g.block]? with _ | b
      · rfl
      · rw [Option.map_some, Option.bind_some, Option.bind_some]
        split
        · next hblock =>
          have hread : (b.write h.offset (bytes.take h.length)).read g.offset g.length =
              b.read g.offset g.length := by
            refine b.read_write_apart ?_
            rw [List.length_take]
            rcases hapart with hne | hle | hle
            · exact absurd hblock hne
            · unfold ByteHandle.stop at hle
              omega
            · unfold ByteHandle.stop at hle
              omega
          rw [hread]
          rfl
        · rfl
    · rfl
  · rw [write, if_neg hsome]

theorem getElem?_occupy (a : ByteArena) (block stop i : Nat) :
    (a.occupy block stop).blocks[i]? =
      (a.blocks[i]?).map fun b => if i = block then { b with used := stop } else b :=
  getElem?_modify_eq_map ..

/-- What is in use makes no difference to what is read. -/
theorem bytes?_occupy (a : ByteArena) (block stop : Nat) (h : ByteHandle) :
    (a.occupy block stop).bytes? h = a.bytes? h := by
  rw [bytes?_eq, bytes?_eq, block?, block?]
  show (if h.generation = a.generation then _ else _ : Option Block).bind _ = _
  split
  · rw [getElem?_occupy]
    rcases a.blocks[h.block]? with _ | b
    · rfl
    · rw [Option.map_some, Option.bind_some, Option.bind_some]
      split <;> rfl
  · rfl

theorem Grows.bytes? (hgrows : a.Grows a') (hb : a.bytes? h = some content) :
    a'.bytes? h = some content := by
  rw [bytes?_eq, Option.bind_eq_some_iff] at hb ⊢
  obtain ⟨b, hblock, hread⟩ := hb
  refine ⟨b, ?_, hread⟩
  unfold block? at hblock ⊢
  split at hblock
  · next hgeneration =>
    rw [hgrows.generation, if_pos hgeneration]
    exact hgrows.kept hblock
  · cases hblock

end ByteArena

end SqlSyntax
