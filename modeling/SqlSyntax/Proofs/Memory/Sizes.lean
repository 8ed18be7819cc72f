import Mathlib.Order.Bounds.Basic
import SqlSyntax.Proofs.Memory.Space
import SqlSyntax.Storage.SlotArena

/-!
# Sizes of new blocks

A block is as large as the base doubled once for each block before it, up to the maximum
(`Growth.step_eq`). That is worked out in words of 64 bits, where a shift may lose the upper bits of
a number; but what is left of it then is zero or no number of 32 bits, so it is not taken for a size
(`Growth.eq_zero_or_le_of_lost`). A loop that doubles this size for a request ends with the first of
the sizes behind it that covers the request (`Growth.DoublesTo.least`).

A request for an alignment asks for as many bytes more as may have to be passed over at the start of
the block. So it fits in its new block wherever that lies (`Block.exists_fit?`), and space is found
as soon as the system has a block (`ByteArena.findSpace_of_request`).
-/

namespace SqlSyntax

namespace Growth

variable {g : Growth} {base n required size result : Nat}

/-- A base and a maximum in 32 bits, in their order. -/
structure Bounded (g : Growth) : Prop where
  base_pos : 0 < g.base
  base_le_max : g.base ≤ g.max
  max_lt : g.max < 2 ^ 32

theorem bytes_bounded : bytes.Bounded := ⟨by decide, by decide, by decide⟩

theorem inUnits_bounded (unit : Nat) : (inUnits unit).Bounded := by
  have hbase : bytes.base / Nat.max unit 1 ≤ bytes.base := Nat.div_le_self ..
  have hmax : bytes.max / Nat.max unit 1 ≤ bytes.max := Nat.div_le_self ..
  refine ⟨Nat.le_max_right .., Nat.le_max_right .., ?_⟩
  refine Nat.max_lt.2 ⟨Nat.lt_of_le_of_lt hmax (by decide), Nat.max_lt.2 ⟨?_, by decide⟩⟩
  exact Nat.lt_of_le_of_lt hbase (by decide)

/-- The base doubled `n` times, up to the maximum. -/
def doubled (g : Growth) (n : Nat) : Nat := min g.max (g.base * 2 ^ n)

theorem doubled_succ (g : Growth) (n : Nat) : g.doubled (n + 1) = min (2 * g.doubled n) g.max := by
  have hpow : g.base * 2 ^ (n + 1) = 2 * (g.base * 2 ^ n) := by
    rw [Nat.pow_succ']
    exact Nat.mul_left_comm ..
  unfold doubled
  omega

theorem Bounded.doubled_pos (hg : g.Bounded) (n : Nat) : 0 < g.doubled n :=
  Nat.lt_min.2 ⟨Nat.lt_of_lt_of_le hg.base_pos hg.base_le_max,
    Nat.mul_pos hg.base_pos (Nat.two_pow_pos n)⟩

/-! ## The size to begin with -/

/-- Where a shift loses bits of a number of 32 bits, it leaves zero or a number of more bits. -/
theorem eq_zero_or_le_of_lost (hbase : base < 2 ^ 32) (hn : n < 64)
    (hlost : 2 ^ 64 ≤ base * 2 ^ n) :
    base * 2 ^ n % 2 ^ 64 = 0 ∨ 2 ^ 32 ≤ base * 2 ^ n % 2 ^ 64 := by
  have hfar : 2 ^ 32 ≤ 2 ^ n := by
    by_contra hnear
    have hlt : base * 2 ^ n < 2 ^ 32 * 2 ^ 32 := Nat.mul_lt_mul'' hbase (Nat.lt_of_not_le hnear)
    omega
  -- the bits below the shift are zero
  have hdvd : 2 ^ n ∣ base * 2 ^ n % 2 ^ 64 :=
    (Nat.dvd_mod_iff (Nat.pow_dvd_pow 2 (Nat.le_of_lt hn))).2 (Nat.dvd_mul_left ..)
  rcases Nat.eq_zero_or_pos (base * 2 ^ n % 2 ^ 64) with hzero | hpos
  · exact .inl hzero
  · exact .inr (hfar.trans (Nat.le_of_dvd hpos hdvd))

theorem step_of_lost (hg : g.Bounded) (hlost : 2 ^ 64 ≤ g.base * 2 ^ n) : g.step n = g.max := by
  obtain ⟨hpos, hle, hlt⟩ := hg
  unfold step
  dsimp only
  rw [if_neg]
  · exact Nat.max_eq_left (by omega)
  · split
    · next hn =>
      have hword := eq_zero_or_le_of_lost (Nat.lt_of_le_of_lt hle hlt) hn hlost
      rw [Nat.shiftLeft_eq]
      omega
    · omega

theorem step_of_kept (hg : g.Bounded) (hkept : g.base * 2 ^ n < 2 ^ 64) :
    g.step n = g.doubled n := by
  obtain ⟨hpos, hle, hlt⟩ := hg
  have hn : n < 64 := (Nat.pow_lt_pow_iff_right (by decide)).1
    (Nat.lt_of_le_of_lt (Nat.le_mul_of_pos_left _ hpos) hkept)
  have hbase : g.base ≤ g.base * 2 ^ n := Nat.le_mul_of_pos_right _ (Nat.two_pow_pos n)
  have hword : g.base <<< n % 0x10000000000000000 = g.base * 2 ^ n := by
    rw [Nat.shiftLeft_eq]
    exact Nat.mod_eq_of_lt hkept
  unfold step doubled
  dsimp only
  rw [if_pos hn, hword]
  split
  · next hbetween =>
    rw [Nat.min_eq_right hbetween.2]
    exact Nat.max_eq_left (by omega)
  · next hbetween =>
    rw [Nat.min_eq_left (by omega)]
    exact Nat.max_eq_left (by omega)

theorem step_eq (hg : g.Bounded) (n : Nat) : g.step n = g.doubled n := by
  rcases Nat.lt_or_ge (g.base * 2 ^ n) (2 ^ 64) with hkept | hlost
  · exact step_of_kept hg hkept
  · have hmax := hg.max_lt
    rw [step_of_lost hg hlost, doubled, Nat.min_eq_left (by omega)]

/-! ## Doubling -/

/-- A loop that doubles a size in a word of 64 bits, up to a maximum, until it covers a request, and
the result that it ends with. -/
inductive DoublesTo (max required : Nat) : Nat → Nat → Prop
  | stop {size : Nat} (covered : required ≤ size) : DoublesTo max required size size
  | again {size result : Nat} (short : size < required)
    (next : DoublesTo max required (min (min (2 * size) (2 ^ 64 - 1)) max) result) :
    DoublesTo max required size result

theorem doublesTo_cover {max : Nat} (hmax : max < 2 ^ 32) (hle : required ≤ max) (hpos : 0 < size) :
    DoublesTo max required size (cover max required size) := by
  fun_induction cover max required size with
  | case1 size hshort ih =>
    have hword : min (min (2 * size) (2 ^ 64 - 1)) max = min (2 * size) max := by omega
    exact .again hshort.1 (hword ▸ ih (by omega))
  | case2 size hcovered => exact .stop (by omega)

/-- From one of the sizes on, doubling comes to the first one that covers the request. -/
theorem DoublesTo.least (hmax : g.max < 2 ^ 32)
    (h : DoublesTo g.max required (g.doubled n) result) :
    ∃ k, IsLeast {k | n ≤ k ∧ required ≤ g.doubled k} k ∧ result = g.doubled k := by
  generalize hsize : g.doubled n = size at h
  induction h generalizing n with
  | stop covered =>
    exact ⟨n, ⟨⟨Nat.le_refl n, hsize ▸ covered⟩, fun j hj => hj.1⟩, hsize.symm⟩
  | @again size result short next ih =>
    have hnext : g.doubled (n + 1) = min (min (2 * size) (2 ^ 64 - 1)) g.max := by
      rw [doubled_succ, hsize]
      omega
    obtain ⟨k, ⟨⟨hk, hcovered⟩, hleast⟩, hresult⟩ := ih hnext
    refine ⟨k, ⟨⟨Nat.le_of_succ_le hk, hcovered⟩, fun j ⟨hj, hjcovered⟩ => ?_⟩, hresult⟩
    -- the size that was doubled is too small
    have hne : j ≠ n := by
      rintro rfl
      omega
    exact hleast ⟨by omega, hjcovered⟩

theorem doublesTo_blockSize (hg : g.Bounded) (hle : required ≤ g.max) (existing : Nat) :
    DoublesTo g.max required (g.step existing) (g.blockSize existing required) := by
  rw [blockSize, if_neg (Nat.not_lt.2 hle)]
  refine doublesTo_cover hg.max_lt hle ?_
  rw [step_eq hg]
  exact hg.doubled_pos existing

theorem blockSize_least (hg : g.Bounded) (hle : required ≤ g.max) (existing : Nat) :
    ∃ k, IsLeast {k | existing ≤ k ∧ required ≤ g.doubled k} k ∧
      g.blockSize existing required = g.doubled k := by
  have hdoubles := doublesTo_blockSize hg hle existing
  rw [step_eq hg] at hdoubles
  exact hdoubles.least hg.max_lt

end Growth

/-- Chunks double too, whatever the bytes of a value. -/
theorem SlotArena.chunkCapacity_eq {unit : Nat} (hunit : unit ≠ 0) (existing : Nat) :
    chunkCapacity unit existing = (Growth.inUnits unit).doubled existing := by
  have hg := Growth.inUnits_bounded unit
  obtain ⟨k, ⟨⟨hk, -⟩, hleast⟩, hsize⟩ :=
    Growth.blockSize_least hg (Nat.lt_of_lt_of_le hg.base_pos hg.base_le_max) existing
  have hfirst : k ≤ existing := hleast ⟨Nat.le_refl _, hg.doubled_pos existing⟩
  rw [chunkCapacity, if_neg hunit, hsize, Nat.le_antisymm hfirst hk]

/-! ## Space in a new block -/

namespace Block

variable {b : Block} {size align : Nat}

/-- The block lies within the addresses of 64 bits, as all blocks of a system do. -/
def Addressable (b : Block) : Prop := b.address + b.capacity ≤ 2 ^ 64

theorem Addressable.lt (hplace : b.Addressable) (hsize : 0 < size)
    (hcapacity : size + (align - 1) ≤ b.capacity) : b.address + (align - 1) < 2 ^ 64 := by
  unfold Addressable at hplace
  omega

/-- At most `align - 1` bytes are passed over for the alignment. -/
theorem exists_fit? (hused : b.used = 0) (hplace : b.address + (align - 1) < 2 ^ 64)
    (hcapacity : size + (align - 1) ≤ b.capacity) : ∃ offset, b.fit? size align = some offset := by
  have hpassed := Nat.div_mul_le_self (b.address + b.used + (align - 1)) align
  unfold fit?
  dsimp only
  rw [if_neg (by omega), if_pos (by omega)]
  exact ⟨_, rfl⟩

end Block

namespace ByteArena

variable {a asked : ByteArena} {b : Block} {size align capacity : Nat}

theorem capacity_of_request (h : a.request capacity = .ok (b, asked)) :
    capacity < 2 ^ 63 - 1 ∧ b.capacity = capacity := by
  unfold request at h
  split at h
  · cases h
  · next hlt =>
    cases h
    exact ⟨Nat.lt_of_not_le hlt, rfl⟩

/-- Where a request fits in no block that is there, it fits in the one that the system has. -/
theorem findSpace_of_request (hsize : 0 < size) (missing : a.findFit? size align = none)
    (hrequest : a.request (Growth.bytes.blockSize a.blocks.size (size + (align - 1))) =
      .ok (b, asked)) (hplace : b.Addressable) :
    ∃ offset, a.findSpace size align = .ok (a.blocks.size, offset, asked.push b) := by
  obtain ⟨hlt, hcapacity⟩ := capacity_of_request hrequest
  have hle := Growth.le_blockSize Growth.bytes a.blocks.size (size + (align - 1))
  have hcovers : size + (align - 1) ≤ b.capacity := hcapacity ▸ hle
  obtain ⟨offset, hfit⟩ :=
    Block.exists_fit? (of_request hrequest).1 (hplace.lt hsize hcovers) hcovers
  refine ⟨offset, ?_⟩
  rw [findSpace, missing]
  dsimp only
  rw [if_neg (by omega), hrequest]
  dsimp only [bind, Except.bind]
  rw [hfit]
  rfl

/-- A request above the maximum gets a block of its own size. For any other one a loop ends that
doubles the size after the blocks that are there, with the first size that covers the request. A
request for some bytes at an alignment fits in the block that is made for it, at any address from
which that can be worked out, as it can within the addresses of 64 bits. So there is space as soon
as the system has handed out a block. -/
theorem new_blocks_have_space {g : Growth} (hg : g.Bounded) (existing : Nat) :
    (∀ required, g.max < required → g.blockSize existing required = required) ∧
    (∀ required, required ≤ g.max →
      Growth.DoublesTo g.max required (g.step existing) (g.blockSize existing required) ∧
      ∃ k, IsLeast {k | existing ≤ k ∧ required ≤ min g.max (g.base * 2 ^ k)} k ∧
        g.blockSize existing required = min g.max (g.base * 2 ^ k)) ∧
    ∀ size align, 0 < size → 0 < align →
      (∀ b : Block, b.used = 0 → b.capacity = g.blockSize existing (size + (align - 1)) →
        (b.Addressable → b.address + (align - 1) < 2 ^ 64) ∧
        (b.address + (align - 1) < 2 ^ 64 → ∃ offset, b.fit? size align = some offset ∧
          offset + size ≤ b.capacity ∧ align ∣ b.address + offset)) ∧
      ∀ (a asked : ByteArena) (b : Block), a.findFit? size align = none →
        a.request (Growth.bytes.blockSize a.blocks.size (size + (align - 1))) = .ok (b, asked) →
        b.Addressable →
        ∃ offset, a.findSpace size align = .ok (a.blocks.size, offset, asked.push b) := by
  refine ⟨fun required hlt => if_pos hlt, fun required hle => ?_,
    fun size align hsize halign => ⟨fun b hused hcapacity => ?_, ?_⟩⟩
  · exact ⟨Growth.doublesTo_blockSize hg hle existing, Growth.blockSize_least hg hle existing⟩
  · have hcovers : size + (align - 1) ≤ b.capacity := hcapacity ▸ g.le_blockSize existing _
    refine ⟨fun hplace => hplace.lt hsize hcovers, fun hplace => ?_⟩
    obtain ⟨offset, hfit⟩ := Block.exists_fit? hused hplace hcovers
    exact ⟨offset, hfit, (Block.of_fit? halign hfit).2⟩
  · exact fun a asked b missing hrequest hplace =>
      findSpace_of_request hsize missing hrequest hplace

/-- The block after one other is doubled once more for 100000 bytes at a multiple of 8. At the last
odd address that it can have a byte is passed over, and there is still space. -/
theorem new_blocks_have_space_odd_place :
    let b : Block := { address := 2 ^ 64 - 2 ^ 17 - 1, capacity := 2 ^ 17 }
    Growth.bytes.blockSize 1 (2 ^ 20 + 1) = 2 ^ 20 + 1 ∧
    Growth.DoublesTo (2 ^ 20) 100007 (2 ^ 16) (2 ^ 17) ∧
    IsLeast {k | 1 ≤ k ∧ 100007 ≤ min (2 ^ 20) (2 ^ 15 * 2 ^ k)} 2 ∧
    (∃ offset, b.fit? 100000 8 = some offset ∧ offset + 100000 ≤ 2 ^ 17 ∧ 8 ∣ b.address + offset) ∧
    ∃ offset after, new.findSpace 100000 8 = .ok (1, offset, after) := by
  intro b
  have hsizes : Growth.bytes.base = 2 ^ 15 ∧ Growth.bytes.max = 2 ^ 20 ∧
      Growth.bytes.step 1 = 2 ^ 16 ∧ Growth.bytes.blockSize 1 100007 = 2 ^ 17 := by
    decide +kernel
  obtain ⟨hbase, hmax, hstep, hsize⟩ := hsizes
  obtain ⟨hlarge, hwithin, hspace⟩ := new_blocks_have_space Growth.bytes_bounded 1
  obtain ⟨hdoubles, k, hleast, hk⟩ := hwithin 100007 (by decide)
  obtain ⟨hfits, hfinds⟩ := hspace 100000 8 (by decide) (by decide)
  rw [hmax, hstep, hsize] at hdoubles
  rw [hbase, hmax] at hleast
  rw [hbase, hmax, hsize] at hk
  refine ⟨hlarge _ (by decide), hdoubles, ?_, ?_, ?_⟩
  · have hpow : 2 ^ k = 2 ^ 2 := by omega
    rwa [Nat.pow_right_injective (Nat.le_refl 2) hpow] at hleast
  · obtain ⟨hplace, hfit⟩ := hfits b rfl hsize.symm
    exact hfit (hplace (by unfold Block.Addressable; decide))
  · have hmissing : new.findFit? 100000 8 = none := by decide +kernel
    have hrequest : new.request (Growth.bytes.blockSize new.blocks.size (100000 + (8 - 1))) =
        .ok ({ address := 2 <<< 40, capacity := 2 ^ 17 }, { new with supplied := 2 }) := by
      rw [show Growth.bytes.blockSize new.blocks.size (100000 + (8 - 1)) = 2 ^ 17 from hsize]
      rfl
    obtain ⟨offset, hfound⟩ := hfinds new _ _ hmissing hrequest
      (by unfold Block.Addressable; decide)
    exact ⟨offset, _, hfound⟩

end ByteArena

end SqlSyntax
