import Mathlib.Algebra.GroupWithZero.Nat
import SqlSyntax.Text.Position

/-!
# Pieces between characters

A source that reads `before ++ piece ++ after` can be cut at both ends of the piece, and cut there
it gives the piece back (`slice?_append`). Every other cut of the parser comes down to that: the
lines around an offset, and the bodies of quoted tokens.
-/

namespace SqlSyntax

namespace Source

@[simp]
theorem byteSize_nil : byteSize [] = 0 := rfl

@[simp]
theorem byteSize_cons (c : Char) (cs : Source) :
    byteSize (c :: cs) = c.utf8Size + byteSize cs := rfl

@[simp]
theorem byteSize_append (before after : Source) :
    byteSize (before ++ after) = byteSize before + byteSize after := by
  induction before with
  | nil => simp
  | cons c cs ih => simp only [List.cons_append, byteSize_cons, ih, Nat.add_assoc]

theorem length_le_byteSize : ∀ cs : Source, cs.length ≤ cs.byteSize
  | [] => Nat.le_refl 0
  | c :: cs => by
    have hc := c.utf8Size_pos
    have ih := length_le_byteSize cs
    rw [List.length_cons, byteSize_cons]
    omega

theorem eq_nil_of_byteSize {cs : Source} (h : byteSize cs = 0) : cs = [] := by
  cases cs with
  | nil => rfl
  | cons c cs =>
    have hc := c.utf8Size_pos
    rw [byteSize_cons] at h
    omega

/-- Of two beginnings of a source, the one that is not longer begins the other. -/
theorem prefix_of_byteSize_le {source piece piece' : Source} (h : piece <+: source)
    (h' : piece' <+: source) (hle : byteSize piece ≤ byteSize piece') : piece <+: piece' := by
  rcases List.prefix_or_prefix_of_prefix h h' with hprefix | ⟨more, rfl⟩
  · exact hprefix
  · rw [byteSize_append] at hle
    obtain rfl : more = [] := eq_nil_of_byteSize (by omega)
    simp

/-- Every offset of the source fits in a word. -/
def Fits (source : Source) : Prop := source.byteSize < 2 ^ 64

theorem dropBytes_append (after : Source) : ∀ before : Source,
    dropBytes (byteSize before) (before ++ after) = some after
  | [] => by cases after <;> rfl
  | c :: cs => by
    obtain ⟨n, hn⟩ : ∃ n, byteSize (c :: cs) = n + 1 :=
      ⟨c.utf8Size + byteSize cs - 1, by have := c.utf8Size_pos; simp only [byteSize_cons]; omega⟩
    have hsize := byteSize_cons c cs
    rw [hn, List.cons_append, dropBytes, if_pos (by omega),
      show n + 1 - c.utf8Size = byteSize cs by omega]
    exact dropBytes_append after cs

theorem takeBytes_append (after : Source) : ∀ before : Source,
    takeBytes (byteSize before) (before ++ after) = some before
  | [] => by cases after <;> rfl
  | c :: cs => by
    obtain ⟨n, hn⟩ : ∃ n, byteSize (c :: cs) = n + 1 :=
      ⟨c.utf8Size + byteSize cs - 1, by have := c.utf8Size_pos; simp only [byteSize_cons]; omega⟩
    have hsize := byteSize_cons c cs
    rw [hn, List.cons_append, takeBytes, if_pos (by omega),
      show n + 1 - c.utf8Size = byteSize cs by omega, takeBytes_append after cs]
    rfl

/-- A piece of a source is what is cut out at its ends. -/
theorem slice?_append (before piece after : Source) :
    slice? (before ++ piece ++ after) (byteSize before) (byteSize before + byteSize piece) =
      some piece := by
  rw [slice?, if_pos (Nat.le_add_right _ _), List.append_assoc, dropBytes_append, Option.bind_some,
    Nat.add_sub_cancel_left, takeBytes_append]

theorem dropBytes_past (n : Nat) (cs : Source) : ∀ before : Source,
    dropBytes (byteSize before + n) (before ++ cs) = dropBytes n cs
  | [] => by rw [byteSize_nil, Nat.zero_add, List.nil_append]
  | c :: before => by
    have hc := c.utf8Size_pos
    obtain ⟨k, hk⟩ : ∃ k, byteSize (c :: before) + n = k + 1 :=
      ⟨byteSize (c :: before) + n - 1, by simp only [byteSize_cons]; omega⟩
    rw [byteSize_cons] at hk
    rw [byteSize_cons, hk, List.cons_append, dropBytes, if_pos (by omega),
      show k + 1 - c.utf8Size = byteSize before + n by omega]
    exact dropBytes_past n cs before

theorem dropBytes_within {n : Nat} {piece : Source} (after : Source) (h : n ≤ byteSize piece) :
    dropBytes n (piece ++ after) = (dropBytes n piece).map (· ++ after) := by
  fun_induction dropBytes n piece with
  | case1 piece => rw [dropBytes, Option.map_some]
  | case2 n => exact absurd h (Nat.not_succ_le_zero n)
  | case3 n c cs hle ih =>
    rw [byteSize_cons] at h
    rw [List.cons_append, dropBytes, if_pos hle, ih (by omega)]
  | case4 n c cs hle => rw [List.cons_append, dropBytes, if_neg hle, Option.map_none]

theorem takeBytes_within {n : Nat} {piece : Source} (after : Source) (h : n ≤ byteSize piece) :
    takeBytes n (piece ++ after) = takeBytes n piece := by
  fun_induction takeBytes n piece with
  | case1 piece => rw [takeBytes]
  | case2 n => exact absurd h (Nat.not_succ_le_zero n)
  | case3 n c cs hle ih =>
    rw [byteSize_cons] at h
    rw [List.cons_append, takeBytes, if_pos hle, ih (by omega)]
  | case4 n c cs hle => rw [List.cons_append, takeBytes, if_neg hle]

theorem byteSize_of_dropBytes {n : Nat} {cs left : Source} (h : dropBytes n cs = some left) :
    n + byteSize left = byteSize cs := by
  fun_induction dropBytes n cs with
  | case1 cs => rw [Option.some.inj h, Nat.zero_add]
  | case2 => cases h
  | case3 n c cs hle ih =>
    have hsize := ih h
    rw [byteSize_cons]
    omega
  | case4 => cases h

/-- What is cut out of a piece is cut out of the source at the same distance from its start. -/
theorem slice?_within {i j : Nat} (before : Source) {piece : Source} (after : Source)
    (hj : j ≤ byteSize piece) :
    slice? (before ++ piece ++ after) (byteSize before + i) (byteSize before + j) =
      slice? piece i j := by
  rw [slice?, slice?]
  by_cases hij : i ≤ j
  · rw [if_pos (Nat.add_le_add_left hij _), if_pos hij, List.append_assoc, dropBytes_past,
      dropBytes_within after (Nat.le_trans hij hj), Nat.add_sub_add_left]
    cases hdrop : dropBytes i piece with
    | none => rfl
    | some left =>
      have hsize := byteSize_of_dropBytes hdrop
      exact takeBytes_within after (by omega)
  · rw [if_neg (by omega), if_neg hij]

/-- The place lies between two characters, so the source has a line around it. -/
def HasLine (source : Source) (offset : Nat) : Prop := (source.lineAt? offset).isSome

theorem hasLine_append (before after : Source) :
    HasLine (before ++ after) (byteSize before) := by
  have hmin : min (byteSize before) (byteSize (before ++ after)) = byteSize before := by
    rw [byteSize_append]
    omega
  simp [HasLine, lineAt?, -byteSize_append, hmin, takeBytes_append, dropBytes_append]

theorem hasLine_byteSize (source : Source) : HasLine source source.byteSize := by
  have h := hasLine_append source []
  rwa [List.append_nil] at h

end Source

namespace Mark

theorem past_append (m : Mark) (before after : Source) :
    m.past (before ++ after) = (m.past before).past after := List.foldl_append

theorem offset_next (m : Mark) (c : Char) : (m.next c).offset = m.offset + c.utf8Size := by
  unfold next
  split
  · next h => subst h; rfl
  · rfl

theorem offset_past (m : Mark) (cs : Source) : (m.past cs).offset = m.offset + cs.byteSize := by
  induction cs generalizing m with
  | nil => rfl
  | cons c cs ih =>
    show ((m.next c).past cs).offset = _
    rw [ih, offset_next, Source.byteSize_cons, Nat.add_assoc]

end Mark

/-- The location just past the last byte. -/
theorem Location.offset_atOffset_byteSize (source : Source) :
    (atOffset source source.byteSize).offset = source.byteSize := Nat.min_self _

end SqlSyntax
