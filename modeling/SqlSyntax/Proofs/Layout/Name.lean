import SqlSyntax.Grammar.TypeName
import SqlSyntax.Grammar.Name
import SqlSyntax.Proofs.Layout.Rules

/-!
# Names over their tokens

The tokens of a name are words and dots, with a star at the end where one is allowed; those of a
type name are words and numbers.
-/

namespace SqlSyntax

open SqlSyntax.Parser

variable {c : Option Context} {w r v : List Token} {stage : Stage} {l : Label} {t : Tree}
  {x : Token} {kind : Kind}

/-! ## Words -/

/-- Neither a star nor an opening parenthesis nor a semicolon. -/
def TokenKind.isQuiet : TokenKind → Bool
  | .star | .leftParen | .semicolon => false
  | _ => true

/-- No star, no opening parenthesis and no semicolon is among the tokens. -/
def Quiet (w : List Token) : Prop := ∀ x ∈ w, x.kind.isQuiet = true

namespace Quiet

theorem nil : Quiet [] := List.forall_mem_nil _

theorem one {kind : TokenKind} (hx : x.kind = kind) (hk : kind.isQuiet = true) : Quiet [x] :=
  List.forall_mem_singleton.2 (hx ▸ hk)

theorem append (hv : Quiet v) (hw : Quiet w) : Quiet (v ++ w) := List.forall_mem_append.2 ⟨hv, hw⟩

theorem stars (h : Quiet w) : HasStars 0 w where
  count := by
    rw [starsOf, List.countP_eq_zero]
    intro x hx hstar
    have hquiet := h x hx
    rw [eq_of_beq hstar] at hquiet
    cases hquiet
  unparted x hx hsemicolon := by
    have hquiet := h x hx
    rw [hsemicolon] at hquiet
    cases hquiet

theorem not_opens (h : Quiet w) : ¬ EndsWith .leftParen w := by
  intro hopens
  obtain ⟨x, hx, hkind⟩ := Option.map_eq_some_iff.1 hopens
  have hquiet := h x (List.mem_of_getLast? hx)
  rw [hkind] at hquiet
  cases hquiet

theorem of_isName (h : x.isName = true) : Quiet [x] := by
  unfold Token.isName at h
  split at h
  · next hx => exact one hx rfl
  · next hx => exact one hx rfl
  · next hx => exact one hx rfl
  · cases h

theorem of_keyword {test : Keyword → Bool} (h : x.keyword?.any test = true) : Quiet [x] := by
  unfold Token.keyword? at h
  split at h
  · next hx => exact one hx rfl
  · cases h

theorem of_isNamePart (h : x.isNamePart = true) : Quiet [x] := by
  rcases Bool.or_eq_true_iff.1 h with h | h
  · exact of_isName h
  · exact of_keyword (by rw [Option.any_true]; exact h)

theorem of_isTypeWord (h : x.isTypeWord = true) : Quiet [x] := by
  unfold Token.isTypeWord at h
  split at h
  · next hx => exact one hx rfl
  · next hx => exact one hx rfl
  · cases h

end Quiet

/-! ## Names -/

theorem dottedParts_laid (what : String) :
    ∀ n, Yields (dottedParts what n) c fun _ v => Quiet v
  | 0 => fun _ => .pure .nil
  | n + 1 => by
    intro r
    refine .consume (fun x _ _ hx => ?_) (.pure .nil)
    refine .expectWord fun y _ _ hy => ?_
    refine .call (dottedParts_laid what n) fun _ v _ _ hv => .pure ?_
    exact ((Quiet.nil.append (.one hx rfl)).append (.of_isNamePart hy)).append hv

theorem objectName_laid (kind : Kind) (hk : kind.isWildcard = false) :
    Yields (objectName kind) c fun t w => t.Whole kind c w ∧ Quiet w := by
  intro r
  unfold objectName
  refine .expectWord fun x _ _ hx => ?_
  refine .call (dottedParts_laid _ 2) fun others v _ _ hv => ?_
  have hquiet : Quiet ([x] ++ v) := (Quiet.of_isName hx).append hv
  refine .stay (.opened rfl (hquiet.stars.kind hk)) fun node h => ?_
  refine .stay (.tokenTexts _) fun texts _ => ?_
  refine .stay (.altered h fun _ _ => ⟨rfl, rfl, rfl, rfl, fun _ => rfl⟩) fun node h => ?_
  exact .finishes h fun u hu => ⟨hu.whole rfl rfl, hquiet⟩

theorem columnStar_lays (allowStar : Bool) :
    (columnStar allowStar).Lays c w (x :: r) fun p w' _ =>
      w' = w ++ [x] ∧ p.2 = true ∧ allowStar = true := by
  unfold columnStar
  split
  · next hallow => exact .discard (.advance (.pure ⟨rfl, rfl, hallow⟩))
  · exact .unexpected _

/-- The stars among the parts of a name: one at most, and at the end. -/
theorem columnParts_laid (allowStar : Bool) :
    ∀ n, Yields (columnParts allowStar n) c fun p v =>
      HasStars p.2.toNat v ∧ (p.2 = true → allowStar = true) := by
  -- a star ends the parts
  have hstar {r : List Token} {x : Token} (hx : x.kind = .dot)
      (hsees : r[0]?.map Token.kind = some .star) :
      (columnStar allowStar).Lays c ([] ++ [x]) r fun p v _ =>
        HasStars p.2.toNat v ∧ (p.2 = true → allowStar = true) := by
    rcases r with _ | ⟨y, r⟩
    · cases hsees
    · have hy : y.kind = .star := Option.some.inj hsees
      refine (columnStar_lays allowStar).weaken fun p v _ _ hp => ?_
      obtain ⟨hv, hp, hallow⟩ := hp
      rw [hv, hp]
      exact ⟨(HasStars.one hx rfl).append (.star hy), fun _ => hallow⟩
  intro n
  induction n with
  | zero =>
    intro r
    refine .consume (fun x r _ hx => .sees .star ?_)
      (.pure ⟨.nil, fun h => absurd h Bool.false_ne_true⟩)
    by_cases hsees : (r[0]?.map Token.kind == some .star) = true
    · rw [hsees]
      exact hstar hx (eq_of_beq hsees)
    · rw [Bool.eq_false_iff.2 hsees]
      exact .unexpected _
  | succ n ih =>
    intro r
    refine .consume (fun x r _ hx => .sees .star ?_)
      (.pure ⟨.nil, fun h => absurd h Bool.false_ne_true⟩)
    by_cases hsees : (r[0]?.map Token.kind == some .star) = true
    · rw [hsees]
      exact hstar hx (eq_of_beq hsees)
    · rw [Bool.eq_false_iff.2 hsees]
      refine .expectWord fun y r _ hy => .call ih fun p v _ _ hv => .pure ?_
      have hquiet := (Quiet.one hx rfl).append (.of_isNamePart hy)
      have hstars := hquiet.stars.append hv.1
      rw [Nat.zero_add] at hstars
      exact ⟨hstars, hv.2⟩

theorem columnReference_laid (allowStar : Bool) :
    Yields (columnReference allowStar) c fun t w => t.Stands .column c w ∧
      (allowStar = false → t.Stands .plain c w) := by
  intro r
  unfold columnReference
  refine .expectWord fun x _ _ hx => .call (columnParts_laid allowStar 3) ?_
  rintro ⟨parts, star⟩ v _ - ⟨hstars, hallow⟩
  dsimp only at hstars hallow ⊢
  split
  · exact .throw _
  · refine .stay (.tokenTexts _) fun texts _ => ?_
    have hkind : 0 + star.toNat =
        (if star then Kind.qualifiedWildcard else .columnRef).isWildcard.toNat := by
      cases star <;> rfl
    have hw := hkind ▸ (Quiet.of_isName hx).stars.append hstars
    refine .stay (.opened rfl hw) fun node h => ?_
    refine .stay (.altered h fun _ _ => ⟨rfl, rfl, rfl, rfl, fun _ => rfl⟩) fun node h => ?_
    refine .finishes h fun u hu => ?_
    cases star
    · exact ⟨hu.stands rfl rfl, fun _ => hu.stands rfl rfl⟩
    · exact ⟨hu.stands rfl rfl, fun hoff => by simp [hoff] at hallow⟩

/-! ## Names with their marks -/

theorem direction_lays (h : t.Rooted stage l w) :
    (direction t).Lays c w r fun t w _ => t.Rooted stage l w := by
  unfold direction
  refine .consumeKeyword (fun x _ _ hx => .stays (.flag (h.after hx rfl) rfl) fun _ h => h) ?_
  exact .consumeKeyword (fun x _ _ hx => .stays (.flag (h.after hx rfl) rfl) fun _ h => h) (.pure h)

theorem columnName_laid :
    Yields columnName c fun t w => ∃ start, t.Rooted .grown ⟨.identifier, c, start, false⟩ w := by
  intro r
  refine .expectWord fun x _ _ hx => ?_
  exact .stays (.named rfl (Quiet.of_isName hx).stars) fun _ hnode => ⟨_, hnode⟩

theorem columnList_closed :
    Yields columnList c fun t w => t.Whole .columnList c w ∧ ¬ EndsWith .leftParen w := by
  have hitem : Yields (do direction (← columnName)) c (Tree.Stands .plain c) := by
    intro r
    refine .call columnName_laid fun t v _ _ ⟨_, h⟩ => ?_
    exact (direction_lays h).weaken fun _ _ _ _ h => h.stands rfl rfl
  intro r
  unfold columnList
  refine .expect fun x _ _ hx => .stay (.opened (w := [x]) rfl (.one hx rfl)) ?_
  intro list h
  refine (Lays.attachList h hitem rfl fun _ => rfl).bind fun list v _ _ h => ?_
  refine .discard (.expect fun y _ _ hy => .finishes (h.after hy rfl) fun u hu => ?_)
  exact ⟨hu.whole rfl rfl, not_endsWith_append (by simp) (Quiet.one hy rfl).not_opens⟩

theorem columnList_laid : Yields columnList c (Tree.Whole .columnList c) :=
  fun r => (columnList_closed r).weaken fun _ _ _ _ h => h.1

/-- The tokens of an alias, the last of which is its name. -/
def IsAlias (x : Token) (v : List Token) : Prop :=
  ∃ own, v = own ++ [x] ∧ Quiet own ∧ Quiet [x]

theorem aliasName?_laid : Yields aliasName? c (Lays.Found IsAlias) := by
  intro r
  unfold aliasName?
  refine .consumeKeyword (fun x _ _ hx => ?_) ?_
  · refine .take? (fun y _ _ hy => .pure ⟨[x], rfl, .one hx rfl, .one hy rfl⟩) ?_
    exact .expectWord fun y _ _ hy => .pure ⟨[x], rfl, .one hx rfl, .of_isName hy⟩
  · refine .sees _ (.sees _ ?_)
    split
    · exact .expectWord fun y _ _ hy => .pure ⟨[], rfl, .nil, .of_isName hy⟩
    · exact .pure rfl

theorem aliased_lays (h : t.Rooted stage l w) (hx : Quiet [x])
    (hl : ∀ w, l.Takes w .plain c) :
    (aliased t x).Lays c (w ++ [x]) r fun t w' _ => w' = w ++ [x] ∧ t.Finished l w' := by
  unfold aliased
  refine .stay (.named rfl hx.stars) fun label hlabel => ?_
  refine .stay (.attach h (hlabel.stands rfl rfl) (hl w)) fun t h => ?_
  exact .stay (.flag h rfl) fun t h => .finishes h fun _ h => ⟨rfl, h⟩

/-- An alias leaves no parenthesis open. -/
theorem withAlias_lays (h : t.Finished l w) (hl : ∀ w, l.Takes w .plain c) :
    (withAlias t).Lays c w r fun t w' _ =>
      t.Finished l w' ∧ (¬ EndsWith .leftParen w → ¬ EndsWith .leftParen w') := by
  unfold withAlias
  refine .call aliasName?_laid fun o v _ _ ho => ?_
  rcases o with _ | x
  · obtain rfl : v = [] := ho
    rw [List.append_nil]
    exact .pure ⟨h, id⟩
  · obtain ⟨own, rfl, hown, hx⟩ := ho
    rw [← List.append_assoc]
    refine (aliased_lays (h.tokens hown.stars) hx hl).weaken fun t v _ _ h => ⟨h.2, fun _ => ?_⟩
    rw [h.1]
    exact not_endsWith_append (by simp) hx.not_opens

/-! ## Types -/

theorem typeParameter_laid : Yields typeParameter c fun _ v => HasStars 0 v := by
  intro r
  have hnumber {x : Token} (hx : (x.kind == .integer || x.kind == .float) = true) :
      HasStars 0 [x] :=
    .single (fun hstar => by simp [hstar] at hx) fun hsemicolon => by simp [hsemicolon] at hx
  unfold typeParameter
  refine .consume (fun y _ _ hy => ?_) (.discard (.consume (fun y _ _ hy => ?_) ?_))
  · have hsign : HasStars 0 ([] ++ [y]) := .one hy rfl
    exact .takeIf? (fun x _ _ hx => .pure (hsign.append (hnumber hx))) (.unexpected _)
  · have hsign : HasStars 0 ([] ++ [y]) := .one hy rfl
    exact .takeIf? (fun x _ _ hx => .pure (hsign.append (hnumber hx))) (.unexpected _)
  · exact .takeIf? (fun x _ _ hx => .pure (hnumber hx)) (.unexpected _)

theorem typeParameters_laid : Yields typeParameters c fun _ v => HasStars 0 v := by
  intro r
  unfold typeParameters
  refine .consume (fun x _ _ hx => ?_) (.pure .nil)
  refine .call typeParameter_laid fun first v _ _ hv => ?_
  have hclose {w r : List Token} (second : Option Nat) (hw : HasStars 0 w) : Lays c w r (do
      discard <| expect .rightParen "')'"
      return (first, second)) fun _ v _ => HasStars 0 v :=
    .discard (.expect fun y _ _ hy => .pure (hw.append (.one hy rfl)))
  have hopen := (HasStars.one hx rfl).append hv
  refine .consume (fun y _ _ hy => ?_) ?_
  · refine .call typeParameter_laid fun second u _ _ hu => hclose second ?_
    exact (hopen.append (.one hy rfl)).append hu
  · exact hclose none hopen

theorem typeName_laid : Yields typeName c fun _ v => HasStars 0 v ∧ v ≠ [] := by
  intro r
  have hwords : Yields (many (takeIf? Token.isTypeWord)) c fun words v =>
      HasStars 0 v ∧ (words ≠ [] → v ≠ []) := by
    intro r
    unfold many
    have hnone : HasStars 0 [] ∧ (([] : List Token) ≠ [] → ([] : List Token) ≠ []) := ⟨.nil, id⟩
    refine (Lays.iterate (I := fun items v => HasStars 0 v ∧ (items ≠ [] → v ≠ []))
      (fun items w r hw => ?_) hnone).bind fun items v _ _ h => .pure (by simpa using h)
    refine .takeIf? (fun x _ _ hx => .pure ?_) (.pure hw)
    exact ⟨hw.1.append (Quiet.of_isTypeWord hx).stars, by simp⟩
  unfold typeName
  refine .call hwords fun words v _ _ hv => ?_
  rcases words with _ | ⟨first, others⟩
  · exact .unexpected _
  · refine .call typeParameters_laid ?_
    rintro ⟨p, q⟩ u _ - hu
    exact .stays (.peek _) fun _ _ => ⟨hv.1.append hu, by simp [hv.2]⟩

end SqlSyntax
