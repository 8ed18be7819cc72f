import SqlSyntax.Proofs.Spacing

/-!
# Texts whose tokens are known

The tokens of a text that is put together from words, decimal numbers, blanks and marks. A word ends
before the first character that does not belong to words, and so the tokens of such a text are told
piece by piece, from the last to the first (`Spells`).
-/

namespace SqlSyntax

namespace Lexeme

variable {c : Char} {body rest : List Char} {p : Char → Bool}

theorem run_append (hbody : ∀ d ∈ body, p d) (hrest : ∀ d ∈ rest.head?, p d = false) :
    run p (body ++ rest) = body.length := by
  induction body with
  | nil => exact run_eq_zero hrest
  | cons d body ih =>
    obtain ⟨hd, hbody⟩ := List.forall_mem_cons.1 hbody
    rw [List.cons_append, run_cons, if_pos hd, ih hbody, List.length_cons]

/-! ## Characters that begin nothing but words and numbers -/

/-- A character that no mark, quote, parameter, blank or blob begins with. -/
def isPlain (c : Char) : Bool :=
  !Unicode.isWhiteSpace c && (single? c).isNone && (opening? c).isNone &&
    !"=<>!|:?@$.xX".toList.contains c

/-- What begins with such a character is a number, a word, or an error. -/
theorem lexeme_of_isPlain (h : isPlain c) (rest : List Char) :
    lexeme c rest =
      if c.isDigit then ((number (c :: rest)).1, (number (c :: rest)).2 - 1)
      else if startsWord c then ((word (c :: rest)).1, (word (c :: rest)).2 - 1)
      else (.error "Unexpected character", 0) := by
  simp only [isPlain, Bool.and_eq_true, Bool.not_eq_true', Option.isNone_iff_eq_none] at h
  obtain ⟨⟨⟨-, hsingle⟩, hopening⟩, hc⟩ := h
  have hne (d : Char) (hd : d ∈ "=<>!|:?@$.xX".toList) : c ≠ d := by
    rintro rfl
    rw [List.contains_eq_mem, decide_eq_true hd] at hc
    cases hc
  have hmark : mark? c rest.head? = none := by
    unfold mark?
    split
    all_goals first
      | rfl
      | next => exact absurd rfl (hne _ (by decide))
  have hdot : c ≠ '.' := hne _ (by decide)
  have hparameter : c ≠ '?' ∧ c ≠ ':' ∧ c ≠ '@' ∧ c ≠ '$' :=
    ⟨hne _ (by decide), hne _ (by decide), hne _ (by decide), hne _ (by decide)⟩
  have hblob : c ≠ 'x' ∧ c ≠ 'X' := ⟨hne _ (by decide), hne _ (by decide)⟩
  unfold lexeme
  rw [hsingle, hmark, hopening]
  simp [hdot, hparameter, hblob]

/-- Neither a blank nor a comment begins with it. -/
theorem begins_of_isPlain (h : isPlain c) :
    Unicode.isWhiteSpace c = false ∧ c ≠ '-' ∧ c ≠ '/' := by
  simp only [isPlain, Bool.and_eq_true, Bool.not_eq_true', Option.isNone_iff_eq_none] at h
  obtain ⟨⟨⟨hblank, hsingle⟩, -⟩, -⟩ := h
  refine ⟨hblank, ?_, ?_⟩ <;>
  · rintro rfl
    cases hsingle

theorem isPlain_of_isDigit (h : c.isDigit) : isPlain c := by
  have hall : ∀ n ∈ List.range 58, 48 ≤ n → isPlain (Char.ofNat n) := by decide
  simp only [Char.isDigit, ge_iff_le, Bool.and_eq_true, decide_eq_true_eq] at h
  have hlow : 48 ≤ c.toNat := h.1
  have hhigh : c.toNat ≤ 57 := h.2
  rw [← Char.ofNat_toNat c]
  exact hall c.toNat (List.mem_range.2 (by omega)) hlow

/-! ## Words -/

/-- The characters make a word: letters, or what may go on after one. -/
def spellsWord : List Char → Bool
  | [] => false
  | c :: cs => isPlain c && !c.isDigit && startsWord c && cs.all inWord

theorem isPlain_of_spellsWord (h : spellsWord (c :: body)) : isPlain c := by
  simp only [spellsWord, Bool.and_eq_true] at h
  exact h.1.1.1

theorem word_append (hbody : ∀ d ∈ body, inWord d) (hrest : ∀ d ∈ rest.head?, inWord d = false) :
    word (body ++ rest) = ((word body).1, body.length) := by
  have hrun : run inWord body = body.length := by
    have h := @run_append body [] inWord hbody nofun
    rwa [List.append_nil] at h
  have htake : (body ++ rest).take body.length = body := List.take_left
  unfold word
  dsimp only
  rw [run_append hbody hrest, hrun, htake, List.take_length]
  cases Keyword.ofWord? (String.ofList body) <;> rfl

/-- A word ends before a character that is in no words. -/
theorem lexeme_word (h : spellsWord (c :: body)) (hrest : ∀ d ∈ rest.head?, inWord d = false) :
    lexeme c (body ++ rest) = ((word (c :: body)).1, body.length) := by
  simp only [spellsWord, Bool.and_eq_true, Bool.not_eq_true', List.all_eq_true] at h
  obtain ⟨⟨⟨hplain, hdigit⟩, hstarts⟩, hbody⟩ := h
  rw [lexeme_of_isPlain hplain, hdigit, if_neg nofun, if_pos hstarts, ← List.cons_append,
    word_append (List.forall_mem_cons.2 ⟨inWord_of_startsWord hstarts, hbody⟩) hrest,
    List.length_cons, Nat.add_sub_cancel]

/-! ## Decimal numbers -/

/-- A character that may follow a number without a gap. -/
def endsNumber (c : Char) : Bool := !c.isDigit && c != '.' && !startsWord c

theorem decimalNumber_append (hdigits : ∀ d ∈ body, d.isDigit)
    (hrest : ∀ d ∈ rest.head?, endsNumber d) :
    decimalNumber (body ++ rest) = (.integer, body.length) := by
  have hend {d : Char} (hd : d ∈ rest.head?) :
      d.isDigit = false ∧ d ≠ '.' ∧ startsWord d = false := by
    simpa [endsNumber, and_assoc] using hrest d hd
  have hwhole : run Char.isDigit (body ++ rest) = body.length :=
    run_append hdigits fun d hd => (hend hd).1
  have hdrop : (body ++ rest).drop body.length = rest := List.drop_left
  have hfraction : fractionLength rest = 0 := by
    unfold fractionLength
    split
    · exact absurd rfl (hend rfl).2.1
    · rfl
  have hexponent : exponent rest = none := by
    unfold exponent
    split
    · next e cs =>
      have hletters : startsWord 'e' ∧ startsWord 'E' := by decide
      rw [if_neg]
      intro he
      rcases Bool.or_eq_true_iff.1 he with he | he
      · rw [beq_iff_eq] at he
        exact absurd hletters.1 (Bool.eq_false_iff.1 (he ▸ (hend rfl).2.2))
      · rw [beq_iff_eq] at he
        exact absurd hletters.2 (Bool.eq_false_iff.1 (he ▸ (hend rfl).2.2))
    · rfl
  unfold decimalNumber
  dsimp only
  rw [hwhole, hdrop, hfraction, Nat.add_zero, hdrop, hexponent]
  dsimp only
  rw [if_pos rfl]
  unfold endNumber
  split
  · rw [if_neg (Bool.eq_false_iff.1 (hend rfl).2.2)]
  · rfl

theorem number_append (hc : c.isDigit) (hdigits : ∀ d ∈ body, d.isDigit)
    (hrest : ∀ d ∈ rest.head?, endsNumber d) :
    number (c :: (body ++ rest)) = (.integer, body.length + 1) := by
  have hdecimal : decimalNumber (c :: (body ++ rest)) = (.integer, body.length + 1) :=
    decimalNumber_append (List.forall_mem_cons.2 ⟨hc, hdigits⟩) hrest
  have hnext : ∀ d ∈ (body ++ rest).head?, d.isDigit ∨ endsNumber d := by
    rcases body with _ | ⟨d, body⟩
    · exact fun d hd => .inr (hrest d hd)
    · rintro _ ⟨⟩
      exact .inl (hdigits d List.mem_cons_self)
  have hhex : ¬ ('x'.isDigit ∨ endsNumber 'x') ∧ ¬ ('X'.isDigit ∨ endsNumber 'X') := by
    decide
  generalize body ++ rest = cs at hdecimal hnext
  unfold number
  split
  · next heq =>
    obtain ⟨rfl, rfl⟩ := List.cons.inj heq
    rw [if_neg]
    · exact hdecimal
    · intro hx
      rcases Bool.or_eq_true_iff.1 hx with hx | hx
      · exact hhex.1 (beq_iff_eq.1 hx ▸ hnext _ rfl)
      · exact hhex.2 (beq_iff_eq.1 hx ▸ hnext _ rfl)
  · exact hdecimal

/-- A decimal number ends before a character that may follow a number. -/
theorem lexeme_decimal (hc : c.isDigit) (hdigits : ∀ d ∈ body, d.isDigit)
    (hrest : ∀ d ∈ rest.head?, endsNumber d) :
    lexeme c (body ++ rest) = (.integer, body.length) := by
  rw [lexeme_of_isPlain (isPlain_of_isDigit hc), if_pos hc, number_append hc hdigits hrest,
    Nat.add_sub_cancel]

/-! ## Marks -/

/-- A mark that is a token on its own, and begins no comment. -/
theorem lexeme_mark {kind : TokenKind} (h : single? c = some kind) (rest : List Char) :
    lexeme c rest = (kind, 0) := by
  rw [lexeme, h]

end Lexeme

/-! ## Pieces of a text -/

/-- Wherever it stands, the text is read as these tokens. -/
def Spells (cs : List Char) (said : List (TokenKind × String)) : Prop :=
  ∀ m, (tokensFrom m cs).map Token.said = said

namespace Spells

variable {c : Char} {cs body rest : List Char} {said : List (TokenKind × String)}
  {kind : TokenKind}

theorem nil : Spells [] [] := fun m => congrArg _ (tokensFrom_nil m)

theorem space (h : Spells cs said) : Spells (' ' :: cs) said := by
  intro m
  rw [tokensFrom_eq, nextToken?_space, ← tokensFrom_eq, h]

/-- A lexeme that no blank and no comment begins with, and what is read behind it. -/
theorem lexeme (hblank : Unicode.isWhiteSpace c = false) (hcomment : c ≠ '-' ∧ c ≠ '/')
    (hlexeme : SqlSyntax.lexeme c (body ++ rest) = (kind, body.length)) (h : Spells rest said) :
    Spells (c :: (body ++ rest)) ((kind, String.ofList (c :: body)) :: said) := by
  intro m
  have hskip := @skipBlanks_stays c (body ++ rest) hblank
    (fun hc => (hc.elim hcomment.1 hcomment.2).elim) m
  obtain ⟨t, after, hnext, hsaid⟩ := exists_nextToken? hskip
  rw [hlexeme, List.drop_left] at hnext
  rw [hlexeme, List.take_left] at hsaid
  rw [tokensFrom_eq, hnext]
  exact congrArg₂ _ hsaid (h after)

theorem mark (hblank : Unicode.isWhiteSpace c = false) (hcomment : c ≠ '-' ∧ c ≠ '/')
    (hkind : Lexeme.single? c = some kind) (h : Spells rest said) :
    Spells (c :: rest) ((kind, String.ofList [c]) :: said) :=
  @lexeme c [] rest said kind hblank hcomment (Lexeme.lexeme_mark hkind rest) h

/-- A word up to a character that is in no words. -/
theorem word {w : String} (hw : Lexeme.spellsWord w.toList)
    (hrest : ∀ d ∈ rest.head?, Lexeme.inWord d = false) (h : Spells rest said) :
    Spells (w.toList ++ rest) (((Lexeme.word w.toList).1, w) :: said) := by
  obtain ⟨cs, rfl⟩ : ∃ cs, w = String.ofList cs := ⟨w.toList, String.ofList_toList.symm⟩
  rw [String.toList_ofList] at hw ⊢
  rcases cs with _ | ⟨c, body⟩
  · cases hw
  · obtain ⟨hblank, hcomment⟩ := Lexeme.begins_of_isPlain (Lexeme.isPlain_of_spellsWord hw)
    exact lexeme hblank hcomment (Lexeme.lexeme_word hw hrest) h

/-- A decimal number up to a character that may follow a number. -/
theorem decimal (n : Nat) (hrest : ∀ d ∈ rest.head?, Lexeme.endsNumber d) (h : Spells rest said) :
    Spells ((toString n).toList ++ rest) ((.integer, toString n) :: said) := by
  have hdigits : ∀ d ∈ Nat.toDigits 10 n, d.isDigit := fun d =>
    Nat.isDigit_of_mem_toDigits (by decide) (by decide)
  rw [Nat.toString_eq_ofList_toDigits, String.toList_ofList]
  rcases hcs : Nat.toDigits 10 n with _ | ⟨c, body⟩
  · exact absurd hcs Nat.toDigits_ne_nil
  · obtain ⟨hc, hbody⟩ := List.forall_mem_cons.1 (hcs ▸ hdigits)
    obtain ⟨hblank, hcomment⟩ := Lexeme.begins_of_isPlain (Lexeme.isPlain_of_isDigit hc)
    exact lexeme hblank hcomment (Lexeme.lexeme_decimal hc hbody hrest) h

end Spells

end SqlSyntax
