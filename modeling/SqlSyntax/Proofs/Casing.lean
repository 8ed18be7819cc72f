import SqlSyntax.Proofs.Tokens

/-!
# Tokens of a source in upper case

The reader of tokens asks questions about characters, and a letter in upper case answers each of
them as in lower case does (`Caseless`). So a source with all its ASCII letters in upper case has
the same tokens at the same places, each with its own text in upper case (`tokenize_upper`).
-/

namespace SqlSyntax

/-! ## Letters -/

/-- The lower-case ASCII letters. -/
def lowerLetters : List Char := (List.range 26).map fun n => Char.ofNat (97 + n)

theorem toUpper_eq_or_mem (c : Char) : c.toUpper = c ∨ c ∈ lowerLetters := by
  unfold Char.toUpper
  split
  · next h =>
    right
    have hlow : 97 ≤ c.toNat := UInt32.le_iff_toNat_le.1 h.1
    have hhigh : c.toNat ≤ 122 := UInt32.le_iff_toNat_le.1 h.2
    refine List.mem_map.2 ⟨c.toNat - 97, List.mem_range.2 (by omega), ?_⟩
    rw [Nat.add_sub_cancel' hlow, Char.ofNat_toNat]
  · exact .inl rfl

/-- What is decided letter by letter. -/
theorem forall_lowerLetters {P : Char → Prop} [DecidablePred P]
    (h : lowerLetters.all fun c => P c) : ∀ c ∈ lowerLetters, P c :=
  fun c hc => of_decide_eq_true (List.all_eq_true.1 h c hc)

/-- A question that a letter answers in upper case as in lower case. -/
def Caseless {α : Type} (p : Char → α) : Prop := ∀ c, p c.toUpper = p c

theorem Caseless.of_letters {α : Type} [DecidableEq α] {p : Char → α}
    (h : lowerLetters.all fun c => p c.toUpper = p c) : Caseless p := fun c => by
  rcases toUpper_eq_or_mem c with hc | hc
  · rw [hc]
  · exact forall_lowerLetters h c hc

theorem caseless_toUpper : Caseless Char.toUpper := .of_letters (by decide)

theorem caseless_utf8Size : Caseless Char.utf8Size := .of_letters (by decide)

theorem caseless_startsWord : Caseless Lexeme.startsWord := .of_letters (by decide)

theorem caseless_inWord : Caseless Lexeme.inWord := .of_letters (by decide)

theorem caseless_isDigit : Caseless Char.isDigit := .of_letters (by decide)

theorem caseless_isHexDigit : Caseless Lexeme.isHexDigit := .of_letters (by decide)

theorem caseless_hexMark : Caseless fun c => c == 'x' || c == 'X' := .of_letters (by decide)

theorem caseless_isWhiteSpace : Caseless Unicode.isWhiteSpace := .of_letters (by decide)

theorem caseless_single? : Caseless Lexeme.single? := .of_letters (by decide)

theorem caseless_opening? : Caseless Lexeme.opening? := .of_letters (by decide)

/-- A character that is no letter, so no other character has it as its upper case. -/
def IsMark (d : Char) : Prop := ∀ c : Char, c.toUpper = d ↔ c = d

theorem IsMark.of_letters {d : Char} (h : lowerLetters.all fun c => c.toUpper ≠ d ∧ c ≠ d) :
    IsMark d := fun c => by
  rcases toUpper_eq_or_mem c with hc | hc
  · rw [hc]
  · have hne := forall_lowerLetters h c hc
    exact iff_of_false hne.1 hne.2

theorem IsMark.beq {d : Char} (h : IsMark d) : Caseless (· == d) :=
  fun c => Bool.eq_iff_iff.2 (by simpa using h c)

/-! ## Words -/

theorem map_toUpper_twice (cs : List Char) :
    (cs.map Char.toUpper).map Char.toUpper = cs.map Char.toUpper := by
  rw [List.map_map]
  exact List.map_congr_left fun c _ => caseless_toUpper c

theorem toList_foldCase (word : String) :
    (foldCase word).toList = word.toList.map Char.toUpper := String.toList_map

theorem foldCase_ofList (cs : List Char) :
    foldCase (String.ofList cs) = String.ofList (cs.map Char.toUpper) := by
  rw [← String.toList_inj, toList_foldCase, String.toList_ofList, String.toList_ofList]

theorem foldCase_foldCase (word : String) : foldCase (foldCase word) = foldCase word := by
  rw [← String.toList_inj, toList_foldCase, toList_foldCase, map_toUpper_twice]

theorem sameWord_foldCase (word other : String) :
    sameWord (foldCase word) other = sameWord word other := by
  rw [sameWord, foldCase_foldCase, sameWord]

/-! ## Lexemes -/

namespace Lexeme

variable {p : Char → Bool}

theorem run_upper (hp : Caseless p) (cs : List Char) : run p (cs.map Char.toUpper) = run p cs := by
  rw [run, List.takeWhile_map, List.length_map, run]
  exact congrArg (fun q => (cs.takeWhile q).length) (funext hp)

theorem mark?_upper (c : Char) (next : Option Char) :
    mark? c.toUpper (next.map Char.toUpper) = mark? c next := by
  have hfirst : mark? c.toUpper (next.map Char.toUpper) = mark? c (next.map Char.toUpper) := by
    rcases toUpper_eq_or_mem c with hc | hc
    · rw [hc]
    · have hnot : ∀ c ∈ lowerLetters, c ∉ ['=', '<', '>', '!', '|', ':'] ∧
          c.toUpper ∉ ['=', '<', '>', '!', '|', ':'] := forall_lowerLetters (by decide)
      rw [mark?_eq_none (hnot c hc).1, mark?_eq_none (hnot c hc).2]
  rw [hfirst]
  rcases next with _ | d
  · rfl
  · rcases toUpper_eq_or_mem d with hd | hd
    · rw [Option.map_some, hd]
    · have hnot : ∀ d ∈ lowerLetters, d ∉ ['=', '<', '>', '|', ':'] ∧
          d.toUpper ∉ ['=', '<', '>', '|', ':'] := forall_lowerLetters (by decide)
      rw [Option.map_some, mark?_eq_alone (hnot d hd).1, mark?_eq_alone (hnot d hd).2]

theorem quotedLength?_upper {close : Char} (hclose : IsMark close) (cs : List Char) :
    quotedLength? close (cs.map Char.toUpper) = quotedLength? close cs := by
  have hbeq : ∀ c : Char, (c.toUpper == close) = (c == close) := hclose.beq
  fun_induction quotedLength? close cs with
  | case1 => rfl
  | case2 c hc => rw [List.map_cons, List.map_nil, quotedLength?, hbeq, if_pos hc]
  | case3 c hc => rw [List.map_cons, List.map_nil, quotedLength?, hbeq, if_neg hc]
  | case4 c d rest hc hd ih =>
    rw [List.map_cons, List.map_cons, quotedLength?, hbeq, hbeq, if_pos hc, if_pos hd, ih]
  | case5 c d rest hc hd =>
    rw [List.map_cons, List.map_cons, quotedLength?, hbeq, hbeq, if_pos hc, if_neg hd]
  | case6 c d rest hc ih =>
    rw [List.map_cons, List.map_cons, quotedLength?, hbeq, if_neg hc, ← List.map_cons, ih]

theorem quoted_upper {close : Char} (hclose : IsMark close) (kind : TokenKind) (reason : String)
    (cs : List Char) : quoted close kind reason (cs.map Char.toUpper) =
      quoted close kind reason cs := by
  rw [quoted, quotedLength?_upper hclose, List.length_map, quoted]

theorem fractionLength_upper (cs : List Char) :
    fractionLength (cs.map Char.toUpper) = fractionLength cs := by
  rcases cs with _ | ⟨c, cs⟩
  · rfl
  · have hdot : c.toUpper = '.' ↔ c = '.' := IsMark.of_letters (by decide) c
    by_cases hc : c = '.'
    · subst hc
      exact congrArg (· + 1) (run_upper caseless_isDigit cs)
    · simp [fractionLength, hdot, hc]

theorem exponent_upper (cs : List Char) :
    exponent (cs.map Char.toUpper) = exponent cs := by
  have hletter : Caseless fun c => c == 'e' || c == 'E' := .of_letters (by decide)
  have hsign : Caseless fun c => c == '+' || c == '-' := .of_letters (by decide)
  rcases cs with _ | ⟨c, _ | ⟨d, cs⟩⟩
  · rfl
  · simp only [List.map_cons, List.map_nil, exponent, hletter c]
  · simp only [List.map_cons, exponent, hletter c, hsign d]
    rw [← List.map_cons, ← List.map_drop, run_upper caseless_isDigit]

theorem endNumber_upper (kind : TokenKind) (n : Nat) (rest : List Char) :
    endNumber kind n (rest.map Char.toUpper) = endNumber kind n rest := by
  cases rest with
  | nil => rfl
  | cons c rest =>
    rw [List.map_cons, endNumber, caseless_startsWord c, ← List.map_cons,
      run_upper caseless_inWord, endNumber]

theorem decimalNumber_upper (cs : List Char) :
    decimalNumber (cs.map Char.toUpper) = decimalNumber cs := by
  simp only [decimalNumber, run_upper caseless_isDigit, ← List.map_drop, fractionLength_upper,
    exponent_upper, endNumber_upper]

theorem number_upper (cs : List Char) : number (cs.map Char.toUpper) = number cs := by
  have hletter : ∀ c : Char, (c.toUpper == 'x' || c.toUpper == 'X') = (c == 'x' || c == 'X') :=
    caseless_hexMark
  have hzero : IsMark '0' := .of_letters (by decide)
  rcases cs with _ | ⟨c, _ | ⟨x, cs⟩⟩
  · rfl
  · rw [number.eq_2 _ (by simp), number.eq_2 _ (by simp), decimalNumber_upper]
  · have hdecimal := decimalNumber_upper (c :: x :: cs)
    rw [List.map_cons, List.map_cons] at hdecimal ⊢
    by_cases hc : c = '0'
    · have hc' : c.toUpper = '0' := (hzero c).2 hc
      rw [hc', hc] at hdecimal ⊢
      rw [number, number, hletter x, run_upper caseless_isHexDigit, hdecimal]
    · rw [number.eq_2 _ (by simp [hzero c, hc]), number.eq_2 _ (by simp [hc]), hdecimal]

theorem blob_upper (cs : List Char) : blob (cs.map Char.toUpper) = blob cs := by
  have hclose : Caseless (· == '\'') := IsMark.beq (.of_letters (by decide))
  have hbody : Caseless (· != '\'') := fun c => congrArg not (hclose c)
  simp only [blob, ← List.map_drop, run_upper caseless_isHexDigit, List.length_map]
  rcases cs.drop (1 + run isHexDigit (cs.drop 1)) with _ | ⟨c, rest⟩
  · rfl
  · simp only [List.map_cons, hclose c]
    rw [← List.map_cons, run_upper hbody]

theorem namedParameter_upper (cs : List Char) :
    namedParameter (cs.map Char.toUpper) = namedParameter cs := by
  rw [namedParameter, run_upper caseless_inWord, namedParameter]

theorem word_upper (cs : List Char) : word (cs.map Char.toUpper) = word cs := by
  have hword : Keyword.ofWord? (String.ofList ((cs.take (run inWord cs)).map Char.toUpper)) =
      Keyword.ofWord? (String.ofList (cs.take (run inWord cs))) := by
    rw [← foldCase_ofList, Keyword.ofWord?, foldCase_foldCase, Keyword.ofWord?]
  rw [word, run_upper caseless_inWord, ← List.map_take, hword, word]

/-- The mark that closes a quoted token is no letter. -/
theorem isMark_of_opening? {c close : Char} {kind : TokenKind} {reason : String}
    (h : opening? c = some (close, kind, reason)) : IsMark c ∧ IsMark close := by
  unfold opening? at h
  split at h <;> cases h <;> exact ⟨.of_letters (by decide), .of_letters (by decide)⟩

end Lexeme

open Lexeme in
theorem lexeme_upper (c : Char) (rest : List Char) :
    lexeme c.toUpper (rest.map Char.toUpper) = lexeme c rest := by
  have hquestion : ∀ c : Char, (c.toUpper == '?') = (c == '?') :=
    IsMark.beq (.of_letters (by decide))
  have hparameter : ∀ c : Char, (c.toUpper == ':' || c.toUpper == '@' || c.toUpper == '$') =
      (c == ':' || c == '@' || c == '$') :=
    Caseless.of_letters (p := fun c => c == ':' || c == '@' || c == '$') (by decide)
  have hletter : ∀ c : Char, (c.toUpper == 'x' || c.toUpper == 'X') = (c == 'x' || c == 'X') :=
    caseless_hexMark
  have hdot : ∀ c : Char, (c.toUpper == '.') = (c == '.') := IsMark.beq (.of_letters (by decide))
  have hquote : (rest.head?.map Char.toUpper == some '\'') = (rest.head? == some '\'') := by
    rcases rest with _ | ⟨d, rest⟩
    · rfl
    · exact IsMark.beq (.of_letters (by decide)) d
  have hdigit : (rest.head?.map Char.toUpper).any Char.isDigit = rest.head?.any Char.isDigit := by
    rcases rest with _ | ⟨d, rest⟩
    · rfl
    · exact caseless_isDigit d
  unfold lexeme
  rw [caseless_single? c, List.head?_map, mark?_upper, caseless_opening? c]
  split
  · rfl
  split
  · rfl
  split
  · next close kind reason hopening =>
    exact quoted_upper (isMark_of_opening? hopening).2 kind reason rest
  rw [hquestion, hparameter, hletter, hquote, caseless_isDigit c, hdot, hdigit,
    caseless_startsWord c, run_upper caseless_isDigit, namedParameter_upper, blob_upper,
    ← List.map_cons, number_upper, word_upper]

/-! ## Places -/

theorem Mark.next_toUpper (m : Mark) (c : Char) : m.next c.toUpper = m.next c := by
  have hnewline : c.toUpper = '\n' ↔ c = '\n' := IsMark.of_letters (by decide) c
  rw [next, caseless_utf8Size c, next]
  simp only [hnewline]

theorem Mark.past_upper (m : Mark) (cs : List Char) : m.past (cs.map Char.toUpper) = m.past cs := by
  rw [past, List.foldl_map, past]
  exact congrArg (fun f => cs.foldl f m) (funext₂ next_toUpper)

theorem Source.byteSize_upper (source : Source) :
    byteSize (source.map Char.toUpper) = byteSize source := by
  induction source with
  | nil => rfl
  | cons c cs ih => rw [List.map_cons, byteSize_cons, caseless_utf8Size c, ih, byteSize_cons]

/-! ## Tokens -/

/-- Two marks do not stand in the text if they do not stand in the text in upper case. -/
theorem no_marks_upper {c d e : Char} {cs : List Char} (hd : IsMark d) (he : IsMark e)
    (h : ∀ tail, c = d → cs = e :: tail → False) :
    ∀ tail, c.toUpper = d → cs.map Char.toUpper = e :: tail → False := by
  intro tail hc hcs
  obtain ⟨x, xs, rfl, hx, -⟩ := List.map_eq_cons_iff.1 hcs
  exact h xs ((hd c).1 hc) (congrArg (· :: xs) ((he x).1 hx))

theorem skipBlanks_upper (gap : Gap) (m : Mark) (cs : List Char) :
    skipBlanks gap m (cs.map Char.toUpper) =
      ((skipBlanks gap m cs).1, (skipBlanks gap m cs).2.map Char.toUpper) := by
  have hmark : IsMark '\n' ∧ IsMark '*' ∧ IsMark '/' ∧ IsMark '-' :=
    ⟨.of_letters (by decide), .of_letters (by decide), .of_letters (by decide),
      .of_letters (by decide)⟩
  obtain ⟨hnewline, hstar, hslash, hdash⟩ := hmark
  fun_induction skipBlanks gap m cs with
  | case1 => rw [List.map_nil, skipBlanks]
  | case2 m c cs ih =>
    rw [List.map_cons, skipBlanks, Mark.next_toUpper]
    simp only [hnewline c]
    exact ih
  | case3 m cs ih => exact ih
  | case4 m c cs hopen ih =>
    rw [List.map_cons, skipBlanks, Mark.next_toUpper, ih]
    exact no_marks_upper hstar hslash hopen
  | case5 m cs ih => exact ih
  | case6 m cs ih => exact ih
  | case7 m c cs hline hblock hc ih =>
    rw [List.map_cons, skipBlanks, caseless_isWhiteSpace c, if_pos hc, Mark.next_toUpper, ih]
    · exact no_marks_upper hdash hdash hline
    · exact no_marks_upper hslash hstar hblock
  | case8 m c cs hline hblock hc =>
    rw [List.map_cons, skipBlanks, caseless_isWhiteSpace c, if_neg hc]
    · exact no_marks_upper hdash hdash hline
    · exact no_marks_upper hslash hstar hblock

/-- The token with its text in upper case. -/
def Token.folded (t : Token) : Token := { t with text := foldCase t.text }

theorem nextToken?_upper (m : Mark) (cs : List Char) :
    nextToken? m (cs.map Char.toUpper) = (nextToken? m cs).map fun (t, after, rest) =>
      (t.folded, after, rest.map Char.toUpper) := by
  unfold nextToken?
  rw [skipBlanks_upper]
  rcases skipBlanks .space m cs with ⟨first, _ | ⟨c, rest⟩⟩
  · rfl
  · simp only [List.map_cons, lexeme_upper, ← List.map_take, ← List.map_drop, Option.map_some]
    simp only [← List.map_cons, Mark.past_upper, Token.folded, foldCase_ofList]

/-- In upper case a source has the same tokens at the same places. -/
theorem tokensFrom_upper (m : Mark) (cs : List Char) :
    tokensFrom m (cs.map Char.toUpper) = (tokensFrom m cs).map Token.folded := by
  fun_induction tokensFrom m cs with
  | case1 m cs hnext =>
    have hnext' := nextToken?_upper m cs
    rw [hnext, Option.map_none] at hnext'
    rw [tokensFrom]
    split
    · rfl
    · next h => simp [hnext'] at h
  | case2 m cs t after rest hnext ih =>
    have hnext' := nextToken?_upper m cs
    rw [hnext, Option.map_some] at hnext'
    rw [tokensFrom]
    split
    · next h => simp [hnext'] at h
    · next h =>
      rw [hnext', Option.some_inj] at h
      obtain ⟨rfl, rfl, rfl⟩ := h
      rw [ih, List.map_cons]

theorem tokenize_upper (source : Source) :
    tokenize (source.map Char.toUpper) = (tokenize source).map Token.folded :=
  tokensFrom_upper {} source

end SqlSyntax
