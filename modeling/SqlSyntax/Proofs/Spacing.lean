import SqlSyntax.Proofs.Spacing.Lexeme

/-!
# Tokens with spaces between them

A token with a space, or nothing, in place of what follows it is the same token. One without its
closing quote takes all that follows, so it is the last one and nothing comes behind it. So the
texts of the tokens of a source, with single spaces between them, are read as the same tokens
(`tokenize_spaced`).
-/

namespace SqlSyntax

/-- What a token says, wherever it stands. -/
def Token.said (t : Token) : TokenKind × String := (t.kind, t.text)

/-- The texts of some tokens, with single spaces between them. -/
def spaced (tokens : List Token) : Source := (" ".intercalate (tokens.map Token.text)).toList

/-- The tokens that follow another one, with a space before them if there are any. -/
def spacedAfter : List Token → Source
  | [] => []
  | t :: ts => ' ' :: spaced (t :: ts)

theorem spaced_cons (t : Token) (ts : List Token) :
    spaced (t :: ts) = t.text.toList ++ spacedAfter ts := by
  cases ts with
  | nil => simp [spaced, spacedAfter]
  | cons u ts =>
    rw [spaced, List.map_cons, List.map_cons, String.intercalate_cons_cons, String.toList_append,
      String.toList_append, List.append_assoc]
    rfl

theorem apart_spacedAfter (ts : List Token) : Apart (spacedAfter ts) := by
  cases ts with
  | nil => exact nofun
  | cons t ts =>
    rintro d ⟨⟩
    rfl

theorem tokensFrom_eq (m : Mark) (cs : List Char) : tokensFrom m cs =
    match nextToken? m cs with
    | none => []
    | some (t, after, rest) => t :: tokensFrom after rest := by
  rw [tokensFrom]
  split
  · next h => rw [h]
  · next h => rw [h]

/-- What is not passed is no whitespace. -/
theorem not_isWhiteSpace_of_skipBlanks {gap : Gap} {m first : Mark} {cs rest : List Char}
    {c : Char} (h : skipBlanks gap m cs = (first, c :: rest)) : Unicode.isWhiteSpace c = false := by
  fun_induction skipBlanks gap m cs with
  | case1 => cases h
  | case8 m d ds _ _ hd =>
    obtain ⟨-, rfl, -⟩ := by simpa using h
    exact Bool.eq_false_iff.2 hd
  | _ => exact ‹_ → _› h

/-- No blank is passed where no whitespace and no comment begins. -/
theorem skipBlanks_stays {c : Char} {cs : List Char} (hc : Unicode.isWhiteSpace c = false)
    (h : c = '-' ∨ c = '/' → Apart cs) (m : Mark) :
    skipBlanks .space m (c :: cs) = (m, c :: cs) := by
  have hnext {d : Char} (hd : d ≠ ' ') : c = '-' ∨ c = '/' → ∀ tail, cs = d :: tail → False := by
    rintro hc tail rfl
    exact hd (h hc d rfl)
  rw [skipBlanks, if_neg (Bool.eq_false_iff.1 hc)]
  · exact fun tail hc => hnext (by decide) (.inl hc) tail
  · exact fun tail hc => hnext (by decide) (.inr hc) tail

/-- The next token, where no blank comes first. -/
theorem exists_nextToken? {m : Mark} {c : Char} {cs : List Char}
    (h : skipBlanks .space m (c :: cs) = (m, c :: cs)) :
    ∃ t after, nextToken? m (c :: cs) = some (t, after, cs.drop (lexeme c cs).2) ∧
      t.said = ((lexeme c cs).1, String.ofList (c :: cs.take (lexeme c cs).2)) := by
  simp only [nextToken?, h]
  exact ⟨_, _, rfl, rfl⟩

theorem exists_of_nextToken? {m after : Mark} {cs rest : List Char} {t : Token}
    (h : nextToken? m cs = some (t, after, rest)) :
    ∃ c tail, Unicode.isWhiteSpace c = false ∧
      t.said = ((lexeme c tail).1, String.ofList (c :: tail.take (lexeme c tail).2)) ∧
      rest = tail.drop (lexeme c tail).2 := by
  unfold nextToken? at h
  split at h
  · cases h
  · next first c tail hskip =>
    simp only [Option.some.injEq, Prod.mk.injEq] at h
    obtain ⟨rfl, -, rfl⟩ := h
    exact ⟨c, tail, not_isWhiteSpace_of_skipBlanks hskip, rfl, rfl⟩

theorem nextToken?_space (m : Mark) (cs : List Char) :
    nextToken? m (' ' :: cs) = nextToken? (m.next ' ') cs := by
  have hspace : Unicode.isWhiteSpace ' ' = true := by decide
  have hskip : skipBlanks .space m (' ' :: cs) = skipBlanks .space (m.next ' ') cs := by
    rw [skipBlanks, if_pos hspace]
    · exact fun _ h => absurd h (by decide)
    · exact fun _ h => absurd h (by decide)
  rw [nextToken?, hskip, nextToken?]

/-- What is kept of a text up to the end of its first token, and what follows it, where nothing
follows a token that takes all. -/
theorem lexeme_spaced {c : Char} {tail sep : List Char} (hsep : Apart sep)
    (hend : tail.drop (lexeme c tail).2 = [] → sep = []) :
    lexeme c (tail.take (lexeme c tail).2 ++ sep) = lexeme c tail ∧
      (tail.take (lexeme c tail).2 ++ sep).take (lexeme c tail).2 =
        tail.take (lexeme c tail).2 ∧
      (tail.take (lexeme c tail).2 ++ sep).drop (lexeme c tail).2 = sep := by
  by_cases hn : (lexeme c tail).2 < tail.length
  · refine ⟨lexeme_splice hsep hn, ?_, ?_⟩
    · exact List.take_left' (List.length_take_of_le (Nat.le_of_lt hn))
    · exact List.drop_left' (List.length_take_of_le (Nat.le_of_lt hn))
  · have hle := Nat.le_of_not_lt hn
    rw [hend (List.drop_eq_nil_iff.2 hle), List.append_nil, List.take_of_length_le hle]
    exact ⟨rfl, List.take_of_length_le hle, List.drop_eq_nil_iff.2 hle⟩

theorem tokensFrom_nil (m : Mark) : tokensFrom m [] = [] := by
  rw [tokensFrom_eq]
  rfl

theorem tokensFrom_spaced (m m' : Mark) (cs : List Char) :
    (tokensFrom m' (spaced (tokensFrom m cs))).map Token.said =
      (tokensFrom m cs).map Token.said := by
  fun_induction tokensFrom m cs generalizing m' with
  | case1 => exact congrArg _ (tokensFrom_nil m')
  | case2 m cs t after rest hnext ih =>
    obtain ⟨c, tail, hc, hsaid, rfl⟩ := exists_of_nextToken? hnext
    obtain ⟨hlexeme, htake, hdrop⟩ := @lexeme_spaced c tail _
      (apart_spacedAfter (tokensFrom after (tail.drop (lexeme c tail).2))) fun hend => by
        rw [hend, tokensFrom_nil]
        rfl
    have hmarks : c = '-' ∨ c = '/' → Apart (tail.take (lexeme c tail).2 ++
        spacedAfter (tokensFrom after (tail.drop (lexeme c tail).2))) := by
      rintro (rfl | rfl) <;> exact apart_spacedAfter _
    obtain ⟨u, after', hu, husaid⟩ := exists_nextToken? (skipBlanks_stays hc hmarks m')
    rw [hlexeme, htake, ← hsaid] at husaid
    rw [hlexeme, hdrop] at hu
    have htext : t.text.toList = c :: tail.take (lexeme c tail).2 := by
      rw [show t.text = _ from congrArg Prod.snd hsaid, String.toList_ofList]
    rw [spaced_cons, htext, List.cons_append, tokensFrom_eq, hu]
    dsimp only
    rw [List.map_cons, List.map_cons, husaid]
    refine congrArg (t.said :: ·) ?_
    cases hts : tokensFrom after (tail.drop (lexeme c tail).2) with
    | nil => exact congrArg _ (tokensFrom_nil after')
    | cons v ts =>
      rw [← hts, ← ih (after'.next ' '), hts, spacedAfter, tokensFrom_eq, nextToken?_space,
        ← tokensFrom_eq]

/-- With single spaces between them, the texts of the tokens of a source are read as the same
tokens. -/
theorem tokenize_spaced (source : Source) :
    (tokenize (spaced (tokenize source))).map Token.said = (tokenize source).map Token.said :=
  tokensFrom_spaced {} {} source

end SqlSyntax
