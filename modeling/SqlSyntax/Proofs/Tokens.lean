import Mathlib.Tactic.SplitIfs
import SqlSyntax.Proofs.Pieces
import SqlSyntax.Token.Tokenize

/-!
# Where tokens come from

A token of a source is the lexeme at some character of it: `tokenAfter before c rest` is the token
that starts with `c` where the source reads `before ++ c :: rest`, and every token is one
(`exists_of_mem_tokenize`). So its span cuts out its text, and the span without the quotes of a
quoted token cuts out the body.
-/

namespace SqlSyntax

/-- Blanks and comments are passed character by character, and they would be without what follows
them. -/
theorem skipBlanks_eq (gap : Gap) (m : Mark) (cs : List Char) :
    ∃ blank, cs = blank ++ (skipBlanks gap m cs).2 ∧ (skipBlanks gap m cs).1 = m.past blank ∧
      (skipBlanks gap m blank).2 = [] := by
  fun_induction skipBlanks gap m cs with
  | case1 gap m => exact ⟨[], rfl, rfl, by rw [skipBlanks]⟩
  | case2 m c cs ih =>
    obtain ⟨blank, h, hm, hend⟩ := ih
    exact ⟨c :: blank, congrArg (c :: ·) h, hm, by rw [skipBlanks, hend]⟩
  | case3 m cs ih =>
    obtain ⟨blank, h, hm, hend⟩ := ih
    exact ⟨'*' :: '/' :: blank, congrArg (fun cs => '*' :: '/' :: cs) h, hm,
      by rw [skipBlanks, hend]⟩
  | case4 m c cs hopen ih =>
    obtain ⟨blank, h, hm, hend⟩ := ih
    refine ⟨c :: blank, congrArg (c :: ·) h, hm, ?_⟩
    rw [skipBlanks, hend]
    rintro tail rfl rfl
    exact hopen _ rfl h
  | case5 m cs ih =>
    obtain ⟨blank, h, hm, hend⟩ := ih
    exact ⟨'-' :: '-' :: blank, congrArg (fun cs => '-' :: '-' :: cs) h, hm,
      by rw [skipBlanks, hend]⟩
  | case6 m cs ih =>
    obtain ⟨blank, h, hm, hend⟩ := ih
    exact ⟨'/' :: '*' :: blank, congrArg (fun cs => '/' :: '*' :: cs) h, hm,
      by rw [skipBlanks, hend]⟩
  | case7 m c cs hline hblock hc ih =>
    obtain ⟨blank, h, hm, hend⟩ := ih
    refine ⟨c :: blank, congrArg (c :: ·) h, hm, ?_⟩
    rw [skipBlanks, if_pos hc, hend]
    · rintro tail rfl rfl
      exact hline _ rfl h
    · rintro tail rfl rfl
      exact hblock _ rfl h
  | case8 => exact ⟨[], rfl, rfl, by rw [skipBlanks]⟩

/-- The token that starts with a character of a source. -/
def tokenAfter (before : Source) (c : Char) (rest : List Char) : Token :=
  let body := c :: rest.take (lexeme c rest).2
  let start := (({} : Mark).past before).locate before.byteSize
  ⟨(lexeme c rest).1, String.ofList body,
    ⟨before.byteSize, before.byteSize + Source.byteSize body⟩, start.line, start.column⟩

theorem nextToken?_eq {before : Source} {cs rest : List Char} {t : Token} {after : Mark}
    (h : nextToken? (({} : Mark).past before) cs = some (t, after, rest)) :
    ∃ (blank : Source) (c : Char) (tail : List Char), cs = blank ++ c :: tail ∧
      t = tokenAfter (before ++ blank) c tail ∧
      after = ({} : Mark).past (before ++ blank ++ c :: tail.take (lexeme c tail).2) ∧
      rest = tail.drop (lexeme c tail).2 ∧
      (skipBlanks .space (({} : Mark).past before) blank).2 = [] := by
  obtain ⟨blank, hcs, hm, hend⟩ := skipBlanks_eq .space (({} : Mark).past before) cs
  unfold nextToken? at h
  split at h
  · simp at h
  · next first c tail heq =>
    rw [heq] at hcs hm
    dsimp only at hcs hm
    rw [← Mark.past_append] at hm
    have hoffset : first.offset = Source.byteSize (before ++ blank) := by
      rw [hm, Mark.offset_past, Nat.zero_add]
    simp only [Option.some.injEq, Prod.mk.injEq] at h
    obtain ⟨rfl, rfl, rfl⟩ := h
    refine ⟨blank, c, tail, hcs, ?_, ?_, rfl, hend⟩
    · rw [tokenAfter, Mark.offset_past, hoffset, hm]
    · rw [Mark.past_append _ (before ++ blank), ← hm]

theorem exists_of_mem_tokensFrom {b : Source} {cs : List Char} {t : Token}
    (h : t ∈ tokensFrom (({} : Mark).past b) cs) :
    ∃ (blank : Source) (c : Char) (rest : List Char),
      cs = blank ++ c :: rest ∧ t = tokenAfter (b ++ blank) c rest := by
  induction hn : cs.length using Nat.strongRecOn generalizing b cs with
  | ind n ih =>
    rw [tokensFrom] at h
    split at h
    · simp at h
    · next u after rest hnext =>
      have hlength := length_lt_of_nextToken? hnext
      obtain ⟨blank, c, tail, rfl, rfl, rfl, rfl, -⟩ := nextToken?_eq hnext
      rcases List.mem_cons.1 h with rfl | h
      · exact ⟨blank, c, tail, rfl, rfl⟩
      · obtain ⟨blank', d, rest, htail, rfl⟩ := ih _ (hn ▸ hlength) h rfl
        refine ⟨blank ++ c :: (tail.take (lexeme c tail).2 ++ blank'), d, rest, ?_, by simp⟩
        have happend := List.take_append_drop (lexeme c tail).2 tail
        rw [htail] at happend
        simpa using happend.symm

/-- Every token of a source starts with some character of it. -/
theorem exists_of_mem_tokenize {source : Source} {t : Token} (h : t ∈ tokenize source) :
    ∃ (before : Source) (c : Char) (rest : List Char),
      source = before ++ c :: rest ∧ t = tokenAfter before c rest :=
  exists_of_mem_tokensFrom (b := []) h

/-- A token of a source is a piece of it. -/
theorem exists_piece_of_mem_tokenize {source : Source} {t : Token} (h : t ∈ tokenize source) :
    ∃ before after : Source, source = before ++ t.text.toList ++ after ∧
      t.span = ⟨before.byteSize, before.byteSize + Source.byteSize t.text.toList⟩ ∧
      0 < Source.byteSize t.text.toList := by
  obtain ⟨before, c, rest, rfl, rfl⟩ := exists_of_mem_tokenize h
  have htext : (tokenAfter before c rest).text.toList = c :: rest.take (lexeme c rest).2 :=
    String.toList_ofList
  rw [htext]
  refine ⟨before, rest.drop (lexeme c rest).2, ?_, rfl, ?_⟩
  · rw [List.append_assoc, List.cons_append, List.take_append_drop]
  · rw [Source.byteSize_cons]
    exact Nat.add_pos_left c.utf8Size_pos _

/-- No token is empty, and each starts behind the end of those before it. -/
theorem tokensFrom_apart {b : Source} {cs : List Char} :
    (tokensFrom (({} : Mark).past b) cs).Pairwise fun t u =>
      t.span.start < t.span.stop ∧ t.span.stop ≤ u.span.start := by
  induction hn : cs.length using Nat.strongRecOn generalizing b cs with
  | ind n ih =>
    rw [tokensFrom]
    split
    · exact .nil
    · next u after rest hnext =>
      have hlength := length_lt_of_nextToken? hnext
      obtain ⟨blank, c, tail, rfl, rfl, rfl, rfl, -⟩ := nextToken?_eq hnext
      refine .cons (fun t ht => ?_) (ih _ (hn ▸ hlength) rfl)
      obtain ⟨blank', d, rest, -, rfl⟩ := exists_of_mem_tokensFrom ht
      have hc := c.utf8Size_pos
      simp only [tokenAfter, Source.byteSize_append, Source.byteSize_cons]
      omega

theorem tokenize_apart (source : Source) :
    (tokenize source).Pairwise fun t u =>
      t.span.start < t.span.stop ∧ t.span.stop ≤ u.span.start :=
  tokensFrom_apart (b := [])

/-- Each token starts behind those before it. -/
theorem tokenize_pairwise (source : Source) :
    (tokenize source).Pairwise (·.span.start < ·.span.start) :=
  (tokenize_apart source).imp fun h => Nat.lt_of_lt_of_le h.1 h.2

theorem start_lt_stop_of_mem_tokenize {source : Source} {t : Token} (h : t ∈ tokenize source) :
    t.span.start < t.span.stop := by
  obtain ⟨before, after, -, hspan, hpos⟩ := exists_piece_of_mem_tokenize h
  rw [hspan]
  exact Nat.lt_add_of_pos_right hpos

theorem start_le_of_mem_tokenize {source : Source} {t : Token} (h : t ∈ tokenize source) :
    t.span.start ≤ source.byteSize := by
  obtain ⟨before, c, rest, rfl, rfl⟩ := exists_of_mem_tokenize h
  simp only [tokenAfter, Source.byteSize_append]
  omega

/-! ## Quoted tokens -/

/-- A text with each mark of a sort in it written twice. -/
def doubled (mark : Char) (text : Source) : Source :=
  text.flatMap fun c => if c = mark then [c, c] else [c]

@[simp]
theorem doubled_nil (mark : Char) : doubled mark [] = [] := rfl

@[simp]
theorem doubled_mark (mark : Char) (text : Source) :
    doubled mark (mark :: text) = mark :: mark :: doubled mark text := by
  rw [doubled, List.flatMap_cons, if_pos rfl]
  rfl

theorem doubled_cons {mark c : Char} (h : c ≠ mark) (text : Source) :
    doubled mark (c :: text) = c :: doubled mark text := by
  rw [doubled, List.flatMap_cons, if_neg h]
  rfl

namespace Lexeme

/-- What is quoted is some text with its marks doubled, up to the closing mark. -/
theorem quotedLength?_eq {close : Char} {cs : List Char} {n : Nat}
    (h : quotedLength? close cs = some n) :
    ∃ text, cs.take n = doubled close text ++ [close] := by
  fun_induction quotedLength? close cs generalizing n with
  | case1 => simp at h
  | case2 c hc =>
    simp only [Option.some.injEq] at h
    subst h
    exact ⟨[], by simpa using hc⟩
  | case3 => simp at h
  | case4 c d rest hc hd ih =>
    obtain ⟨k, hk, rfl⟩ := Option.map_eq_some_iff.1 h
    obtain ⟨text, htext⟩ := ih hk
    obtain rfl := eq_of_beq hc
    obtain rfl := eq_of_beq hd
    exact ⟨d :: text, by simp [htext]⟩
  | case5 c d rest hc =>
    simp only [Option.some.injEq] at h
    subst h
    exact ⟨[], by simpa using hc⟩
  | case6 c d rest hc ih =>
    obtain ⟨k, hk, rfl⟩ := Option.map_eq_some_iff.1 h
    obtain ⟨text, htext⟩ := ih hk
    exact ⟨c :: text, by simp [htext, doubled_cons (ne_of_beq_false (by simpa using hc))]⟩

/-- The kinds of tokens whose text is kept without its quotes. -/
def isQuoted : TokenKind → Bool
  | .string | .quotedIdentifier => true
  | _ => false

/-- The kinds of tokens that are neither quoted nor marks. -/
def isWord : TokenKind → Bool
  | .integer | .float | .blob | .parameter | .identifier | .keyword _ | .error _ => true
  | _ => false

theorem isQuoted_of_isWord {kind : TokenKind} (h : isWord kind) : isQuoted kind = false := by
  cases kind <;> first | rfl | cases h

/-- The kinds of words but for blobs, which have quotes too. -/
def isBare : TokenKind → Bool
  | .blob => false
  | kind => isWord kind

theorem isWord_of_isBare {kind : TokenKind} (h : isBare kind) : isWord kind := by
  cases kind <;> first | rfl | cases h

theorem isBare_endNumber {kind : TokenKind} (h : isBare kind) (n : Nat) (rest : List Char) :
    isBare (endNumber kind n rest).1 := by
  unfold endNumber
  split
  · split
    · rfl
    · exact h
  · exact h

theorem isBare_decimalNumber (cs : List Char) : isBare (decimalNumber cs).1 := by
  unfold decimalNumber
  dsimp only
  split
  · exact isBare_endNumber rfl _ _
  · rfl
  · exact isBare_endNumber (by split <;> rfl) _ _

theorem isBare_number (cs : List Char) : isBare (number cs).1 := by
  unfold number
  split
  · split
    · split <;> rfl
    · exact isBare_decimalNumber _
  · exact isBare_decimalNumber _

theorem isWord_blob (cs : List Char) : isWord (blob cs).1 := by
  unfold blob
  dsimp only
  split
  · rfl
  · split
    · dsimp only
      split <;> rfl
    · rfl

theorem isBare_namedParameter (cs : List Char) : isBare (namedParameter cs).1 := by
  unfold namedParameter
  split <;> rfl

theorem isBare_word (cs : List Char) : isBare (word cs).1 := by
  unfold word
  dsimp only
  split <;> rfl

theorem isQuoted_single? {c : Char} {kind : TokenKind} (h : single? c = some kind) :
    isQuoted kind = false := by
  unfold single? at h
  split at h <;> cases h <;> rfl

/-- The characters that begin a mark of which a second one may be part. -/
theorem mark?_eq_none {c : Char} (h : c ∉ ['=', '<', '>', '!', '|', ':']) (next : Option Char) :
    mark? c next = none := by
  unfold mark?
  split <;> simp_all

theorem mark?_eq_alone {d : Char} (h : d ∉ ['=', '<', '>', '|', ':']) (c : Char) :
    mark? c (some d) = mark? c none := by
  unfold mark?
  split <;> simp_all

theorem isQuoted_mark? {c : Char} {next : Option Char} {found : TokenKind × Nat}
    (h : mark? c next = some found) : isQuoted found.1 = false := by
  unfold mark? at h
  split at h <;> cases h <;> rfl

/-- A lexeme is a mark, or it is quoted, or it begins as blobs do, or its kind is that of another
word. -/
theorem lexeme_cases (c : Char) (rest : List Char) :
    (∃ kind, single? c = some kind ∧ lexeme c rest = (kind, 0)) ∨
    (∃ found, mark? c rest.head? = some found ∧ lexeme c rest = found) ∨
    (∃ close kind reason, opening? c = some (close, kind, reason) ∧
      lexeme c rest = quoted close kind reason rest) ∨
    lexeme c rest = (.dot, 0) ∨
    ((c = 'x' ∨ c = 'X') ∧ rest.head? = some '\'' ∧ lexeme c rest = blob rest) ∨
    isBare (lexeme c rest).1 := by
  unfold lexeme
  split
  · next kind hkind => exact .inl ⟨kind, hkind, rfl⟩
  split
  · next found hfound => exact .inr (.inl ⟨found, hfound, rfl⟩)
  split
  · next close kind reason hopening =>
    exact .inr (.inr (.inl ⟨close, kind, reason, hopening, rfl⟩))
  refine .inr (.inr (.inr ?_))
  split_ifs with _ _ hblob
  · exact .inr (.inr rfl)
  · exact .inr (.inr (isBare_namedParameter _))
  · obtain ⟨hc, hquote⟩ := Bool.and_eq_true_iff.1 hblob
    exact .inr (.inl ⟨by simpa using hc, eq_of_beq hquote, rfl⟩)
  · exact .inr (.inr (isBare_number _))
  · exact .inl rfl
  · exact .inr (.inr (isBare_word _))
  · exact .inr (.inr rfl)

theorem exists_of_quoted {close : Char} {kind : TokenKind} {reason : String} {cs : List Char}
    (h : isQuoted (quoted close kind reason cs).1) :
    (quoted close kind reason cs).1 = kind ∧
      ∃ text, cs.take (quoted close kind reason cs).2 = doubled close text ++ [close] := by
  unfold quoted at h ⊢
  split at h
  · next n hn => exact ⟨rfl, quotedLength?_eq hn⟩
  · simp [isQuoted] at h

/-- A quoted token ends with the mark that closes its opening one. -/
theorem exists_of_isQuoted {c : Char} {rest : List Char} {found : TokenKind × Nat}
    (hf : lexeme c rest = found) (h : isQuoted found.1) :
    ∃ (close : Char) (reason : String) (text : Source),
      opening? c = some (close, found.1, reason) ∧
        rest.take found.2 = doubled close text ++ [close] := by
  subst hf
  rcases lexeme_cases c rest with ⟨kind, hkind, hf⟩ | ⟨found, hfound, hf⟩ |
    ⟨close, kind, reason, hopening, hf⟩ | hf | ⟨-, -, hf⟩ | hword
  · simp [hf, isQuoted_single? hkind] at h
  · simp [hf, isQuoted_mark? hfound] at h
  · rw [hf] at h ⊢
    obtain ⟨hkind, text, htext⟩ := exists_of_quoted h
    exact ⟨close, reason, text, hkind.symm ▸ hopening, htext⟩
  · simp [hf, isQuoted] at h
  · simp [hf, isQuoted_of_isWord (isWord_blob _)] at h
  · simp [isQuoted_of_isWord (isWord_of_isBare hword)] at h

/-- A blob ends with the quote that closes its opening one. -/
theorem exists_of_blob {cs : List Char} (hquote : cs.head? = some '\'')
    (h : (blob cs).1 = .blob) : ∃ digits, cs.take (blob cs).2 = '\'' :: (digits ++ ['\'']) := by
  obtain ⟨cs, rfl⟩ := List.head?_eq_some_iff.1 hquote
  unfold blob at h ⊢
  simp only [List.drop_one, List.tail_cons] at h ⊢
  rw [Nat.add_comm, List.drop_succ_cons] at h ⊢
  split at h
  · cases h
  · next c rest hdrop =>
    split at h
    · next hc =>
      obtain rfl := eq_of_beq hc
      refine ⟨cs.take (run isHexDigit cs), ?_⟩
      rw [if_pos (beq_self_eq_true _), List.take_succ_cons, List.take_add, hdrop]
      rfl
    · cases h

/-- Where a blob is read, it is in quotes after a letter. -/
theorem exists_of_lexeme_blob {c : Char} {rest : List Char} (h : (lexeme c rest).1 = .blob) :
    c.utf8Size = 1 ∧
      ∃ digits, rest.take (lexeme c rest).2 = '\'' :: (digits ++ ['\'']) := by
  rcases lexeme_cases c rest with ⟨kind, hkind, hf⟩ | ⟨found, hfound, hf⟩ |
    ⟨close, kind, reason, hopening, hf⟩ | hf | ⟨hc, hquote, hf⟩ | hbare
  · rw [hf] at h
    obtain rfl : kind = .blob := h
    unfold single? at hkind
    split at hkind <;> cases hkind
  · rw [hf] at h
    unfold mark? at hfound
    split at hfound <;> cases hfound <;> cases h
  · rw [hf] at h
    obtain rfl : kind = .blob := by
      unfold quoted at h
      split at h
      · exact h
      · cases h
    unfold opening? at hopening
    split at hopening <;> cases hopening
  · rw [hf] at h
    cases h
  · rw [hf] at h ⊢
    refine ⟨?_, exists_of_blob hquote h⟩
    rcases hc with rfl | rfl <;> rfl
  · rw [h] at hbare
    cases hbare

theorem utf8Size_of_opening? {c close : Char} {kind : TokenKind} {reason : String}
    (h : opening? c = some (close, kind, reason)) : c.utf8Size = 1 ∧ close.utf8Size = 1 := by
  unfold opening? at h
  split at h <;> cases h <;> exact ⟨rfl, rfl⟩

end Lexeme

/-- What a run relies on when it reads a token of a source. -/
structure Token.ReadFrom (source : Source) (t : Token) : Prop where
  text : source.at? t.span = some t.text
  hasLine : source.HasLine t.location.offset
  /-- The body of a quoted token can be cut out, in a source whose offsets are small. -/
  body : source.Fits → Lexeme.isQuoted t.kind → ∃ (c close : Char) (body : List Char),
    t.text = String.ofList (c :: (body ++ [close])) ∧
      source.slice? (t.span.inner 1).start (t.span.inner 1).stop = some body

/-- The span without a byte at each end. -/
theorem Span.inner_one {s : Span} (hlt : s.stop < 2 ^ 64) (hle : s.start + 2 ≤ s.stop) :
    s.inner 1 = ⟨s.start + 1, s.stop - 1⟩ := by
  have hlength : s.length = s.stop - s.start := by
    unfold length wordSub
    omega
  have htwo : wordAdd 1 1 = 2 := rfl
  have hstart : wordAdd s.start 1 = s.start + 1 := by
    unfold wordAdd
    omega
  have hstop : wordSub s.stop 1 = s.stop - 1 := by
    unfold wordSub
    omega
  rw [inner, if_neg (by rw [hlength, htwo]; omega), hstart, hstop]

/-- A piece without its first and last character, of a byte each, can be cut out too. -/
theorem Source.slice?_inner {before body after : Source} {c close : Char} (hc : c.utf8Size = 1)
    (hclose : close.utf8Size = 1)
    (hfits : Fits (before ++ (c :: (body ++ [close])) ++ after)) {s : Span}
    (hs : s = ⟨byteSize before, byteSize before + byteSize (c :: (body ++ [close]))⟩) :
    slice? (before ++ (c :: (body ++ [close])) ++ after) (s.inner 1).start (s.inner 1).stop =
      some body := by
  have hsize : byteSize (c :: (body ++ [close])) = byteSize body + 2 := by
    simp only [byteSize_cons, byteSize_append, byteSize_nil, hc, hclose]
    omega
  rw [Fits, byteSize_append, byteSize_append, hsize] at hfits
  rw [hsize] at hs
  subst hs
  have h := slice?_append (before ++ [c]) body (close :: after)
  rw [Span.inner_one (by dsimp only; omega) (by dsimp only; omega)]
  simpa [hc, Nat.add_assoc, Nat.add_comm 1] using h

theorem tokenAfter_readFrom (before : Source) (c : Char) (rest : List Char) :
    (tokenAfter before c rest).ReadFrom (before ++ c :: rest) := by
  have hsource : before ++ c :: rest = before ++ (c :: rest.take (lexeme c rest).2) ++
      rest.drop (lexeme c rest).2 := by
    simp [List.take_append_drop]
  refine ⟨?_, Source.hasLine_append _ _, fun hfits hquoted => ?_⟩
  · rw [hsource]
    simp only [Source.at?, tokenAfter, Source.slice?_append, Option.map_some]
  · obtain ⟨close, reason, text, hopening, hbody⟩ :=
      Lexeme.exists_of_isQuoted (rfl : lexeme c rest = _) hquoted
    obtain ⟨hc, hclose⟩ := Lexeme.utf8Size_of_opening? hopening
    have hspan : (tokenAfter before c rest).span =
        ⟨before.byteSize,
          before.byteSize + Source.byteSize (c :: (doubled close text ++ [close]))⟩ := by
      rw [← hbody]
      rfl
    rw [hbody] at hsource
    rw [hsource] at hfits ⊢
    refine ⟨c, close, doubled close text, ?_, Source.slice?_inner hc hclose hfits hspan⟩
    rw [← hbody]
    rfl

/-- Every token of a source can be read from it. -/
theorem readFrom_of_mem_tokenize {source : Source} {t : Token} (h : t ∈ tokenize source) :
    t.ReadFrom source := by
  obtain ⟨before, c, rest, rfl, rfl⟩ := exists_of_mem_tokenize h
  exact tokenAfter_readFrom before c rest

end SqlSyntax
