import SqlSyntax.Proofs.Quoting
import SqlSyntax.Proofs.Placement

/-!
# Texts of tokens

A token gives a text that can be read. It is a copy if the token is in quotes and has its quote
doubled in the body, and else a piece of the source (`Token.Tells`); the bytes of a copy are counted
(`exists_tokenText`). The name of a type is no text of one token: it is the source from the first
token of the type to the end of the last (`Parser.exists_of_typeName`).
-/

namespace SqlSyntax

open SqlSyntax.Parser

/-- The token is in quotes, and has its own quote, doubled, in its body. -/
def Token.HasDoubled (t : Token) : Prop :=
  ∃ (q : Quote) (text : Source),
    t.kind = q.tokenKind ∧ t.text = String.ofList (q.around text) ∧ q.char ∈ text

/-- A run over the source takes the text from the token. -/
def Text.TakenFrom (source : Source) (t : Token) (text : Text) : Prop :=
  ∃ (scope : Scope) (s r : Progress), scope.source = source ∧ tokenText t scope s = .ok text r

/-- The bytes that a text takes up among the copies. -/
def Text.copiedBytes : Text → Nat
  | .copied value => value.utf8ByteSize
  | _ => 0

variable {source : Source} {t : Token}

/-! ## Quoted tokens -/

theorem exists_of_isQuoted_token (ht : t ∈ tokenize source) (h : Lexeme.isQuoted t.kind) :
    ∃ (c close : Char) (reason : String) (text : Source),
      Lexeme.opening? c = some (close, t.kind, reason) ∧
        t.text = String.ofList (c :: (doubled close text ++ [close])) := by
  obtain ⟨before, c, rest, -, rfl⟩ := exists_of_mem_tokenize ht
  obtain ⟨close, reason, text, hopening, hbody⟩ :=
    Lexeme.exists_of_isQuoted (rfl : lexeme c rest = _) h
  exact ⟨c, close, reason, text, hopening, by rw [← hbody]; rfl⟩

theorem Lexeme.eq_of_opening? {c close : Char} {kind : TokenKind} {reason : String}
    (h : opening? c = some (close, kind, reason)) (hc : c ≠ '[') : close = c := by
  unfold opening? at h
  split at h <;> cases h <;> first | rfl | exact absurd rfl hc

theorem Lexeme.eq_of_opening?_string {c close : Char} {reason : String}
    (h : opening? c = some (close, .string, reason)) : c = '\'' ∧ close = '\'' := by
  unfold opening? at h
  split at h <;> cases h
  exact ⟨rfl, rfl⟩

theorem Quote.exists_of_opening? {c : Char} {kind : TokenKind} {reason : String}
    (h : Lexeme.opening? c = some (c, kind, reason)) :
    ∃ q : Quote, q.char = c ∧ q.tokenKind = kind := by
  unfold Lexeme.opening? at h
  split at h
  · cases h
    exact ⟨.single, rfl, rfl⟩
  · cases h
    exact ⟨.double, rfl, rfl⟩
  · cases h
    exact ⟨.backtick, rfl, rfl⟩
  · exact absurd (Prod.mk.inj (Option.some.inj h)).1 (by decide)
  · cases h

theorem Token.hasDoubled_iff {c close : Char} {reason : String} {text : Source}
    (hopening : Lexeme.opening? c = some (close, t.kind, reason))
    (htext : t.text = String.ofList (c :: (doubled close text ++ [close]))) :
    t.HasDoubled ↔ c = close ∧ c ∈ doubled close text := by
  constructor
  · rintro ⟨q, value, -, hvalue, hmem⟩
    rw [htext, String.ofList_inj, Quote.around] at hvalue
    obtain ⟨rfl, hbody⟩ := List.cons.inj hvalue
    obtain ⟨hbody, hclose⟩ := List.append_inj' hbody rfl
    obtain ⟨rfl, -⟩ := List.cons.inj hclose
    exact ⟨rfl, hbody ▸ mem_doubled.2 hmem⟩
  · rintro ⟨rfl, hmem⟩
    obtain ⟨q, rfl, hkind⟩ := Quote.exists_of_opening? hopening
    exact ⟨q, text, hkind.symm, htext, mem_doubled.1 hmem⟩

theorem Token.not_hasDoubled (h : Lexeme.isQuoted t.kind = false) : ¬ t.HasDoubled := by
  rintro ⟨q, -, hkind, -⟩
  rw [hkind] at h
  cases q <;> cases h

/-! ## Texts that runs take -/

/-- The digits of a blob can be cut out. -/
theorem isSome_at?_blob (hfits : source.Fits) (ht : t ∈ tokenize source)
    (h : t.kind = .blob) :
    (source.at? ⟨wordAdd (t.span.inner 1).start 1, (t.span.inner 1).stop⟩).isSome := by
  obtain ⟨before, c, rest, rfl, rfl⟩ := exists_of_mem_tokenize ht
  obtain ⟨hc, digits, hbody⟩ := Lexeme.exists_of_lexeme_blob h
  have hquote : '\''.utf8Size = 1 := rfl
  have hsource : before ++ c :: rest =
      before ++ [c, '\''] ++ digits ++ '\'' :: rest.drop (lexeme c rest).2 := by
    conv_lhs => rw [← List.take_append_drop (lexeme c rest).2 rest, hbody]
    simp
  have hlength : Source.byteSize (c :: rest.take (lexeme c rest).2) =
      Source.byteSize digits + 3 := by
    rw [hbody]
    simp only [Source.byteSize_cons, Source.byteSize_append, Source.byteSize_nil, hc, hquote]
    omega
  have hbefore : Source.byteSize (before ++ [c, '\'']) = before.byteSize + 2 := by
    simp only [Source.byteSize_cons, Source.byteSize_append, Source.byteSize_nil, hc, hquote]
  have hcut := Source.slice?_append (before ++ [c, '\'']) digits
    ('\'' :: rest.drop (lexeme c rest).2)
  rw [hsource] at hfits ⊢
  rw [Source.Fits, Source.byteSize_append, Source.byteSize_append, hbefore,
    Source.byteSize_cons] at hfits
  rw [hbefore] at hcut
  have hinner : (tokenAfter before c rest).span.inner 1 =
      ⟨before.byteSize + 1, before.byteSize + 2 + Source.byteSize digits⟩ := by
    rw [tokenAfter]
    dsimp only
    rw [hlength, Span.inner_one (by dsimp only; omega) (by dsimp only; omega), Span.mk.injEq]
    dsimp only
    omega
  have hstart : wordAdd (before.byteSize + 1) 1 = before.byteSize + 2 := by
    unfold wordAdd
    omega
  rw [hinner, hstart, Source.at?, hcut]
  rfl

/-- The text can be read, and is a copy if its token has doubled quotes. -/
def Token.Tells (source : Source) (t : Token) (text : Text) : Prop :=
  (text.resolve source).isSome ∧ (text.isCopied = true ↔ t.HasDoubled)

theorem Token.tells_slice {span : Span} (hkind : Lexeme.isQuoted t.kind = false)
    (hspan : (source.at? span).isSome) : t.Tells source (.slice span) :=
  ⟨hspan, iff_of_false nofun (not_hasDoubled hkind)⟩

section

variable {scope : Scope} {ts : List Token}

theorem Parser.Gives.quotedText_tells {c : Char} {body : List Char}
    (hbody : scope.source.slice? (t.span.inner 1).start (t.span.inner 1).stop = some body)
    (h : t.HasDoubled ↔ c ∈ body) :
    Gives scope ts (Parser.quotedText c t) fun text r => t.Tells scope.source text ∧ r = ts := by
  refine (quotedText c hbody).weaken ?_
  rintro text r ⟨⟨hresolve, hcopied⟩, hr⟩
  exact ⟨⟨by rw [hresolve]; rfl, hcopied.trans h.symm⟩, hr⟩

theorem Parser.Gives.tokenText_tells (hfits : scope.source.Fits)
    (ht : t ∈ tokenize scope.source) :
    Gives scope ts (Parser.tokenText t) fun text r => t.Tells scope.source text ∧ r = ts := by
  have hread := readFrom_of_mem_tokenize ht
  by_cases hquoted : Lexeme.isQuoted t.kind
  · obtain ⟨c, close, reason, value, hopening, htext⟩ := exists_of_isQuoted_token ht hquoted
    obtain ⟨c', close', body, htext', hbody⟩ := hread.body hfits hquoted
    have hdoubled := Token.hasDoubled_iff hopening htext
    rw [htext, String.ofList_inj, List.cons.injEq] at htext'
    obtain ⟨rfl, htail⟩ := htext'
    obtain ⟨rfl, hclose⟩ := List.append_inj' htail rfl
    unfold Parser.tokenText
    split
    · next hkind =>
      rw [hkind] at hopening
      obtain ⟨rfl, rfl⟩ := Lexeme.eq_of_opening?_string hopening
      exact quotedText_tells hbody (hdoubled.trans (and_iff_right rfl))
    · split
      · next hnil => simp [htext] at hnil
      · next hcons =>
        simp only [htext, String.toList_ofList, List.cons.injEq] at hcons
        obtain ⟨rfl, -⟩ := hcons
        obtain rfl : ']' = close := (Prod.mk.inj (Option.some.inj hopening)).1
        refine pure ⟨⟨?_, iff_of_false nofun fun h => ?_⟩, rfl⟩
        · rw [Text.resolve, Source.at?, hbody]
          rfl
        · exact absurd (hdoubled.1 h).1 (by decide)
      · next quote more hquote hcons =>
        simp only [htext, String.toList_ofList, List.cons.injEq] at hcons
        obtain ⟨rfl, -⟩ := hcons
        obtain rfl := Lexeme.eq_of_opening? hopening hquote
        exact quotedText_tells hbody (hdoubled.trans (and_iff_right rfl))
    · next hkind => simp [hkind, Lexeme.isQuoted] at hquoted
    · next hstring hidentifier _ =>
      unfold Lexeme.isQuoted at hquoted
      split at hquoted
      · exact absurd ‹_› hstring
      · exact absurd ‹_› hidentifier
      · cases hquoted
  · rw [Bool.not_eq_true] at hquoted
    unfold Parser.tokenText
    split
    · next hkind => simp [hkind, Lexeme.isQuoted] at hquoted
    · next hkind => simp [hkind, Lexeme.isQuoted] at hquoted
    · next hkind =>
      exact pure ⟨Token.tells_slice hquoted (isSome_at?_blob hfits ht hkind), rfl⟩
    · refine pure ⟨Token.tells_slice hquoted ?_, rfl⟩
      rw [hread.text]
      rfl

end

/-! ## Where texts are counted -/

theorem Progress.copied_edited (c : Command) (s : Progress) :
    (s.edited c).copied = s.copied := by
  unfold edited
  split
  · rfl
  · split <;> rfl

/-- The second point of a run is the first, but for the stored nodes and for more copies. -/
structure Progress.Copies (n : Nat) (s r : Progress) : Prop where
  rest : r.rest = s.rest
  lastEnd : r.lastEnd = s.lastEnd
  copied : r.copied = s.copied + n

theorem Progress.Copies.refl (s : Progress) : s.Copies 0 s := ⟨rfl, rfl, rfl⟩

theorem Progress.Copies.edited (s : Progress) (c : Command) : s.Copies 0 (s.edited c) :=
  ⟨s.rest_edited c, s.lastEnd_edited c, s.copied_edited c⟩

theorem Progress.Copies.trans {m n : Nat} {s p r : Progress} (h : s.Copies m p)
    (h' : p.Copies n r) : s.Copies (m + n) r where
  rest := h'.rest.trans h.rest
  lastEnd := h'.lastEnd.trans h.lastEnd
  copied := by rw [h'.copied, h.copied, Nat.add_assoc]

theorem Parser.undouble_ne_nil {quote : Char} {body : List Char} (h : body ≠ []) :
    undouble quote body ≠ [] := by
  unfold undouble
  split
  · exact absurd rfl h
  · exact List.cons_ne_nil _ _
  · split <;> exact List.cons_ne_nil _ _

/-- The parser answers with a text and counts it if it is a copy. -/
def Parser.Counts (p : Parser Text) : Prop :=
  ∀ {scope : Scope} {s r : Progress} {text : Text}, p scope s = .ok text r →
    s.Copies text.copiedBytes r

theorem Parser.counts_pure {text : Text} (h : text.copiedBytes = 0) : Counts (pure text) := by
  intro scope s r text' hrun
  injection hrun with htext hr
  subst htext hr
  rw [h]
  exact .refl _

theorem Parser.counts_quotedText (quote : Char) (t : Token) : Counts (quotedText quote t) := by
  intro scope s r text h
  unfold quotedText at h
  rw [read_run] at h
  rcases hbody : scope.source.slice? (t.span.inner 1).start (t.span.inner 1).stop with _ | body
  · rw [hbody] at h
    cases h
  · rw [hbody] at h
    dsimp only at h
    split at h
    · next hquote =>
      obtain ⟨_, s', hedit, h⟩ := exists_of_bind h
      injection hedit with _ hedit
      injection h with htext hr
      subst hedit htext hr
      have hpos : 0 < (String.ofList (undouble quote body)).utf8ByteSize := by
        rw [Nat.pos_iff_ne_zero, Ne, String.utf8ByteSize_eq_zero_iff, String.ofList_eq_empty_iff]
        refine undouble_ne_nil ?_
        rintro rfl
        cases hquote
      refine ⟨s.rest_edited _, s.lastEnd_edited _, ?_⟩
      show (s.edited _).copied + _ = _
      rw [s.copied_edited, Nat.max_eq_left hpos]
      rfl
    · injection h with htext hr
      subst htext hr
      exact .refl _

theorem Parser.counts_tokenText (t : Token) : Counts (tokenText t) := by
  unfold tokenText
  split
  · exact counts_quotedText _ t
  · split
    · exact counts_pure rfl
    · exact counts_pure rfl
    · exact counts_quotedText _ t
  · exact counts_pure rfl
  · exact counts_pure rfl

theorem Text.TakenFrom.tells {text : Text} (h : text.TakenFrom source t) (hfits : source.Fits)
    (ht : t ∈ tokenize source) : t.Tells source text := by
  obtain ⟨scope, s, r, rfl, hrun⟩ := h
  obtain ⟨text', r', hrun', htells, -⟩ := Gives.tokenText_tells hfits ht s rfl
  rw [hrun] at hrun'
  injection hrun' with htext
  rw [htext]
  exact htells

/-- Every token of a source gives its text, and a copy is counted. -/
theorem exists_tokenText (hfits : source.Fits) (ht : t ∈ tokenize source) {scope : Scope}
    (hscope : scope.source = source) (s : Progress) :
    ∃ text r, tokenText t scope s = .ok text r ∧ text.TakenFrom source t ∧
      s.Copies text.copiedBytes r := by
  subst hscope
  obtain ⟨text, r, hrun, -⟩ := Gives.tokenText_tells hfits ht s rfl
  exact ⟨text, r, hrun, ⟨scope, s, r, rfl, hrun⟩, counts_tokenText t hrun⟩

/-! ## Types -/

section

variable {scope : Scope} {test : Token → Bool}

/-- The words of a type name, from the last on, with the next one, if it follows. -/
def Parser.oneMore (test : Token → Bool) (items : List Token) : Parser (Option (List Token)) := do
  return (← takeIf? test).map (· :: items)

theorem Parser.oneMore_run {s : Progress} {rest : List Token} (hs : s.rest = t :: rest)
    (scope : Scope) (test : Token → Bool) (items : List Token) :
    oneMore test items scope s =
      if test t then .ok (some (t :: items)) (s.advanced t rest) else .ok none s := by
  obtain ⟨r⟩ := s
  obtain rfl : r = t :: rest := hs
  show ((if test t then advance else pure none : Parser (Option Token)) >>= fun o =>
    pure (o.map (· :: items))) scope _ = _
  split <;> rfl

theorem Parser.rest_of_iterateOver :
    ∀ {ts items words : List Token} {s r : Progress}, s.rest = ts →
      iterateOver (oneMore test) ts items scope s = .ok words r →
        ∃ taken, words = taken.reverse ++ items ∧ ts = taken ++ r.rest
  | [], items, words, s, r, hs, h => by
    obtain ⟨rest⟩ := s
    obtain rfl : rest = [] := hs
    injection h with hwords hr
    subst hwords hr
    exact ⟨[], rfl, rfl⟩
  | t :: ts, items, words, s, r, hs, h => by
    have hrun := oneMore_run hs scope test items
    unfold iterateOver at h
    split at hrun
    · rw [bind_ok hrun] at h
      dsimp only at h
      obtain ⟨taken, rfl, htaken⟩ := rest_of_iterateOver
        (show (s.advanced t ts).rest = ts from rfl) h
      exact ⟨t :: taken, by simp, congrArg (t :: ·) htaken⟩
    · rw [bind_ok hrun] at h
      injection h with hwords hr
      subst hwords hr
      exact ⟨[], rfl, hs.symm⟩

/-- The tokens that are found are the next ones. -/
theorem Parser.rest_of_many {words : List Token} {s r : Progress}
    (h : many (takeIf? test) scope s = .ok words r) : s.rest = words ++ r.rest := by
  obtain ⟨items, r', hrun, h⟩ := exists_of_bind h
  injection h with hwords hr
  subst hwords hr
  obtain ⟨taken, rfl, htaken⟩ := rest_of_iterateOver rfl hrun
  rw [htaken, List.append_nil, List.reverse_reverse]

end

/-- A type is the text from the next token to the last one that is taken. -/
theorem Parser.exists_of_typeName {scope : Scope} {s r : Progress} {text : Text}
    {dataType : DataType} (h : typeName scope s = .ok (text, dataType) r) :
    ∃ first rest, s.rest = first :: rest ∧ r.rest <:+ rest ∧
      text = .slice ⟨first.span.start, r.lastEnd⟩ := by
  unfold typeName at h
  obtain ⟨words, s₁, hwords, h⟩ := exists_of_bind h
  have hrest := rest_of_many hwords
  rcases words with _ | ⟨first, others⟩
  · exact absurd h (Script.unexpected_ne_ok _)
  · obtain ⟨⟨p, q⟩, s₂, hparameters, h⟩ := exists_of_bind h
    injection h with htext hr
    subst hr
    obtain ⟨rfl, -⟩ := Prod.mk.inj htext
    have hkeeps := typeParameters_reads.keeps
      (Law.lastOf_allows scope.source scope.config s₁.rest (Nested.upTo 0))
      (Law.lastOf_serves scope.source scope.config s₁.rest 0)
    have hout := hkeeps scope [] s₁ rfl rfl trivial (List.suffix_refl s₁.rest)
    rw [hparameters] at hout
    exact ⟨first, others ++ s₁.rest, hrest, hout.2.trans (List.suffix_append others s₁.rest), rfl⟩

/-- The source can be read from a token to the end of one that is not before it. -/
theorem isSome_at?_between {u : Token} (ht : t ∈ tokenize source) (hu : u ∈ tokenize source)
    (h : t.span.start ≤ u.span.stop) : (source.at? ⟨t.span.start, u.span.stop⟩).isSome := by
  obtain ⟨before, after, hsource, hspan, -⟩ := exists_piece_of_mem_tokenize ht
  obtain ⟨before', after', hsource', hspan', -⟩ := exists_piece_of_mem_tokenize hu
  rw [hspan, hspan'] at h ⊢
  dsimp only at h ⊢
  rw [← Source.byteSize_append] at h ⊢
  rw [List.append_assoc] at hsource
  obtain ⟨between, hbetween⟩ := Source.prefix_of_byteSize_le ⟨_, hsource.symm⟩
    ⟨after', hsource'.symm⟩ h
  have hcut := Source.slice?_append before between after'
  rw [hbetween, ← hsource', ← Source.byteSize_append, hbetween] at hcut
  rw [Source.at?, hcut]
  rfl

end SqlSyntax
