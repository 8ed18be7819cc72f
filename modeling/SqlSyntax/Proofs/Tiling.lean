import SqlSyntax.Proofs.Tokens

/-!
# Tokens tile their source

Read from its start, a source is blank text, a token, blank text, a token, and so on, with blank
text at its end. What is blank is told without the reader (`Blank`), and it is just what has no
tokens (`tokenize_eq_nil_iff`).
-/

namespace SqlSyntax

/-- Whitespace and comments. A comment ends with its line or at the first `*/`, or it runs to the
end of the text. -/
inductive Blank : List Char → Prop
  | nil : Blank []
  | space {c : Char} {cs : List Char} (hc : Unicode.isWhiteSpace c) (hcs : Blank cs) :
      Blank (c :: cs)
  | line {text cs : List Char} (htext : '\n' ∉ text) (hcs : Blank cs) :
      Blank ('-' :: '-' :: (text ++ '\n' :: cs))
  | lastLine {text : List Char} (htext : '\n' ∉ text) : Blank ('-' :: '-' :: text)
  | block {text cs : List Char} (htext : ¬ ['*', '/'] <:+: text) (hcs : Blank cs) :
      Blank ('/' :: '*' :: (text ++ '*' :: '/' :: cs))
  | openBlock {text : List Char} (htext : ¬ ['*', '/'] <:+: text) : Blank ('/' :: '*' :: text)

/-! ## What is skipped -/

section Blank

variable {c : Char} {cs : List Char}

theorem blank_space_iff (hc : Unicode.isWhiteSpace c) : Blank (c :: cs) ↔ Blank cs := by
  refine ⟨fun h => ?_, .space hc⟩
  cases h with
  | space _ hcs => exact hcs
  | _ => exact absurd hc (by decide)

theorem blank_line_cases (h : Blank ('-' :: '-' :: cs)) :
    '\n' ∉ cs ∨ ∃ text rest, cs = text ++ '\n' :: rest ∧ '\n' ∉ text ∧ Blank rest := by
  generalize hl : '-' :: '-' :: cs = l at h
  cases h with
  | nil => cases hl
  | space hc =>
    injection hl with hl
    exact absurd (hl ▸ hc) (by decide)
  | @line text rest htext hrest => exact .inr ⟨text, rest, by simpa using hl, htext, hrest⟩
  | lastLine htext =>
    obtain rfl : cs = _ := by simpa using hl
    exact .inl htext
  | _ => simp at hl

theorem blank_block_cases (h : Blank ('/' :: '*' :: cs)) :
    ¬ ['*', '/'] <:+: cs ∨
      ∃ text rest, cs = text ++ '*' :: '/' :: rest ∧ ¬ ['*', '/'] <:+: text ∧ Blank rest := by
  generalize hl : '/' :: '*' :: cs = l at h
  cases h with
  | nil => cases hl
  | space hc =>
    injection hl with hl
    exact absurd (hl ▸ hc) (by decide)
  | @block text rest htext hrest => exact .inr ⟨text, rest, by simpa using hl, htext, hrest⟩
  | openBlock htext =>
    obtain rfl : cs = _ := by simpa using hl
    exact .inl htext
  | _ => simp at hl

theorem blank_newline_iff : Blank ('-' :: '-' :: '\n' :: cs) ↔ Blank cs := by
  refine ⟨fun h => ?_, @Blank.line [] cs List.not_mem_nil⟩
  rcases blank_line_cases h with hall | ⟨_ | ⟨d, text⟩, rest, heq, htext, hrest⟩
  · simp at hall
  · simp_all
  · simp_all

theorem blank_line_iff (hc : c ≠ '\n') :
    Blank ('-' :: '-' :: c :: cs) ↔ Blank ('-' :: '-' :: cs) := by
  constructor <;> intro h
  · rcases blank_line_cases h with hall | ⟨_ | ⟨d, text⟩, rest, heq, htext, hrest⟩
    · exact .lastLine fun hmem => hall (List.mem_cons_of_mem c hmem)
    · simp_all
    · obtain ⟨-, rfl⟩ := List.cons.inj heq
      exact .line (fun hmem => htext (List.mem_cons_of_mem d hmem)) hrest
  · rcases blank_line_cases h with hall | ⟨text, rest, rfl, htext, hrest⟩
    · exact .lastLine (by simp [hall, hc.symm])
    · exact @Blank.line (c :: text) rest (by simp [htext, hc.symm]) hrest

theorem blank_close_iff : Blank ('/' :: '*' :: '*' :: '/' :: cs) ↔ Blank cs := by
  refine ⟨fun h => ?_, @Blank.block [] cs (by decide)⟩
  rcases blank_block_cases h with hall | ⟨_ | ⟨d, _ | ⟨e, text⟩⟩, rest, heq, htext, hrest⟩
  · exact absurd ⟨[], cs, rfl⟩ hall
  · simp_all
  · simp_all
  · obtain ⟨rfl, rfl, -⟩ : '*' = d ∧ '/' = e ∧ _ := by simpa using heq
    exact absurd ⟨[], text, rfl⟩ htext

/-- A character that does not close a comment is part of it. -/
theorem blank_block_iff (h : ∀ tail, c = '*' → cs = '/' :: tail → False) :
    Blank ('/' :: '*' :: c :: cs) ↔ Blank ('/' :: '*' :: cs) := by
  have hcloses : ∀ text rest, cs = text ++ rest →
      (['*', '/'] <:+: c :: text ↔ ['*', '/'] <:+: text) := by
    intro text rest heq
    rw [List.infix_cons_iff]
    refine or_iff_right fun hprefix => ?_
    obtain ⟨tail, htail⟩ := hprefix
    obtain ⟨hc, htext⟩ := List.cons.inj htail
    exact h (tail ++ rest) hc.symm (by rw [heq, ← htext]; rfl)
  constructor <;> intro hblank
  · rcases blank_block_cases hblank with hall | ⟨_ | ⟨d, text⟩, rest, heq, htext, hrest⟩
    · exact .openBlock ((hcloses cs [] (by simp)).not.1 hall)
    · obtain ⟨hc, hcs⟩ := List.cons.inj heq
      exact absurd hcs (h rest hc)
    · obtain ⟨rfl, rfl⟩ := List.cons.inj heq
      exact .block ((hcloses text _ rfl).not.1 htext) hrest
  · rcases blank_block_cases hblank with hall | ⟨text, rest, heq, htext, hrest⟩
    · exact .openBlock ((hcloses cs [] (by simp)).not.2 hall)
    · subst heq
      exact @Blank.block (c :: text) rest ((hcloses text _ rfl).not.2 htext) hrest

theorem not_blank (hspace : ¬ Unicode.isWhiteSpace c)
    (hline : ∀ tail, c = '-' → cs = '-' :: tail → False)
    (hblock : ∀ tail, c = '/' → cs = '*' :: tail → False) : ¬ Blank (c :: cs) := by
  intro h
  cases h with
  | space hc => exact hspace hc
  | line => exact hline _ rfl rfl
  | lastLine => exact hline _ rfl rfl
  | block => exact hblock _ rfl rfl
  | openBlock => exact hblock _ rfl rfl

/-- What a comment begins with. -/
def Gap.opening : Gap → List Char
  | .space => []
  | .line => ['-', '-']
  | .block => ['/', '*']

/-- All of a text is skipped if it is blank together with the beginning of its first comment. -/
theorem skipBlanks_eq_nil_iff (gap : Gap) (m : Mark) (cs : List Char) :
    (skipBlanks gap m cs).2 = [] ↔ Blank (gap.opening ++ cs) := by
  fun_induction skipBlanks gap m cs with
  | case1 gap m =>
    refine iff_of_true rfl ?_
    cases gap with
    | space => exact .nil
    | line => exact .lastLine List.not_mem_nil
    | block => exact .openBlock (by decide)
  | case2 m c cs ih =>
    by_cases hc : c = '\n'
    · subst hc
      exact ih.trans blank_newline_iff.symm
    · rw [if_neg hc] at ih ⊢
      exact ih.trans (blank_line_iff hc).symm
  | case3 m cs ih => exact ih.trans blank_close_iff.symm
  | case4 m c cs hopen ih => exact ih.trans (blank_block_iff hopen).symm
  | case5 m cs ih => exact ih
  | case6 m cs ih => exact ih
  | case7 m c cs _ _ hc ih => exact ih.trans (blank_space_iff hc).symm
  | case8 m c cs hline hblock hc =>
    exact iff_of_false (List.cons_ne_nil c cs) (not_blank hc hline hblock)

theorem nextToken?_eq_none_iff (m : Mark) (cs : List Char) : nextToken? m cs = none ↔ Blank cs := by
  refine Iff.trans ?_ (skipBlanks_eq_nil_iff .space m cs)
  unfold nextToken?
  split
  · next h => simp [h]
  · next h => simp [h]

/-- The texts without tokens are the blank ones. -/
theorem tokenize_eq_nil_iff (source : Source) : tokenize source = [] ↔ Blank source := by
  rw [← nextToken?_eq_none_iff {} source, tokenize, tokensFrom]
  split
  · next h => simp [h]
  · next h => simp [h]

end Blank

/-! ## Tokens and gaps -/

/-- The spans around tokens: up to the first one, between two, and from the last one on. -/
def gaps (start : Nat) : List Token → Nat → List Span
  | [], stop => [⟨start, stop⟩]
  | t :: ts, stop => ⟨start, t.span.start⟩ :: gaps t.span.stop ts stop

/-- Around the tokens of a text the source is blank. -/
theorem gaps_blank {before : Source} {cs : List Char} :
    ∀ gap ∈ gaps before.byteSize (tokensFrom (({} : Mark).past before) cs)
        (Source.byteSize (before ++ cs)),
      ∃ text, Source.slice? (before ++ cs) gap.start gap.stop = some text ∧ Blank text := by
  induction hn : cs.length using Nat.strongRecOn generalizing before cs with
  | ind n ih =>
    rw [tokensFrom]
    split
    · next hnext =>
      have hslice := Source.slice?_append before cs []
      rw [List.append_nil] at hslice
      refine List.forall_mem_singleton.2 ⟨cs, ?_, (nextToken?_eq_none_iff _ cs).1 hnext⟩
      rw [Source.byteSize_append, hslice]
    · next t after rest hnext =>
      have hlength := length_lt_of_nextToken? hnext
      obtain ⟨blank, c, tail, rfl, rfl, rfl, rfl, hend⟩ := nextToken?_eq hnext
      have hblank : Blank blank := (skipBlanks_eq_nil_iff .space _ blank).1 hend
      refine List.forall_mem_cons.2 ⟨⟨blank, ?_, hblank⟩, ?_⟩
      · have hslice := Source.slice?_append before blank (c :: tail)
        simpa [tokenAfter] using hslice
      · have h := @ih _ (hn ▸ hlength) (before ++ blank ++ c :: tail.take (lexeme c tail).2) _ rfl
        have hsource : before ++ blank ++ c :: tail.take (lexeme c tail).2 ++
            tail.drop (lexeme c tail).2 = before ++ (blank ++ c :: tail) := by
          simp
        rw [hsource] at h
        simpa [tokenAfter, Nat.add_assoc] using h

/-- Each token takes a character. -/
theorem length_tokensFrom_le (m : Mark) (cs : List Char) :
    (tokensFrom m cs).length ≤ cs.length := by
  fun_induction tokensFrom m cs with
  | case1 => exact Nat.zero_le _
  | case2 m cs t after rest hnext ih =>
    have hlength := length_lt_of_nextToken? hnext
    rw [List.length_cons]
    omega

/-- A source is read once from its start to its end. No token is empty, each is what the source has
in its place, and each begins behind those before it; around them the source is whitespace and
comments, which have no tokens themselves. There are not more tokens than characters. -/
theorem tokenize_tiles (source : Source) :
    (tokenize source).length ≤ source.length ∧
    (∀ t ∈ tokenize source, t.span.start < t.span.stop ∧ source.at? t.span = some t.text) ∧
    (tokenize source).Pairwise (fun t u =>
      t.span.start < u.span.start ∧ t.span.stop ≤ u.span.start) ∧
    ∀ gap ∈ gaps 0 (tokenize source) source.byteSize,
      ∃ text, source.slice? gap.start gap.stop = some text ∧ tokenize text = [] ∧ Blank text := by
  refine ⟨length_tokensFrom_le {} source, fun t ht => ⟨?_, (readFrom_of_mem_tokenize ht).text⟩, ?_,
    fun gap hgap => ?_⟩
  · obtain ⟨before, c, rest, -, rfl⟩ := exists_of_mem_tokenize ht
    have hc := c.utf8Size_pos
    simp only [tokenAfter, Source.byteSize_cons]
    omega
  · exact (tokenize_apart source).imp fun h => ⟨Nat.lt_of_lt_of_le h.1 h.2, h.2⟩
  · obtain ⟨text, hslice, hblank⟩ := @gaps_blank [] source gap hgap
    exact ⟨text, hslice, (tokenize_eq_nil_iff text).2 hblank, hblank⟩

/-- A number whose exponent has no digit, and a comment that is never closed. -/
example : (tokenize "1e ü/*".toList).map (·.span) = [⟨0, 2⟩, ⟨3, 5⟩] ∧
    gaps 0 (tokenize "1e ü/*".toList) 7 = [⟨0, 0⟩, ⟨2, 3⟩, ⟨5, 7⟩] := by
  decide +kernel

end SqlSyntax
