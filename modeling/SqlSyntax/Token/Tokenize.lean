import SqlSyntax.Token.Lexeme
import SqlSyntax.Unicode

/-!
# From text to tokens

Blanks and comments stand between tokens. A comment runs from `--` to the end of its line, or from
`/*` to the next `*/`; one that is never closed runs to the end of the text. `tokenize` skips what
is blank, reads a lexeme, and goes on; each token leaves less to read
(`length_lt_of_nextToken?`).
-/

namespace SqlSyntax

/-- What the blank text around the reader is part of. -/
inductive Gap where
  | space | line | block

/-- Passes over blanks and comments. -/
def skipBlanks : Gap → Mark → List Char → Mark × List Char
  | _, m, [] => (m, [])
  | .line, m, c :: cs => skipBlanks (if c = '\n' then .space else .line) (m.next c) cs
  | .block, m, '*' :: '/' :: cs => skipBlanks .space ((m.next '*').next '/') cs
  | .block, m, c :: cs => skipBlanks .block (m.next c) cs
  | .space, m, '-' :: '-' :: cs => skipBlanks .line ((m.next '-').next '-') cs
  | .space, m, '/' :: '*' :: cs => skipBlanks .block ((m.next '/').next '*') cs
  | .space, m, c :: cs =>
    if Unicode.isWhiteSpace c then skipBlanks .space (m.next c) cs else (m, c :: cs)

theorem skipBlanks_length_le (gap : Gap) (m : Mark) (cs : List Char) :
    (skipBlanks gap m cs).2.length ≤ cs.length := by
  fun_induction skipBlanks gap m cs <;> simp_all <;> omega

/-- The next token of a text whose first character is at the mark, and what follows it. -/
def nextToken? (m : Mark) (cs : List Char) : Option (Token × Mark × List Char) :=
  match skipBlanks .space m cs with
  | (_, []) => none
  | (first, c :: rest) =>
    let (kind, n) := lexeme c rest
    let body := c :: rest.take n
    let after := first.past body
    let start := first.locate first.offset
    some (⟨kind, String.ofList body, ⟨first.offset, after.offset⟩, start.line, start.column⟩,
      after, rest.drop n)

theorem length_lt_of_nextToken? {m after : Mark} {cs rest : List Char} {t : Token}
    (h : nextToken? m cs = some (t, after, rest)) : rest.length < cs.length := by
  have hle := skipBlanks_length_le .space m cs
  unfold nextToken? at h
  split at h
  · simp at h
  · rename_i heq
    rw [heq] at hle
    simp only [Option.some.injEq, Prod.mk.injEq] at h
    rw [← h.2.2]
    simp only [List.length_cons, List.length_drop] at hle ⊢
    omega

/-- The tokens of a text whose first character is at the mark. -/
def tokensFrom (m : Mark) (cs : List Char) : List Token :=
  match _ : nextToken? m cs with
  | none => []
  | some (t, after, rest) => t :: tokensFrom after rest
termination_by cs.length
decreasing_by exact length_lt_of_nextToken? ‹_›

/-- The tokens of a source. -/
def tokenize (source : Source) : List Token := tokensFrom {} source

end SqlSyntax
