import SqlSyntax.Proofs.Plain
import SqlSyntax.Proofs.Tokens

/-!
# Statements before a semicolon

Tokens whose parentheses are balanced, a semicolon, and more tokens. A reader that has taken some
of the first tokens is inside the statement that they belong to, and the tokens before the
semicolon still close every parenthesis that is open (`Boundary.Inside`). So where one is open, the
semicolon is not the next token, whatever the reader has made of the tokens.
-/

namespace SqlSyntax

namespace TokenKind

/-- Neither a parenthesis nor a semicolon. -/
def isInner : TokenKind → Bool
  | .leftParen | .rightParen | .semicolon => false
  | _ => true

/-- How many parentheses are known to be open before and after a token of a kind. -/
inductive Shifts : TokenKind → Nat → Nat → Prop
  | inner {kind : TokenKind} {d : Nat} (h : kind.isInner) : Shifts kind d d
  | opening {d : Nat} : Shifts .leftParen d (d + 1)
  | closing {d : Nat} : Shifts .rightParen (d + 1) d

end TokenKind

/-! ## Marks in a source -/

namespace Lexeme

theorem isInner_of_isWord {kind : TokenKind} (h : isWord kind) : kind.isInner := by
  cases kind <;> first | rfl | cases h

theorem isInner_mark? {c : Char} {next : Option Char} {found : TokenKind × Nat}
    (h : mark? c next = some found) : found.1.isInner := by
  unfold mark? at h
  split at h <;> cases h <;> rfl

theorem isInner_quoted {c close : Char} {kind : TokenKind} {reason : String}
    (h : opening? c = some (close, kind, reason)) (cs : List Char) :
    (quoted close kind reason cs).1.isInner := by
  unfold quoted
  split
  · unfold opening? at h
    split at h <;> cases h <;> rfl
  · rfl

end Lexeme

/-- The marks that are no inner tokens. -/
def outerMarks : List String := ["(", ")", ";"]

theorem text_mem_outerMarks {source : Source} {t : Token} (ht : t ∈ tokenize source)
    (h : t.kind.isInner = false) : t.text ∈ outerMarks := by
  obtain ⟨before, c, rest, -, rfl⟩ := exists_of_mem_tokenize ht
  rw [tokenAfter] at h ⊢
  dsimp only at h ⊢
  rcases Lexeme.lexeme_cases c rest with ⟨kind, hkind, hf⟩ | ⟨found, hfound, hf⟩ |
    ⟨close, kind, reason, hopening, hf⟩ | hf | ⟨-, -, hf⟩ | hword
  · rw [hf] at h ⊢
    rw [List.take_zero]
    unfold Lexeme.single? at hkind
    split at hkind <;> cases hkind <;> first | (cases h; done) | decide
  · rw [hf, Lexeme.isInner_mark? hfound] at h
    cases h
  · rw [hf, Lexeme.isInner_quoted hopening] at h
    cases h
  · rw [hf] at h
    cases h
  · rw [hf, Lexeme.isInner_of_isWord (Lexeme.isWord_blob _)] at h
    cases h
  · rw [Lexeme.isInner_of_isWord (Lexeme.isWord_of_isBare hword)] at h
    cases h

/-- A token that is written like a word is an inner one. -/
theorem isInner_of_sameWord {source : Source} {t : Token} {word : String}
    (ht : t ∈ tokenize source) (hword : ∀ mark ∈ outerMarks, sameWord mark word = false)
    (h : sameWord t.text word) : t.kind.isInner := by
  by_contra hinner
  have hmem := text_mem_outerMarks ht (Bool.eq_false_iff.2 hinner)
  rw [hword _ hmem] at h
  cases h

/-! ## Parentheses -/

/-- Whether tokens close so many parentheses that were opened before them, and each that they open
themselves. -/
def closes : Nat → List Token → Bool
  | n, [] => n == 0
  | n, t :: ts =>
    match t.kind with
    | .leftParen => closes (n + 1) ts
    | .rightParen => n != 0 && closes (n - 1) ts
    | _ => closes n ts

section Closes

variable {n : Nat} {t : Token} {ts : List Token}

theorem closes_opening (h : t.kind = .leftParen) : closes n (t :: ts) = closes (n + 1) ts := by
  rw [closes, h]

theorem closes_closing (h : t.kind = .rightParen) (hc : closes n (t :: ts)) :
    ∃ m, n = m + 1 ∧ closes m ts := by
  rw [closes, h] at hc
  rcases n with _ | m
  · cases hc
  · exact ⟨m, rfl, hc⟩

theorem closes_other (hopen : t.kind ≠ .leftParen) (hclose : t.kind ≠ .rightParen) :
    closes n (t :: ts) = closes n ts := by
  rw [closes]
  split
  · next h => exact absurd h hopen
  · next h => exact absurd h hclose
  · rfl

theorem closes_inner (h : t.kind.isInner) : closes n (t :: ts) = closes n ts :=
  closes_other (by rintro heq; rw [heq] at h; cases h) (by rintro heq; rw [heq] at h; cases h)

theorem closes_tail (h : closes n (t :: ts)) : ∃ m, closes m ts := by
  by_cases hopen : t.kind = .leftParen
  · exact ⟨n + 1, closes_opening hopen ▸ h⟩
  by_cases hclose : t.kind = .rightParen
  · obtain ⟨m, -, hm⟩ := closes_closing hclose h
    exact ⟨m, hm⟩
  · exact ⟨n, closes_other hopen hclose ▸ h⟩

end Closes

/-! ## Places inside a statement -/

/-- The tokens of a source up to a semicolon whose parentheses are balanced, without a word that
begins a statement with semicolons inside or one that takes tokens unseen. -/
structure Boundary where
  source : Source
  config : Config
  before : List Token
  mark : Token
  after : List Token
  tokens : tokenize source = before ++ mark :: after
  semicolon : mark.kind = .semicolon
  balanced : closes 0 before
  whole : ∀ t ∈ before, t.kind ≠ .semicolon
  plain : ∀ t ∈ before, t.kind ≠ .keyword .TRIGGER ∧ t.kind ≠ .keyword .ALTER

namespace Boundary

variable {B : Boundary} {d e : Nat} {t : Token} {ts : List Token}

/-- The tokens ahead are some of those before the semicolon and all from there on, where at least
`d` parentheses are open. -/
def Inside (B : Boundary) (d : Nat) (ts : List Token) : Prop :=
  ∃ us n, us <:+ B.before ∧ ts = us ++ B.mark :: B.after ∧ closes n us ∧ d ≤ n

/-- The place is inside, and the next token is of a kind. -/
def At (B : Boundary) (d : Nat) (kind : TokenKind) (ts : List Token) : Prop :=
  B.Inside d ts ∧ ts.head?.map Token.kind = some kind

theorem Inside.zero (h : B.Inside d ts) : B.Inside 0 ts := by
  obtain ⟨us, n, hsuffix, rfl, hcloses, -⟩ := h
  exact ⟨us, n, hsuffix, rfl, hcloses, Nat.zero_le n⟩

/-- There is a next token, which is one of the source. -/
theorem Inside.exists_cons (h : B.Inside d ts) :
    ∃ t rest, ts = t :: rest ∧ t ∈ tokenize B.source := by
  obtain ⟨us, n, hsuffix, rfl, -, -⟩ := h
  rcases us with _ | ⟨u, us⟩
  · exact ⟨B.mark, B.after, rfl, by simp [B.tokens]⟩
  · exact ⟨u, us ++ B.mark :: B.after, rfl, by simp [B.tokens, hsuffix.subset List.mem_cons_self]⟩

/-- The semicolon is not the next token where a parenthesis is open. -/
theorem Inside.mem (h : B.Inside d (t :: ts)) (hd : 0 < d ∨ t.kind ≠ .semicolon) :
    t ∈ B.before := by
  obtain ⟨us, n, hsuffix, heq, hcloses, hle⟩ := h
  rcases us with _ | ⟨u, us⟩
  · obtain rfl : n = 0 := by simpa [closes] using hcloses
    obtain ⟨rfl, -⟩ := List.cons.inj heq
    exact absurd B.semicolon (hd.resolve_left (by omega))
  · obtain ⟨rfl, -⟩ := List.cons.inj heq
    exact hsuffix.subset List.mem_cons_self

/-- Where a parenthesis is open, any token can be taken. -/
theorem Inside.tail (h : B.Inside d (t :: ts)) (hd : 0 < d ∨ t.kind ≠ .semicolon) :
    B.Inside 0 ts := by
  obtain ⟨us, n, hsuffix, heq, hcloses, hle⟩ := h
  rcases us with _ | ⟨u, us⟩
  · obtain rfl : n = 0 := by simpa [closes] using hcloses
    obtain ⟨rfl, -⟩ := List.cons.inj heq
    exact absurd B.semicolon (hd.resolve_left (by omega))
  · obtain ⟨rfl, rfl⟩ := List.cons.inj heq
    obtain ⟨m, hm⟩ := closes_tail hcloses
    exact ⟨us, m, (List.suffix_cons t us).trans hsuffix, rfl, hm, Nat.zero_le m⟩

/-- A token that is no semicolon is taken. -/
theorem Inside.next (h : B.Inside d (t :: ts)) (hk : t.kind.Shifts d e) : B.Inside e ts := by
  obtain ⟨us, n, hsuffix, heq, hcloses, hle⟩ := h
  rcases us with _ | ⟨u, us⟩
  · obtain ⟨rfl, -⟩ := List.cons.inj heq
    rw [B.semicolon] at hk
    cases hk
    contradiction
  · obtain ⟨rfl, rfl⟩ := List.cons.inj heq
    have hsuffix := (List.suffix_cons t us).trans hsuffix
    generalize hkind : t.kind = kind at hk
    cases hk with
    | inner hinner =>
      rw [closes_inner (hkind ▸ hinner)] at hcloses
      exact ⟨us, n, hsuffix, rfl, hcloses, hle⟩
    | opening =>
      rw [closes_opening hkind] at hcloses
      exact ⟨us, n + 1, hsuffix, rfl, hcloses, Nat.succ_le_succ hle⟩
    | closing =>
      obtain ⟨m, rfl, hm⟩ := closes_closing hkind hcloses
      exact ⟨us, m, hsuffix, rfl, hm, Nat.le_of_succ_le_succ hle⟩

/-- Where no token before the semicolon is left, it is the next one. -/
theorem Inside.eq_after (h : B.Inside d (t :: ts)) (ht : t.kind = .semicolon) : ts = B.after := by
  obtain ⟨us, n, hsuffix, heq, -, -⟩ := h
  rcases us with _ | ⟨u, us⟩
  · exact (List.cons.inj heq).2
  · obtain ⟨rfl, -⟩ := List.cons.inj heq
    exact absurd ht (B.whole t (hsuffix.subset List.mem_cons_self))

end Boundary

end SqlSyntax
