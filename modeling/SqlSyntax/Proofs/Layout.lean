import Mathlib.Data.List.DropRight
import SqlSyntax.Proofs.EntryPoints
import SqlSyntax.Proofs.Layout.Statement

/-!
# What a parse lays out

A parse reads one statement between semicolons, and the tree that it answers with is laid out over
the tokens of that statement (`Session.parse_laid`). No statement ends with a semicolon, so the
semicolons behind it are just those at the end of the source.
-/

namespace SqlSyntax

open SqlSyntax.Parser

variable {source : Source} {x : Token}

/-! ## Marks -/

/-- How the marks are written that a word is told from. -/
def TokenKind.mark? : TokenKind → Option String
  | .star => some "*"
  | .semicolon => some ";"
  | _ => none

theorem TokenKind.mark?_of_isWord {kind : TokenKind} (h : Lexeme.isWord kind) :
    kind.mark? = none := by
  cases kind <;> first | rfl | cases h

theorem text_of_mark? {mark : String} (hx : x ∈ tokenize source) (h : x.kind.mark? = some mark) :
    x.text = mark := by
  obtain ⟨before, c, rest, -, rfl⟩ := exists_of_mem_tokenize hx
  rw [tokenAfter] at h ⊢
  dsimp only at h ⊢
  rcases Lexeme.lexeme_cases c rest with ⟨kind, hkind, hf⟩ | ⟨found, hfound, hf⟩ |
    ⟨close, kind, reason, hopening, hf⟩ | hf | ⟨-, -, hf⟩ | hword
  · rw [hf] at h ⊢
    rw [List.take_zero]
    unfold Lexeme.single? at hkind
    split at hkind <;> cases hkind <;> cases h <;> rfl
  · rw [hf] at h
    unfold Lexeme.mark? at hfound
    split at hfound <;> cases hfound <;> cases h
  · rw [hf] at h
    unfold Lexeme.quoted at h
    split at h
    · unfold Lexeme.opening? at hopening
      split at hopening <;> cases hopening <;> cases h
    · cases h
  · rw [hf] at h
    cases h
  · rw [hf, TokenKind.mark?_of_isWord (Lexeme.isWord_blob _)] at h
    cases h
  · rw [TokenKind.mark?_of_isWord (Lexeme.isWord_of_isBare hword)] at h
    cases h

theorem honest_of_mem_tokenize (hx : x ∈ tokenize source) : x.Honest where
  star h := text_of_mark? hx (by rw [h]; rfl)
  semicolon h := text_of_mark? hx (by rw [h]; rfl)

/-! ## Statements -/

theorem Script.nextStatement_laid {c : Option Context} :
    Yields nextStatement c (Tree.Stands .statement c) := by
  intro r scope s t s' hc hs hrun
  exact (Nested.upTo_lays (s.rest.length + 1)).statement r hc hs hrun

/-- The tokens of a source without the semicolons at its two ends. -/
def Source.statementTokens (source : Source) : List Token :=
  ((tokenize source).dropWhile (·.kind == .semicolon)).rdropWhile (·.kind == .semicolon)

theorem Source.statementTokens_infix (source : Source) :
    source.statementTokens <:+: tokenize source :=
  (List.rdropWhile_prefix _ _).isInfix.trans (List.dropWhile_suffix _).isInfix

theorem rdropWhile_append {α : Type} {p : α → Bool} {v w : List α} (hw : ∀ x ∈ w, p x = true)
    (hv : ∀ x ∈ v.getLast?, p x = false) : (v ++ w).rdropWhile p = v := by
  induction w using List.reverseRecOn with
  | nil =>
    rw [List.append_nil, List.rdropWhile_eq_self_iff]
    intro hne
    simp [hv _ (List.getLast?_eq_some_getLast hne)]
  | append_singleton w x ih =>
    rw [← List.append_assoc, List.rdropWhile_concat_pos _ _ _ (hw x (by simp))]
    exact ih fun y hy => hw y (by simp [hy])

/-- The tree of a statement is laid out over its tokens. -/
theorem Session.parse_laid {s : Session} {t : Tree} (h : (s.parse source).1 = .ok t) :
    t.Stands .statement none source.statementTokens := by
  obtain ⟨a, ha, hcheck⟩ := exists_of_finish h
  obtain rfl := checked_eq hcheck
  obtain ⟨s', hrun⟩ := exists_of_answer ha
  rw [Script.single_run] at hrun
  split at hrun
  · exact absurd hrun (Script.unexpected_ne_ok _)
  split at hrun
  · cases hrun
  next root p hstatement =>
  split at hrun
  · next hrest =>
    cases hrun
    have hahead := Script.rest_pastSemicolons (s.start (tokenize source))
    have hstand : (s.start (tokenize source)).pastSemicolons.Stand []
        (s.start (tokenize source)).pastSemicolons.rest := by
      refine ⟨rfl, fun x hx => ?_, fun h => absurd rfl h⟩
      rw [hahead] at hx
      exact honest_of_mem_tokenize ((List.dropWhile_sublist _).subset hx)
    obtain ⟨v, r', htook, hlaid⟩ := Script.nextStatement_laid _ rfl hstand hstatement
    -- behind the statement are only semicolons
    have hafter : ∀ x ∈ r', (x.kind == .semicolon) = true := by
      rw [Script.rest_pastSemicolons, htook.rest] at hrest
      exact List.dropWhile_eq_nil_iff.1 hrest
    have hend : ∀ x ∈ v.getLast?, (x.kind == .semicolon) = false := by
      intro x hx
      rw [beq_eq_false_iff_ne]
      exact fun hkind => hlaid.ended (by simp [EndsWith, Option.mem_def.1 hx, hkind])
    have htokens : source.statementTokens = v := by
      have hrest : (tokenize source).dropWhile (·.kind == .semicolon) = v ++ r' :=
        hahead.symm.trans htook.ahead
      rw [Source.statementTokens, hrest]
      exact rdropWhile_append hafter hend
    rw [htokens]
    exact hlaid
  · exact absurd hrun (Script.unexpected_ne_ok _)

theorem Session.exists_of_isOk {s : Session} (h : (s.parse source).1.isOk) :
    ∃ t, (s.parse source).1 = .ok t := by
  rcases hparse : (s.parse source).1 with f | t
  · rw [hparse] at h
    cases h
  · exact ⟨t, rfl⟩

end SqlSyntax
