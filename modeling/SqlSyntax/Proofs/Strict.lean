import SqlSyntax.Proofs.Pairing.Same
import SqlSyntax.Proofs.EntryPoints

/-!
# Sources that strict mode accepts

Strict mode refuses spellings that the ANSI standard does not have, each where a production checks
the token that it takes. So every token of an accepted source was checked, or it was taken by a
production that does not check: the sign of an assignment or of a setting, and the name of a call.

A run is compared with itself, which tells of the tokens that it takes (`Pairing.strict`).
-/

namespace SqlSyntax

open SqlSyntax.Parser

/-- A word that begins assignments or a setting. -/
def TokenKind.BeginsSetting (kind : TokenKind) : Prop :=
  kind = .keyword .SET ∨ kind = .keyword .PRAGMA

namespace Token

/-- What strict mode lets through between other tokens. The sign of an assignment or a setting is
not checked, and neither is the name of a call. -/
def Passes (before : List Token) (t : Token) (after : List Token) : Prop :=
  match t.kind with
  | .doubleColon => False
  | .notEq => t.text ≠ "!="
  | .eq => t.text = "==" → ∃ u ∈ before, u.kind.BeginsSetting
  | .quotedIdentifier =>
    t.text.toList.head? ≠ some '"' → after[0]?.map Token.kind = some .leftParen
  | _ => True

variable {before after left : List Token} {t u : Token}

theorem passes_plain (h : t.kind.isPlain) : t.Passes before after := by
  unfold Passes
  split
  · next hk => rw [hk] at h; cases h
  · next hk => rw [hk] at h; cases h
  · next hk => rw [hk] at h; cases h
  · next hk => rw [hk] at h; cases h
  · trivial

theorem passes_operator (hk : t.kind = .eq ∨ t.kind = .notEq) (h : t.isMisspelled = false) :
    t.Passes before after := by
  obtain ⟨hdouble, hmark⟩ : t.text ≠ "==" ∧ t.text ≠ "!=" := by
    simpa [isMisspelled] using h
  unfold Passes
  rcases hk with hk | hk
  · rw [hk]
    exact fun h => absurd h hdouble
  · rw [hk]
    exact hmark

theorem passes_sign (hk : t.kind = .eq) (h : ∃ u ∈ before, u.kind.BeginsSetting) :
    t.Passes before after := by
  unfold Passes
  rw [hk]
  exact fun _ => h

theorem passes_name (hk : t.kind = .quotedIdentifier)
    (h : t.isMisquoted = true → after[0]?.map Token.kind = some .leftParen) :
    t.Passes before after := by
  unfold Passes
  rw [hk]
  refine fun hquote => h ?_
  rw [isMisquoted, hk, beq_self_eq_true, Bool.true_and, bne_iff_ne]
  exact hquote

/-- Where the next token stands: before a token of the source, at its place, or behind it. -/
theorem place (h : (u :: left) <:+ before ++ t :: after) :
    (u ∈ before ∧ (t :: after) <:+ left) ∨ (u = t ∧ left = after) ∨ (u :: left) <:+ after := by
  obtain ⟨taken, heq⟩ := h
  rcases List.append_eq_append_iff.1 heq with ⟨xs, hxs, hleft⟩ | ⟨ys, -, hback⟩
  · rcases xs with _ | ⟨x, xs⟩
    · obtain ⟨rfl, rfl⟩ := List.cons.inj hleft
      exact .inr (.inl ⟨rfl, rfl⟩)
    · obtain ⟨rfl, hbehind⟩ := List.cons.inj hleft
      refine .inl ⟨?_, xs, hbehind.symm⟩
      rw [hxs]
      exact List.mem_append_right _ (List.mem_cons_self ..)
  · rcases ys with _ | ⟨y, ys⟩
    · obtain ⟨rfl, rfl⟩ := List.cons.inj hback
      exact .inr (.inl ⟨rfl, rfl⟩)
    · exact .inr (.inr ⟨ys, (List.cons.inj hback).2.symm⟩)

/-- The last tokens of a source are left, and where the token `t` was taken, it passed. -/
structure Passed (before : List Token) (t : Token) (after left : List Token) : Prop where
  suffix : left <:+ before ++ t :: after
  passes : left <:+ after → t.Passes before after

theorem not_suffix_tail : ¬ (t :: after) <:+ after := fun h => by
  have hlength := h.length_le
  rw [List.length_cons] at hlength
  omega

namespace Passed

theorem start (before : List Token) (t : Token) (after : List Token) :
    Passed before t after (before ++ t :: after) where
  suffix := List.suffix_rfl
  passes h := absurd ((List.suffix_append before (t :: after)).trans h) not_suffix_tail

/-- One more token is taken. -/
theorem next (h : Passed before t after (u :: left)) (hu : u.Passes before left) :
    Passed before t after left where
  suffix := (List.suffix_cons u left).trans h.suffix
  passes hle := by
    rcases place h.suffix with ⟨-, hleft⟩ | ⟨rfl, rfl⟩ | hback
    · -- `t` is still left, and so it is not behind itself
      exact absurd (hleft.trans hle) not_suffix_tail
    · exact hu
    · exact h.passes hback

/-- A setting that begins now begins before the token, unless that has passed. -/
theorem sets (h : Passed before t after (u :: left)) (hu : u.kind.BeginsSetting) :
    (∃ v ∈ before, v.kind.BeginsSetting) ∨ t.Passes before after := by
  rcases place h.suffix with ⟨hmem, -⟩ | ⟨rfl, rfl⟩ | hback
  · exact .inl ⟨u, hmem, hu⟩
  · refine .inr (passes_plain ?_)
    rcases hu with hk | hk <;> rw [hk] <;> rfl
  · exact .inr (h.passes hback)

end Passed

end Token

namespace Pairing

variable {source : Source} {config : Config} {before after : List Token} {t : Token}

/-- A run over a source and itself, with an eye on one token of the source. -/
def strict (source : Source) (config : Config) (before : List Token) (t : Token)
    (after : List Token) : Pairing :=
  same source config config (fun _ _ => True) Eq (t.Passed before after)
    ((∃ u ∈ before, u.kind.BeginsSetting) ∨ t.Passes before after)

theorem strict_takes (hstrict : config.strictAnsi = true) :
    (strict source config before t after).Takes where
  takes_plain _ hk hfine := hfine.next (Token.passes_plain hk)
  takes_name _ hk hquotes hfine := hfine.next <| Token.passes_name hk fun hmis => by
    rw [hquotes hstrict] at hmis
    cases hmis
  takes_call _ hk hparen hfine := hfine.next (Token.passes_name hk fun _ => hparen)
  takes_operator _ hk hspelling hfine :=
    hfine.next (Token.passes_operator hk (hspelling hstrict))
  takes_sign {u _ ts} _ hk hsets hfine := by
    rcases hsets with hsets | hpasses
    · exact hfine.next (Token.passes_sign hk hsets)
    · exact ⟨(List.suffix_cons u ts).trans hfine.suffix, fun _ => hpasses⟩
  takes_cast _ _ hlax _ _ := by
    have hlax : config.strictAnsi = false := hlax
    rw [hstrict] at hlax
    cases hlax
  sets _ hk hfine := hfine.sets hk

theorem strict_lawful (hstrict : config.strictAnsi = true) :
    (strict source config before t after).Lawful :=
  { same_reads_eq rfl rfl rfl rfl, strict_takes hstrict, same_builds with }

end Pairing

namespace Session

variable {source : Source}

/-- A source that strict mode accepts has no cast by a sign and no inequality with an exclamation
mark. A doubled equality sign is there only behind a word that begins a setting, and a name in
other quotes than double ones only as the name of a call. -/
theorem parse_strict (s : Session) {root : Tree} (hstrict : s.config.strictAnsi = true)
    (h : (s.parse source).1 = .ok root) :
    ∀ before t after, tokenize source = before ++ t :: after → t.Passes before after := by
  intro before t after heq
  have hW : (Pairing.strict source s.config before t after).Lawful :=
    Pairing.strict_lawful hstrict
  have hfine : t.Passed before after (s.start (tokenize source)).rest := by
    show t.Passed before after (tokenize source)
    rw [heq]
    exact .start before t after
  have hout := Script.single_alike hW (s.scope .one source) (s.scope .one source)
    (s.start (tokenize source)) (s.start (tokenize source)) ⟨rfl, rfl, rfl, rfl, rfl, rfl, rfl⟩
    (Pairing.same_meets _ _ rfl rfl rfl rfl rfl) hfine trivial
  rw [parse_eq] at h
  rcases hrun : Script.single (s.scope .one source) (s.start (tokenize source)) with
    ⟨root', r⟩ | ⟨f, r⟩
  · rw [hrun] at hout
    obtain ⟨-, hrest, -, hfine, -⟩ := hout
    exact hfine.passes (hrest ▸ List.nil_suffix)
  · rw [hrun] at h
    cases h

/-- An inequality in its standard spelling, and a name in double quotes. -/
theorem parse_strict_inequality :
    ({ config := { strictAnsi := true } } : Session).config.strictAnsi = true ∧
    (({ config := { strictAnsi := true } } : Session).parse "SELECT \"a\" <> 2".toList).1.isOk ∧
    ∀ before t after, tokenize "SELECT \"a\" <> 2".toList = before ++ t :: after →
      t.Passes before after := by
  have hok : (({ config := { strictAnsi := true } } : Session).parse
      "SELECT \"a\" <> 2".toList).1.isOk := by decide +kernel
  refine ⟨rfl, hok, ?_⟩
  rcases ht : (({ config := { strictAnsi := true } } : Session).parse
      "SELECT \"a\" <> 2".toList).1 with f | root
  · rw [ht] at hok
    cases hok
  · exact parse_strict { config := { strictAnsi := true } } rfl ht

/-- Strict mode accepts a doubled equality sign in an assignment, and a name in backticks that is
called. -/
theorem strict_accepts_unchecked_tokens :
    ((({ config := { strictAnsi := true } } : Session).parse
        "UPDATE t SET a == 1".toList).1.isOk ∧
      ∃ t ∈ tokenize "UPDATE t SET a == 1".toList, t.kind = .eq ∧ t.text = "==") ∧
    ((({ config := { strictAnsi := true } } : Session).parse
        "SELECT \x60f\x60(1)".toList).1.isOk ∧
      ∃ t ∈ tokenize "SELECT \x60f\x60(1)".toList, t.kind = .quotedIdentifier ∧
        t.text.toList.head? ≠ some '"') := by
  decide +kernel

end Session

end SqlSyntax
