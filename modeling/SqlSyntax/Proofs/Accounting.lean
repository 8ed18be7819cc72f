import SqlSyntax.Proofs.Limits
import SqlSyntax.Proofs.Pairing.Same

/-!
# Every token is taken once

A run takes tokens from the front of its list and gives none back (`Production.onward`), and a
parse that succeeds has taken all of them. Text that is no token of the language is never among
them: a run over such text is compared with itself, with an eye on the first such token
(`Pairing.beforeError`). No step takes it, so the run fails, and it fails at a token that was next
before that one could have been taken.
-/

namespace SqlSyntax

open SqlSyntax.Parser

variable {α β : Type}

/-! ## Taking tokens -/

/-- The parser gives no token back. -/
def Parser.Advances (config : Config) (p : Parser α) (fact : α → Prop) : Prop :=
  ∀ (scope : Scope) (s : Progress), scope.config = config →
    s.Onward (progressOf (p scope s)) ∧ ∀ a r, p scope s = .ok a r → fact a

namespace Parser.Advances

variable {config : Config} {p : Parser α} {fact : α → Prop}

theorem bind {k : α → Parser β} {fact' : β → Prop} (hp : Advances config p fact)
    (hk : ∀ a, fact a → Advances config (k a) fact') : Advances config (p >>= k) fact' := by
  intro scope s hconfig
  obtain ⟨honward, hfact⟩ := hp scope s hconfig
  rcases hrun : p scope s with ⟨a, r⟩ | ⟨f, r⟩
  · rw [hrun] at honward
    obtain ⟨honward', hfact'⟩ := hk a (hfact a r hrun) scope r hconfig
    rw [bind_ok hrun]
    exact ⟨honward.trans honward', hfact'⟩
  · rw [hrun] at honward
    rw [bind_error hrun]
    exact ⟨honward, nofun⟩

theorem deeper (hp : Advances config p fact) : Advances config (deeper p) fact := by
  intro scope s hconfig
  rw [deeper_run]
  split
  · exact ⟨.refl s, nofun⟩
  · split
    · exact ⟨.refl s, nofun⟩
    · exact hp { scope with depth := scope.depth + 1 }
        { s with deepest := max s.deepest (scope.depth + 1) } hconfig

/-- To give no token back is a habit. -/
theorem habit (config : Config) : Habit config fun _ p fact => Advances config p fact where
  blind hp scope s _ := ⟨hp.onward scope s, fun _ _ => hp.fact⟩
  bind := bind
  weaken hp h scope s hconfig :=
    (hp scope s hconfig).imp_right fun hfact a r hrun => h a (hfact a r hrun)
  ask _ hp scope s hconfig := by
    subst hconfig
    exact hp scope s rfl
  byTokens h scope s := h s.rest scope s
  within context hp scope s hconfig := hp { scope with context := some context } s hconfig
  deeper := deeper

end Parser.Advances

/-- The productions that a run over one statement is made of. -/
inductive Production : Parser Tree → Prop
  | single : Production Script.single
  | expression (n power : Nat) : Production ((Nested.upTo n).expression power)
  | query (n : Nat) : Production (Nested.upTo n).query
  | joinTree (n : Nat) : Production (Nested.upTo n).joinTree
  | statement (n : Nat) : Production (Nested.upTo n).statement

/-- Wherever a production begins, it takes the next tokens one by one. -/
theorem Production.onward {p : Parser Tree} (hp : Production p) (scope : Scope) (s : Progress) :
    s.Onward (progressOf (p scope s)) := by
  have hhabit := Advances.habit scope.config
  have hnested := hhabit.upTo
  cases hp with
  | single => exact (hhabit.single scope s rfl).1
  | expression n power => exact ((hnested n).expression power scope s rfl).1
  | query n => exact ((hnested n).query scope s rfl).1
  | joinTree n => exact ((hnested n).joinTree scope s rfl).1
  | statement n => exact ((hnested n).statement scope s rfl).1

/-! ## Text that is no token -/

namespace Pairing

variable {source : Source} {config : Config} {t u : Token} {after left : List Token}

/-- The last tokens of a source are left, and an erroneous one with those after it is among them. -/
def Untaken (source : Source) (t : Token) (after left : List Token) : Prop :=
  left <:+ tokenize source ∧ (t :: after) <:+ left

theorem Untaken.next (h : Untaken source t after (u :: left)) (ht : t.kind.isError)
    (hu : u.kind.isError = false) : Untaken source t after left := by
  obtain ⟨hleft, hafter⟩ := h
  refine ⟨(List.suffix_cons u left).trans hleft, ?_⟩
  rcases List.suffix_cons_iff.1 hafter with heq | hafter
  · injection heq with heq
    rw [heq, hu] at ht
    cases ht
  · exact hafter

/-- The next token is not behind the erroneous one. -/
theorem Untaken.start_le (h : Untaken source t after (u :: left)) :
    u.span.start ≤ t.span.start := by
  have hsorted := (tokenize_pairwise source).sublist h.1.sublist
  have hmem : t ∈ u :: left := h.2.subset List.mem_cons_self
  rcases List.mem_cons.1 hmem with rfl | hmem
  · exact Nat.le_refl _
  · exact Nat.le_of_lt ((List.pairwise_cons.1 hsorted).1 t hmem)

/-- A run over a source and itself, with an eye on a token that is none of the language. -/
def beforeError (source : Source) (config : Config) (t : Token) (after : List Token) : Pairing :=
  same source config config (fun _ _ => True)
    (fun f f' => f = f' ∧ ∀ e, f = .error e → e.location.offset ≤ t.span.start)
    (Untaken source t after) True

theorem beforeError_takes (ht : t.kind.isError) :
    (beforeError source config t after).Takes :=
  takes_of_next trivial fun hu hfine => hfine.next ht hu

theorem beforeError_reads : (beforeError source config t after).Reads := by
  refine same_reads rfl rfl rfl rfl (fun u => ⟨rfl, fun e h => ?_⟩) ?_ ?_
  · cases h
  · rintro u us e - hfine hlocation
    refine ⟨rfl, ?_⟩
    rintro _ ⟨⟩
    rw [hlocation]
    exact hfine.start_le
  · -- the end is not reached
    rintro e ⟨-, hafter⟩
    exact absurd (List.suffix_nil.1 hafter) (List.cons_ne_nil t after)

theorem beforeError_lawful (ht : t.kind.isError) :
    (beforeError source config t after).Lawful :=
  { beforeError_reads, beforeError_takes ht, same_builds with }

end Pairing

/-- A single statement leaves no token. -/
theorem Script.rest_of_single {scope : Scope} {s r : Progress} {root : Tree}
    (h : Script.single scope s = .ok root r) : r.rest = [] := by
  rw [Script.single_run] at h
  split at h
  · exact absurd h (Script.unexpected_ne_ok _)
  · split at h
    · cases h
    · split at h
      · next hrest =>
        injection h with _ hr
        rw [← hr]
        exact hrest
      · exact absurd h (Script.unexpected_ne_ok _)

namespace Session

variable {source : Source} {before after : List Token} {t : Token}

/-- A run does not get past text that is no token. -/
theorem single_error (s : Session) (ht : t.kind.isError)
    (htokens : tokenize source = before ++ t :: after) :
    ∃ f r, Script.single (s.scope .one source) (s.start (tokenize source)) = .error f r ∧
      ∀ e, f = .error e → e.location.offset ≤ t.span.start := by
  have hfine : Pairing.Untaken source t after (s.start (tokenize source)).rest :=
    ⟨List.suffix_rfl, before, htokens.symm⟩
  have hout := Script.single_alike (Pairing.beforeError_lawful ht) (s.scope .one source)
    (s.scope .one source) (s.start (tokenize source)) (s.start (tokenize source))
    ⟨rfl, rfl, rfl, rfl, rfl, rfl, rfl⟩ (Pairing.same_meets _ _ rfl rfl rfl rfl rfl) hfine trivial
  rcases hrun : Script.single (s.scope .one source) (s.start (tokenize source)) with
    ⟨root, r⟩ | ⟨f, r⟩
  · rw [hrun] at hout
    obtain ⟨-, hrest, -, ⟨-, hafter⟩, -⟩ := hout
    rw [hrest] at hafter
    exact absurd (List.suffix_nil.1 hafter) (List.cons_ne_nil t after)
  · rw [hrun] at hout
    exact ⟨f, r, rfl, hout.1.2⟩

/-- Token accounting. A parse that succeeds has taken every token of the source, each by one step,
and none of them is text that is no token. No production ever gives a token back. A source with such
text is refused, not behind any piece of it and so not behind the first; the failure is an error if
the offsets of the source fit in a word. -/
theorem parse_accounts (s : Session) (source : Source) :
    (∀ root, (s.parse source).1 = .ok root →
      (s.parse source).2.last.rest = [] ∧
      (s.parse source).2.last.taken = (tokenize source).length ∧
      ∀ t ∈ tokenize source, t.kind.isError = false) ∧
    (∀ p, Production p → ∀ (scope : Scope) (q : Progress), q.Onward (progressOf (p scope q))) ∧
    ∀ t ∈ tokenize source, t.kind.isError →
      ∃ f, (s.parse source).1 = .error f ∧ (source.Fits → ∃ e, f = .error e) ∧
        ∀ e, f = .error e → e.location.offset ≤ t.span.start := by
  have hrefused : ∀ t ∈ tokenize source, t.kind.isError →
      ∃ f, (s.parse source).1 = .error f ∧ (source.Fits → ∃ e, f = .error e) ∧
        ∀ e, f = .error e → e.location.offset ≤ t.span.start := by
    intro t hmem ht
    obtain ⟨before, after, htokens⟩ := List.append_of_mem hmem
    obtain ⟨f, r, hrun, hplace⟩ := s.single_error ht htokens
    have hparse : (s.parse source).1 = .error (f.withSource source) := by
      rw [parse_eq, hrun]
    refine ⟨_, hparse, fun hfits => ?_, fun e he => ?_⟩
    · obtain ⟨e, he, -⟩ := (s.parse_isError source hfits).1 _ hparse
      exact ⟨e, he⟩
    · obtain ⟨e₀, he₀, -, hlocation⟩ := exists_of_withSource he
      rw [hlocation]
      exact hplace e₀ he₀
  refine ⟨fun root h => ?_, fun p hp => hp.onward, hrefused⟩
  have honward := Production.single.onward (s.scope .one source)
    (s.start (tokenize source))
  rw [parse_last]
  rcases hrun : Script.single (s.scope .one source) (s.start (tokenize source)) with
    ⟨root', r⟩ | ⟨f, r⟩
  · have hrest : r.rest = [] := Script.rest_of_single hrun
    rw [hrun] at honward
    obtain ⟨passed, hpassed, htaken⟩ := honward
    refine ⟨hrest, ?_, fun t ht => ?_⟩
    · have hall : tokenize source = passed := by
        rw [← List.append_nil passed, ← hrest]
        exact hpassed
      rw [hall, ← Nat.zero_add passed.length]
      exact htaken
    · refine Bool.eq_false_iff.2 fun herror => ?_
      obtain ⟨f, hparse, -⟩ := hrefused t ht herror
      rw [h] at hparse
      cases hparse
  · rw [parse_eq, hrun] at h
    cases h

/-- Two tokens are taken, and a string that is never closed is an error in its place. -/
theorem parse_accounts_unclosed :
    (({} : Session).parse "SELECT 1".toList).2.last.taken = (tokenize "SELECT 1".toList).length ∧
    ∃ t ∈ tokenize "SELECT 'a".toList, t.kind.isError ∧ t.span.start = 7 ∧
      ∃ e, (({} : Session).parse "SELECT 'a".toList).1 = .error (.error e) ∧
        e.location.offset ≤ 7 := by
  have hok : (({} : Session).parse "SELECT 1".toList).1.isOk := by decide +kernel
  have herror : ∃ t ∈ tokenize "SELECT 'a".toList, t.kind.isError ∧ t.span.start = 7 := by
    decide +kernel
  obtain ⟨haccepted, -, -⟩ := parse_accounts {} "SELECT 1".toList
  obtain ⟨-, -, hrefused⟩ := parse_accounts {} "SELECT 'a".toList
  constructor
  · rcases hroot : (({} : Session).parse "SELECT 1".toList).1 with f | root
    · rw [hroot] at hok
      cases hok
    · exact (haccepted root hroot).2.1
  · obtain ⟨t, hmem, ht, hstart⟩ := herror
    obtain ⟨f, hf, hfits, hplace⟩ := hrefused t hmem ht
    obtain ⟨e, rfl⟩ := hfits (by unfold Source.Fits; decide +kernel)
    exact ⟨t, hmem, ht, hstart, e, hf, hstart ▸ hplace e rfl⟩

end Session

end SqlSyntax
