import SqlSyntax.Proofs.Limits

/-!
# Stricter options only refuse

What succeeds under some options succeeds under less strict ones, with the same answer and the same
progress (`Parser.Carries`): no option but the one for compact trees has a part in what is built.
The rules for whole statements are no more than fewer in permissive mode.
-/

namespace SqlSyntax

open SqlSyntax.Parser

/-- The second configuration is at most as strict as the first, and asks for the same nodes. -/
structure Config.Loosens (c c' : Config) : Prop extends c.Eases c' where
  mode : c.mode = .permissive → c'.mode = .permissive
  depthLimit : c.depthLimit ≤ c'.depthLimit

variable {α β : Type} {c c' : Config}

/-- What a run comes to under the first configuration it comes to under the second. -/
def Parser.Carries (c c' : Config) (p : Parser α) (fact : α → Prop) : Prop :=
  ∀ (scope : Scope) (s r : Progress) (a : α), scope.config = c → p scope s = .ok a r →
    fact a ∧ p { scope with config := c' } s = .ok a r

namespace Parser.Carries

variable {p : Parser α} {fact : α → Prop}

theorem of_blind (hp : Blind p fact) : Carries c c' p fact :=
  fun scope s _ _ _ h => ⟨hp.fact h, (hp.same scope c' _ s).trans h⟩

theorem bind {k : α → Parser β} {fact' : β → Prop} (hp : Carries c c' p fact)
    (hk : ∀ a, fact a → Carries c c' (k a) fact') : Carries c c' (p >>= k) fact' := by
  intro scope s r b hconfig h
  rcases hrun : p scope s with ⟨a, r'⟩ | ⟨f, r'⟩
  · rw [bind_ok hrun] at h
    obtain ⟨ha, hrun'⟩ := hp _ _ _ _ hconfig hrun
    rw [bind_ok hrun']
    exact hk a ha _ _ _ _ hconfig h
  · rw [bind_error hrun] at h
    cases h

theorem weaken {fact' : α → Prop} (hp : Carries c c' p fact) (h : ∀ a, fact a → fact' a) :
    Carries c c' p fact' :=
  fun scope s r a hconfig hrun => (hp scope s r a hconfig hrun).imp_left (h a)

/-- What the configuration chooses is the same, or fails. -/
theorem ask {k : Config → Parser α} (hc : c.Eases c') (hk : Config.Chooses k)
    (h : Carries c c' (k c) fact) : Carries c c' (do k (← read).config) fact := by
  intro scope s r a hconfig hrun
  have hrun : k scope.config scope s = .ok a r := hrun
  rw [hconfig] at hrun
  show fact a ∧ k c' { scope with config := c' } s = .ok a r
  rcases hk.eased hc with hsame | ⟨e, hfail⟩
  · rw [← hsame]
    exact h scope s r a hconfig hrun
  · rw [hfail] at hrun
    cases hrun

theorem within (context : Context) (h : Carries c c' p fact) :
    Carries c c' (within context p) fact :=
  fun scope => h { scope with context := some context }

theorem deeper (hdepth : c.depthLimit ≤ c'.depthLimit) (hstack : c'.stackBudget = 0)
    (h : Carries c c' p fact) : Carries c c' (deeper p) fact := by
  intro scope s r a hconfig hrun
  have hexceeds (used : Nat) : c'.exceedsStack used = false := by simp [Config.exceedsStack, hstack]
  rw [deeper_run] at hrun
  split at hrun
  · cases hrun
  · next hdeep =>
    split at hrun
    · cases hrun
    · rw [hconfig] at hdeep
      obtain ⟨ha, hrun'⟩ := h { scope with depth := scope.depth + 1 } _ _ _ hconfig hrun
      simp only [deeper_run, hexceeds, Bool.false_eq_true, if_false]
      rw [if_neg (by omega)]
      exact ⟨ha, hrun'⟩

/-- To come to the same is a habit where the second configuration is at most as strict. -/
theorem habit (hc : c.Loosens c') (hstack : c'.stackBudget = 0) :
    Habit c fun _ p fact => Carries c c' p fact where
  blind := of_blind
  bind := bind
  weaken := weaken
  ask := ask hc.toEases
  byTokens h scope s := h s.rest scope s
  within := within
  deeper := deeper hc.depthLimit hstack

end Parser.Carries

/-! ## Rules for whole statements -/

namespace Validation

variable {source : Source} {mode mode' : Mode} {t : Tree}

theorem checkHaving_permissive (h : checkHaving source mode t = []) :
    checkHaving source .permissive t = [] := by
  rcases mode with _ | _
  · unfold checkHaving at h ⊢
    split at h
    · rfl
    · next having _ =>
      have hgrouped : (t.child? .groupByClause).isSome = true := by
        simpa [Option.isSome_iff_ne_none] using h
      simp [hgrouped]
  · exact h

theorem checkJoin_permissive (join : Tree) : checkJoin .permissive join = [] := by
  simp [checkJoin]

/-- A node that keeps the rules keeps them in permissive mode too. -/
theorem check_permissive (h : check source mode t = []) : check source .permissive t = [] := by
  unfold check at h ⊢
  split at h
  · exact checkHaving_permissive h
  · exact h
  · exact h
  · exact h
  · exact h
  · exact h
  · exact h
  · exact h
  · exact h
  · simp [checkJoin_permissive]

end Validation

/-- A statement that is valid stays so in a mode that is at most as strict. -/
theorem validate_of_permissive {source : Source} {mode mode' : Mode} {t : Tree}
    (hmode : mode = .permissive → mode' = .permissive) (h : validate source mode t = none) :
    validate source mode' t = none := by
  simp only [validate, validateAll, List.head?_eq_none_iff, List.flatMap_eq_nil_iff] at h ⊢
  intro u hu
  rcases mode' with _ | _
  · rcases mode with _ | _
    · exact h u hu
    · cases hmode rfl
  · exact Validation.check_permissive (h u hu)

/-! ## Calls under less strict options -/

namespace Session

variable {source : Source}

theorem validate_of_checked {mode : Mode} {t u : Tree} (h : checked source mode t = .ok u) :
    validate source mode t = none := by
  unfold checked at h
  split at h
  · assumption
  · cases h

/-- Restrictive options only reject. What a parse answers with it answers with under every
configuration that is at most as strict and asks for the same nodes. -/
theorem parse_of_looser (s : Session) {c c' : Config} {t : Tree} (hc : c.Loosens c')
    (hstack : c'.stackBudget = 0) (h : ({ s with config := c }.parse source).1 = .ok t) :
    ({ s with config := c' }.parse source).1 = .ok t := by
  rw [parse_eq] at h ⊢
  rcases hrun : Script.single ({ s with config := c }.scope .one source)
      ({ s with config := c }.start (tokenize source)) with ⟨root, q⟩ | ⟨f, q⟩
  · rw [hrun] at h
    have hrun' : Script.single ({ s with config := c' }.scope .one source)
        ({ s with config := c' }.start (tokenize source)) = .ok root q :=
      ((Carries.habit hc hstack).single ({ s with config := c }.scope .one source) _ _ _ rfl hrun).2
    rw [hrun']
    obtain rfl : t = root := checked_eq h
    have hvalid : validate source c'.mode t = none :=
      validate_of_permissive hc.mode (validate_of_checked h)
    simp [checked, hvalid]
  · rw [hrun] at h
    cases h

/-- An inequality that passes in strict mode passes with everything allowed. -/
theorem parse_of_looser_inequality :
    Config.Loosens { stackBudget := 0, strictAnsi := true, allowExtensions := false }
      { stackBudget := 0, mode := .permissive } ∧
    ∃ t, (({ config := { stackBudget := 0, strictAnsi := true, allowExtensions := false } }
        : Session).parse "SELECT 1 <> 2".toList).1 = .ok t ∧
      (({ config := { stackBudget := 0, mode := .permissive } } : Session).parse
        "SELECT 1 <> 2".toList).1 = .ok t := by
  have hloosens : Config.Loosens
      { stackBudget := 0, strictAnsi := true, allowExtensions := false }
      { stackBudget := 0, mode := .permissive } :=
    { compactTree := rfl, strictAnsi := nofun, allowExtensions := nofun, mode := nofun,
      depthLimit := by decide }
  have hok : (({ config := { stackBudget := 0, strictAnsi := true, allowExtensions := false } }
      : Session).parse "SELECT 1 <> 2".toList).1.isOk := by decide +kernel
  rcases ht : (({ config := { stackBudget := 0, strictAnsi := true, allowExtensions := false } }
      : Session).parse "SELECT 1 <> 2".toList).1 with f | t
  · rw [ht] at hok
    cases hok
  · exact ⟨hloosens, t, rfl, parse_of_looser {} hloosens rfl ht⟩

end Session

end SqlSyntax
