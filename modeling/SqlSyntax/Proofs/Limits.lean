import SqlSyntax.Proofs.EntryPoints
import SqlSyntax.Proofs.Habits

/-!
# Runs under a depth limit

The depth limit only cuts runs off. A run goes on under a limit as it does without one, up to the
first level beyond the limit, where it fails (`Parser.Limited`). The levels that were open at most
are never fewer than those that are open now, so a run that is cut off was exactly as deep as the
limit allows.
-/

namespace SqlSyntax

open SqlSyntax.Parser

/-- The configuration with another limit. -/
def Config.limited (c : Config) (maxDepth : Nat) : Config := { c with maxDepth }

variable {α β : Type}

/-! ## Runs that are cut off -/

/-- A run that came to `x` without a limit comes to `y` under one: to the same if it never went
deeper, and else it ends at the limit. -/
structure CutTo (limit : Nat) (s : Progress) (x y : EStateM.Result Failure Progress α) :
    Prop where
  same : (progressOf x).deepest ≤ limit → y = x
  cut : s.deepest ≤ limit → limit < (progressOf x).deepest →
    ∃ e r, y = .error (.error e) r ∧ e.cause = .depthExceeded limit ∧ r.deepest = limit

/-- There is something that each run comes to, but for what a limit cuts off. -/
def Parser.Limited (config : Config) (p : Parser α) (fact : α → Prop) : Prop :=
  ∀ (scope : Scope) (s : Progress), scope.config = config → scope.depth ≤ s.deepest →
    ∃ x, (∀ a r, x = .ok a r → fact a) ∧ s.deepest ≤ (progressOf x).deepest ∧
      ∀ maxDepth, CutTo (config.limited maxDepth).depthLimit s x
        (p { scope with config := config.limited maxDepth } s)

namespace Parser.Limited

variable {config : Config} {p : Parser α} {fact : α → Prop}

theorem of_blind (hp : Blind p fact) : Limited config p fact := by
  intro scope s hconfig _
  refine ⟨p scope s, fun _ _ => hp.fact, Nat.le_of_eq (hp.deepest scope s).symm, fun maxDepth => ?_⟩
  refine ⟨fun _ => hp.same scope _ _ s, fun hle hlt => ?_⟩
  rw [hp.deepest] at hlt
  omega

theorem bind {k : α → Parser β} {fact' : β → Prop} (hp : Limited config p fact)
    (hk : ∀ a, fact a → Limited config (k a) fact') : Limited config (p >>= k) fact' := by
  intro scope s hconfig hdepth
  obtain ⟨x, hfact, hdeepest, hcut⟩ := hp scope s hconfig hdepth
  rcases x with ⟨a, r⟩ | ⟨f, r⟩
  · have hr : s.deepest ≤ r.deepest := hdeepest
    obtain ⟨y, hfact', hdeepest', hcut'⟩ := hk a (hfact a r rfl) scope r hconfig (by omega)
    refine ⟨y, hfact', by omega, fun maxDepth => ⟨fun hle => ?_, fun hle hlt => ?_⟩⟩
    · have hrun := (hcut maxDepth).same (show r.deepest ≤ _ by omega)
      rw [bind_ok hrun]
      exact (hcut' maxDepth).same hle
    · by_cases hlimit : r.deepest ≤ (config.limited maxDepth).depthLimit
      · rw [bind_ok ((hcut maxDepth).same hlimit)]
        exact (hcut' maxDepth).cut hlimit hlt
      · obtain ⟨e, q, hrun, he⟩ := (hcut maxDepth).cut hle (show _ < r.deepest by omega)
        exact ⟨e, q, bind_error hrun k, he⟩
  · refine ⟨.error f r, nofun, hdeepest, fun maxDepth => ⟨fun hle => ?_, fun hle hlt => ?_⟩⟩
    · exact bind_error ((hcut maxDepth).same hle) k
    · obtain ⟨e, q, hrun, he⟩ := (hcut maxDepth).cut hle hlt
      exact ⟨e, q, bind_error hrun k, he⟩

theorem weaken {fact' : α → Prop} (hp : Limited config p fact) (h : ∀ a, fact a → fact' a) :
    Limited config p fact' := by
  intro scope s hconfig hdepth
  obtain ⟨x, hfact, hcut⟩ := hp scope s hconfig hdepth
  exact ⟨x, fun a r hx => h a (hfact a r hx), hcut⟩

theorem ask {k : Config → Parser α} (hk : Config.Chooses k)
    (h : Limited config (k config) fact) : Limited config (do k (← read).config) fact := by
  intro scope s hconfig hdepth
  obtain ⟨x, hfact, hdeepest, hcut⟩ := h scope s hconfig hdepth
  refine ⟨x, hfact, hdeepest, fun maxDepth => ?_⟩
  have hsame : k config = k (config.limited maxDepth) :=
    hk.same ⟨rfl, fun h => h, fun h => h⟩ ⟨rfl, fun h => h, fun h => h⟩
  have hcut := hcut maxDepth
  rw [hsame] at hcut
  exact hcut

theorem within (context : Context) (h : Limited config p fact) :
    Limited config (within context p) fact :=
  fun scope s hconfig hdepth => h { scope with context := some context } s hconfig hdepth

/-- A level is opened, or the limit was reached just before. -/
theorem deeper (hstack : config.stackBudget = 0) (h : Limited config p fact) :
    Limited config (deeper p) fact := by
  intro scope s hconfig hdepth
  obtain ⟨x, hfact, hdeepest, hcut⟩ := h { scope with depth := scope.depth + 1 }
    { s with deepest := max s.deepest (scope.depth + 1) } hconfig (Nat.le_max_right _ _)
  have hbody : max s.deepest (scope.depth + 1) ≤ (progressOf x).deepest := hdeepest
  refine ⟨x, hfact, by omega, fun maxDepth => ?_⟩
  have hexceeds (used : Nat) : (config.limited maxDepth).exceedsStack used = false := by
    simp [Config.exceedsStack, Config.limited, hstack]
  have hcut := hcut maxDepth
  simp only [deeper_run, hexceeds, Bool.false_eq_true, if_false]
  refine ⟨fun hle => ?_, fun hle hlt => ?_⟩
  · rw [if_neg (by omega)]
    exact hcut.same hle
  · by_cases hlimit : (config.limited maxDepth).depthLimit ≤ scope.depth
    · -- the level that is open is the deepest so far, and the deepest that is allowed
      rw [if_pos hlimit]
      rcases s with ⟨_ | ⟨t, rest⟩⟩
      · exact ⟨_, _, rfl, rfl, by omega⟩
      · exact ⟨_, _, rfl, rfl, by omega⟩
    · rw [if_neg hlimit]
      exact hcut.cut (show max _ _ ≤ _ by omega) hlt

/-- To be only cut off is a habit where the stack is not checked. -/
theorem habit (hstack : config.stackBudget = 0) :
    Habit config fun _ p fact => Limited config p fact where
  blind := of_blind
  bind := bind
  weaken := weaken
  ask := ask
  byTokens h scope s := h s.rest scope s
  within := within
  deeper := deeper hstack

end Parser.Limited

/-! ## Calls under a limit -/

namespace Session

variable {source : Source}

/-- The session with another limit. -/
def limited (s : Session) (maxDepth : Nat) : Session :=
  { s with config := s.config.limited maxDepth }

/-- What a parse comes to, and how deep it goes, where no limit stands in its way: from some limit
on, it is that under every limit. -/
def WithoutLimit (s : Session) (source : Source) (answer : Except Failure Tree)
    (deepest : Nat) : Prop :=
  ∃ enough, ∀ maxDepth, enough ≤ maxDepth →
    ((s.limited maxDepth).parse source).1 = answer ∧
      ((s.limited maxDepth).parse source).2.last.deepest = deepest

theorem parse_last (s : Session) (source : Source) :
    (s.parse source).2.last =
      progressOf (Script.single (s.scope .one source) (s.start (tokenize source))) := by
  have hrun := run_eq (s.scope .one source) (Law.single_keeps (Law.sound_allows source s.config)
    (Law.sound_serves source s.config)) (s.start_sound source)
  unfold parse parseTokens finish
  rw [hrun]
  rcases Script.single (s.scope .one source) (s.start (tokenize source)) with
    ⟨root, q⟩ | ⟨f, q⟩ <;> rfl

/-- An error of a run is an error of the call, with the same cause. -/
theorem parse_error {s : Session} {e : ParseError} {q : Progress}
    (h : Script.single (s.scope .one source) (s.start (tokenize source)) =
      .error (.error e) q) :
    ∃ e', (s.parse source).1 = .error (.error e') ∧ e'.cause = e.cause := by
  have hout := Law.single_keeps (Law.sound_allows source s.config)
    (Law.sound_serves source s.config) (s.scope .one source) [] _ rfl rfl trivial
    (s.start_sound source)
  rw [h] at hout
  have hline : source.HasLine e.location.offset := hout.1
  obtain ⟨e', he', -⟩ := Failure.withSource_isError hline
  refine ⟨e', ?_, (withSource_error he').1⟩
  rw [parse_eq, h]
  exact congrArg Except.error he'

/-- The depth limit only cuts a parse off. If the parse goes no deeper than the limit, it comes to
what it comes to without one; else it fails at the limit, and goes exactly that deep. -/
theorem parse_only_cut_by_limit (s : Session) (source : Source)
    (hstack : s.config.stackBudget = 0) :
    ∃ answer deepest, s.WithoutLimit source answer deepest ∧ ∀ maxDepth,
      (deepest ≤ (s.limited maxDepth).config.depthLimit →
        ((s.limited maxDepth).parse source).1 = answer ∧
          ((s.limited maxDepth).parse source).2.last.deepest = deepest) ∧
      ((s.limited maxDepth).config.depthLimit < deepest →
        (∃ e, ((s.limited maxDepth).parse source).1 = .error (.error e) ∧
          e.cause = .depthExceeded (s.limited maxDepth).config.depthLimit) ∧
        ((s.limited maxDepth).parse source).2.last.deepest =
          (s.limited maxDepth).config.depthLimit) := by
  obtain ⟨x, -, -, hcut⟩ := (Limited.habit hstack).single (s.scope .one source)
    (s.start (tokenize source)) rfl (Nat.le_refl _)
  let answer : Except Failure Tree :=
    match x with
    | .ok root _ => checked source s.config.mode root
    | .error f _ => .error (f.withSource source)
  have hsame : ∀ maxDepth, (progressOf x).deepest ≤ (s.limited maxDepth).config.depthLimit →
      ((s.limited maxDepth).parse source).1 = answer ∧
        ((s.limited maxDepth).parse source).2.last.deepest = (progressOf x).deepest := by
    intro maxDepth hle
    have hrun : Script.single ((s.limited maxDepth).scope .one source)
        ((s.limited maxDepth).start (tokenize source)) = x := (hcut maxDepth).same hle
    rw [parse_eq, parse_last, hrun]
    exact ⟨by cases x <;> rfl, rfl⟩
  refine ⟨answer, (progressOf x).deepest, ⟨(progressOf x).deepest, fun maxDepth hle => ?_⟩,
    fun maxDepth => ⟨hsame maxDepth, fun hlt => ?_⟩⟩
  · exact hsame maxDepth (Nat.le_trans hle (Nat.le_max_left _ _))
  · obtain ⟨e, q, hrun, hcause, hdeepest⟩ := (hcut maxDepth).cut (Nat.zero_le _) hlt
    have hrun : Script.single ((s.limited maxDepth).scope .one source)
        ((s.limited maxDepth).start (tokenize source)) = .error (.error e) q := hrun
    obtain ⟨e', he', hcause'⟩ := parse_error hrun
    refine ⟨⟨e', he', hcause'.trans hcause⟩, ?_⟩
    rw [parse_last, hrun]
    exact hdeepest

/-- Two pairs of parentheses go seven levels deep, so a limit of three cuts them off. -/
theorem parse_only_cut_by_limit_nested :
    ({ config := { stackBudget := 0 } } : Session).config.stackBudget = 0 ∧
    ({ config := { stackBudget := 0 } } : Session).WithoutLimit "SELECT ((1))".toList
      ((({ config := { stackBudget := 0 } } : Session).limited 7).parse
        "SELECT ((1))".toList).1 7 ∧
    (∃ e, ((({ config := { stackBudget := 0 } } : Session).limited 3).parse
        "SELECT ((1))".toList).1 = .error (.error e) ∧ e.cause = .depthExceeded 3) ∧
    ((({ config := { stackBudget := 0 } } : Session).limited 3).parse
      "SELECT ((1))".toList).2.last.deepest = 3 := by
  obtain ⟨answer, deepest, hfree, hcut⟩ :=
    parse_only_cut_by_limit { config := { stackBudget := 0 } } "SELECT ((1))".toList rfl
  have hseven : ((({ config := { stackBudget := 0 } } : Session).limited 8).parse
      "SELECT ((1))".toList).2.last.deepest = 7 := by decide +kernel
  obtain rfl : deepest = 7 := by
    by_cases hle : deepest ≤ 8
    · rw [← ((hcut 8).1 hle).2, hseven]
    · rw [((hcut 8).2 (Nat.lt_of_not_le hle)).2] at hseven
      cases hseven
  obtain ⟨rfl, -⟩ := (hcut 7).1 (by decide)
  exact ⟨rfl, hfree, (hcut 3).2 (by decide)⟩

end Session

end SqlSyntax
