import SqlSyntax.Proofs.Layout.Nesting

/-!
# The attempts of a report

A report on a script tells what came of one attempt at a statement after another
(`Script.Attempts`). Each of them takes a token, also one whose error is at its first token, since
tokens are skipped behind it; so there are no more attempts than tokens, and they end where no token
is left. The statements stand one behind the other, since each lies between the tokens that its
attempt took. A statement that breaks a rule becomes an error of its own attempt, so a report has
one statement or one error for each attempt (`Session.told`), and only the errors are moved when
they are sorted.
-/

namespace SqlSyntax

open SqlSyntax.Parser

variable {source : Source} {scope : Scope} {s p q : Progress} {ts : List Tree} {root : Tree}
  {outcomes : List (Except Failure Tree)}

namespace Script

/-- Attempts at statements, each with what came of it, up to one that finds none. Behind an error
tokens are skipped before the next attempt. -/
inductive Attempts (scope : Scope) : Progress → List (Except Failure Tree) → Progress → Prop
  | done {s p : Progress} (hnext : next? scope s = .ok none p) :
    Attempts scope s [] p
  | found {s p q : Progress} {root : Tree} {outcomes : List (Except Failure Tree)}
    (hnext : next? scope s = .ok (some root) p)
    (hlater : Attempts scope p outcomes q) :
    Attempts scope s (.ok root :: outcomes) q
  | failed {s p r q : Progress} {f : Failure} {outcomes : List (Except Failure Tree)}
    (hnext : next? scope s = .error f p)
    (hskip : synchronize scope p = .ok () r)
    (hlater : Attempts scope r outcomes q) :
    Attempts scope s (.error f :: outcomes) q

/-- What a script is found to have is what comes of its attempts. -/
theorem exists_attempts (scope : Scope) (hs : s.Sound scope.source ts) :
    ∃ outcomes q, Attempts scope s outcomes q ∧ recover scope s =
      (outcomes.filterMap Except.toOption, outcomes.filterMap Session.failure?, q) := by
  refine attempts_induction (s := s) scope ?done ?found ?failed hs
  case done =>
    intro s p ts hs _ hnext
    exact ⟨[], p, .done hnext, by rw [recover_eq scope hs, hnext]; rfl⟩
  case found =>
    intro s p ts root hs _ hnext ih
    obtain ⟨outcomes, q, hlater, heq⟩ := ih
    exact ⟨.ok root :: outcomes, q, .found hnext hlater, by
      rw [recover_eq scope hs, hnext]
      dsimp only
      rw [heq]
      rfl⟩
  case failed =>
    intro s p ts left f hs _ hnext ih
    obtain ⟨outcomes, q, hlater, heq⟩ := ih
    exact ⟨.error f :: outcomes, q, .failed hnext rfl hlater, by
      rw [recover_eq scope hs, hnext]
      dsimp only
      rw [heq]
      rfl⟩

/-- A tree lies behind the start of a token that it was read from, and before the tokens behind
those. -/
theorem between_of_laid {v r : List Token} (hlaid : root.Laid .grown v)
    (hspread : Spread (v ++ r)) :
    (∃ x ∈ v, x.span.start ≤ root.start) ∧ root.start < root.stop ∧
      ∀ y ∈ r, root.stop ≤ y.span.start := by
  have hheld := hlaid.held hspread.left
  obtain ⟨x, w, rfl⟩ := List.exists_cons_of_ne_nil hlaid.ne_nil
  refine ⟨⟨x, List.mem_cons_self, hheld.start⟩, hheld.filled, fun y hy => ?_⟩
  have hlast := (List.pairwise_append.1 hspread.ordered).2.2 _
    (List.getLast_mem (List.cons_ne_nil x w)) y hy
  refine hheld.stop.trans ?_
  simpa only [stopOf, List.getLast?_eq_some_getLast (List.cons_ne_nil x w), Option.map_some,
    Option.getD_some] using hlast

/-- A statement that is found lies between the tokens ahead of it and those behind it. -/
theorem next?_between (hspread : Spread s.rest) (hhonest : ∀ x ∈ s.rest, x.Honest)
    (h : next? scope s = .ok (some root) p) :
    (∃ x ∈ s.rest, x.span.start ≤ root.start) ∧ root.start < root.stop ∧
      ∀ y ∈ p.rest, root.stop ≤ y.span.start := by
  have hpast := rest_pastSemicolons s
  have hsub := List.dropWhile_sublist (fun x : Token => x.kind == .semicolon) (l := s.rest)
  rw [← hpast] at hsub
  have hstand : s.pastSemicolons.Stand [] s.pastSemicolons.rest :=
    ⟨rfl, fun x hx => hhonest x (hsub.subset hx), fun h => absurd rfl h⟩
  rw [next?_run] at h
  split at h
  · cases h
  split at h
  · cases h
  next root' p' hstatement =>
  obtain ⟨v, r, htook, hlaid⟩ := nextStatement_laid _ rfl hstand hstatement
  have hahead : s.pastSemicolons.rest = v ++ r := htook.ahead
  obtain ⟨⟨x, hx, hstart⟩, hfilled, hstop⟩ :=
    between_of_laid hlaid.laid (hahead ▸ hspread.sublist hsub)
  have hmem : x ∈ s.rest := hsub.subset (hahead ▸ List.mem_append_left r hx)
  split at h
  · next hend =>
    cases h
    exact ⟨⟨x, hmem, hstart⟩, hfilled, by simp [hend]⟩
  · next t rest htokens =>
    rw [htook.rest] at htokens
    split at h
    -- the semicolon behind the statement is taken with it
    · cases h
      exact ⟨⟨x, hmem, hstart⟩, hfilled, fun y hy => hstop y (htokens ▸ List.mem_cons_of_mem t hy)⟩
    · cases h

namespace Attempts

theorem length_le (h : Attempts scope s outcomes q) :
    outcomes.length ≤ s.rest.length := by
  induction h with
  | done => exact Nat.zero_le _
  | found hnext _ ih => exact ih.trans_lt (next?_takes hnext)
  | failed hnext hskip _ ih =>
    cases hskip
    exact ih.trans_lt (length_synchronized_lt hnext)

theorem rest_eq_nil (h : Attempts scope s outcomes q) : q.rest = [] := by
  induction h with
  | done hnext =>
    obtain ⟨hrest, rfl⟩ := next?_eq_none.1 hnext
    exact hrest
  | found _ _ ih => exact ih
  | failed _ _ _ ih => exact ih

/-- The statements that are found stand one behind the other, among the tokens ahead. -/
theorem apart (h : Attempts scope s outcomes q) (hspread : Spread s.rest)
    (hhonest : ∀ x ∈ s.rest, x.Honest) :
    (outcomes.filterMap Except.toOption).Pairwise (fun t u => t.stop ≤ u.start) ∧
    ∀ t ∈ outcomes.filterMap Except.toOption,
      t.start < t.stop ∧ ∃ x ∈ s.rest, x.span.start ≤ t.start := by
  induction h with
  | done => exact ⟨.nil, nofun⟩
  | @found s p q root outcomes hnext hlater ih =>
    have hsuffix := suffix_of_next?_ok hnext
    obtain ⟨hstart, hfilled, hbehind⟩ := next?_between hspread hhonest hnext
    obtain ⟨hpairwise, hamong⟩ :=
      ih (hspread.sublist hsuffix.sublist) fun x hx => hhonest x (hsuffix.subset hx)
    refine ⟨List.pairwise_cons.2 ⟨fun u hu => ?_, hpairwise⟩,
      List.forall_mem_cons.2 ⟨⟨hfilled, hstart⟩, fun u hu => ?_⟩⟩
    · obtain ⟨-, y, hy, hle⟩ := hamong u hu
      exact (hbehind y hy).trans hle
    · obtain ⟨hfilled, y, hy, hle⟩ := hamong u hu
      exact ⟨hfilled, y, hsuffix.subset hy, hle⟩
  | @failed s p r q f outcomes hnext hskip hlater ih =>
    cases hskip
    have hsuffix := (suffix_synchronized p).trans (suffix_of_next?_error hnext)
    obtain ⟨hpairwise, hamong⟩ :=
      ih (hspread.sublist hsuffix.sublist) fun x hx => hhonest x (hsuffix.subset hx)
    refine ⟨hpairwise, fun u hu => ?_⟩
    obtain ⟨hfilled, y, hy, hle⟩ := hamong u hu
    exact ⟨hfilled, y, hsuffix.subset hy, hle⟩

end Attempts

end Script

/-! ## What a report tells -/

namespace Session

variable {mode : Mode}

/-- What a report tells of an attempt: the statement if it keeps the rules, or else one error, of
the attempt or of the first rule that is broken. -/
def told (source : Source) (mode : Mode) (outcome : Except Failure Tree) : Except Failure Tree :=
  (outcome.mapError (·.withSource source)).bind (checked source mode)

theorem length_outcomes {α : Type} (xs : List (Except Failure α)) :
    (xs.filterMap Except.toOption).length + (xs.filterMap failure?).length = xs.length := by
  induction xs with
  | nil => rfl
  | cons x xs ih =>
    rcases x with f | a
    · exact congrArg (· + 1) ih
    · exact (Nat.add_right_comm _ _ _).trans (congrArg (· + 1) ih)

theorem statements_told (source : Source) (mode : Mode) (outcomes : List (Except Failure Tree)) :
    (outcomes.map (told source mode)).filterMap Except.toOption =
      ((outcomes.filterMap Except.toOption).map (checked source mode)).filterMap
        Except.toOption := by
  induction outcomes with
  | nil => rfl
  | cons outcome outcomes ih =>
    rcases outcome with f | t
    · exact ih
    · show (checked source mode t :: outcomes.map (told source mode)).filterMap _ =
        (checked source mode t :: (outcomes.filterMap _).map (checked source mode)).filterMap _
      rw [List.filterMap_cons, List.filterMap_cons, ih]

/-- The errors of attempts and those of rules, wherever they were found. -/
theorem failures_told (source : Source) (mode : Mode) (outcomes : List (Except Failure Tree)) :
    ((outcomes.map (told source mode)).filterMap failure?).Perm
      ((outcomes.filterMap failure?).map (·.withSource source) ++
        ((outcomes.filterMap Except.toOption).map (checked source mode)).filterMap failure?) := by
  induction outcomes with
  | nil => exact .refl _
  | cons outcome outcomes ih =>
    rcases outcome with f | t
    · exact ih.cons _
    · show ((checked source mode t :: outcomes.map (told source mode)).filterMap failure?).Perm
        (_ ++ (checked source mode t :: (outcomes.filterMap _).map (checked source mode)).filterMap
          failure?)
      rcases checked source mode t with f | u
      · exact (ih.cons f).trans List.perm_middle.symm
      · exact ih

theorem Tells.sorted {roots : List Tree} {failures : List Failure} {r : Report}
    {tried broken : List ParseError} (h : Tells source mode roots failures r tried broken) :
    r.errors.Pairwise fun e e' => e.location.offset ≤ e'.location.offset := by
  rw [h.errors]
  refine (List.pairwise_mergeSort (fun a b c hab hbc => ?_) (fun a b => ?_) _).imp of_decide_eq_true
  · exact decide_eq_true ((of_decide_eq_true hab).trans (of_decide_eq_true hbc))
  · rw [Bool.or_eq_true, decide_eq_true_eq, decide_eq_true_eq]
    exact Nat.le_total _ _

/-- Sorting the errors loses none of them. -/
theorem length_errors_reportOf (source : Source) (mode : Mode) (roots : List Tree)
    (failures : List Failure) :
    (reportOf source mode roots failures).toOption.map (fun r => r.errors.length) =
      (errors (failures.map (·.withSource source) ++
        (roots.map (checked source mode)).filterMap failure?)).toOption.map List.length := by
  unfold reportOf
  rcases errors _ with f | es
  · rfl
  · exact congrArg some (List.length_mergeSort es)

/-- A report on a script comes from attempts that end with no token left, no more than there are
tokens. It tells of each attempt one statement or one error: the statements in the order of the
attempts, each over some of the source and behind the one before it, and the errors in the order of
their places. -/
theorem parseAll_progresses (s : Session) (source : Source) (hfits : source.Fits) :
    ∃ r outcomes q, (s.parseAll source).1 = .ok r ∧
      Script.Attempts (s.scope .all source) (s.start (tokenize source)) outcomes q ∧ q.rest = [] ∧
      r.statements = (outcomes.map (told source s.config.mode)).filterMap Except.toOption ∧
      (r.errors.map Failure.error).Perm
        ((outcomes.map (told source s.config.mode)).filterMap failure?) ∧
      r.statements.length + r.errors.length = outcomes.length ∧
      outcomes.length ≤ (tokenize source).length ∧
      (∀ t ∈ r.statements, t.head.span.start < t.head.span.stop) ∧
      r.statements.Pairwise (fun t u => t.head.span.stop ≤ u.head.span.start) ∧
      r.errors.Pairwise fun e e' => e.location.offset ≤ e'.location.offset := by
  obtain ⟨r, tried, broken, hr, htells⟩ := s.exists_tells source hfits
  obtain ⟨outcomes, q, hattempts, hrecover⟩ :=
    Script.exists_attempts (s.scope .all source) (s.start_sound source)
  rw [hrecover] at htells
  have hstatements : r.statements =
      (outcomes.map (told source s.config.mode)).filterMap Except.toOption :=
    htells.statements.trans (statements_told source s.config.mode outcomes).symm
  have herrors : (r.errors.map Failure.error).Perm
      ((outcomes.map (told source s.config.mode)).filterMap failure?) := by
    have htold := failures_told source s.config.mode outcomes
    rw [htells.attempts, htells.rules, ← List.map_append] at htold
    rw [htells.errors]
    exact ((List.mergeSort_perm _ _).map _).trans htold.symm
  obtain ⟨hpairwise, hamong⟩ := hattempts.apart (spread_tokenize source)
    fun _ => honest_of_mem_tokenize
  have hsub : r.statements.Sublist (outcomes.filterMap Except.toOption) :=
    htells.statements ▸ filterMap_checked_sublist source s.config.mode _
  have hlength : r.statements.length + r.errors.length = outcomes.length := by
    have hlength := length_outcomes (outcomes.map (told source s.config.mode))
    rwa [← hstatements, ← herrors.length_eq, List.length_map, List.length_map] at hlength
  exact ⟨r, outcomes, q, hr, hattempts, hattempts.rest_eq_nil, hstatements, herrors, hlength,
    hattempts.length_le, fun t ht => (hamong t (hsub.subset ht)).1, hpairwise.sublist hsub,
    htells.sorted⟩

/-- Of five attempts two find statements. Three errors are left: a rule that is broken, a word where
a statement should begin, and the end of the source. -/
theorem parseAll_progresses_mixed :
    let text := "SELECT 1; VALUES (1), (2, 3); x; COMMIT; SELECT ("
    Source.Fits text.toList ∧ ∃ r outcomes q, (({} : Session).parseAll text.toList).1 = .ok r ∧
      Script.Attempts (({} : Session).scope .all text.toList)
        (({} : Session).start (tokenize text.toList)) outcomes q ∧
      r.statements.length = 2 ∧ r.errors.length = 3 ∧ outcomes.length = 5 ∧
      r.errors.Pairwise fun e e' => e.location.offset ≤ e'.location.offset := by
  intro text
  have hfits : Source.Fits text.toList := by
    unfold Source.Fits
    decide +kernel
  have hcount : (({} : Session).parseAll text.toList).1.toOption.map
      (fun r => r.statements.length) = some 2 := by decide +kernel
  obtain ⟨r, outcomes, q, hr, hattempts, -, -, -, hlength, -, -, -, hsorted⟩ :=
    ({} : Session).parseAll_progresses text.toList hfits
  have hcountErrors : (({} : Session).parseAll text.toList).1.toOption.map
      (fun r => r.errors.length) = some 3 := by
    rw [parseAll_eq]
    dsimp only
    rw [length_errors_reportOf]
    decide +kernel
  rw [hr] at hcount hcountErrors
  have hstatements : r.statements.length = 2 := Option.some.inj hcount
  have herrors : r.errors.length = 3 := Option.some.inj hcountErrors
  exact ⟨hfits, r, outcomes, q, hr, hattempts, hstatements, herrors, by omega, hsorted⟩

end Session

end SqlSyntax
