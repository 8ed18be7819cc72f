import SqlSyntax.Proofs.Habits
import SqlSyntax.Proofs.Placement
import SqlSyntax.Proofs.Safety

/-!
# How the ways to parse agree

A script is parsed by the same attempts whether the reader stops at the first error or goes on, so
both find the same statements if there is no error, and else fail first with the same one
(`Script.recover_all`). But each way to parse stands on a stack of its own, so a level may be too
much for one of them only; the ways are compared where that does not happen (`Session.WaysAgree`).
What is left is the order in which a report lists its errors: those of
attempts come before those of rules, and a stable sort by place keeps the order within both, since
they are found in it (`Script.recover_inOrder`).
-/

namespace SqlSyntax

open SqlSyntax.Parser

variable {source : Source} {scope : Scope} {s : Progress} {ts : List Tree} {α : Type}

/-- Where no edit is refused, a run succeeds or fails as its steps do. -/
theorem Parser.run_eq (scope : Scope) {p : Parser α} {post : α → List Tree}
    {fact : α → List Token → Prop}
    (hp : (Law.sound scope.source scope.config).Keeps Law.anything [] p post fact)
    (hs : s.Sound scope.source ts) :
    p.run scope s =
      match p scope s with
      | .ok a s' => ⟨.ok a, s'⟩
      | .error f s' => ⟨.error f, s'⟩ := by
  have hout := hp scope ts s rfl rfl trivial hs
  rcases hrun : p scope s with ⟨a, s'⟩ | ⟨f, s'⟩
  · rw [hrun] at hout
    have hs' : s'.Sound scope.source (post a ++ ts) := hout.2
    exact run_of_ok hrun hs'.accepted
  · rw [hrun] at hout
    obtain ⟨-, left, hs'⟩ := hout
    have hs' : s'.Sound scope.source (left ++ ts) := hs'
    exact run_of_error hrun hs'.accepted

/-! ## Levels that are too much for the stack -/

/-- The same levels below the limit of the configuration are too much for both uses of the
stack. -/
def Config.TreatsAlike (c : Config) (stack stack' : StackUse) : Prop :=
  ∀ taken, ∀ depth < c.depthLimit,
    c.exceedsStack (stack' taken depth) = c.exceedsStack (stack taken depth)

/-- What a run comes to on one stack it comes to on the other. -/
def Parser.SameOn (c : Config) (stack stack' : StackUse) (p : Parser α) (fact : α → Prop) : Prop :=
  ∀ (scope : Scope) (s : Progress), scope.config = c → scope.stack = stack →
    (∀ a r, p scope s = .ok a r → fact a) ∧ p { scope with stack := stack' } s = p scope s

namespace Parser.SameOn

variable {β : Type} {c : Config} {stack stack' : StackUse} {p : Parser α} {fact : α → Prop}

theorem of_blind (hp : Blind p fact) : SameOn c stack stack' p fact :=
  fun scope s _ _ => ⟨fun _ _ => hp.fact, hp.same scope scope.config stack' s⟩

theorem bind {k : α → Parser β} {fact' : β → Prop} (hp : SameOn c stack stack' p fact)
    (hk : ∀ a, fact a → SameOn c stack stack' (k a) fact') :
    SameOn c stack stack' (p >>= k) fact' := by
  intro scope s hconfig hstack
  obtain ⟨hfact, hsame⟩ := hp scope s hconfig hstack
  rcases hrun : p scope s with ⟨a, r⟩ | ⟨f, r⟩
  · rw [bind_ok hrun, bind_ok (hsame.trans hrun)]
    exact hk a (hfact a r hrun) scope r hconfig hstack
  · rw [bind_error hrun, bind_error (hsame.trans hrun)]
    exact ⟨nofun, rfl⟩

theorem weaken {fact' : α → Prop} (hp : SameOn c stack stack' p fact)
    (h : ∀ a, fact a → fact' a) : SameOn c stack stack' p fact' :=
  fun scope s hconfig hstack =>
    (hp scope s hconfig hstack).imp_left fun hfact a r hrun => h a (hfact a r hrun)

theorem ask {k : Config → Parser α} (h : SameOn c stack stack' (k c) fact) :
    SameOn c stack stack' (do k (← read).config) fact := by
  rintro scope s rfl hstack
  exact h scope s rfl hstack

theorem deeper (halike : c.TreatsAlike stack stack') (h : SameOn c stack stack' p fact) :
    SameOn c stack stack' (deeper p) fact := by
  rintro scope s rfl rfl
  obtain ⟨hfact, hsame⟩ := h { scope with depth := scope.depth + 1 }
    { s with deepest := max s.deepest (scope.depth + 1) } rfl rfl
  rw [deeper_run, deeper_run]
  dsimp only
  split
  · exact ⟨nofun, rfl⟩
  · next hlimit =>
    rw [halike s.taken scope.depth (Nat.lt_of_not_le hlimit)]
    split
    · exact ⟨nofun, rfl⟩
    · exact ⟨hfact, hsame⟩

theorem habit (halike : c.TreatsAlike stack stack') :
    Habit c fun _ p fact => SameOn c stack stack' p fact where
  blind := of_blind
  bind := bind
  weaken := weaken
  ask _ := ask
  byTokens h scope s := h s.rest scope s
  within context h scope := h { scope with context := some context }
  deeper := deeper halike

end Parser.SameOn

/-- The ways to parse find the same levels too much for the stack. It is so where the stack is not
checked, where no way exhausts it, and where all ways take the same stack. -/
def Session.WaysAgree (s : Session) : Prop :=
  ∀ way, s.config.TreatsAlike (s.stack .all) (s.stack way)

theorem Session.WaysAgree.of_unchecked {s : Session} (h : s.config.stackBudget = 0) :
    s.WaysAgree := by
  intro way taken depth _
  simp [Config.exceedsStack, h]

theorem Session.WaysAgree.single {s : Session} (h : s.WaysAgree) (source : Source) (p : Progress) :
    Script.single (s.scope .one source) p = Script.single (s.scope .all source) p :=
  ((SameOn.habit (h .one)).single (s.scope .all source) p rfl rfl).2

theorem Session.WaysAgree.all {s : Session} (h : s.WaysAgree) (source : Source) (p : Progress) :
    Script.all (s.scope .script source) p = Script.all (s.scope .all source) p :=
  ((SameOn.habit (h .script)).all (s.scope .all source) p rfl rfl).2

/-! ## One statement and several -/

namespace Script

variable {p q : Progress} {root : Tree}

/-- The only statement, as equations. -/
theorem single_run (scope : Scope) (s : Progress) :
    single scope s =
      if s.pastSemicolons.rest = [] then unexpected "statement" scope s.pastSemicolons
      else
        match nextStatement scope s.pastSemicolons with
        | .error f p => .error f p
        | .ok root p =>
          if p.pastSemicolons.rest = [] then .ok root p.pastSemicolons
          else unexpected "end of statement" scope p.pastSemicolons := by
  have hend : ∀ p : Progress, atEnd scope p = .ok p.rest.isEmpty p := fun _ => rfl
  unfold single
  rw [bind_ok (skipSemicolons_run scope s), bind_ok (hend _)]
  by_cases hrest : s.pastSemicolons.rest = []
  · rw [if_pos hrest, List.isEmpty_iff.2 hrest]
    rfl
  · rw [if_neg hrest, Bool.eq_false_iff.2 fun h => hrest (List.isEmpty_iff.1 h)]
    rcases hstatement : nextStatement scope s.pastSemicolons with ⟨root, p⟩ | ⟨f, p⟩
    · refine (bind_ok hstatement _).trans ?_
      rw [bind_ok (skipSemicolons_run scope p), bind_ok (hend _)]
      by_cases hrest' : p.pastSemicolons.rest = []
      · simp only [hrest', if_true, List.isEmpty_nil]
        rfl
      · simp only [hrest', if_false, Bool.eq_false_iff.2 fun h => hrest' (List.isEmpty_iff.1 h)]
        rfl
    · exact bind_error hstatement _

theorem unexpected_ne_ok (what : String) {a : α} : unexpected what scope s ≠ .ok a p := by
  obtain ⟨_ | ⟨t, rest⟩⟩ := s <;> nofun

theorem after_ne_nil (root : Tree) (r : EStateM.Result Failure Progress (List Tree)) :
    after root r ≠ .ok [] q := by
  rcases r with ⟨roots, q'⟩ | ⟨f, q'⟩ <;> simp [after]

/-- Nothing is collected where only semicolons are left. -/
theorem all_nil_iff :
    all scope p = .ok [] q ↔ p.pastSemicolons.rest = [] ∧ q = p.pastSemicolons := by
  rw [all_run]
  constructor
  · intro h
    rcases hnext : next? scope p with ⟨_ | root, p'⟩ | ⟨f, p'⟩
    · rw [hnext] at h
      injection h with _ hq
      exact next?_eq_none.1 (hq ▸ hnext)
    · rw [hnext] at h
      exact absurd h (after_ne_nil _ _)
    · rw [hnext] at h
      cases h
  · intro h
    rw [next?_eq_none.2 h]

/-- The only statement is the one of a script with one statement. -/
theorem single_iff_all : single scope s = .ok root q ↔ all scope s = .ok [root] q := by
  have hsingle : ∀ (root' : Tree) (p : Progress),
      (if p.pastSemicolons.rest = [] then .ok root' p.pastSemicolons
        else unexpected "end of statement" scope p.pastSemicolons :
          EStateM.Result Failure Progress Tree) = .ok root q ↔
      root' = root ∧ p.pastSemicolons.rest = [] ∧ q = p.pastSemicolons := by
    intro root' p
    by_cases hrest : p.pastSemicolons.rest = []
    · simp [hrest, eq_comm]
    · simp [hrest, unexpected_ne_ok]
  have hall : ∀ (root' : Tree) (p : Progress), after root' (all scope p) = .ok [root] q ↔
      root' = root ∧ p.pastSemicolons.rest = [] ∧ q = p.pastSemicolons := by
    intro root' p
    rw [← all_nil_iff]
    rcases all scope p with ⟨roots, q'⟩ | ⟨f, q'⟩ <;> simp [after, and_assoc]
  rw [single_run, all_run, next?_run]
  by_cases hrest : s.pastSemicolons.rest = []
  · rw [if_pos hrest, if_pos hrest]
    exact iff_of_false (unexpected_ne_ok _) (by simp)
  rw [if_neg hrest, if_neg hrest]
  rcases nextStatement scope s.pastSemicolons with ⟨root', p⟩ | ⟨f, p⟩
  · dsimp only
    rw [hsingle]
    rcases hp : p.rest with _ | ⟨t, rest⟩
    · exact (hall root' p).symm
    · dsimp only
      by_cases ht : t.kind = .semicolon
      · have hpast : p.pastSemicolons = (p.advanced t rest).pastSemicolons := by
          rw [Progress.pastSemicolons, hp, Progress.past, if_pos ht]
          rfl
        rw [if_pos ht, hpast]
        exact (hall root' _).symm
      · have hpast : p.pastSemicolons = p := by
          rw [Progress.pastSemicolons, hp, Progress.past, if_neg ht]
        rw [if_neg ht, hpast, hp]
        simp
  · simp

/-- If all statements are collected, they are what is found; if an error ends that, it is the first
that is found. -/
theorem recover_all (scope : Scope) (hs : s.Sound scope.source ts) :
    match all scope s with
    | .ok roots q => recover scope s = (roots, [], q)
    | .error f _ => ∃ fs, (recover scope s).2.1 = f :: fs := by
  refine attempts_induction (s := s) scope ?done ?found ?failed hs
  case done =>
    intro s p ts hs _ hnext
    rw [all_run, recover_eq scope hs, hnext]
  case found =>
    intro s p ts root hs _ hnext ih
    rw [all_run, recover_eq scope hs, hnext]
    dsimp only
    rcases hall : all scope p with ⟨roots, q⟩ | ⟨f, q⟩
    · rw [hall] at ih
      dsimp only [after] at ih ⊢
      rw [ih]
    · rw [hall] at ih
      exact ih
  case failed =>
    intro s p ts left f hs _ hnext _
    rw [all_run, recover_eq scope hs, hnext]
    exact ⟨_, rfl⟩

end Script

/-! ## Errors and their places -/

/-- Showing the source line of an error changes neither its cause nor its place. -/
theorem withSource_error {e e' : ParseError}
    (h : (Failure.error e).withSource source = .error e') :
    e'.cause = e.cause ∧ e'.location = e.location := by
  unfold Failure.withSource ParseError.withSource? at h
  dsimp only at h
  split at h
  · next hsome =>
    split at hsome
    · injection h with h
      injection hsome with hsome
      rw [← h, ← hsome]
      exact ⟨rfl, rfl⟩
    · obtain ⟨line, -, hline⟩ := Option.map_eq_some_iff.1 hsome
      injection h with h
      rw [← h, ← hline]
      exact ⟨rfl, rfl⟩
  · cases h

theorem exists_of_withSource {f : Failure} {e : ParseError} (h : f.withSource source = .error e) :
    ∃ e₀, f = .error e₀ ∧ e.cause = e₀.cause ∧ e.location = e₀.location := by
  rcases f with e₀ | t | e₀ | e₀
  · exact ⟨e₀, rfl, withSource_error h⟩
  · cases h
  · cases h
  · cases h

namespace Session

theorem errors_eq {fs : List Failure} {es : List ParseError} (h : errors fs = .ok es) :
    fs = es.map .error := by
  induction fs generalizing es with
  | nil =>
    rw [← Except.ok.inj h]
    rfl
  | cons f fs ih =>
    rcases f with e | t | e | e
    · unfold errors at h
      rcases hfs : errors fs with f | es'
      · rw [hfs] at h
        cases h
      · rw [hfs] at h
        rw [← Except.ok.inj h, ih hfs]
        rfl
    · cases h
    · cases h
    · cases h

variable {mode : Mode}

/-- The error of a statement that breaks a rule is at one of its nodes. -/
theorem exists_of_checked {t : Tree} {e : ParseError}
    (h : checked source mode t = .error (.error e)) :
    e.kind = .invalid ∧ ∃ u ∈ t.preorder, e.location = u.head.location := by
  unfold checked validate at h
  split at h
  · cases h
  · next v hv =>
    obtain ⟨u, hu, breach, rfl⟩ := atNode_of_mem_validateAll (List.mem_of_head? hv)
    injection h with h
    obtain ⟨hcause, hlocation⟩ := withSource_error h
    exact ⟨by rw [ParseError.kind, hcause]; rfl, u, hu, hlocation⟩

/-- Either all statements keep the rules, or the first that does not ends the check. -/
theorem mapM_checked_cases (source : Source) (mode : Mode) (roots : List Tree) :
    (roots.mapM (checked source mode) = .ok roots ∧
      (roots.map (checked source mode)).filterMap failure? = [] ∧
      (roots.map (checked source mode)).filterMap Except.toOption = roots) ∨
    ∃ f fs, roots.mapM (checked source mode) = .error f ∧
      (roots.map (checked source mode)).filterMap failure? = f :: fs := by
  induction roots with
  | nil => exact .inl ⟨rfl, rfl, rfl⟩
  | cons t roots ih =>
    rw [List.mapM_cons, List.map_cons]
    rcases ht : checked source mode t with f | u
    · exact .inr ⟨f, _, rfl, rfl⟩
    · obtain rfl := checked_eq ht
      rcases ih with ⟨hok, hnone, hall⟩ | ⟨f, fs, herror, hsome⟩
      · refine .inl ⟨?_, hnone, congrArg (u :: ·) hall⟩
        rw [hok]
        rfl
      · refine .inr ⟨f, fs, ?_, hsome⟩
        rw [herror]
        rfl

theorem exists_of_mem_violations {roots : List Tree} {es : List ParseError}
    (hes : (roots.map (checked source mode)).filterMap failure? = es.map .error) {e : ParseError}
    (he : e ∈ es) : ∃ t ∈ roots, checked source mode t = .error (.error e) := by
  have hmem : Failure.error e ∈ (roots.map (checked source mode)).filterMap failure? :=
    hes ▸ List.mem_map_of_mem he
  obtain ⟨x, hx, hfailure⟩ := List.mem_filterMap.1 hmem
  obtain ⟨t, ht, rfl⟩ := List.mem_map.1 hx
  refine ⟨t, ht, ?_⟩
  rcases hcheck : checked source mode t with f | u
  · rw [hcheck] at hfailure
    rw [Option.some.inj hfailure]
  · rw [hcheck] at hfailure
    cases hfailure

/-- The errors of rules are in the order of their statements. -/
theorem pairwise_violations : ∀ {roots : List Tree} {es : List ParseError},
    roots.Pairwise Script.Before →
    (roots.map (checked source mode)).filterMap failure? = es.map .error →
      es.Pairwise fun e e' => e.location.offset ≤ e'.location.offset
  | [], es, _, hes => by
    rw [List.map_eq_nil_iff.1 hes.symm]
    exact .nil
  | t :: roots, es, hroots, hes => by
    obtain ⟨hbefore, hroots⟩ := List.pairwise_cons.1 hroots
    rw [List.map_cons] at hes
    rcases hcheck : checked source mode t with f | u
    · rw [hcheck] at hes
      obtain ⟨e, es, rfl, rfl, hrest⟩ := List.map_eq_cons_iff.1 hes.symm
      refine .cons (fun e' he' => ?_) (pairwise_violations hroots hrest.symm)
      obtain ⟨t', ht', hcheck'⟩ := exists_of_mem_violations hrest.symm he'
      obtain ⟨-, u, hu, hlocation⟩ := exists_of_checked hcheck
      obtain ⟨-, u', hu', hlocation'⟩ := exists_of_checked hcheck'
      rw [hlocation, hlocation']
      exact hbefore t' ht' u hu u' hu'
    · rw [hcheck] at hes
      exact pairwise_violations hroots hes

/-- The errors of attempts, each with its source line, are in the order in which they were found. -/
theorem pairwise_failures : ∀ {failures : List Failure} {es : List ParseError},
    failures.Pairwise Script.Precedes → failures.map (·.withSource source) = es.map .error →
      es.Pairwise fun e e' => e.location.offset ≤ e'.location.offset
  | [], es, _, hes => by
    rw [List.map_eq_nil_iff.1 hes.symm]
    exact .nil
  | f :: failures, es, hfailures, hes => by
    obtain ⟨hprecedes, hfailures⟩ := List.pairwise_cons.1 hfailures
    obtain ⟨e, es, rfl, he, hrest⟩ := List.map_eq_cons_iff.1 hes.symm
    refine .cons (fun e' he' => ?_) (pairwise_failures hfailures hrest.symm)
    have hmem : Failure.error e' ∈ failures.map (·.withSource source) :=
      hrest ▸ List.mem_map_of_mem he'
    obtain ⟨f', hf', hsource⟩ := List.mem_map.1 hmem
    obtain ⟨e₀, rfl, -, hlocation⟩ := exists_of_withSource he.symm
    obtain ⟨e₀', rfl, -, hlocation'⟩ := exists_of_withSource hsource
    rw [hlocation, hlocation']
    exact hprecedes _ hf' e₀ e₀' rfl rfl

/-- Of errors that are sorted already, a stable sort finds the first one first. -/
theorem find?_mergeSort {es more : List ParseError} {p : ParseError → Bool}
    (hsorted : es.Pairwise fun e e' => e.location.offset ≤ e'.location.offset)
    (hes : ∀ e ∈ es, p e) (hmore : ∀ e ∈ more, p e = false) :
    ((es ++ more).mergeSort fun a b => decide (a.location.offset ≤ b.location.offset)).find? p =
      es.head? := by
  let le : ParseError → ParseError → Bool := fun a b =>
    decide (a.location.offset ≤ b.location.offset)
  have hfilter : (es ++ more).filter p = es := by
    rw [List.filter_append, List.filter_eq_self.2 hes, List.filter_eq_nil_iff.2 fun e he => by
      rw [hmore e he]
      exact Bool.false_ne_true, List.append_nil]
  have hsub : es.Sublist ((es ++ more).mergeSort le) := by
    refine List.sublist_mergeSort (fun a b c hab hbc => ?_) (fun a b => ?_)
      (hsorted.imp fun h => decide_eq_true h) (List.sublist_append_left es more)
    · exact decide_eq_true (Nat.le_trans (of_decide_eq_true hab) (of_decide_eq_true hbc))
    · simp only [le, Bool.or_eq_true, decide_eq_true_eq]
      exact Nat.le_total _ _
  have hperm := (List.mergeSort_perm (es ++ more) le).filter p
  have hsub' := hsub.filter p
  rw [hfilter] at hperm
  rw [List.filter_eq_self.2 hes] at hsub'
  rw [← List.head?_filter, ← hsub'.eq_of_length hperm.length_eq.symm]

/-! ## The calls -/

theorem parseScript_eq (s : Session) (source : Source) :
    (s.parseScript source).1 =
      match Script.all (s.scope .script source) (s.start (tokenize source)) with
      | .ok roots _ => roots.mapM (checked source s.config.mode)
      | .error f _ => .error (f.withSource source) := by
  have hrun := run_eq (s.scope .script source) (Law.all_keeps (Law.sound_allows source s.config)
    (Law.sound_serves source s.config)) (s.start_sound source)
  unfold parseScript finish
  rw [hrun]
  rcases Script.all (s.scope .script source) (s.start (tokenize source)) with
    ⟨roots, q⟩ | ⟨f, q⟩ <;> rfl

theorem parseScript_session {s : Session} {roots : List Tree} {q : Progress}
    (h : Script.all (s.scope .script source) (s.start (tokenize source)) = .ok roots q) :
    (s.parseScript source).2 = { s with last := q } := by
  have hrun := run_eq (s.scope .script source) (Law.all_keeps (Law.sound_allows source s.config)
    (Law.sound_serves source s.config)) (s.start_sound source)
  unfold parseScript finish
  rw [hrun, h]

theorem parse_eq (s : Session) (source : Source) :
    (s.parse source).1 =
      match Script.single (s.scope .one source) (s.start (tokenize source)) with
      | .ok root _ => checked source s.config.mode root
      | .error f _ => .error (f.withSource source) := by
  have hrun := run_eq (s.scope .one source) (Law.single_keeps (Law.sound_allows source s.config)
    (Law.sound_serves source s.config)) (s.start_sound source)
  unfold parse parseTokens finish
  rw [hrun]
  rcases Script.single (s.scope .one source) (s.start (tokenize source)) with
    ⟨root, q⟩ | ⟨f, q⟩ <;> rfl

theorem mapM_checked_singleton {t u : Tree} :
    [t].mapM (checked source mode) = .ok [u] ↔ checked source mode t = .ok u := by
  rw [List.mapM_cons, List.mapM_nil]
  rcases checked source mode t with f | v
  · exact ⟨nofun, nofun⟩
  · show Except.ok [v] = Except.ok [u] ↔ _
    simp

/-- A parse of one statement is a parse of a script that has just one. -/
theorem parse_iff_parseScript {s : Session} (hways : s.WaysAgree) (source : Source) (t : Tree) :
    (s.parse source).1 = .ok t ↔ (s.parseScript source).1 = .ok [t] := by
  rw [parse_eq, parseScript_eq, hways.single, hways.all]
  constructor
  · intro h
    rcases hsingle : Script.single (s.scope .all source) (s.start (tokenize source)) with
      ⟨root, q⟩ | ⟨f, q⟩
    · rw [hsingle] at h
      rw [Script.single_iff_all.1 hsingle]
      exact mapM_checked_singleton.2 h
    · rw [hsingle] at h
      cases h
  · intro h
    rcases hall : Script.all (s.scope .all source) (s.start (tokenize source)) with
      ⟨roots, q⟩ | ⟨f, q⟩
    · rw [hall] at h
      obtain rfl := mapM_checked_eq h
      rw [Script.single_iff_all.2 hall]
      exact mapM_checked_singleton.1 h
    · rw [hall] at h
      cases h

/-- What a report tells of the statements and failures that were found: it lists the errors of the
attempts and those of the rules, each kind in the order in which it was found. -/
structure Tells (source : Source) (mode : Mode) (roots : List Tree) (failures : List Failure)
    (r : Report) (tried broken : List ParseError) : Prop where
  statements : r.statements = (roots.map (checked source mode)).filterMap Except.toOption
  errors : r.errors = (tried ++ broken).mergeSort
    fun a b => decide (a.location.offset ≤ b.location.offset)
  attempts : failures.map (·.withSource source) = tried.map .error
  rules : (roots.map (checked source mode)).filterMap failure? = broken.map .error
  triedSorted : tried.Pairwise fun e e' => e.location.offset ≤ e'.location.offset
  brokenSorted : broken.Pairwise fun e e' => e.location.offset ≤ e'.location.offset
  triedKind : ∀ e ∈ tried, e.kind ≠ .invalid
  brokenKind : ∀ e ∈ broken, e.kind = .invalid

theorem Tells.errors_nil_iff {roots : List Tree} {failures : List Failure} {r : Report}
    {tried broken : List ParseError} (h : Tells source mode roots failures r tried broken) :
    r.errors = [] ↔ tried = [] ∧ broken = [] := by
  rw [h.errors, ← List.length_eq_zero_iff, List.length_mergeSort, List.length_eq_zero_iff,
    List.append_eq_nil_iff]

theorem exists_tells (s : Session) (source : Source) (hfits : source.Fits) :
    ∃ r tried broken, (s.parseAll source).1 = .ok r ∧
      Tells source s.config.mode
        (Script.recover (s.scope .all source) (s.start (tokenize source))).1
        (Script.recover (s.scope .all source) (s.start (tokenize source))).2.1 r tried broken := by
  obtain ⟨⟨r, hr, -⟩, -⟩ := s.parseAll_isError source hfits
  have hinOrder := Script.recover_inOrder (s.scope .all source) (s.start_sound source)
    (tokenize_pairwise source) fun _ => start_le_of_mem_tokenize
  rw [parseAll_eq] at hr ⊢
  dsimp only [reportOf] at hr ⊢
  generalize Script.recover (s.scope .all source) (s.start (tokenize source)) = found
    at hr hinOrder ⊢
  rcases herrors : Session.errors (found.2.1.map (·.withSource source) ++
      (found.1.map (checked source s.config.mode)).filterMap failure?) with f | es
  · rw [herrors] at hr
    cases hr
  · obtain ⟨tried, broken, rfl, htried, hbroken⟩ :=
      List.map_eq_append_iff.1 (errors_eq herrors).symm
    refine ⟨_, tried, broken, rfl, rfl, rfl, htried.symm, hbroken.symm,
      pairwise_failures hinOrder.failuresSorted htried.symm,
      pairwise_violations hinOrder.rootsSorted hbroken.symm, fun e he => ?_, fun e he => ?_⟩
    · have hmem : Failure.error e ∈ found.2.1.map (·.withSource source) :=
        htried ▸ List.mem_map_of_mem he
      obtain ⟨f, hf, hsource⟩ := List.mem_map.1 hmem
      obtain ⟨e₀, rfl, hcause, -⟩ := exists_of_withSource hsource
      rw [ParseError.kind, hcause]
      exact hinOrder.kinds _ hf e₀ rfl
    · obtain ⟨t, -, hcheck⟩ := exists_of_mem_violations hbroken.symm he
      exact (exists_of_checked hcheck).1

theorem parseScript_ok_iff {s : Session} (hways : s.WaysAgree) (source : Source)
    (hfits : source.Fits) (ts : List Tree) :
    (s.parseScript source).1 = .ok ts ↔
      ∃ r, (s.parseAll source).1 = .ok r ∧ r.errors = [] ∧ r.statements = ts := by
  obtain ⟨r, tried, broken, hr, htells⟩ := s.exists_tells source hfits
  have hrecover := Script.recover_all (s.scope .all source) (s.start_sound source)
  have hright : (∃ r', (s.parseAll source).1 = .ok r' ∧ r'.errors = [] ∧ r'.statements = ts) ↔
      r.errors = [] ∧ r.statements = ts := by
    rw [hr]
    simp
  rw [hright, htells.errors_nil_iff, htells.statements, parseScript_eq, hways.all]
  rcases hall : Script.all (s.scope .all source) (s.start (tokenize source)) with
    ⟨roots, q⟩ | ⟨f, q⟩
  · rw [hall] at hrecover
    dsimp only at hrecover
    rw [hrecover] at htells ⊢
    have htried : tried = [] := List.map_eq_nil_iff.1 htells.attempts.symm
    rcases mapM_checked_cases source s.config.mode roots with
      ⟨hok, hnone, hkept⟩ | ⟨f, fs, herror, hsome⟩
    · have hbroken : broken = [] := List.map_eq_nil_iff.1 (htells.rules.symm.trans hnone)
      simp [hok, htried, hbroken, hkept]
    · have hbroken : broken ≠ [] := by
        rintro rfl
        have hnil := htells.rules.symm.trans hsome
        cases hnil
      simp [herror, hbroken]
  · rw [hall] at hrecover
    obtain ⟨fs, hfailures⟩ := hrecover
    have htried : tried ≠ [] := by
      rintro rfl
      have hnil := htells.attempts
      rw [hfailures] at hnil
      cases hnil
    simp [htried]

/-- A script that fails does so with an error that a report on it lists before others of its sort,
and before all others if it is one of a rule. -/
theorem parseScript_error {s : Session} (hways : s.WaysAgree) (source : Source)
    (hfits : source.Fits) (f : Failure) (h : (s.parseScript source).1 = .error f) :
    ∃ e r, f = .error e ∧ (s.parseAll source).1 = .ok r ∧
      (e.kind ≠ .invalid → r.errors.find? (·.kind ≠ .invalid) = some e) ∧
      (e.kind = .invalid → r.errors.head? = some e) := by
  obtain ⟨r, tried, broken, hr, htells⟩ := s.exists_tells source hfits
  have hrecover := Script.recover_all (s.scope .all source) (s.start_sound source)
  rw [parseScript_eq, hways.all] at h
  rcases hall : Script.all (s.scope .all source) (s.start (tokenize source)) with
    ⟨roots, q⟩ | ⟨f', q⟩
  · rw [hall] at h hrecover
    dsimp only at h hrecover
    rw [hrecover] at htells
    have htried : tried = [] := List.map_eq_nil_iff.1 htells.attempts.symm
    rcases mapM_checked_cases source s.config.mode roots with
      ⟨hok, -, -⟩ | ⟨f', fs, herror, hsome⟩
    · rw [hok] at h
      cases h
    · rw [herror] at h
      obtain rfl := Except.error.inj h
      obtain ⟨e, rest, rfl, rfl, -⟩ := List.map_eq_cons_iff.1 (htells.rules.symm.trans hsome)
      have hsorted : r.errors = e :: rest := by
        rw [htells.errors, htried, List.nil_append]
        exact List.mergeSort_of_pairwise (htells.brokenSorted.imp fun h => decide_eq_true h)
      refine ⟨e, r, rfl, hr, fun hkind => ?_, fun _ => ?_⟩
      · exact absurd (htells.brokenKind e List.mem_cons_self) hkind
      · rw [hsorted, List.head?_cons]
  · rw [hall] at h hrecover
    obtain ⟨fs, hfailures⟩ := hrecover
    have hattempts := htells.attempts
    rw [hfailures, List.map_cons] at hattempts
    obtain ⟨e, rest, rfl, he, -⟩ := List.map_eq_cons_iff.1 hattempts.symm
    have hkind := htells.triedKind e List.mem_cons_self
    refine ⟨e, r, (Except.error.inj h).symm.trans he.symm, hr, fun _ => ?_, fun h => absurd h hkind⟩
    rw [htells.errors, find?_mergeSort htells.triedSorted]
    · rfl
    · exact fun e he => by simp [htells.triedKind e he]
    · exact fun e he => by simp [htells.brokenKind e he]

/-- If the ways to parse find the same levels too much for the stack, a parse of a script succeeds
if and only if a report on it has no errors. Both then have the same trees, and the sessions end
alike, with the same nodes, depth and bytes. A parse of one statement succeeds with a tree if and
only if the script has this one statement. If the parse of a script fails, then with the first error
of the report that is none of a rule, and with the first of all if it fails with one of a rule. -/
theorem ways_to_parse_agree (s : Session) (source : Source) (hfits : source.Fits)
    (hways : s.WaysAgree) :
    (∀ ts, (s.parseScript source).1 = .ok ts ↔
      ∃ r, (s.parseAll source).1 = .ok r ∧ r.errors = [] ∧ r.statements = ts) ∧
    (∀ ts, (s.parseScript source).1 = .ok ts → (s.parseScript source).2 = (s.parseAll source).2) ∧
    (∀ t, (s.parse source).1 = .ok t ↔ (s.parseScript source).1 = .ok [t]) ∧
    ∀ f, (s.parseScript source).1 = .error f → ∃ e r, f = .error e ∧
      (s.parseAll source).1 = .ok r ∧
      (e.kind ≠ .invalid → r.errors.find? (·.kind ≠ .invalid) = some e) ∧
      (e.kind = .invalid → r.errors.head? = some e) := by
  refine ⟨parseScript_ok_iff hways source hfits, fun ts h => ?_, parse_iff_parseScript hways source,
    parseScript_error hways source hfits⟩
  have hrecover := Script.recover_all (s.scope .all source) (s.start_sound source)
  rw [parseScript_eq, hways.all] at h
  rcases hall : Script.all (s.scope .all source) (s.start (tokenize source)) with
    ⟨roots, q⟩ | ⟨f, q⟩
  · rw [hall] at hrecover
    dsimp only at hrecover
    rw [parseScript_session ((hways.all source _).trans hall), parseAll_eq, hrecover]
  · rw [hall] at h
    cases h

/-- A script fails with the error of its second statement; a report on it has the others besides. -/
theorem ways_to_parse_agree_select :
    Source.Fits "SELECT 1; SELECT (; COMMIT".toList ∧
    ∃ e r, (({} : Session).parseScript "SELECT 1; SELECT (; COMMIT".toList).1 =
        .error (.error e) ∧
      (({} : Session).parseAll "SELECT 1; SELECT (; COMMIT".toList).1 = .ok r ∧
      r.statements.length = 2 ∧ r.errors.find? (·.kind ≠ .invalid) = some e := by
  have hfits : Source.Fits "SELECT 1; SELECT (; COMMIT".toList := by
    unfold Source.Fits
    decide +kernel
  obtain ⟨-, -, -, herror⟩ :=
    ({} : Session).ways_to_parse_agree "SELECT 1; SELECT (; COMMIT".toList hfits fun _ _ _ _ => rfl
  have hcount : (({} : Session).parseAll "SELECT 1; SELECT (; COMMIT".toList).1.toOption.map
      (fun r => r.statements.length) = some 2 := by decide +kernel
  have hscript : (errors (failure? (({} : Session).parseScript
      "SELECT 1; SELECT (; COMMIT".toList).1).toList).toOption.map (·.map ParseError.kind) =
        some [.syntaxError] := by decide +kernel
  rcases hf : (({} : Session).parseScript "SELECT 1; SELECT (; COMMIT".toList).1 with f | ts
  · obtain ⟨e, r, rfl, hr, hfirst, -⟩ := herror f hf
    rw [hf] at hscript
    rw [hr] at hcount
    have hkind : e.kind = .syntaxError := (List.cons.inj (Option.some.inj hscript)).1
    exact ⟨hfits, e, r, rfl, hr, Option.some.inj hcount, hfirst (by rw [hkind]; decide)⟩
  · rw [hf] at hscript
    cases hscript

end Session

end SqlSyntax
