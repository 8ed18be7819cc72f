import SqlSyntax.Proofs.Attempts
import SqlSyntax.Proofs.Depth.Loops
import SqlSyntax.Proofs.Limits

/-!
# Nesting is bounded by the tokens

Each call of a production by another has cost a token (`Parser.Confined`). So calls go no deeper
than there are tokens, and what stands below that depth is never run (`Nested.confined_above`).
Without tokens a production opens its own level and fails, and each token adds at most two levels.
So a run over `n` tokens opens at most `2 * n + 1` levels, whatever is allowed, and where so many
are allowed, none is refused for its depth (`Session.nesting_bounded`).
-/

namespace SqlSyntax

open SqlSyntax.Parser

variable {α β : Type} {n levels more : Nat}

/-! ## Calls of one another -/

/-- Parsers that fail at once where there are no tokens. -/
theorem Parser.confined_of_nil {p p' : Parser α} (what : String)
    (h : ∀ scope s, s.rest = [] → p scope s = unexpected what scope s)
    (h' : ∀ scope s, s.rest = [] → p' scope s = unexpected what scope s) :
    Confined 0 levels 0 p p' where
  run scope s hs := by
    have hnil : s.rest = [] := List.length_eq_zero_iff.1 (Nat.le_zero.1 hs)
    have hfail : Confined 0 levels 0 (unexpected what : Parser α) (unexpected what) :=
      inferInstance
    rw [h scope s hnil, h' scope s hnil]
    exact hfail.run scope s hs

/-- The token that is yet to be taken is one of those ahead. -/
theorem Parser.Confined.whole {p p' : Parser α} (h : Confined n levels 1 p p') :
    Confined (n + 1) levels 0 p p' := ⟨h.run⟩

namespace Nested

/-- The productions with calls of one another up to a depth, and with others in the place of those
that are called there. -/
def above (bottom : Nested) : Nat → Nested
  | 0 => bottom
  | k + 1 => ⟨SqlSyntax.expression (bottom.above k), SqlSyntax.query (bottom.above k),
      SqlSyntax.joinTree (bottom.above k), SqlSyntax.statement (bottom.above k)⟩

theorem upTo_eq_above (k : Nat) : upTo k = (upTo 0).above k := by
  induction k with
  | zero => rfl
  | succ k ih => rw [upTo_succ, ih, above]

/-- Without tokens each production opens its own level and fails. -/
theorem confined_above_zero (bottom bottom' : Nested) (k k' : Nat) :
    Nested.Confined 0 1 (bottom.above (k + 1)) (bottom'.above (k' + 1)) where
  expression power := by
    refine Confined.deeper (h := confined_of_nil "expression" ?_ ?_) <;>
    · rintro scope ⟨_ | ⟨t, rest⟩⟩ ⟨⟩
      rfl
  query := by
    refine Confined.deeper (h := confined_of_nil "SELECT" ?_ ?_) <;>
    · rintro scope ⟨_ | ⟨t, rest⟩⟩ ⟨⟩
      rfl
  joinTree := by
    refine Confined.deeper (h := confined_of_nil "table" ?_ ?_) <;>
    · rintro scope ⟨_ | ⟨t, rest⟩⟩ ⟨⟩
      rfl
  statement := by
    refine Confined.deeper (h := confined_of_nil "statement" ?_ ?_) <;>
    · rintro scope ⟨_ | ⟨t, rest⟩⟩ ⟨⟩
      rfl

/-- With fewer tokens than calls, the calls never come to the bottom, and they open at most two
levels for each token and one more. -/
theorem confined_above (bottom bottom' : Nested) : ∀ {n k k' : Nat}, n < k → n < k' →
    Nested.Confined n (2 * n + 1) (bottom.above k) (bottom'.above k')
  | 0, k + 1, k' + 1, _, _ => confined_above_zero bottom bottom' k k'
  | n + 1, k + 1, k' + 1, hk, hk' => by
    -- the calls below have one token less ahead of them
    have ih := confined_above bottom bottom' (Nat.lt_of_succ_lt_succ hk)
      (Nat.lt_of_succ_lt_succ hk')
    exact {
      expression := fun power => (expression_confined power).whole
      query := (query_confined.deepen (Nat.le_succ _)).whole
      joinTree := (joinTree_confined.deepen (Nat.le_succ _)).whole
      statement := statement_confined.whole }

theorem forTokens_confined (bottom : Nested) {n k m : Nat} (hk : n < k) (hm : n ≤ m) :
    Nested.Confined n (2 * n + 1) (forTokens m) (bottom.above k) := by
  unfold forTokens
  rw [upTo_eq_above]
  exact confined_above _ _ (Nat.lt_succ_of_le hm) hk

/-- At a point of a run the productions run as others do. -/
structure RunsAs (self self' : Nested) (scope : Scope) (p : Progress) : Prop where
  expression : ∀ power, self.expression power scope p = self'.expression power scope p
  query : self.query scope p = self'.query scope p
  joinTree : self.joinTree scope p = self'.joinTree scope p
  statement : self.statement scope p = self'.statement scope p

theorem forTokens_runsAs (bottom : Nested) {k : Nat} {p : Progress} (hk : p.rest.length < k)
    (scope : Scope) : (forTokens p.rest.length).RunsAs (bottom.above k) scope p := by
  have hconfined := forTokens_confined bottom hk (Nat.le_refl _)
  have hle := Nat.le_refl p.rest.length
  exact {
    expression := fun power => ((hconfined.expression power).run scope p hle).1.symm
    query := (hconfined.query.run scope p hle).1.symm
    joinTree := (hconfined.joinTree.run scope p hle).1.symm
    statement := (hconfined.statement.run scope p hle).1.symm }

end Nested

/-! ## Scripts -/

namespace Script

instance skipSemicolons_confined : Confined n levels more skipSemicolons skipSemicolons := by
  unfold skipSemicolons
  infer_instance

/-- A statement opens at most two levels for each token ahead and one more. -/
instance nextStatement_confined : Confined n (2 * n + 1) 0 nextStatement nextStatement where
  run scope s hs := by
    have hstatement := (Nested.forTokens_confined (Nested.upTo 0) (Nat.lt_succ_self s.rest.length)
      (Nat.le_refl s.rest.length)).statement
    obtain ⟨-, hconfines⟩ := hstatement.run scope s (Nat.le_refl _)
    -- fewer than `n` tokens may be left, and then the statement is confined to fewer levels
    exact ⟨rfl, hconfines.mono (by omega)⟩

instance single_confined : Confined n (2 * n + 1) 0 single single := by
  unfold single
  infer_instance

instance next?_confined : Confined n (2 * n + 1) 0 next? next? := by
  unfold next?
  infer_instance

instance all_confined : Confined n (2 * n + 1) 0 all all := by
  unfold all
  infer_instance

end Script

/-! ## Calls -/

/-- If so many levels are allowed, the error is none about levels, or the stack was asked for and
used up. -/
def ParseError.Spared (config : Config) (levels : Nat) (e : ParseError) : Prop :=
  levels ≤ config.depthLimit → e.kind = .tooDeep →
    config.stackBudget ≠ 0 ∧ ∃ budget depth, e.cause = .stackExhausted budget depth

theorem ParseError.spared_of_kind {config : Config} {e : ParseError} (h : e.kind ≠ .tooDeep) :
    e.Spared config levels := fun _ hkind => absurd hkind h

theorem Confines.spared {scope : Scope} {s r : Progress} {e : ParseError} (htop : scope.depth = 0)
    (h : Confines scope levels s (.error (.error e) r : EStateM.Result Failure Progress α)) :
    e.Spared scope.config levels := by
  intro hlevels hkind
  have hlimit : ∀ limit, e.cause ≠ .depthExceeded limit := by
    intro limit hcause
    have hlt := h.limit rfl hcause
    omega
  unfold ParseError.kind at hkind
  rcases hcause : e.cause with _ | _ | _ | _ | _ | _ | _ | _ | _ | _ | _ | _ | limit |
    ⟨budget, depth⟩ | _ | _
  case depthExceeded => exact absurd hcause (hlimit limit)
  case stackExhausted => exact ⟨h.stack rfl hcause, budget, depth, rfl⟩
  all_goals
    rw [hcause] at hkind
    cases hkind

theorem Parser.run_progress (p : Parser α) (scope : Scope) (s : Progress) :
    (p.run scope s).progress = progressOf (p scope s) := by
  unfold Parser.run
  rcases p scope s with ⟨a, r⟩ | ⟨f, r⟩
  · dsimp only
    split <;> rfl
  · rfl

/-- An edit that is refused is no error, so an error is the parser's own. -/
theorem Parser.error_of_run {p : Parser α} {scope : Scope} {s : Progress} {e : ParseError}
    (h : (p.run scope s).answer = .error (.error e)) : ∃ r, p scope s = .error (.error e) r := by
  unfold Parser.run at h
  rcases hrun : p scope s with ⟨a, r⟩ | ⟨f, r⟩ <;> rw [hrun] at h <;> dsimp only at h
  · split at h <;> cases h
  · rcases hrefused : r.refused with _ | refused <;> rw [hrefused] at h
    · obtain rfl : f = .error e := Except.error.inj h
      exact ⟨r, rfl⟩
    · cases h

/-- Where a run over a source ends, how deep it went, and its errors. -/
theorem Parser.Confined.shallow {p : Parser α} (hp : Confined n levels 0 p p) (scope : Scope)
    (htop : scope.depth = 0) {s : Progress} (hs : s.rest.length ≤ n) :
    (p.run scope s).progress.rest.length ≤ s.rest.length ∧
      (p.run scope s).progress.deepest ≤ max s.deepest levels ∧
      ∀ e, (p.run scope s).answer = .error (.error e) → e.Spared scope.config levels := by
  obtain ⟨-, hconfines⟩ := hp.run scope s hs
  have hdeepest := hconfines.deepest
  rw [htop, Nat.zero_add] at hdeepest
  rw [Parser.run_progress]
  refine ⟨hconfines.rest, hdeepest, fun e he => ?_⟩
  obtain ⟨r, hrun⟩ := Parser.error_of_run he
  rw [hrun] at hconfines
  exact hconfines.spared htop

namespace Script

theorem recoverFor_shallow (scope : Scope) (htop : scope.depth = 0) : ∀ (rounds : Nat)
    {s : Progress}, s.rest.length ≤ n → s.deepest ≤ 2 * n + 1 →
      (recoverFor scope rounds s).2.2.deepest ≤ 2 * n + 1 ∧
      ∀ e, Failure.error e ∈ (recoverFor scope rounds s).2.1 → e.Spared scope.config (2 * n + 1)
  | 0, s, _, hdeepest => ⟨hdeepest, fun _ he => absurd he List.not_mem_nil⟩
  | rounds + 1, s, hs, hdeepest => by
    have hnext : Confined n (2 * n + 1) 0 next? next? := inferInstance
    obtain ⟨hrest, hdeepest', herrors⟩ := hnext.shallow scope htop hs
    rw [recoverFor]
    rcases hrun : next?.run scope s with ⟨f | _ | root, p⟩ <;>
      rw [hrun] at hrest hdeepest' herrors <;> dsimp only at hrest hdeepest' herrors ⊢
    · have hshorter := length_synchronized p
      have hdeepest : p.synchronized.deepest = p.deepest := rfl
      rw [Parser.run_progress, show progressOf (synchronize scope p) = p.synchronized from rfl]
      obtain ⟨hlast, hfailures⟩ := recoverFor_shallow scope htop rounds (s := p.synchronized)
        (by omega) (by omega)
      refine ⟨hlast, fun e he => ?_⟩
      rcases List.mem_cons.1 he with rfl | he
      · exact herrors e rfl
      · exact hfailures e he
    · exact ⟨by omega, fun _ he => absurd he List.not_mem_nil⟩
    · exact recoverFor_shallow scope htop rounds (by omega) (by omega)

end Script

namespace Session

/-- What a call over `n` tokens leaves, and the errors that it tells: it went at most `2 * n + 1`
levels deep, and if so many are allowed, no level was refused but by the check of the stack. -/
structure Shallow (s : Session) (n : Nat) (last : Progress) (told : ParseError → Prop) : Prop where
  deepest : last.deepest ≤ 2 * n + 1
  spared : ∀ e, told e → e.Spared s.config (2 * n + 1)

theorem spared_of_withSource {config : Config} {source : Source} {f : Failure} {e : ParseError}
    (hf : ∀ e, f = .error e → e.Spared config levels) (h : f.withSource source = .error e) :
    e.Spared config levels := by
  obtain ⟨e₀, rfl, hcause, -⟩ := exists_of_withSource h
  intro hlevels hkind
  rw [hcause]
  exact hf e₀ rfl hlevels (by rwa [ParseError.kind, ← hcause])

theorem spared_of_checked {config : Config} {source : Source} {mode : Mode} {t : Tree}
    {e : ParseError} (h : checked source mode t = .error (.error e)) : e.Spared config levels := by
  refine ParseError.spared_of_kind ?_
  rw [(exists_of_checked h).1]
  nofun

/-- A call that makes one run. -/
theorem finish_shallow (s : Session) (way : Way) (source : Source) {p : Parser α}
    (hp : Confined n (2 * n + 1) 0 p p) {tokens : List Token} (htokens : tokens.length ≤ n)
    {check : α → Except Failure β}
    (hcheck : ∀ a e, check a = .error (.error e) → e.Spared s.config (2 * n + 1)) :
    s.Shallow n (s.finish source (p.run (s.scope way source) (s.start tokens)) check).2.last
      fun e => (s.finish source (p.run (s.scope way source) (s.start tokens)) check).1 =
        .error (.error e) := by
  obtain ⟨-, hdeepest, herrors⟩ := hp.shallow (s.scope way source) rfl (s := s.start tokens)
    htokens
  refine ⟨Nat.le_trans hdeepest (Nat.max_le.2 ⟨Nat.zero_le _, Nat.le_refl _⟩), fun e he => ?_⟩
  unfold finish at he
  rcases hanswer : (p.run (s.scope way source) (s.start tokens)).answer with f | a <;>
    rw [hanswer] at he
  · have hsource : f.withSource source = .error e := Except.error.inj he
    exact spared_of_withSource (fun e hf => herrors e (hf ▸ hanswer)) hsource
  · exact hcheck a e he

theorem parseTokens_shallow (s : Session) (source : Source) (tokens : List Token) :
    s.Shallow tokens.length (s.parseTokens source tokens).2.last
      fun e => (s.parseTokens source tokens).1 = .error (.error e) :=
  s.finish_shallow .one source inferInstance (Nat.le_refl _) fun _ _ => spared_of_checked

theorem parseScript_shallow (s : Session) (source : Source) :
    s.Shallow (tokenize source).length (s.parseScript source).2.last
      fun e => (s.parseScript source).1 = .error (.error e) :=
  s.finish_shallow .script source inferInstance (Nat.le_refl _) fun _ _ h =>
    let ⟨_, _, hcheck⟩ := exists_of_mapM_checked h
    spared_of_checked hcheck

theorem parseAll_shallow (s : Session) (source : Source) :
    s.Shallow (tokenize source).length (s.parseAll source).2.last
      fun e => ∃ r, (s.parseAll source).1 = .ok r ∧ e ∈ r.errors := by
  obtain ⟨hdeepest, hfailures⟩ := Script.recoverFor_shallow (s.scope .all source) rfl
    ((tokenize source).length + 1) (s := s.start (tokenize source)) (Nat.le_refl _)
    (Nat.zero_le _)
  refine ⟨hdeepest, ?_⟩
  rintro e ⟨r, hr, he⟩
  rw [parseAll_eq] at hr
  dsimp only [reportOf] at hr
  rcases herrors : errors
      ((Script.recover (s.scope .all source) (s.start (tokenize source))).2.1.map
        (·.withSource source) ++
      ((Script.recover (s.scope .all source) (s.start (tokenize source))).1.map
        (checked source s.config.mode)).filterMap failure?) with f | es <;>
    rw [herrors] at hr <;> cases hr
  have hmem : Failure.error e ∈ es.map .error := List.mem_map_of_mem (List.mem_mergeSort.1 he)
  rw [← errors_eq herrors] at hmem
  rcases List.mem_append.1 hmem with hmem | hmem
  · obtain ⟨f, hf, hsource⟩ := List.mem_map.1 hmem
    exact spared_of_withSource (fun e he => hfailures e (he ▸ hf)) hsource
  · obtain ⟨answer, hanswer, hfailure⟩ := List.mem_filterMap.1 hmem
    obtain ⟨t, -, rfl⟩ := List.mem_map.1 hanswer
    rcases hcheck : checked source s.config.mode t with f | u <;> rw [hcheck] at hfailure <;>
      cases hfailure
    exact spared_of_checked hcheck

/-- Nesting is bounded by the tokens, whatever the configuration allows. The productions call one
another no deeper than there are tokens ahead: whatever stood in the place of the calls below that
depth, they would run as they do. Each loop ends where its step finds nothing or fails, and the
attempts of a report end where no token is left. No call opens more than two levels for each token
and one. So if so many levels are allowed, no error tells that nesting is too deep, unless the
stack is checked and used up. -/
theorem nesting_bounded (s : Session) (source : Source) :
    (∀ (bottom : Nested) (k : Nat) (scope : Scope) (p : Progress), p.rest.length < k →
      (Nested.forTokens p.rest.length).RunsAs (bottom.above k) scope p) ∧
    (∀ (k : Nat) {α : Type} {step : α → Parser (Option α)}, (Nested.upTo k).Loop step →
      ∀ scope a p, Repeats step scope a p (iterate step a scope p)) ∧
    (∃ outcomes q, Script.Attempts (s.scope .all source) (s.start (tokenize source)) outcomes q ∧
      Script.recover (s.scope .all source) (s.start (tokenize source)) =
        (outcomes.filterMap Except.toOption, outcomes.filterMap failure?, q)) ∧
    (∀ tokens, s.Shallow tokens.length (s.parseTokens source tokens).2.last
      fun e => (s.parseTokens source tokens).1 = .error (.error e)) ∧
    s.Shallow (tokenize source).length (s.parse source).2.last
      (fun e => (s.parse source).1 = .error (.error e)) ∧
    s.Shallow (tokenize source).length (s.parseScript source).2.last
      (fun e => (s.parseScript source).1 = .error (.error e)) ∧
    s.Shallow (tokenize source).length (s.parseAll source).2.last
      fun e => ∃ r, (s.parseAll source).1 = .ok r ∧ e ∈ r.errors :=
  ⟨fun bottom _ scope _ hk => Nested.forTokens_runsAs bottom hk scope,
    fun _ _ _ h => h.repeats,
    Script.exists_attempts (s.scope .all source) (s.start_sound source),
    s.parseTokens_shallow source, s.parseTokens_shallow source (tokenize source),
    s.parseScript_shallow source, s.parseAll_shallow source⟩

/-- Two tokens open five levels, and a limit of five allows them, so the parse fails by no error
about levels. What stands three calls below the statement is of no importance, and the loop over
semicolons ends where it finds none. -/
theorem nesting_bounded_open :
    let s : Session := { config := { maxDepth := 5, stackBudget := 0 } }
    let source := "SELECT (".toList
    (tokenize source).length = 2 ∧ (s.parse source).2.last.deepest = 5 ∧
    (s.parse source).1.isOk = false ∧
    (∀ e, (s.parse source).1 = .error (.error e) → e.kind ≠ .tooDeep) ∧
    (∀ bottom : Nested, (Nested.forTokens 2).RunsAs (bottom.above 3) (s.scope .one source)
      (s.start (tokenize source))) ∧
    Repeats (collecting (take? .semicolon)) (s.scope .one source) [] (s.start (tokenize source))
      (iterate (collecting (take? .semicolon)) [] (s.scope .one source)
        (s.start (tokenize source))) := by
  intro s source
  obtain ⟨hcalls, hloops, -, -, hparse, -, -⟩ := nesting_bounded s source
  have hlength : (tokenize source).length = 2 := by decide +kernel
  refine ⟨hlength, by decide +kernel, by decide +kernel, fun e he hkind => ?_, fun bottom => ?_,
    hloops 0 .semicolons _ _ _⟩
  · have hlimit : 2 * (tokenize source).length + 1 ≤ s.config.depthLimit := by
      rw [hlength]
      decide
    exact (hparse.spared e he hlimit hkind).1 rfl
  · have hcall := hcalls bottom 3 (s.scope .one source) (s.start (tokenize source))
      (hlength ▸ Nat.lt_succ_self 2)
    rwa [show (s.start (tokenize source)).rest.length = 2 from hlength] at hcall

end Session

end SqlSyntax
