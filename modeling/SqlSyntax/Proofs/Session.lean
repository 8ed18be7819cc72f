import SqlSyntax.Proofs.Script
import SqlSyntax.Proofs.Sound
import SqlSyntax.Session

/-!
# Sound sessions

A call of a session starts from a sound point, whatever the calls before it left, so it comes to
one: the trees that it answers with are detached there, beside those that errors left behind.
-/

namespace SqlSyntax

open SqlSyntax.Parser

variable {source : Source} {scope : Scope} {ts : List Tree} {α : Type}

theorem Progress.start_sound {tokens : List Token} (h : ∀ t ∈ tokens, t.ReadFrom source)
    (forest : Forest) (store : Store) :
    (Progress.start tokens forest.reset store).Sound source [] where
  accepted := rfl
  nodes := rfl
  owns := ⟨fun i e he => by simp [Progress.start, Forest.reset] at he, .refl _⟩
  hasLine := nofun
  readFrom := h

theorem Session.start_sound (s : Session) (source : Source) :
    (s.start (tokenize source)).Sound source [] :=
  Progress.start_sound (fun _ => readFrom_of_mem_tokenize) _ _

/-- A run comes to a sound point, and fails in no other way than parsers do. -/
def Run.Sound (source : Source) (post : α → List Tree) (ts : List Tree) (r : Run α) : Prop :=
  match r.answer with
  | .ok a => r.progress.Sound source (post a ++ ts)
  | .error f => f.Fair source ∧ ∃ left, r.progress.Sound source (left ++ ts)

theorem Run.Sound.exists_left {post : α → List Tree} {r : Run α} (h : r.Sound source post ts) :
    ∃ left, r.progress.Sound source (left ++ ts) := by
  obtain ⟨f | a, p⟩ := r
  · exact h.2
  · exact ⟨post a, h⟩

theorem Parser.run_sound {p : Parser α} {post : α → List Tree} {fact : α → List Token → Prop}
    {s : Progress} (h : (Law.sound scope.source scope.config).Keeps Law.anything [] p post fact)
    (hs : s.Sound scope.source ts) : (p.run scope s).Sound scope.source post ts := by
  have hout := h scope ts s rfl rfl trivial hs
  unfold Parser.run
  cases hrun : p scope s with
  | ok a s' =>
    rw [hrun] at hout
    have hs' : s'.Sound scope.source (post a ++ ts) := hout.2
    simp only [hs'.accepted]
    exact hs'
  | error f s' =>
    rw [hrun] at hout
    obtain ⟨hf, left, hleft⟩ := hout
    have hs' : s'.Sound scope.source (left ++ ts) := hleft
    simp only [hs'.accepted]
    exact ⟨hf, left, hs'⟩

theorem Parser.exists_of_answer {p : Parser α} {s : Progress} {a : α}
    (h : (p.run scope s).answer = .ok a) : ∃ s', p scope s = .ok a s' := by
  unfold Parser.run at h
  rcases hrun : p scope s with ⟨b, s'⟩ | ⟨f, s'⟩
  · rw [hrun] at h
    dsimp only at h
    split at h
    · simp at h
    · exact ⟨s', by rw [Except.ok.inj h]⟩
  · rw [hrun] at h
    simp at h

namespace Script

theorem single_sound (scope : Scope) {s : Progress} (hs : s.Sound scope.source ts) :
    (single.run scope s).Sound scope.source one ts :=
  run_sound (Law.single_keeps (Law.sound_allows scope.source scope.config)
    (Law.sound_serves scope.source scope.config)) hs

theorem all_sound (scope : Scope) {s : Progress} (hs : s.Sound scope.source ts) :
    (all.run scope s).Sound scope.source id ts :=
  run_sound (Law.all_keeps (Law.sound_allows scope.source scope.config)
    (Law.sound_serves scope.source scope.config)) hs

theorem next?_sound (scope : Scope) {s : Progress} (hs : s.Sound scope.source ts) :
    (next?.run scope s).Sound scope.source perhaps ts :=
  run_sound (Law.next?_keeps (Law.sound_allows scope.source scope.config)
    (Law.sound_serves scope.source scope.config)) hs

theorem synchronize_sound (scope : Scope) {s : Progress} (hs : s.Sound scope.source ts) :
    (synchronize.run scope s).Sound scope.source silent ts :=
  run_sound (Law.sound_allows scope.source scope.config (Nested.upTo 0)).synchronize hs

/-- The statements that a recovering run finds are detached trees, beside those that its errors
left behind. -/
theorem recoverFor_sound (scope : Scope) (n : Nat) {s : Progress} (hs : s.Sound scope.source ts) :
    (∀ f ∈ (recoverFor scope n s).2.1, f.Fair scope.source) ∧
      ∃ left, (recoverFor scope n s).2.2.Sound scope.source
        ((recoverFor scope n s).1 ++ (left ++ ts)) := by
  induction n generalizing s ts with
  | zero => exact ⟨List.forall_mem_nil _, [], hs⟩
  | succ n ih =>
    have hnext := next?_sound scope hs
    rw [recoverFor]
    generalize next?.run scope s = r at hnext ⊢
    obtain ⟨f | _ | root, p⟩ := r
    · obtain ⟨hf, left, hp⟩ := hnext
      obtain ⟨left', hp'⟩ := (synchronize_sound scope hp).exists_left
      obtain ⟨hfair, left'', hsound⟩ := ih hp'
      refine ⟨List.forall_mem_cons.2 ⟨hf, hfair⟩, left'' ++ (left' ++ left), ?_⟩
      simp only [List.append_assoc]
      exact hsound
    · have hp : p.Sound scope.source ts := hnext
      exact ⟨List.forall_mem_nil _, [], hp⟩
    · have hp : p.Sound scope.source (root :: ts) := hnext
      obtain ⟨hfair, left, hsound⟩ := ih hp
      refine ⟨hfair, left, hsound.perm ?_⟩
      rw [← List.append_assoc, ← List.append_assoc]
      exact List.perm_middle

end Script

/-! ## The calls -/

namespace Session

theorem checked_eq {mode : Mode} {t u : Tree} (h : checked source mode t = .ok u) : u = t := by
  unfold checked at h
  split at h
  · exact (Except.ok.inj h).symm
  · simp at h

theorem mapM_checked_eq {mode : Mode} : ∀ {ts us : List Tree},
    ts.mapM (checked source mode) = .ok us → us = ts
  | [], us, h => (Except.ok.inj h).symm
  | t :: ts, us, h => by
    rw [List.mapM_cons] at h
    rcases ht : checked source mode t with f | u
    · rw [ht] at h
      simp [bind, Except.bind] at h
    · rcases hts : ts.mapM (checked source mode) with f | vs
      · rw [ht, hts] at h
        simp [bind, Except.bind] at h
      · rw [ht, hts] at h
        rw [← Except.ok.inj h, checked_eq ht, mapM_checked_eq hts]

/-- Statements fail with the first of them that does. -/
theorem exists_of_mapM_checked {mode : Mode} : ∀ {ts : List Tree} {f : Failure},
    ts.mapM (checked source mode) = .error f → ∃ t ∈ ts, checked source mode t = .error f
  | [], _, h => nomatch h
  | t :: ts, f, h => by
    rw [List.mapM_cons] at h
    rcases ht : checked source mode t with f' | u
    · rw [ht] at h
      obtain rfl : f' = f := Except.error.inj h
      exact ⟨t, List.mem_cons_self, ht⟩
    · rcases hts : ts.mapM (checked source mode) with f' | us
      · rw [ht, hts] at h
        obtain rfl : f' = f := Except.error.inj h
        obtain ⟨t', ht', hcheck⟩ := exists_of_mapM_checked hts
        exact ⟨t', List.mem_cons_of_mem t ht', hcheck⟩
      · rw [ht, hts] at h
        cases h

theorem filterMap_checked_sublist (source : Source) (mode : Mode) (ts : List Tree) :
    ((ts.map (checked source mode)).filterMap Except.toOption).Sublist ts := by
  induction ts with
  | nil => exact .slnil
  | cons t ts ih =>
    rw [List.map_cons]
    rcases ht : checked source mode t with f | u
    · exact ih.cons t
    · rw [checked_eq ht]
      exact ih.cons_cons t

/-- The report on what a recovering run found. -/
def reportOf (source : Source) (mode : Mode) (roots : List Tree) (failures : List Failure) :
    Except Failure Report :=
  (errors (failures.map (·.withSource source) ++
    (roots.map (checked source mode)).filterMap failure?)).map fun es =>
      ⟨(roots.map (checked source mode)).filterMap Except.toOption,
        es.mergeSort fun a b => decide (a.location.offset ≤ b.location.offset)⟩

theorem parseAll_eq (s : Session) (source : Source) :
    s.parseAll source =
      let found := Script.recover (s.scope .all source) (s.start (tokenize source))
      (reportOf source s.config.mode found.1 found.2.1, { s with last := found.2.2 }) := rfl

theorem exists_of_finish {β : Type} {s : Session} {run : Run α} {check : α → Except Failure β}
    {b : β} (h : (s.finish source run check).1 = .ok b) :
    ∃ a, run.answer = .ok a ∧ check a = .ok b := by
  unfold finish at h
  rcases ha : run.answer with f | a
  · rw [ha] at h
    simp [Except.mapError, Except.bind] at h
  · rw [ha] at h
    exact ⟨a, rfl, h⟩

/-- The answer of a call is the detached tree at its end. -/
theorem parse_sound {s : Session} {t : Tree} (h : (s.parse source).1 = .ok t) :
    (s.parse source).2.last.Sound source [t] := by
  obtain ⟨a, ha, hcheck⟩ := exists_of_finish h
  obtain rfl := checked_eq hcheck
  have hrun := Script.single_sound (s.scope .one source) (s.start_sound source)
  unfold Run.Sound at hrun
  rw [ha] at hrun
  exact hrun

theorem parseScript_sound {s : Session} {ts : List Tree} (h : (s.parseScript source).1 = .ok ts) :
    (s.parseScript source).2.last.Sound source ts := by
  obtain ⟨us, hus, hcheck⟩ := exists_of_finish h
  obtain rfl := mapM_checked_eq hcheck
  have hrun := Script.all_sound (s.scope .script source) (s.start_sound source)
  unfold Run.Sound at hrun
  rw [hus] at hrun
  exact hrun.perm (.of_eq (List.append_nil ts))

/-- The statements of a report are among the detached trees at the end of the call. -/
theorem parseAll_sound {s : Session} {r : Report} (h : (s.parseAll source).1 = .ok r) :
    ∃ roots left, r.statements.Sublist roots ∧
      (s.parseAll source).2.last.Sound source (roots ++ left) := by
  obtain ⟨-, left, hsound⟩ := Script.recoverFor_sound (s.scope .all source)
    ((s.start (tokenize source)).rest.length + 1) (s.start_sound source)
  unfold parseAll Script.recover at h ⊢
  generalize Script.recoverFor (s.scope .all source) _ (s.start (tokenize source)) =
    found at h hsound ⊢
  obtain ⟨roots, failures, last⟩ := found
  refine ⟨roots, left ++ [], ?_, hsound⟩
  dsimp only at h
  generalize errors _ = es at h
  rcases es with f | es
  · simp [Except.map] at h
  · rw [← Except.ok.inj h]
    exact filterMap_checked_sublist source s.config.mode roots

end Session

end SqlSyntax
