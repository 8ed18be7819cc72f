import SqlSyntax.Proofs.Growth
import SqlSyntax.Proofs.Session

/-!
# Attempts at statements

What the runs over a script do between its statements, as equations. The number of attempts that
`recover` and `all` are given is never used up: an attempt that finds a statement takes a token,
and after an error one is skipped. So both unfold attempt by attempt (`recover_eq`, `all_run`),
whatever is left.
-/

namespace SqlSyntax

open SqlSyntax.Parser

variable {source : Source} {scope : Scope} {s p : Progress} {ts : List Tree}

/-! ## Semicolons -/

/-- The progress after the semicolons among the next tokens. -/
def Progress.past : List Token → Progress → Progress
  | [], s => s
  | t :: rest, s => if t.kind = .semicolon then past rest (s.advanced t rest) else s

/-- The progress once the semicolons that come next are taken. -/
def Progress.pastSemicolons (s : Progress) : Progress := s.past s.rest

theorem Parser.take?_run (kind : TokenKind) (scope : Scope) (s : Progress) :
    take? kind scope s =
      match s.rest with
      | [] => .ok none s
      | t :: rest => if t.kind = kind then .ok (some t) (s.advanced t rest) else .ok none s := by
  obtain ⟨r⟩ := s
  rcases r with _ | ⟨t, rest⟩
  · rfl
  · show (if t.kind == kind then advance else pure none : Parser (Option Token)) scope _ = _
    by_cases h : t.kind = kind
    · simp only [h, beq_self_eq_true, if_true]
      rfl
    · simp only [beq_eq_false_iff_ne.2 h, h, if_false]
      rfl

namespace Script

theorem skipSemicolons_run (scope : Scope) (s : Progress) :
    skipSemicolons scope s = .ok () s.pastSemicolons := by
  have hover : ∀ (ts : List Token) (s : Progress) (items : List Token), s.rest = ts →
      ∃ found, iterateOver (fun items => do return (← take? .semicolon).map (· :: items)) ts items
        scope s = .ok found (s.past ts) := by
    intro ts
    induction ts with
    | nil =>
      intro s items hs
      have htake := take?_run .semicolon scope s
      rw [hs] at htake
      exact ⟨items, iterateOver_none (bind_ok htake _) []⟩
    | cons t ts ih =>
      intro s items hs
      have htake := take?_run .semicolon scope s
      rw [hs] at htake
      unfold Progress.past
      by_cases h : t.kind = .semicolon
      · simp only [h, if_true] at htake ⊢
        obtain ⟨found, hfound⟩ := ih (s.advanced t ts) (t :: items) rfl
        exact ⟨found, by rw [← hfound]; exact iterateOver_some (bind_ok htake _) t ts⟩
      · simp only [h, if_false] at htake ⊢
        exact ⟨items, iterateOver_none (bind_ok htake _) _⟩
  obtain ⟨found, hfound⟩ := hover s.rest s [] rfl
  have hmany : many (take? .semicolon) scope s = .ok found.reverse s.pastSemicolons :=
    bind_ok (p := iterate _ []) hfound _
  show (many (take? .semicolon) >>= fun _ => pure ()) scope s = _
  rw [bind_ok hmany]
  rfl

theorem rest_past : ∀ (ts : List Token) (s : Progress), s.rest = ts →
    (s.past ts).rest = ts.dropWhile (·.kind == .semicolon)
  | [], _, hs => hs
  | t :: ts, s, hs => by
    unfold Progress.past
    by_cases h : t.kind = .semicolon
    · rw [if_pos h, List.dropWhile_cons_of_pos (by rw [h]; rfl)]
      exact rest_past ts (s.advanced t ts) rfl
    · rw [if_neg h, List.dropWhile_cons_of_neg (by simpa using h)]
      exact hs

theorem rest_pastSemicolons (s : Progress) :
    s.pastSemicolons.rest = s.rest.dropWhile (·.kind == .semicolon) :=
  rest_past s.rest s rfl

theorem length_pastSemicolons_le (s : Progress) : s.pastSemicolons.rest.length ≤ s.rest.length := by
  rw [rest_pastSemicolons]
  exact (List.dropWhile_sublist _).length_le

/-! ## Single attempts -/

/-- One attempt at a statement of several. -/
theorem next?_run (scope : Scope) (s : Progress) :
    next? scope s =
      if s.pastSemicolons.rest = [] then .ok none s.pastSemicolons
      else
        match nextStatement scope s.pastSemicolons with
        | .error f p => .error f p
        | .ok root p =>
          match p.rest with
          | [] => .ok (some root) p
          | t :: rest =>
            if t.kind = .semicolon then .ok (some root) (p.advanced t rest)
            else .error (.error (.unexpected "';' or end of input" t)) p := by
  unfold next?
  rw [bind_ok (skipSemicolons_run scope s)]
  generalize s.pastSemicolons = p₀
  rcases hrest : p₀.rest with _ | ⟨t₀, rest₀⟩
  · have hend : atEnd scope p₀ = .ok true p₀ := by
      show EStateM.Result.ok p₀.rest.isEmpty p₀ = _
      rw [hrest]
      rfl
    rw [bind_ok hend, if_pos rfl]
    rfl
  · have hend : atEnd scope p₀ = .ok false p₀ := by
      show EStateM.Result.ok p₀.rest.isEmpty p₀ = _
      rw [hrest]
      rfl
    rw [bind_ok hend, if_neg (List.cons_ne_nil _ _)]
    rcases hstatement : nextStatement scope p₀ with ⟨root, p⟩ | ⟨f, p⟩
    · refine (bind_ok hstatement _).trans ?_
      obtain ⟨r⟩ := p
      rcases r with _ | ⟨t, rest⟩
      · rfl
      · show (consume .semicolon >>= fun b => if b then pure (some root)
            else unexpected "';' or end of input") scope _ = _
        by_cases h : t.kind = .semicolon
        · rw [bind_ok ((consume_run .semicolon rfl scope).trans (if_pos (by rw [h]; rfl)))]
          simp only [h, if_true]
          rfl
        · rw [bind_ok ((consume_run .semicolon rfl scope).trans (if_neg (by simpa using h)))]
          simp only [h, if_false]
          rfl
    · exact bind_error hstatement _

theorem nextStatement_length_le {root : Tree} (h : nextStatement scope s = .ok root p) :
    p.rest.length ≤ s.rest.length := by
  have hbuilt : Built (Law.openTerms scope.config (Nested.forTokens s.rest.length)) []
      (Nested.forTokens s.rest.length).statement one fun _ => True := .statement
  exact Built.length_le hbuilt rfl h

/-- An attempt finds no statement where no token is left but semicolons. -/
theorem next?_eq_none : next? scope s = .ok none p ↔
    s.pastSemicolons.rest = [] ∧ p = s.pastSemicolons := by
  rw [next?_run]
  constructor
  · intro h
    split at h
    · next hrest =>
      injection h with _ hp
      exact ⟨hrest, hp.symm⟩
    · split at h
      · cases h
      · split at h
        · injection h with hroot
          cases hroot
        · split at h
          · injection h with hroot
            cases hroot
          · cases h
  · rintro ⟨hrest, rfl⟩
    rw [if_pos hrest]

theorem next?_nil (h : s.rest = []) : next? scope s = .ok none s.pastSemicolons :=
  next?_eq_none.2 ⟨by rw [rest_pastSemicolons, h]; rfl, rfl⟩

/-- An attempt that finds a statement takes a token. -/
theorem next?_takes {root : Tree} (h : next? scope s = .ok (some root) p) :
    p.rest.length < s.rest.length := by
  have hle := length_pastSemicolons_le s
  rw [next?_run] at h
  split at h
  · injection h with hroot
    cases hroot
  · next hrest =>
    have hpos := List.length_pos_iff.2 hrest
    split at h
    · cases h
    · next root' p' hstatement =>
      have hle' := nextStatement_length_le hstatement
      split at h
      · next hend =>
        injection h with _ hp
        rw [← hp, hend, List.length_nil]
        omega
      · next t rest htokens =>
        rw [htokens, List.length_cons] at hle'
        split at h
        · injection h with _ hp
          rw [← hp]
          show rest.length < _
          omega
        · cases h

/-- An attempt that fails gives no token back. -/
theorem next?_length_le {f : Failure} (h : next? scope s = .error f p) :
    p.rest.length ≤ s.rest.length := by
  have hout := Law.next?_keeps (Law.shorter_allows scope.source scope.config s.rest.length)
    (Law.shorter_serves scope.source scope.config s.rest.length) scope [] s rfl rfl trivial
    (Nat.le_refl _)
  rw [h] at hout
  obtain ⟨-, _, hle⟩ := hout
  exact hle

/-- Synchronizing skips a token if one is left. -/
theorem length_skipFrom_lt (depth : Nat) : ∀ {ts : List Token}, ts ≠ [] →
    (skipFrom depth true ts).2.length < ts.length
  | t :: ts, _ => by
    have hle : ∀ d, (skipFrom d false ts).2.length ≤ ts.length := by
      intro d
      have happend := congrArg List.length (skipFrom_append d false ts)
      rw [List.length_append] at happend
      omega
    unfold skipFrom
    simp only [Bool.not_true, Bool.false_and, Bool.false_eq_true, if_false, List.length_cons]
    split
    · exact Nat.lt_succ_of_le (hle _)
    · exact Nat.lt_succ_of_le (hle _)
    · split
      · exact Nat.lt_succ_self _
      · exact Nat.lt_succ_of_le (hle _)
    · exact Nat.lt_succ_of_le (hle _)

end Script

/-! ## Attempt after attempt -/

/-- The progress once tokens are skipped to where a statement may begin. -/
def Progress.synchronized (s : Progress) : Progress :=
  let (skipped, rest) := Script.skipFrom 0 true s.rest
  { s with
    rest
    taken := s.taken + skipped.length
    lastEnd := (skipped.getLast?.map (·.span.stop)).getD s.lastEnd }

theorem Parser.run_of_ok {α : Type} {p : Parser α} {a : α} {s' : Progress}
    (h : p scope s = .ok a s') (hs : s'.refused = none) :
    p.run scope s = ⟨.ok a, s'⟩ := by
  unfold Parser.run
  rw [h]
  simp only [hs]

theorem Parser.run_of_error {α : Type} {p : Parser α} {f : Failure} {s' : Progress}
    (h : p scope s = .error f s') (hs : s'.refused = none) :
    p.run scope s = ⟨.error f, s'⟩ := by
  unfold Parser.run
  rw [h]
  simp only [hs]
  rfl

namespace Script

theorem synchronize_run (hs : s.refused = none) :
    synchronize.run scope s = ⟨.ok (), s.synchronized⟩ := by
  have hrun : synchronize scope s = .ok () s.synchronized := rfl
  exact run_of_ok hrun hs

/-- What is left once tokens are skipped is an end of what was left before. -/
theorem suffix_synchronized (s : Progress) : s.synchronized.rest <:+ s.rest :=
  ⟨_, skipFrom_append 0 true s.rest⟩

theorem length_synchronized (s : Progress) : s.synchronized.rest.length ≤ s.rest.length - 1 := by
  rcases h : s.rest with _ | ⟨t, rest⟩
  · show (skipFrom 0 true s.rest).2.length ≤ _
    rw [h]
    exact Nat.le_refl _
  · have hlt := length_skipFrom_lt 0 (List.cons_ne_nil t rest)
    rw [← h] at hlt ⊢
    exact Nat.le_sub_one_of_lt hlt

/-- Where no edit is refused, an attempt succeeds or fails as its steps do. -/
theorem next?_cases (scope : Scope) (hs : s.Sound scope.source ts) :
    (∃ p, next? scope s = .ok none p ∧ next?.run scope s = ⟨.ok none, p⟩ ∧
      p.Sound scope.source ts) ∨
    (∃ root p, next? scope s = .ok (some root) p ∧
      next?.run scope s = ⟨.ok (some root), p⟩ ∧ p.Sound scope.source (root :: ts)) ∨
    ∃ f p left, next? scope s = .error f p ∧
      next?.run scope s = ⟨.error f, p⟩ ∧ p.Sound scope.source (left ++ ts) := by
  have hout := Law.next?_keeps (Law.sound_allows scope.source scope.config)
    (Law.sound_serves scope.source scope.config) scope ts s rfl rfl trivial hs
  rcases hrun : next? scope s with ⟨_ | root, p⟩ | ⟨f, p⟩
  · rw [hrun] at hout
    have hp : p.Sound scope.source ts := hout.2
    exact .inl ⟨p, rfl, run_of_ok hrun hp.accepted, hp⟩
  · rw [hrun] at hout
    have hp : p.Sound scope.source (root :: ts) := hout.2
    exact .inr (.inl ⟨root, p, rfl, run_of_ok hrun hp.accepted, hp⟩)
  · rw [hrun] at hout
    obtain ⟨-, left, hp⟩ := hout
    have hp : p.Sound scope.source (left ++ ts) := hp
    exact .inr (.inr ⟨f, p, left, rfl, run_of_error hrun hp.accepted, hp⟩)

theorem sound_synchronized (hs : s.Sound source ts) : s.synchronized.Sound source ts := by
  have hsound := synchronize_sound { source, config := {}, stack := .even } hs
  rw [synchronize_run hs.accepted] at hsound
  exact hsound

/-- An error and what is skipped after it take a token. -/
theorem length_synchronized_lt {f : Failure} (h : next? scope s = .error f p) :
    p.synchronized.rest.length < s.rest.length := by
  have hle := next?_length_le h
  have hsync := length_synchronized p
  have hpos : s.rest ≠ [] := by
    intro hrest
    rw [next?_nil hrest] at h
    cases h
  have := List.length_pos_iff.2 hpos
  omega

/-- What an attempt has as soon as the attempt after it has it, every attempt has. -/
@[elab_as_elim]
theorem attempts_induction (scope : Scope) {motive : Progress → List Tree → Prop}
    (done : ∀ {s p : Progress} {ts : List Tree}, s.Sound scope.source ts → p.Sound scope.source ts →
      next? scope s = .ok none p → motive s ts)
    (found : ∀ {s p : Progress} {ts : List Tree} {root : Tree}, s.Sound scope.source ts →
      p.Sound scope.source (root :: ts) → next? scope s = .ok (some root) p →
      motive p (root :: ts) → motive s ts)
    (failed : ∀ {s p : Progress} {ts left : List Tree} {f : Failure}, s.Sound scope.source ts →
      p.Sound scope.source (left ++ ts) → next? scope s = .error f p →
      motive p.synchronized (left ++ ts) → motive s ts)
    (hs : s.Sound scope.source ts) : motive s ts := by
  induction hk : s.rest.length using Nat.strongRecOn generalizing s ts with
  | ind k ih =>
    subst hk
    rcases next?_cases scope hs with
      ⟨p, hnext, -, hp⟩ | ⟨root, p, hnext, -, hp⟩ | ⟨f, p, left, hnext, -, hp⟩
    · exact done hs hp hnext
    · exact found hs hp hnext (ih _ (next?_takes hnext) hp rfl)
    · exact failed hs hp hnext (ih _ (length_synchronized_lt hnext) (sound_synchronized hp) rfl)

/-- More attempts than there are tokens find nothing more. -/
theorem recoverFor_eq_of_le (scope : Scope) (hs : s.Sound scope.source ts) :
    ∀ n m, s.rest.length ≤ n → s.rest.length ≤ m →
      recoverFor scope n s = recoverFor scope m s := by
  refine attempts_induction (s := s) scope ?done ?found ?failed hs
  case done =>
    intro s p ts hs hp hnext n m hn hm
    have hnone : ∀ n, s.rest.length ≤ n → recoverFor scope n s = ([], [], p) := by
      intro n hn
      rcases n with _ | n
      · have hrest : s.rest = [] := List.eq_nil_of_length_eq_zero (Nat.le_zero.1 hn)
        rw [(next?_eq_none.1 hnext).2, Progress.pastSemicolons, hrest]
        rfl
      · rw [recoverFor, run_of_ok hnext hp.accepted]
    rw [hnone n hn, hnone m hm]
  case found =>
    intro s p ts root hs hp hnext ih n m hn hm
    have htakes := next?_takes hnext
    obtain ⟨n, rfl⟩ := Nat.exists_eq_add_one.2 (by omega : 0 < n)
    obtain ⟨m, rfl⟩ := Nat.exists_eq_add_one.2 (by omega : 0 < m)
    rw [recoverFor, recoverFor, run_of_ok hnext hp.accepted]
    dsimp only
    rw [ih n m (by omega) (by omega)]
  case failed =>
    intro s p ts left f hs hp hnext ih n m hn hm
    have htakes := length_synchronized_lt hnext
    obtain ⟨n, rfl⟩ := Nat.exists_eq_add_one.2 (by omega : 0 < n)
    obtain ⟨m, rfl⟩ := Nat.exists_eq_add_one.2 (by omega : 0 < m)
    rw [recoverFor, recoverFor, run_of_error hnext hp.accepted]
    dsimp only
    rw [synchronize_run hp.accepted, ih n m (by omega) (by omega)]

/-- What is found once an attempt is made: a statement or an error before what is found after it. -/
theorem recover_eq (scope : Scope) (hs : s.Sound scope.source ts) :
    recover scope s =
      match next? scope s with
      | .ok none p => ([], [], p)
      | .ok (some root) p =>
        let (roots, failures, q) := recover scope p
        (root :: roots, failures, q)
      | .error f p =>
        let (roots, failures, q) := recover scope p.synchronized
        (roots, f :: failures, q) := by
  have hfuel : ∀ {p : Progress} {us : List Tree}, p.Sound scope.source us →
      p.rest.length ≤ s.rest.length →
      recoverFor scope s.rest.length p = recover scope p :=
    fun hp hle => recoverFor_eq_of_le scope hp _ _ hle (Nat.le_succ _)
  rw [recover, recoverFor]
  rcases next?_cases scope hs with
    ⟨p, hnext, hrun, -⟩ | ⟨root, p, hnext, hrun, hp⟩ | ⟨f, p, left, hnext, hrun, hp⟩
  · rw [hrun, hnext]
  · rw [hrun, hnext]
    dsimp only
    rw [hfuel hp (Nat.le_of_lt (next?_takes hnext))]
  · have hle := next?_length_le hnext
    have hsync := length_synchronized p
    rw [hrun, hnext]
    dsimp only
    rw [synchronize_run hp.accepted, hfuel (sound_synchronized hp) (by omega)]

/-! ## All statements -/

/-- A result whose statements come before others. -/
def before (items : List Tree) :
    EStateM.Result Failure Progress (List Tree) → EStateM.Result Failure Progress (List Tree)
  | .ok roots p => .ok (roots ++ items) p
  | .error f p => .error f p

/-- One round of `all`: the statement that comes next is put before those that were found. -/
def gather (items : List Tree) : Parser (Option (List Tree)) := do
  return (← next?).map (· :: items)

/-- More rounds than there are tokens find nothing more, and what was found before them stays. -/
theorem iterateOver_gather (scope : Scope) : ∀ (k : Nat) {s : Progress}, s.rest.length ≤ k →
    ∀ (ts us : List Token) (items : List Tree), s.rest.length ≤ ts.length →
      s.rest.length ≤ us.length →
      iterateOver gather ts items scope s = before items (iterateOver gather us [] scope s) := by
  intro k
  induction k with
  | zero =>
    intro s hk ts us items _ _
    have hnext : next? scope s = .ok none s.pastSemicolons :=
      next?_nil (List.eq_nil_of_length_eq_zero (Nat.le_zero.1 hk))
    rw [iterateOver_none (bind_ok hnext _), iterateOver_none (bind_ok hnext _)]
    rfl
  | succ k ih =>
    intro s hk ts us items hts hus
    rcases hnext : next? scope s with ⟨_ | root, p⟩ | ⟨f, p⟩
    · rw [iterateOver_none (bind_ok hnext _), iterateOver_none (bind_ok hnext _)]
      rfl
    · have htakes := next?_takes hnext
      rcases ts with _ | ⟨t, ts⟩
      · simp at hts
        simp [hts] at htakes
      rcases us with _ | ⟨u, us⟩
      · simp at hus
        simp [hus] at htakes
      rw [List.length_cons] at hts hus
      have hp : p.rest.length ≤ k := by omega
      rw [iterateOver_some (bind_ok hnext _), iterateOver_some (bind_ok hnext _),
        ih hp ts us (root :: items) (by omega) (by omega),
        ih hp us us [root] (by omega) (by omega)]
      rcases iterateOver gather us [] scope p with ⟨roots, q⟩ | ⟨f, q⟩
      · simp [before]
      · rfl
    · rw [iterateOver_error (bind_error hnext _), iterateOver_error (bind_error hnext _)]
      rfl

/-- A result whose statements come after another. -/
def after (root : Tree) :
    EStateM.Result Failure Progress (List Tree) → EStateM.Result Failure Progress (List Tree)
  | .ok roots p => .ok (root :: roots) p
  | .error f p => .error f p

/-- What is collected once an attempt is made. -/
theorem all_run (scope : Scope) (s : Progress) :
    all scope s =
      match next? scope s with
      | .ok none p => .ok [] p
      | .ok (some root) p => after root (all scope p)
      | .error f p => .error f p := by
  have hall : ∀ p : Progress, all scope p =
      match iterateOver gather p.rest [] scope p with
      | .ok items q => .ok items.reverse q
      | .error f q => .error f q := by
    intro p
    rcases h : iterateOver gather p.rest [] scope p with ⟨items, q⟩ | ⟨f, q⟩
    · exact bind_ok (p := iterate gather []) h _
    · exact bind_error (p := iterate gather []) h _
  rw [hall]
  rcases hnext : next? scope s with ⟨_ | root, p⟩ | ⟨f, p⟩
  · rw [iterateOver_none (bind_ok hnext _)]
    rfl
  · have htakes := next?_takes hnext
    obtain ⟨t, rest, hrest⟩ := List.exists_cons_of_length_pos (Nat.zero_lt_of_lt htakes)
    rw [hrest, List.length_cons] at htakes
    have hle : p.rest.length ≤ rest.length := Nat.le_of_lt_succ htakes
    rw [hrest, iterateOver_some (bind_ok hnext _)]
    dsimp only
    rw [hall, iterateOver_gather scope _ (Nat.le_refl _) rest p.rest [root] hle (Nat.le_refl _)]
    rcases iterateOver gather p.rest [] scope p with ⟨items, q⟩ | ⟨f, q⟩
    · simp [before, after]
    · rfl
  · rw [iterateOver_error (bind_error hnext _)]

end Script

end SqlSyntax
