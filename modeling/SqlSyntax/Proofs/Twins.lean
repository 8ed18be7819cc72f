import SqlSyntax.Proofs.Recovery

/-!
# Runs in step

Two runs that start with the same counts, over tokens that are the same but for the last `n`, go the
same way for as long as none of those comes next: what is looked at further ahead is only the kind
of a token, and the kinds are the same (`Built.inStep`). The stored nodes may differ, since nothing
of a run depends on them.

With `n = 0` this says that a run does not depend on what is stored already. Otherwise it says that
a run depends on no token behind the next one but for its kind.
-/

namespace SqlSyntax

open SqlSyntax.Parser

namespace Progress

/-- The tokens ahead have the same kinds and are the same but for the last `n`, and what was counted
is the same. The stored nodes may differ. -/
structure Twin (n : Nat) (s s' : Progress) : Prop where
  kinds : s.rest.map Token.kind = s'.rest.map Token.kind
  ahead : s.rest.take (s.rest.length - n) = s'.rest.take (s'.rest.length - n)
  taken : s.taken = s'.taken
  lastEnd : s.lastEnd = s'.lastEnd
  nodes : s.nodes = s'.nodes
  copied : s.copied = s'.copied
  deepest : s.deepest = s'.deepest

/-- The next token is none of the last `n`. -/
def Clear (n : Nat) (s : Progress) : Prop := n = 0 ∨ n < s.rest.length

variable {n : Nat} {s s' r : Progress} {t : Token} {rest : List Token}

theorem Clear.of_le (h : r.Clear n) (hle : r.rest.length ≤ s.rest.length) : s.Clear n :=
  h.imp_right fun h => Nat.lt_of_lt_of_le h hle

namespace Twin

theorem refl (n : Nat) (s : Progress) : s.Twin n s := ⟨rfl, rfl, rfl, rfl, rfl, rfl, rfl⟩

theorem length_eq (h : s.Twin n s') : s.rest.length = s'.rest.length := by
  have hlength := congrArg List.length h.kinds
  rwa [List.length_map, List.length_map] at hlength

theorem rest_eq (h : s.Twin 0 s') : s.rest = s'.rest := by
  have hahead := h.ahead
  rwa [Nat.sub_zero, Nat.sub_zero, List.take_length, List.take_length] at hahead

theorem head_eq (h : s.Twin n s') (hclear : s.Clear n) : s.rest.head? = s'.rest.head? := by
  rcases hclear with rfl | hlt
  · rw [h.rest_eq]
  · have htake : ∀ {ts : List Token} {m : Nat}, 0 < m → (ts.take m).head? = ts.head? := by
      intro ts m hm
      rw [List.head?_take, if_neg (Nat.ne_of_gt hm)]
    have hlength := h.length_eq
    rw [← htake (by omega : 0 < s.rest.length - n), h.ahead, htake (by omega)]

theorem advanced (h : s.Twin n s') (hclear : s.Clear n) (hs : s.rest = t :: rest) :
    ∃ rest', s'.rest = t :: rest' ∧ (s.advanced t rest).Twin n (s'.advanced t rest') := by
  have hhead := h.head_eq hclear
  rw [hs, List.head?_cons] at hhead
  obtain ⟨rest', hs'⟩ := List.head?_eq_some_iff.1 hhead.symm
  obtain ⟨hkinds, hahead, htaken, -, hnodes, hcopied, hdeepest⟩ := h
  rw [hs, hs'] at hkinds hahead
  have hlength := congrArg List.length hkinds
  simp only [List.map_cons, List.length_cons, List.length_map, List.cons.injEq, true_and]
    at hkinds hlength
  refine ⟨rest', hs', hkinds, ?_, congrArg (· + 1) htaken, rfl, hnodes, hcopied, hdeepest⟩
  have hlength : rest.length = rest'.length := by omega
  show rest.take (rest.length - n) = rest'.take (rest'.length - n)
  rw [List.length_cons, List.length_cons] at hahead
  by_cases hle : rest.length ≤ n
  · rw [Nat.sub_eq_zero_of_le hle, Nat.sub_eq_zero_of_le (hlength ▸ hle)]
    rfl
  · rw [Nat.succ_sub (by omega), Nat.succ_sub (by omega), List.take_succ_cons,
      List.take_succ_cons] at hahead
    exact (List.cons.inj hahead).2

theorem rest_nil (h : s.Twin n s') (hs : s.rest = []) : s'.rest = [] := by
  have hlength := h.length_eq
  rw [hs] at hlength
  exact List.eq_nil_of_length_eq_zero hlength.symm

/-- Edits of the stored nodes keep the runs in step. -/
theorem edited (h : s.Twin n s') (c c' : Command) : (s.edited c).Twin n (s'.edited c') := by
  have hedited : ∀ (s : Progress) (c : Command), s.Twin 0 (s.edited c) := by
    intro s c
    unfold Progress.edited
    split
    · exact refl 0 s
    · split <;> exact ⟨rfl, rfl, rfl, rfl, rfl, rfl, rfl⟩
  obtain ⟨hr, -, ht, hl, hn, hc, hd⟩ := hedited s c
  obtain ⟨hr', -, ht', hl', hn', hc', hd'⟩ := hedited s' c'
  have hrest := s.rest_edited c
  have hrest' := s'.rest_edited c'
  exact {
    kinds := by rw [hrest, hrest', h.kinds]
    ahead := by rw [hrest, hrest', h.ahead]
    taken := by rw [← ht, ← ht', h.taken]
    lastEnd := by rw [← hl, ← hl', h.lastEnd]
    nodes := by rw [← hn, ← hn', h.nodes]
    copied := by rw [← hc, ← hc', h.copied]
    deepest := by rw [← hd, ← hd', h.deepest] }

end Twin

end Progress

/-! ## Parsers in step -/

/-- What the second run comes to once the first came to a result, begun at `s`: the same, unless the
first came to tokens that may differ. -/
def Follows {α : Type} (n : Nat) (fact : α → Prop) (s : Progress)
    (x x' : EStateM.Result Failure Progress α) : Prop :=
  match x with
  | .ok a r => fact a ∧ r.rest.length ≤ s.rest.length ∧
      (r.Clear n → ∃ r', x' = .ok a r' ∧ r.Twin n r')
  | .error f r => r.rest.length ≤ s.rest.length ∧
      (r.Clear n → ∃ r', x' = .error f r' ∧ r.Twin n r')

/-- Runs that start in step end in step. -/
def Parser.InStep {α : Type} (n : Nat) (config : Config) (p : Parser α) (fact : α → Prop) : Prop :=
  ∀ (scope : Scope) (s s' : Progress), scope.config = config → s.Twin n s' →
    Follows n fact s (p scope s) (p scope s')

namespace Parser.InStep

variable {α β : Type} {n : Nat} {config : Config} {p : Parser α} {fact : α → Prop} {t : Token}

theorem pure {a : α} (h : fact a) : InStep n config (pure a) fact :=
  fun _ _ s' _ hs => ⟨h, Nat.le_refl _, fun _ => ⟨s', rfl, hs⟩⟩

theorem bind {k : α → Parser β} {fact' : β → Prop} (hp : InStep n config p fact)
    (hk : ∀ a, fact a → InStep n config (k a) fact') : InStep n config (p >>= k) fact' := by
  intro scope s s' hconfig hs
  have hfollows := hp scope s s' hconfig hs
  rcases hrun : p scope s with ⟨a, r⟩ | ⟨f, r⟩
  · rw [hrun] at hfollows
    obtain ⟨ha, hle, hclear⟩ := hfollows
    rw [bind_ok hrun]
    by_cases h : r.Clear n
    · obtain ⟨r', hrun', hr⟩ := hclear h
      have hnext := hk a ha scope r r' hconfig hr
      rw [bind_ok hrun']
      rcases hrun₂ : k a scope r with ⟨b, r₂⟩ | ⟨f, r₂⟩
      · rw [hrun₂] at hnext
        exact ⟨hnext.1, Nat.le_trans hnext.2.1 hle, hnext.2.2⟩
      · rw [hrun₂] at hnext
        exact ⟨Nat.le_trans hnext.1 hle, hnext.2⟩
    · -- the first run is at a token that may differ, and no later one is before it
      have hnext := hk a ha scope r r hconfig (.refl n r)
      rcases hrun₂ : k a scope r with ⟨b, r₂⟩ | ⟨f, r₂⟩
      · rw [hrun₂] at hnext
        exact ⟨hnext.1, Nat.le_trans hnext.2.1 hle, fun h' => absurd (h'.of_le hnext.2.1) h⟩
      · rw [hrun₂] at hnext
        exact ⟨Nat.le_trans hnext.1 hle, fun h' => absurd (h'.of_le hnext.1) h⟩
  · rw [hrun] at hfollows
    obtain ⟨hle, hclear⟩ := hfollows
    rw [bind_error hrun]
    refine ⟨hle, fun h => ?_⟩
    obtain ⟨r', hrun', hr⟩ := hclear h
    exact ⟨r', bind_error hrun' k, hr⟩

theorem weaken {fact' : α → Prop} (hp : InStep n config p fact) (h : ∀ a, fact a → fact' a) :
    InStep n config p fact' := by
  intro scope s s' hconfig hs
  have hfollows := hp scope s s' hconfig hs
  rcases hrun : p scope s with ⟨a, r⟩ | ⟨f, r⟩
  · rw [hrun] at hfollows
    exact ⟨h a hfollows.1, hfollows.2⟩
  · rw [hrun] at hfollows
    exact hfollows

theorem ask {k : Config → Parser α} (h : InStep n config (k config) fact) :
    InStep n config (do k (← read).config) fact := by
  intro scope s s' hconfig hs
  show Follows n fact s (k scope.config scope s) (k scope.config scope s')
  rw [hconfig]
  exact h scope s s' hconfig hs

theorem read {k : Scope → Parser α} (h : ∀ scope, InStep n config (k scope) fact) :
    InStep n config (do k (← read)) fact :=
  fun scope s s' hconfig hs => h scope scope s s' hconfig hs

theorem within (context : Context) (h : InStep n config p fact) :
    InStep n config (within context p) fact :=
  fun _ s s' hconfig hs => h _ s s' hconfig hs

theorem look {f : List Token → Nat → α} (hf : FoundAhead f) (h : ∀ ts n, fact (f ts n)) :
    InStep n config (do let p ← get; return f p.rest p.lastEnd) fact := by
  intro scope s s' _ hs
  refine ⟨h _ _, Nat.le_refl _, fun hclear => ⟨s', ?_, hs⟩⟩
  rw [hf s.rest s'.rest s.lastEnd (hs.head_eq hclear) hs.kinds, hs.lastEnd]
  rfl

theorem advance : InStep n config Parser.advance fun _ => True := by
  intro scope s s' _ hs
  rcases hrest : s.rest with _ | ⟨t, rest⟩
  · have hrun : ∀ {s : Progress}, s.rest = [] → Parser.advance scope s = .ok none s := by
      rintro ⟨_⟩ rfl
      rfl
    rw [hrun hrest, hrun (hs.rest_nil hrest)]
    exact ⟨trivial, Nat.le_refl _, fun _ => ⟨s', rfl, hs⟩⟩
  · rw [advance_run hrest]
    have hle : rest.length ≤ s.rest.length := by
      rw [hrest]
      exact Nat.le_succ _
    refine ⟨trivial, hle, fun hclear => ?_⟩
    obtain ⟨rest', hrest', hs⟩ := hs.advanced (hclear.of_le hle) hrest
    exact ⟨_, advance_run hrest' scope, hs⟩

theorem fail (e : ParseError) : InStep n config (Parser.fail e : Parser α) fact :=
  fun _ _ s' _ hs => ⟨Nat.le_refl _, fun _ => ⟨s', rfl, hs⟩⟩

/-- A failure that is told by the next token. -/
theorem failAt {f : Scope → Option Token → Failure}
    (hp : ∀ scope s, p scope s = .error (f scope s.rest.head?) s) : InStep n config p fact := by
  intro scope s s' _ hs
  rw [hp, hp]
  refine ⟨Nat.le_refl _, fun hclear => ⟨s', ?_, hs⟩⟩
  rw [hs.head_eq hclear]

theorem unexpected (what : String) : InStep n config (unexpected what : Parser α) fact := by
  refine failAt (f := fun scope o =>
    o.elim (.error (.endOfInput what (.atOffset scope.source scope.source.byteSize)))
      fun t => .error (.unexpected what t)) ?_
  rintro scope ⟨_ | ⟨t, rest⟩⟩ <;> rfl

theorem deeper (h : InStep n config p fact) : InStep n config (deeper p) fact := by
  have hrefuse : ∀ cause : Cause, InStep n config
      (fun scope s => .error (scope.refusal cause s) s : Parser α) fact := fun cause =>
    failAt (f := fun scope o =>
      let stop := Location.atOffset scope.source scope.source.byteSize
      o.elim (.error ⟨cause, stop, ⟨stop.offset, stop.offset⟩, none⟩)
        fun t => .error (.atToken cause t))
      fun _ s => by rcases s with ⟨_ | ⟨t, rest⟩⟩ <;> rfl
  intro scope s s' hconfig hs
  have hstack : scope.config.exceedsStack (scope.stack s'.taken scope.depth) =
      scope.config.exceedsStack (scope.stack s.taken scope.depth) := by rw [hs.taken]
  rw [deeper_run, deeper_run, hstack]
  split
  · exact hrefuse _ scope s s' hconfig hs
  · split
    · exact hrefuse _ scope s s' hconfig hs
    · refine h _ _ _ hconfig { hs with deepest := ?_ }
      rw [hs.deepest]

/-! ## Nodes -/

theorem edit (c : Command) : InStep n config (Parser.edit c) fun _ => True := by
  intro scope s s' _ hs
  exact ⟨trivial, Nat.le_of_eq (congrArg List.length (s.rest_edited c)),
    fun _ => ⟨_, rfl, hs.edited c c⟩⟩

theorem newNode (kind : Kind) (location : Location) (span : Span) :
    InStep n config (Parser.newNode kind location span) (Tree.Fresh kind span.start) := by
  intro scope s s' _ hs
  let c : Command := .alloc kind location span scope.context
  have hedited := hs.edited c c
  refine ⟨.leaf kind _ _ _ span, Nat.le_of_eq (congrArg List.length (s.rest_edited c)),
    fun _ => ?_⟩
  have hnodes : (s.edited c).nodes = (s'.edited c).nodes := hedited.nodes
  refine ⟨{ s'.edited c with nodes := (s'.edited c).nodes + 1 }, ?_, ?_⟩
  · show EStateM.Result.ok _ _ = _
    rw [hnodes]
  · exact { hedited with nodes := congrArg (· + 1) hnodes }

theorem nodeOver (kind : Kind) (first : Tree) :
    InStep n config (Parser.nodeOver kind first) (Tree.Fresh kind first.head.span.start) :=
  (edit _).bind fun _ _ => newNode kind _ _

theorem amend (t : Tree) (change : Node → Node) :
    InStep n config (Parser.amend t change) (· = t.mapHead change) :=
  (edit _).bind fun _ _ => pure rfl

theorem attach (parent child : Tree) :
    InStep n config (Parser.attach parent child) (· = parent.append [child]) :=
  (edit _).bind fun _ _ => pure rfl

theorem prepend (parent child : Tree) :
    InStep n config (Parser.prepend parent child) (· = parent.prepend child) :=
  (edit _).bind fun _ _ => pure rfl

/-! ## Texts -/

theorem copy (text : String) : InStep n config (Parser.copy text) fun _ => True := by
  refine (edit _).bind fun _ _ => ?_
  intro scope s s' _ hs
  refine ⟨trivial, Nat.le_refl _, fun _ => ⟨_, rfl, { hs with copied := ?_ }⟩⟩
  rw [hs.copied]

theorem quotedText (quote : Char) (t : Token) :
    InStep n config (Parser.quotedText quote t) fun _ => True := by
  refine read fun scope => ?_
  split
  · exact fun _ _ s' _ hs => ⟨Nat.le_refl _, fun _ => ⟨s', rfl, hs⟩⟩
  · split
    · exact copy _
    · exact pure trivial

theorem tokenText (t : Token) : InStep n config (Parser.tokenText t) fun _ => True := by
  unfold Parser.tokenText
  split
  · exact quotedText _ t
  · split
    · exact pure trivial
    · exact pure trivial
    · exact quotedText _ t
  · exact pure trivial
  · exact pure trivial

theorem tokenTexts : ∀ ts : List Token, InStep n config (SqlSyntax.tokenTexts ts) fun _ => True
  | [] => by
    unfold SqlSyntax.tokenTexts
    rw [List.mapM_nil]
    exact pure trivial
  | t :: ts => by
    unfold SqlSyntax.tokenTexts
    rw [List.mapM_cons]
    exact (tokenText t).bind fun _ _ => (tokenTexts ts).bind fun _ _ => pure trivial

/-! ## Repetition -/

/-- Repetition depends on the tokens of its list by their number. -/
theorem iterateOver_congr (step : α → Parser (Option α)) :
    ∀ {ts us : List Token} (a : α), ts.length = us.length →
      iterateOver step ts a = iterateOver step us a
  | [], [], _, _ => rfl
  | _ :: _, _ :: _, _, h => by
    unfold iterateOver
    congr 1
    funext o
    cases o
    · rfl
    · exact iterateOver_congr step _ (Nat.succ.inj h)

theorem iterate {step : α → Parser (Option α)} {a : α}
    (h : ∀ a, fact a → InStep n config (step a) fun o => ∀ b ∈ o, fact b) (ha : fact a) :
    InStep n config (Parser.iterate step a) fact := by
  have hover : ∀ (ts : List Token) (a : α), fact a →
      InStep n config (iterateOver step ts a) fact := by
    intro ts
    induction ts with
    | nil =>
      intro a ha
      refine (h a ha).bind fun o ho => ?_
      rcases o with _ | b
      · exact pure ha
      · exact pure (ho b rfl)
    | cons t ts ih =>
      intro a ha
      refine (h a ha).bind fun o ho => ?_
      rcases o with _ | b
      · exact pure ha
      · exact ih b (ho b rfl)
  intro scope s s' hconfig hs
  show Follows n fact s (iterateOver step s.rest a scope s) (iterateOver step s'.rest a scope s')
  rw [iterateOver_congr step a hs.length_eq.symm]
  exact hover s.rest a ha scope s s' hconfig hs

end Parser.InStep

/-! ## Productions in step -/

/-- The productions that occur inside one another run in step. -/
structure Nested.InStep (n : Nat) (config : Config) (inner : Nested) : Prop where
  expression : ∀ power, (inner.expression power).InStep n config fun _ => True
  query : inner.query.InStep n config fun _ => True
  joinTree : inner.joinTree.InStep n config fun _ => True
  statement : inner.statement.InStep n config fun _ => True

/-- What is put together from steps runs in step. -/
theorem Built.inStep {n : Nat} {T : Terms} {α : Type} {pre : List Tree} {p : Parser α}
    {post : α → List Tree} {fact : α → Prop} (hknown : ∀ t, T.known t)
    (hself : T.self.InStep n T.config) (h : Built T pre p post fact) :
    p.InStep n T.config fact := by
  induction h with
  | done post a h => exact .pure h
  | bind _ _ ihp ihk => exact ihp.bind ihk
  | frame others _ ih => exact ih
  | relax _ _ _ hfact ih => exact ih.weaken hfact
  | look f hf h => exact .look hf fun ts n => h ts n fun t _ => hknown t
  | ask _ _ ih => exact ih.ask
  | advance => exact InStep.advance.weaken fun _ _ t _ => hknown t
  | fail _ _ => exact .fail _
  | unexpected what => exact .unexpected what
  | deeper _ ih => exact ih.deeper
  | within context _ ih => exact ih.within context
  | nodeAt kind _ => exact .newNode kind _ _
  | nodeOver kind first => exact .nodeOver kind first
  | amend _ _ => exact .amend _ _
  | attach child _ => exact .attach _ child
  | prepend child _ => exact .prepend _ child
  | inscribe _ hc _ _ ih =>
    refine (InStep.tokenTexts _).bind fun texts _ => ih.bind fun t ht => ?_
    exact (InStep.amend t _).weaken fun u hu => ⟨t, ht, hu ▸ t.alike_mapHead (hc.alike texts)⟩
  | inscribeType _ _ _ ihname ih =>
    refine ihname.bind fun r _ => ih.bind fun t ht => ?_
    refine (InStep.amend t _).bind fun u hu => .pure ⟨t, ht, ?_⟩
    subst hu
    cases t
    exact ⟨rfl, rfl, rfl, rfl, rfl⟩
  | iterate holds _ ha ih => exact .iterate ih ha
  | expression power => exact hself.expression power
  | query => exact hself.query
  | joinTree => exact hself.joinTree
  | statement => exact hself.statement

theorem Nested.upTo_inStep (n : Nat) (config : Config) : ∀ k, (Nested.upTo k).InStep n config
  | 0 => ⟨fun _ => .unexpected _, .unexpected _, .unexpected _, .unexpected _⟩
  | k + 1 => by
    have ih := Nested.upTo_inStep n config k
    rw [Nested.upTo_succ]
    have hbuilt : ∀ {p : Parser Tree},
        Built (Law.openTerms config (Nested.upTo k)) [] p one (fun _ => True) →
        p.InStep n config fun _ => True :=
      fun h => h.inStep (T := Law.openTerms config (Nested.upTo k)) (fun _ => trivial) ih
    exact {
      expression := fun power => hbuilt (expression_yields (fun _ => rfl) power)
      query := hbuilt query_makes.yields
      joinTree := hbuilt joinTree_yields
      statement := hbuilt statement_makes.yields }

/-! ## Scripts in step -/

namespace Script

variable {n : Nat} {config : Config}

/-- Whatever is put together from statements and steps runs in step. -/
theorem inStep_of_built {α : Type} {pre : List Tree} {p : Parser α} {post : α → List Tree}
    {fact : α → Prop} (h : Built (Law.openTerms config nested) pre p post fact) :
    p.InStep n config fact := by
  have hself := Nested.upTo_inStep n config
  obtain ⟨hexpression, hquery, hjoinTree, -⟩ := hself 0
  have hnested : nested.InStep n config := ⟨hexpression, hquery, hjoinTree, ?_⟩
  · exact h.inStep (T := Law.openTerms config nested) (fun _ => trivial) hnested
  intro scope s s' hconfig hs
  have hrun : ∀ s, nested.statement scope s = (Nested.forTokens s.rest.length).statement scope s :=
    fun _ => rfl
  rw [hrun, hrun, hs.length_eq]
  exact (hself _).statement scope s s' hconfig hs

theorem single_inStep : single.InStep n config fun _ => True := inStep_of_built (single_yields rfl)

theorem next?_inStep : next?.InStep n config fun _ => True := inStep_of_built (next?_built rfl)

theorem all_inStep : all.InStep n config fun _ => True := inStep_of_built (all_built rfl)

theorem synchronized_twin {s s' : Progress} (hs : s.Twin 0 s') :
    s.synchronized.Twin 0 s'.synchronized := by
  unfold Progress.synchronized
  rw [hs.rest_eq]
  exact ⟨rfl, rfl, by rw [hs.taken], by rw [hs.lastEnd], hs.nodes, hs.copied, hs.deepest⟩

end Script

end SqlSyntax
