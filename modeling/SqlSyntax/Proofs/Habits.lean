import SqlSyntax.Proofs.Growth
import SqlSyntax.Proofs.Script

/-!
# Habits of parsers

Most steps ask neither for the configuration nor for the level that is open (`Parser.Blind`). What
holds of those, is carried along from step to step, and holds where an option is asked for or a
level is opened, is a habit of the parsers under a configuration, and so of every production
(`Habit.single`): the induction over the grammar is done once, for all habits.
-/

namespace SqlSyntax

open SqlSyntax.Parser

variable {α β : Type}

/-- Where a run ended. -/
def progressOf : EStateM.Result Failure Progress α → Progress
  | .ok _ s | .error _ s => s

/-- From the first point to the second, tokens were taken one by one, and none was given back. -/
def Progress.Onward (s r : Progress) : Prop :=
  ∃ passed, s.rest = passed ++ r.rest ∧ r.taken = s.taken + passed.length

namespace Progress.Onward

variable {s r q : Progress}

/-- Points with the same tokens ahead. -/
theorem of_eq (hrest : r.rest = s.rest) (htaken : r.taken = s.taken) : s.Onward r :=
  ⟨[], hrest.symm, htaken⟩

theorem refl (s : Progress) : s.Onward s := of_eq rfl rfl

theorem trans (h : s.Onward r) (h' : r.Onward q) : s.Onward q := by
  obtain ⟨passed, hrest, htaken⟩ := h
  obtain ⟨more, hrest', htaken'⟩ := h'
  refine ⟨passed ++ more, by rw [hrest, hrest', List.append_assoc], ?_⟩
  rw [htaken', htaken, List.length_append, Nat.add_assoc]

theorem edited (c : Command) (s : Progress) : s.Onward (s.edited c) := by
  refine of_eq (s.rest_edited c) ?_
  unfold Progress.edited
  split
  · rfl
  · split <;> rfl

end Progress.Onward

/-! ## Steps that no option has a part in -/

/-- The parser asks neither for the configuration nor for the level, and opens no level, so it has
no part in the stack. It gives no token back. -/
structure Parser.Blind (p : Parser α) (fact : α → Prop) : Prop where
  same : ∀ (scope : Scope) (config : Config) (stack : StackUse) (s : Progress),
    p { scope with config, stack } s = p scope s
  deepest : ∀ (scope : Scope) (s : Progress), (progressOf (p scope s)).deepest = s.deepest
  onward : ∀ (scope : Scope) (s : Progress), s.Onward (progressOf (p scope s))
  fact : ∀ {scope s a r}, p scope s = .ok a r → fact a

theorem Progress.deepest_edited (c : Command) (s : Progress) :
    (s.edited c).deepest = s.deepest := by
  unfold edited
  split
  · rfl
  · split <;> rfl

namespace Parser.Blind

variable {p : Parser α} {fact : α → Prop}

/-- A parser that answers in any case, and only looks. -/
theorem answers {f : Progress → α} (hp : ∀ scope s, p scope s = .ok (f s) s)
    (hfact : ∀ s, fact (f s)) : Blind p fact where
  same scope config stack s := by rw [hp, hp]
  deepest scope s := by
    rw [hp]
    rfl
  onward scope s := by
    rw [hp]
    exact .refl s
  fact {scope s a r} h := by
    rw [hp] at h
    injection h with ha
    exact ha ▸ hfact s

theorem pure {a : α} (h : fact a) : Blind (Pure.pure a) fact :=
  answers (f := fun _ => a) (fun _ _ => rfl) fun _ => h

/-- A parser that fails in any case. -/
theorem fails {f : Scope → Progress → Failure} (hp : ∀ scope s, p scope s = .error (f scope s) s)
    (hsame : ∀ (scope : Scope) config stack s, f { scope with config, stack } s = f scope s) :
    Blind p fact where
  same scope config stack s := by rw [hp, hp, hsame]
  deepest scope s := by
    rw [hp]
    rfl
  onward scope s := by
    rw [hp]
    exact .refl s
  fact {scope s a r} h := by simp [hp] at h

theorem throw (f : Failure) : Blind (MonadExcept.throw f : Parser α) fact :=
  fails (f := fun _ _ => f) (fun _ _ => rfl) fun _ _ _ _ => rfl

theorem bind {k : α → Parser β} {fact' : β → Prop} (hp : Blind p fact)
    (hk : ∀ a, fact a → Blind (k a) fact') : Blind (p >>= k) fact' where
  same scope config stack s := by
    have hsame := hp.same scope config stack s
    rcases hrun : p scope s with ⟨a, r⟩ | ⟨f, r⟩
    · rw [bind_ok hrun, bind_ok (hsame.trans hrun), (hk a (hp.fact hrun)).same]
    · rw [bind_error hrun, bind_error (hsame.trans hrun)]
  deepest scope s := by
    have hdeepest := hp.deepest scope s
    rcases hrun : p scope s with ⟨a, r⟩ | ⟨f, r⟩
    · rw [hrun] at hdeepest
      rw [bind_ok hrun, (hk a (hp.fact hrun)).deepest]
      exact hdeepest
    · rw [hrun] at hdeepest
      rw [bind_error hrun]
      exact hdeepest
  onward scope s := by
    have honward := hp.onward scope s
    rcases hrun : p scope s with ⟨a, r⟩ | ⟨f, r⟩
    · rw [hrun] at honward
      rw [bind_ok hrun]
      exact honward.trans ((hk a (hp.fact hrun)).onward scope r)
    · rw [hrun] at honward
      rw [bind_error hrun]
      exact honward
  fact {scope s b r} h := by
    rcases hrun : p scope s with ⟨a, r'⟩ | ⟨f, r'⟩
    · rw [bind_ok hrun] at h
      exact (hk a (hp.fact hrun)).fact h
    · rw [bind_error hrun] at h
      cases h

theorem look {f : List Token → Nat → α} (h : ∀ ts n, fact (f ts n)) :
    Blind (do let p ← get; return f p.rest p.lastEnd) fact :=
  answers (f := fun s => f s.rest s.lastEnd) (fun _ _ => rfl) fun s => h s.rest s.lastEnd

theorem advance : Blind Parser.advance fun _ => True where
  same _ _ _ _ := rfl
  deepest _ s := by rcases s with ⟨_ | ⟨t, rest⟩⟩ <;> rfl
  onward _ s := by
    rcases s with ⟨_ | ⟨t, rest⟩⟩
    · exact .refl _
    · exact ⟨[t], rfl, rfl⟩
  fact _ := trivial

theorem unexpected (what : String) : Blind (Parser.unexpected what : Parser α) fact := by
  refine fails (f := fun scope s => .error (s.rest.head?.elim
    (.endOfInput what (.atOffset scope.source scope.source.byteSize)) (.unexpected what)))
    ?_ fun _ _ _ _ => rfl
  rintro scope ⟨_ | ⟨t, rest⟩⟩ <;> rfl

theorem edit (c : Command) : Blind (Parser.edit c) fun _ => True :=
  ⟨fun _ _ _ _ => rfl, fun _ s => s.deepest_edited c, fun _ s => .edited c s, fun _ => trivial⟩

theorem newNode (kind : Kind) (location : Location) (span : Span) :
    Blind (Parser.newNode kind location span) (Tree.Fresh kind span.start) where
  same _ _ _ _ := rfl
  deepest _ s := s.deepest_edited _
  onward _ s := (Progress.Onward.edited _ s).trans (.of_eq rfl rfl)
  fact h := by
    injection h with h
    exact h ▸ .leaf kind _ _ _ span

theorem nodeOver (kind : Kind) (first : Tree) :
    Blind (Parser.nodeOver kind first) (Tree.Fresh kind first.head.span.start) :=
  (edit _).bind fun _ _ => newNode kind _ _

theorem amend (t : Tree) (change : Node → Node) :
    Blind (Parser.amend t change) (· = t.mapHead change) :=
  (edit _).bind fun _ _ => pure rfl

theorem attach (parent child : Tree) :
    Blind (Parser.attach parent child) (· = parent.append [child]) :=
  (edit _).bind fun _ _ => pure rfl

theorem prepend (parent child : Tree) :
    Blind (Parser.prepend parent child) (· = parent.prepend child) :=
  (edit _).bind fun _ _ => pure rfl

theorem copy (text : String) : Blind (Parser.copy text) fun _ => True :=
  (edit _).bind fun _ _ =>
    ⟨fun _ _ _ _ => rfl, fun _ _ => rfl, fun _ _ => .of_eq rfl rfl, fun _ => trivial⟩

/-- Of what it is told, the parser asks only for the source. -/
theorem ofScope {k : Scope → Parser α} (hk : ∀ scope, Blind (k scope) fact)
    (hsame : ∀ scope scope', scope.source = scope'.source → k scope = k scope') :
    Blind (do k (← read)) fact where
  same scope config stack s := by
    rw [read_run, read_run, hsame { scope with config, stack } scope rfl]
    exact (hk scope).same scope config stack s
  deepest scope := (hk scope).deepest scope
  onward scope := (hk scope).onward scope
  fact {scope _ _ _} := (hk scope).fact

theorem quotedText (quote : Char) (t : Token) :
    Blind (Parser.quotedText quote t) fun _ => True := by
  unfold Parser.quotedText
  generalize t.span.inner 1 = inner
  refine ofScope (fun scope => ?_) fun _ _ h => by rw [h]
  split
  · exact throw _
  · split
    · exact copy _
    · exact pure trivial

theorem tokenText (t : Token) : Blind (Parser.tokenText t) fun _ => True := by
  unfold Parser.tokenText
  split
  · exact quotedText _ t
  · split
    · exact pure trivial
    · exact pure trivial
    · exact quotedText _ t
  · exact pure trivial
  · exact pure trivial

theorem tokenTexts : ∀ ts : List Token, Blind (SqlSyntax.tokenTexts ts) fun _ => True
  | [] => by
    unfold SqlSyntax.tokenTexts
    rw [List.mapM_nil]
    exact pure trivial
  | t :: ts => by
    unfold SqlSyntax.tokenTexts
    rw [List.mapM_cons]
    exact (tokenText t).bind fun _ _ => (tokenTexts ts).bind fun _ _ => pure trivial

end Parser.Blind

/-! ## Habits -/

/-- What the steps under a configuration carry along: it is had by the steps that no option has a
part in, and by what is put together from parsers that have it. -/
structure Habit (config : Config) (P : (α : Type) → Parser α → (α → Prop) → Prop) : Prop where
  blind : ∀ {α p} {fact : α → Prop}, Blind p fact → P α p fact
  bind : ∀ {α β p k} {fact : α → Prop} {fact' : β → Prop}, P α p fact →
    (∀ a, fact a → P β (k a) fact') → P β (p >>= k) fact'
  weaken : ∀ {α p} {fact fact' : α → Prop}, P α p fact → (∀ a, fact a → fact' a) → P α p fact'
  ask : ∀ {α k} {fact : α → Prop}, Config.Chooses k → P α (k config) fact →
    P α (do k (← read).config) fact
  byTokens : ∀ {α} {p : List Token → Parser α} {fact : α → Prop}, (∀ ts, P α (p ts) fact) →
    P α (do p (← get).rest) fact
  within : ∀ {α p} {fact : α → Prop} context, P α p fact → P α (within context p) fact
  deeper : ∀ {α p} {fact : α → Prop}, P α p fact → P α (deeper p) fact

namespace Habit

variable {config : Config} {P : (α : Type) → Parser α → (α → Prop) → Prop}

/-- The productions that occur inside one another have the habit. -/
structure Of (P : (α : Type) → Parser α → (α → Prop) → Prop) (inner : Nested) : Prop where
  expression : ∀ power, P Tree (inner.expression power) fun _ => True
  query : P Tree inner.query fun _ => True
  joinTree : P Tree inner.joinTree fun _ => True
  statement : P Tree inner.statement fun _ => True

section

variable (hP : Habit config P)

include hP

theorem iterate {fact : α → Prop} {step : α → Parser (Option α)} {a : α}
    (h : ∀ a, fact a → P (Option α) (step a) fun o => ∀ b ∈ o, fact b) (ha : fact a) :
    P α (Parser.iterate step a) fact := by
  refine hP.byTokens (p := fun ts => iterateOver step ts a) fun ts => ?_
  induction ts generalizing a with
  | nil =>
    refine hP.bind (h a ha) fun o ho => hP.blind (.pure ?_)
    rcases o with _ | b
    · exact ha
    · exact ho b rfl
  | cons t ts ih =>
    refine hP.bind (h a ha) fun o ho => ?_
    rcases o with _ | b
    · exact hP.blind (.pure ha)
    · exact ih (ho b rfl)

/-- What is put together from steps has the habit. -/
theorem of_built {inner : Nested} {pre : List Tree} {p : Parser α} {post : α → List Tree}
    {fact : α → Prop} (hinner : Of P inner)
    (h : Built (Law.openTerms config inner) pre p post fact) : P α p fact := by
  generalize hT : Law.openTerms config inner = T at h
  induction h with
  | done post a h => exact hP.blind (.pure h)
  | bind _ _ ihp ihk => exact hP.bind ihp ihk
  | frame others _ ih => exact ih
  | relax _ _ _ hfact ih => exact hP.weaken ih hfact
  | look f _ h => exact hP.blind (.look fun ts n => h ts n fun t _ => hT ▸ trivial)
  | ask hk _ ih =>
    subst hT
    exact hP.ask hk ih
  | advance => exact hP.weaken (hP.blind .advance) fun _ _ t _ => hT ▸ trivial
  | fail _ _ => exact hP.blind (.throw _)
  | unexpected what => exact hP.blind (.unexpected what)
  | deeper _ ih => exact hP.deeper ih
  | within context _ ih => exact hP.within context ih
  | nodeAt kind _ => exact hP.blind (.newNode kind _ _)
  | nodeOver kind first => exact hP.blind (.nodeOver kind first)
  | amend _ _ => exact hP.blind (.amend _ _)
  | attach child _ => exact hP.blind (.attach _ child)
  | prepend child _ => exact hP.blind (.prepend _ child)
  | inscribe _ hc _ _ ih =>
    refine hP.bind (hP.blind (.tokenTexts _)) fun texts _ => hP.bind ih fun t ht => ?_
    refine hP.weaken (hP.blind (.amend t _)) fun u hu => ⟨t, ht, ?_⟩
    exact hu ▸ t.alike_mapHead (hc.alike texts)
  | inscribeType _ _ _ ihname ih =>
    refine hP.bind ihname fun r _ => hP.bind ih fun t ht => ?_
    refine hP.bind (hP.blind (.amend t _)) fun u hu => hP.blind (.pure ⟨t, ht, ?_⟩)
    subst hu
    cases t
    exact ⟨rfl, rfl, rfl, rfl, rfl⟩
  | iterate holds _ ha ih => exact hP.iterate ih ha
  | expression power => exact hT ▸ hinner.expression power
  | query => exact hT ▸ hinner.query
  | joinTree => exact hT ▸ hinner.joinTree
  | statement => exact hT ▸ hinner.statement

theorem upTo : ∀ n, Of P (Nested.upTo n)
  | 0 => ⟨fun _ => hP.blind (.unexpected _), hP.blind (.unexpected _), hP.blind (.unexpected _),
      hP.blind (.unexpected _)⟩
  | n + 1 => by
    have ih := upTo n
    rw [Nested.upTo_succ]
    exact {
      expression := fun power => hP.of_built ih (expression_yields (fun _ => rfl) power)
      query := hP.of_built ih query_makes.yields
      joinTree := hP.of_built ih joinTree_yields
      statement := hP.of_built ih statement_makes.yields }

theorem nested : Of P Script.nested := by
  have hself := upTo hP
  obtain ⟨hexpression, hquery, hjoinTree, -⟩ := hself 0
  refine ⟨hexpression, hquery, hjoinTree, ?_⟩
  exact hP.byTokens fun ts => (hself (ts.length + 1)).statement

theorem single : P Tree Script.single fun _ => True :=
  hP.of_built hP.nested (Script.single_yields rfl)

theorem next? : P (Option Tree) Script.next? fun _ => True :=
  hP.of_built hP.nested (Script.next?_built rfl)

theorem all : P (List Tree) Script.all fun _ => True := hP.of_built hP.nested (Script.all_built rfl)

end

end Habit

end SqlSyntax
