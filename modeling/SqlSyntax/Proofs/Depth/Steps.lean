import SqlSyntax.Proofs.EntryPoints
import SqlSyntax.Proofs.Habits

/-!
# Levels between two tokens

A production calls those that occur inside it only after it has taken a token. So where `n + 1`
tokens are ahead of it, the inner productions matter only where at most `n` are, and it opens at
most two levels more than they do there.

`Parser.Confined n levels more` says of two parsers, which may differ in their inner productions,
that they run alike where at most `n + more` tokens are ahead, and open at most so many levels. The
inner productions are confined with `more` being zero, and a production with `more` being one: it
comes to what is inside it behind a step that takes a token, where there is one less
(`Confined.bind_takes`).

The judgement is a class. Its instances are the rules for steps that are put together, and one for
each step and each production, so the proof about a production goes along its text. What is spelled
out is where a text goes on by cases of something that it reads.
-/

namespace SqlSyntax

open SqlSyntax.Parser

variable {α β γ : Type} {n levels more : Nat}

/-- A failure that is no level refused. -/
def Failure.IsPlain : Failure → Prop
  | .error e => e.kind ≠ .tooDeep
  | _ => True

/-- The run from a point came to `x`, gave no token back, and opened at most so many levels. If a
level was refused, it was one of these. -/
structure Confines (scope : Scope) (levels : Nat) (s : Progress)
    (x : EStateM.Result Failure Progress α) : Prop where
  rest : (progressOf x).rest.length ≤ s.rest.length
  deepest : (progressOf x).deepest ≤ max s.deepest (scope.depth + levels)
  limit : ∀ {e r limit}, x = .error (.error e) r → e.cause = .depthExceeded limit →
    scope.config.depthLimit < scope.depth + levels
  stack : ∀ {e r budget depth}, x = .error (.error e) r → e.cause = .stackExhausted budget depth →
    scope.config.stackBudget ≠ 0

namespace Confines

variable {scope : Scope} {s r : Progress} {x : EStateM.Result Failure Progress α}

theorem ok {a : α} (hrest : r.rest.length ≤ s.rest.length) (hdeepest : r.deepest = s.deepest) :
    Confines scope levels s (.ok a r) where
  rest := hrest
  deepest := hdeepest ▸ Nat.le_max_left _ _
  limit := nofun
  stack := nofun

theorem error {f : Failure} (hf : f.IsPlain) :
    Confines scope levels s (.error f s : EStateM.Result Failure Progress α) where
  rest := Nat.le_refl _
  deepest := Nat.le_max_left _ _
  limit := by
    rintro e _ limit ⟨⟩ hcause
    exact absurd (congrArg Cause.kind hcause) hf
  stack := by
    rintro e _ budget depth ⟨⟩ hcause
    exact absurd (congrArg Cause.kind hcause) hf

theorem mono {levels' : Nat} (h : Confines scope levels s x) (hle : levels ≤ levels') :
    Confines scope levels' s x where
  rest := h.rest
  deepest := by
    have hdeepest := h.deepest
    omega
  limit hx hcause := Nat.lt_of_lt_of_le (h.limit hx hcause) (by omega)
  stack := h.stack

/-- What comes after a run that is confined. -/
theorem after {a : α} {y : EStateM.Result Failure Progress β}
    (h : Confines scope levels s (.ok a r)) (h' : Confines scope levels r y) :
    Confines scope levels s y where
  rest := Nat.le_trans h'.rest h.rest
  deepest := by
    have hdeepest := h'.deepest
    have hfirst : r.deepest ≤ max s.deepest (scope.depth + levels) := h.deepest
    omega
  limit := h'.limit
  stack := h'.stack

/-- A failure is one of all that would come after it. -/
theorem failed {f : Failure} (h : Confines scope levels s (.error f r : EStateM.Result _ _ α)) :
    Confines scope levels s (.error f r : EStateM.Result _ _ β) where
  rest := h.rest
  deepest := h.deepest
  limit := by
    rintro e _ limit ⟨⟩ hcause
    exact h.limit rfl hcause
  stack := by
    rintro e _ budget depth ⟨⟩ hcause
    exact h.stack rfl hcause

/-- A level is refused before anything is done. -/
theorem refused {cause : Cause}
    (hlimit : ∀ limit, cause = .depthExceeded limit →
      scope.config.depthLimit < scope.depth + levels)
    (hstack : ∀ budget depth, cause = .stackExhausted budget depth →
      scope.config.stackBudget ≠ 0) :
    Confines scope levels s (.error (scope.refusal cause s) s : EStateM.Result _ _ α) := by
  have hcause : ∀ {e}, scope.refusal cause s = .error e → e.cause = cause := by
    rcases s with ⟨_ | ⟨t, rest⟩⟩ <;> rintro _ ⟨⟩ <;> rfl
  refine ⟨Nat.le_refl _, Nat.le_max_left _ _, fun hx h => ?_, fun hx h => ?_⟩
  · injection hx with hx
    exact hlimit _ ((hcause hx).symm.trans h)
  · injection hx with hx
    exact hstack _ _ ((hcause hx).symm.trans h)

/-- What a run with one more open level comes to. -/
theorem opened
    (h : Confines { scope with depth := scope.depth + 1 } levels
      { s with deepest := max s.deepest (scope.depth + 1) } x) :
    Confines scope (levels + 1) s x where
  rest := h.rest
  deepest := by
    have hdeepest := h.deepest
    dsimp only at hdeepest
    omega
  limit hx hcause := by
    have hlimit := h.limit hx hcause
    dsimp only at hlimit
    omega
  stack := h.stack

end Confines

theorem Config.stackBudget_ne_zero {c : Config} {depth : Nat} (h : c.exceedsStack depth) :
    c.stackBudget ≠ 0 := by
  intro hzero
  simp [exceedsStack, hzero] at h

/-! ## Parsers -/

/-- Where at most `n + more` tokens are ahead, both parsers run alike, give no token back, and open
at most so many levels. -/
class Parser.Confined (n levels more : Nat) (p p' : Parser α) : Prop where
  run : ∀ (scope : Scope) (s : Progress), s.rest.length ≤ n + more →
    p' scope s = p scope s ∧ Confines scope levels s (p scope s)

/-- The inner productions are confined with at most `n` tokens ahead. -/
class Nested.Confined (n levels : Nat) (inner inner' : Nested) : Prop where
  expression : ∀ power,
    Parser.Confined n levels 0 (inner.expression power) (inner'.expression power)
  query : Parser.Confined n levels 0 inner.query inner'.query
  joinTree : Parser.Confined n levels 0 inner.joinTree inner'.joinTree
  statement : Parser.Confined n levels 0 inner.statement inner'.statement

attribute [instance] Nested.Confined.expression Nested.Confined.query Nested.Confined.joinTree
  Nested.Confined.statement

/-- Each answer of the parser has taken a token. -/
class Parser.Takes (p : Parser α) : Prop where
  taken : ∀ {scope : Scope} {s : Progress} {a : α} {r : Progress}, p scope s = .ok a r →
    r.rest.length < s.rest.length

/-- Each answer of the parser but `none` has taken a token. -/
class Parser.Spends (p : Parser (Option α)) : Prop where
  taken : ∀ {scope : Scope} {s : Progress} {a : α} {r : Progress}, p scope s = .ok (some a) r →
    r.rest.length < s.rest.length

namespace Parser.Confined

variable {p p' : Parser α} {k k' : α → Parser β}

theorem deepen {levels' : Nat} (h : Confined n levels more p p') (hle : levels ≤ levels') :
    Confined n levels' more p p' where
  run scope s hs := (h.run scope s hs).imp_right (·.mono hle)

/-- With a token more than needed. -/
instance (priority := low) given [h : Confined n levels 1 p p'] : Confined n levels 0 p p' where
  run scope s hs := h.run scope s (by omega)

/-- A parser that answers in any case and opens no level. -/
theorem answers (h : ∀ scope s, ∃ a r, p scope s = .ok a r ∧ r.rest.length ≤ s.rest.length ∧
    r.deepest = s.deepest) : Confined n levels more p p where
  run scope s _ := by
    obtain ⟨a, r, hrun, hrest, hdeepest⟩ := h scope s
    exact ⟨rfl, hrun ▸ .ok hrest hdeepest⟩

/-- A parser that fails in any case where no level is asked for. -/
theorem fails (h : ∀ scope s, ∃ f : Failure, p scope s = .error f s ∧ f.IsPlain) :
    Confined n levels more p p where
  run scope s _ := by
    obtain ⟨f, hrun, hf⟩ := h scope s
    exact ⟨rfl, hrun ▸ .error hf⟩

instance pure (a : α) : Confined n levels more (pure a) (pure a) :=
  .answers fun _ s => ⟨a, s, rfl, Nat.le_refl _, rfl⟩

/-! ## Steps put together -/

/-- What comes after a step is confined where the step is done. -/
theorem chain (hp : Confined n levels more p p')
    (hk : ∀ {scope s a r}, s.rest.length ≤ n + more → r.rest.length ≤ s.rest.length →
      p scope s = .ok a r → k' a scope r = k a scope r ∧ Confines scope levels r (k a scope r)) :
    Confined n levels more (p >>= k) (p' >>= k') where
  run scope s hs := by
    obtain ⟨hsame, hconfines⟩ := hp.run scope s hs
    rcases hrun : p scope s with ⟨a, r⟩ | ⟨f, r⟩
    · rw [hrun] at hsame hconfines
      obtain ⟨hsame', hconfines'⟩ := hk hs hconfines.rest hrun
      rw [bind_ok hrun, bind_ok hsame]
      exact ⟨hsame', hconfines.after hconfines'⟩
    · rw [hrun] at hsame hconfines
      rw [bind_error hrun, bind_error hsame]
      exact ⟨rfl, hconfines.failed⟩

theorem andThen (hp : Confined n levels more p p')
    (hk : ∀ a, Confined n levels more (k a) (k' a)) :
    Confined n levels more (p >>= k) (p' >>= k') :=
  hp.chain fun {scope _ a r} hs hle _ => (hk a).run scope r (Nat.le_trans hle hs)

instance bind [hp : Confined n levels more p p'] [hk : ∀ a, Confined n levels more (k a) (k' a)] :
    Confined n levels more (p >>= k) (p' >>= k') := hp.andThen hk

/-- Behind a step that takes a token there is one less. -/
instance (priority := 1100) bind_takes [ht : Takes p] [hp : Confined n levels 1 p p']
    [hk : ∀ a, Confined n levels 0 (k a) (k' a)] : Confined n levels 1 (p >>= k) (p' >>= k') :=
  hp.chain fun {scope _ a r} hs _ hrun => (hk a).run scope r (by
    have htaken := ht.taken hrun
    omega)

section Split

variable {p p' : Parser (Option α)} {k k' : Option α → Parser β} {q q' : Parser Bool}
  {l l' : Bool → Parser β}

instance (priority := 1100) bind_option [hp : Confined n levels more p p']
    [hsome : ∀ a, Confined n levels more (k (some a)) (k' (some a))]
    [hnone : Confined n levels more (k none) (k' none)] :
    Confined n levels more (p >>= k) (p' >>= k') :=
  hp.andThen fun o => by
    cases o with
    | none => exact hnone
    | some a => exact hsome a

instance (priority := 1200) bind_spends [ht : Spends p] [hp : Confined n levels 1 p p']
    [hsome : ∀ a, Confined n levels 0 (k (some a)) (k' (some a))]
    [hnone : Confined n levels 1 (k none) (k' none)] :
    Confined n levels 1 (p >>= k) (p' >>= k') :=
  hp.chain fun {scope s a r} hs hle hrun => by
    rcases a with _ | a
    · exact hnone.run scope r (Nat.le_trans hle hs)
    · have htaken := ht.taken hrun
      exact (hsome a).run scope r (by omega)

instance (priority := 1100) bind_bool [hq : Confined n levels more q q']
    [htrue : Confined n levels more (l true) (l' true)]
    [hfalse : Confined n levels more (l false) (l' false)] :
    Confined n levels more (q >>= l) (q' >>= l') :=
  hq.andThen fun b => by
    cases b
    · exact hfalse
    · exact htrue

end Split

instance ite {c : Prop} [Decidable c] {p p' q q' : Parser α} [hp : Confined n levels more p p']
    [hq : Confined n levels more q q'] :
    Confined n levels more (if c then p else q) (if c then p' else q') := by
  split
  · exact hp
  · exact hq

instance (priority := 1100) ite_false {p p' q q' : Parser α} [hq : Confined n levels more q q'] :
    Confined n levels more (if false = true then p else q) (if false = true then p' else q') := hq

instance discard [Confined n levels more p p'] :
    Confined n levels more (discard p) (discard p') :=
  inferInstanceAs (Confined n levels more (do let _ ← p; return ()) (do let _ ← p'; return ()))

instance within {context : Context} [h : Confined n levels more p p'] :
    Confined n levels more (within context p) (within context p') where
  run scope s hs := by
    obtain ⟨hsame, hconfines⟩ := h.run { scope with context := some context } s hs
    exact ⟨hsame, hconfines.rest, hconfines.deepest, hconfines.limit, hconfines.stack⟩

/-- A level is opened, or refused. -/
instance deeper [h : Confined n levels more p p'] :
    Confined n (levels + 1) more (deeper p) (deeper p') where
  run scope s hs := by
    rw [deeper_run, deeper_run]
    split
    · next hlimit => exact ⟨rfl, .refused (fun _ _ => by omega) nofun⟩
    · split
      · next hstack => exact ⟨rfl, .refused nofun fun _ _ _ => Config.stackBudget_ne_zero hstack⟩
      · obtain ⟨hsame, hconfines⟩ := h.run { scope with depth := scope.depth + 1 }
          { s with deepest := max s.deepest (scope.depth + 1) } hs
        exact ⟨hsame, hconfines.opened⟩

/-! ## Steps -/

instance read : Confined n levels more (read : Parser Scope) read :=
  .answers fun scope s => ⟨scope, s, rfl, Nat.le_refl _, rfl⟩

instance get : Confined n levels more (get : Parser Progress) get :=
  .answers fun _ s => ⟨s, s, rfl, Nat.le_refl _, rfl⟩

instance current : Confined n levels more current current := by
  unfold Parser.current
  infer_instance

instance kindAt (i : Nat) : Confined n levels more (kindAt i) (kindAt i) := by
  unfold Parser.kindAt
  infer_instance

instance currentKind : Confined n levels more currentKind currentKind := kindAt 0

instance atEnd : Confined n levels more atEnd atEnd := by
  unfold Parser.atEnd
  infer_instance

instance sees (kind : TokenKind) : Confined n levels more (sees kind) (sees kind) := by
  unfold Parser.sees
  infer_instance

instance seesKeyword (k : Keyword) : Confined n levels more (seesKeyword k) (seesKeyword k) :=
  sees _

instance seesOneOf (ks : List Keyword) : Confined n levels more (seesOneOf ks) (seesOneOf ks) := by
  unfold Parser.seesOneOf
  infer_instance

instance advance : Confined n levels more advance advance := by
  refine .answers ?_
  rintro scope ⟨_ | ⟨t, rest⟩⟩
  · exact ⟨_, _, rfl, Nat.le_refl _, rfl⟩
  · exact ⟨_, _, rfl, Nat.le_succ _, rfl⟩

instance takeIf? (test : Token → Bool) :
    Confined n levels more (takeIf? test) (takeIf? test) := by
  unfold Parser.takeIf?
  infer_instance

instance take? (kind : TokenKind) : Confined n levels more (take? kind) (take? kind) := takeIf? _

instance takeKeyword? (k : Keyword) :
    Confined n levels more (takeKeyword? k) (takeKeyword? k) := take? _

instance consume (kind : TokenKind) : Confined n levels more (consume kind) (consume kind) := by
  unfold Parser.consume
  infer_instance

instance consumeKeyword (k : Keyword) :
    Confined n levels more (consumeKeyword k) (consumeKeyword k) := consume _

theorem fail {e : ParseError} (h : e.kind ≠ .tooDeep) :
    Confined n levels more (fail e : Parser α) (fail e) :=
  .fails fun _ _ => ⟨_, rfl, h⟩

instance unexpected (what : String) :
    Confined n levels more (unexpected what : Parser α) (unexpected what) := by
  refine .fails ?_
  rintro scope ⟨_ | ⟨t, rest⟩⟩
  · exact ⟨_, rfl, nofun⟩
  · exact ⟨_, rfl, nofun⟩

instance expect (kind : TokenKind) (what : String) :
    Confined n levels more (expect kind what) (expect kind what) := by
  unfold Parser.expect
  infer_instance

instance expectKeyword (k : Keyword) :
    Confined n levels more (expectKeyword k) (expectKeyword k) := expect _ _

instance checkQuotes (t : Token) : Confined n levels more (checkQuotes t) (checkQuotes t) := by
  have hfail : Confined n levels more (Parser.fail (.atToken .quoteStyle t) : Parser Unit)
      (Parser.fail (.atToken .quoteStyle t)) := fail nofun
  unfold Parser.checkQuotes
  infer_instance

instance expectWord (test : Token → Bool) (what : String) :
    Confined n levels more (expectWord test what) (expectWord test what) := by
  unfold Parser.expectWord
  infer_instance

instance expectName (what : String) :
    Confined n levels more (expectName what) (expectName what) := expectWord _ _

instance expectNamePart (what : String) :
    Confined n levels more (expectNamePart what) (expectNamePart what) := expectWord _ _

instance edit (c : Command) : Confined n levels more (edit c) (edit c) :=
  .answers fun _ s => ⟨(), s.edited c, rfl, Nat.le_of_eq (congrArg _ (s.rest_edited c)),
    s.deepest_edited c⟩

instance newNode (kind : Kind) (location : Location) (span : Span) :
    Confined n levels more (newNode kind location span) (newNode kind location span) :=
  .answers fun _ s => ⟨_, _, rfl, Nat.le_of_eq (congrArg _ (s.rest_edited _)), s.deepest_edited _⟩

instance nodeAt (kind : Kind) (t : Token) :
    Confined n levels more (nodeAt kind t) (nodeAt kind t) := newNode ..

instance nodeOver (kind : Kind) (first : Tree) :
    Confined n levels more (nodeOver kind first) (nodeOver kind first) := by
  unfold Parser.nodeOver
  infer_instance

instance amend (t : Tree) (change : Node → Node) :
    Confined n levels more (amend t change) (amend t change) := by
  unfold Parser.amend
  infer_instance

instance flag (t : Tree) (f : Flag) : Confined n levels more (flag t f) (flag t f) := amend ..

instance flagIf (condition : Bool) (f : Flag) (t : Tree) :
    Confined n levels more (flagIf condition f t) (flagIf condition f t) := by
  unfold Parser.flagIf
  infer_instance

instance finish (t : Tree) : Confined n levels more (finish t) (finish t) := by
  unfold Parser.finish
  infer_instance

instance attach (parent child : Tree) :
    Confined n levels more (attach parent child) (attach parent child) := by
  unfold Parser.attach
  infer_instance

instance prepend (parent child : Tree) :
    Confined n levels more (prepend parent child) (prepend parent child) := by
  unfold Parser.prepend
  infer_instance

instance copy (text : String) : Confined n levels more (copy text) (copy text) :=
  .answers fun _ s => ⟨_, _, rfl, Nat.le_of_eq (congrArg _ (s.rest_edited _)), s.deepest_edited _⟩

instance quotedText (quote : Char) (t : Token) :
    Confined n levels more (quotedText quote t) (quotedText quote t) := by
  have hfail : Confined n levels more (throw (Failure.noBody t) : Parser Text)
      (throw (.noBody t)) := .fails fun _ _ => ⟨_, rfl, trivial⟩
  unfold Parser.quotedText
  generalize t.span.inner 1 = inner
  refine read.andThen fun scope => ?_
  split
  · exact hfail
  · infer_instance

@[instance]
theorem tokenText (t : Token) : Confined n levels more (tokenText t) (tokenText t) := by
  unfold Parser.tokenText
  split
  · infer_instance
  · split <;> infer_instance
  · infer_instance
  · infer_instance

instance setText (t : Tree) (token : Token) :
    Confined n levels more (setText t token) (setText t token) := by
  unfold Parser.setText
  infer_instance

instance namedNode (kind : Kind) (t : Token) :
    Confined n levels more (namedNode kind t) (namedNode kind t) := by
  unfold Parser.namedNode
  infer_instance

/-! ## Repetition -/

section Repetition

variable {step step' : α → Parser (Option α)} {next next' : Parser (Option Tree)}
  {item item' : Parser Tree}

theorem iterateOver (hstep : ∀ a, Confined n levels more (step a) (step' a)) (ts : List Token)
    (a : α) : Confined n levels more (iterateOver step ts a) (iterateOver step' ts a) := by
  induction ts generalizing a with
  | nil => exact (hstep a).andThen fun _ => pure _
  | cons t ts ih =>
    refine (hstep a).andThen fun o => ?_
    cases o with
    | none => exact pure a
    | some b => exact ih b

instance iterate (a : α) [hstep : ∀ a, Confined n levels more (step a) (step' a)] :
    Confined n levels more (iterate step a) (iterate step' a) :=
  get.andThen fun s => iterateOver hstep s.rest a

instance many {next next' : Parser (Option α)} [Confined n levels more next next'] :
    Confined n levels more (many next) (many next') := by
  unfold Parser.many
  infer_instance

instance attachWhile (parent : Tree) [Confined n levels more next next'] :
    Confined n levels more (attachWhile next parent) (attachWhile next' parent) := by
  unfold Parser.attachWhile
  infer_instance

instance afterComma? [Confined n levels more item item'] :
    Confined n levels more (afterComma? item) (afterComma? item') := by
  unfold Parser.afterComma?
  infer_instance

instance attachList (parent : Tree) [Confined n levels more item item'] :
    Confined n levels more (attachList item parent) (attachList item' parent) := by
  unfold Parser.attachList
  infer_instance

instance attachIf (condition : Bool) (parent : Tree) [Confined n levels more item item'] :
    Confined n levels more (attachIf condition item parent) (attachIf condition item' parent) := by
  unfold Parser.attachIf
  infer_instance

end Repetition

end Parser.Confined

/-! ## Steps that take a token -/

namespace Parser

instance advance_spends : Spends advance where
  taken {scope s t r} h := by
    rcases s with ⟨_ | ⟨u, rest⟩⟩
    · cases h
    · cases h
      exact Nat.lt_succ_self _

instance takeIf?_spends (test : Token → Bool) : Spends (takeIf? test) where
  taken {scope s t r} h := by
    obtain ⟨o, q, hcurrent, h⟩ := exists_of_bind h
    cases hcurrent
    rcases hhead : s.rest.head? with _ | u <;> rw [hhead] at h
    · cases h
    · dsimp only at h
      split at h
      · exact advance_spends.taken h
      · cases h

instance take?_spends (kind : TokenKind) : Spends (take? kind) := takeIf?_spends _

instance takeKeyword?_spends (k : Keyword) : Spends (takeKeyword? k) := take?_spends _

instance expect_takes (kind : TokenKind) (what : String) : Takes (expect kind what) where
  taken {scope s t r} h := by
    obtain ⟨o, q, htake, h⟩ := exists_of_bind h
    rcases o with _ | u
    · exact absurd h (Script.unexpected_ne_ok _)
    · cases h
      exact (take?_spends kind).taken htake

instance expectKeyword_takes (k : Keyword) : Takes (expectKeyword k) := expect_takes _ _

theorem checkQuotes_ok {t : Token} {scope : Scope} {s r : Progress} {u : Unit}
    (h : checkQuotes t scope s = .ok u r) : r = s := by
  unfold checkQuotes at h
  rw [read_run] at h
  split at h
  · cases h
  · cases h
    rfl

instance expectWord_takes (test : Token → Bool) (what : String) :
    Takes (expectWord test what) where
  taken {scope s t r} h := by
    obtain ⟨o, q, hcurrent, h⟩ := exists_of_bind h
    cases hcurrent
    rcases hrest : s.rest with _ | ⟨u, rest⟩ <;> rw [hrest] at h
    · exact absurd h (Script.unexpected_ne_ok _)
    · dsimp only [List.head?_cons] at h
      split at h
      · obtain ⟨_, q, hquotes, h⟩ := exists_of_bind h
        cases checkQuotes_ok hquotes
        rw [discard_advance_run hrest] at h
        cases h
        exact Nat.lt_succ_self _
      · exact absurd h (Script.unexpected_ne_ok _)

instance discard_takes {p : Parser α} [h : Takes p] : Takes (discard p) where
  taken {scope s _ r} hrun := by
    have hrun : (p >>= fun _ => Pure.pure ()) scope s = .ok () r := hrun
    obtain ⟨a, q, hp, hq⟩ := exists_of_bind hrun
    cases hq
    exact h.taken hp

/-- Behind the next token there is one less, also where there is none. -/
instance (priority := 1100) discard_advance_confined {k k' : Unit → Parser β}
    [hk : ∀ u, Confined n levels 0 (k u) (k' u)] :
    Confined n levels 1 (discard advance >>= k) (discard advance >>= k') where
  run scope s hs := by
    rcases hrest : s.rest with _ | ⟨t, rest⟩
    · have hend (l : Unit → Parser β) : (discard advance >>= l) scope s = l () scope s := by
        obtain ⟨r⟩ := s
        obtain rfl : r = [] := hrest
        rfl
      rw [hend, hend]
      exact (hk ()).run scope s (hrest ▸ Nat.zero_le _)
    · have hnext (l : Unit → Parser β) :
          (discard advance >>= l) scope s = l () scope (s.advanced t rest) :=
        discard_advance_run hrest scope (l ())
      rw [hnext, hnext]
      rw [hrest, List.length_cons] at hs
      obtain ⟨hsame, hconfines⟩ := (hk ()).run scope (s.advanced t rest) (by
        show rest.length ≤ n
        omega)
      refine ⟨hsame, ?_, hconfines.deepest, hconfines.limit, hconfines.stack⟩
      rw [hrest]
      exact Nat.le_succ_of_le hconfines.rest

end Parser

end SqlSyntax
