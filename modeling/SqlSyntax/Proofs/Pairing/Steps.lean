import SqlSyntax.Grammar.Name
import SqlSyntax.Grammar.TypeName
import SqlSyntax.Proofs.Pairing
import SqlSyntax.Proofs.Twins

/-!
# Steps of two runs

The steps of two runs keep them alike, and so does what productions share: taking tokens, making
nodes, and filling them with children. A token that is taken has to be plain or checked; what was
seen of the next token is part of the tokens ahead until it is taken.
-/

namespace SqlSyntax

open SqlSyntax.Parser

namespace Pairing

variable {W : Pairing} {α β : Type} {ahead ahead' : List Token → Prop} {p p' : Parser α}
  {rel : α → α → Prop} {fact : α → List Token → Prop} {rel' : β → β → Prop}
  {fact' : β → List Token → Prop} {t t' : Token}

theorem Outcome.map {m n : Nat} {rel₂ : α → α → Prop} {fact₂ : α → List Token → Prop}
    {x x' : EStateM.Result Failure Progress α} (h : W.Outcome m rel fact x x') (hle : m ≤ n)
    (hrel : ∀ a a', rel a a' → rel₂ a a') (hfact : ∀ a ts, fact a ts → fact₂ a ts) :
    W.Outcome n rel₂ fact₂ x x' := by
  rcases x with ⟨a, r⟩ | ⟨f, r⟩ <;> rcases x' with ⟨a', r'⟩ | ⟨f', r'⟩
  · obtain ⟨ha, ht, hr, hfine, hm⟩ := h
    exact ⟨hrel a a' ha, hfact a _ ht, hr, hfine, Nat.le_trans hm hle⟩
  · exact h.elim
  · exact h.elim
  · exact h

/-! ## Failures -/

namespace Breaks

theorem outcome (h : W.Breaks p p') {scope scope' : Scope} {s s' : Progress} {n : Nat}
    (hscope : W.Scopes scope scope') (hs : W.Meets s s') :
    W.Outcome n rel fact (p scope s) (p' scope' s') := by
  obtain ⟨f, f', r, r', hrun, hrun', hf⟩ := h scope scope' s s' hscope hs
  rw [hrun, hrun']
  exact hf

theorem fail {e e' : ParseError} (h : W.fails (.error e) (.error e')) :
    W.Breaks (fail e : Parser α) (fail e') :=
  fun _ _ s s' _ hs => ⟨_, _, s, s', rfl, rfl, h, hs⟩

theorem bind {k k' : α → Parser β} (h : W.Breaks p p') : W.Breaks (p >>= k) (p' >>= k') := by
  intro scope scope' s s' hscope hs
  obtain ⟨f, f', r, r', hrun, hrun', hf⟩ := h scope scope' s s' hscope hs
  exact ⟨f, f', r, r', bind_error hrun k, bind_error hrun' k', hf⟩

/-- An option on which both fail. -/
theorem askIf {q q' : Parser α} (c c' : Config → Bool) (hc : c W.config = true)
    (hc' : c' W.config' = true) (h : W.Breaks p p') :
    W.Breaks (do if c (← read).config then p else q)
      (do if c' (← read).config then p' else q') := by
  intro scope scope' s s' hscope
  show W.Meets s s' → ∃ f f' r r', (if c scope.config then p else q) scope s = .error f r ∧
    (if c' scope'.config then p' else q') scope' s' = .error f' r' ∧ W.fails f f' ∧ W.Meets r r'
  rw [hscope.config, hscope.config', if_pos hc, if_pos hc']
  exact h scope scope' s s' hscope

theorem runs (h : W.Breaks p p') : W.Runs ahead p p' rel fact :=
  fun _ _ _ _ hscope hs _ _ => h.outcome hscope hs

end Breaks

namespace Runs

/-! ## Runs -/

theorem pure {a a' : α} (h : rel a a') (hfact : ∀ ts, ahead ts → fact a ts) :
    W.Runs ahead (pure a) (pure a') rel fact :=
  fun _ _ s _ _ hs hfine ha => ⟨h, hfact s.rest ha, hs, hfine, Nat.le_refl _⟩

/-- An answer, with the tokens ahead as they are. -/
theorem answer {a a' : α} (h : rel a a') : W.Runs ahead (Pure.pure a) (Pure.pure a') rel
    fun _ => ahead := pure h fun _ h => h

theorem bind {k k' : α → Parser β} (hp : W.Runs ahead p p' rel fact)
    (hk : ∀ a a', rel a a' → W.Runs (fact a) (k a) (k' a') rel' fact') :
    W.Runs ahead (p >>= k) (p' >>= k') rel' fact' := by
  intro scope scope' s s' hscope hs hfine ha
  have h := hp scope scope' s s' hscope hs hfine ha
  rcases hrun : p scope s with ⟨a, r⟩ | ⟨f, r⟩ <;>
    rcases hrun' : p' scope' s' with ⟨a', r'⟩ | ⟨f', r'⟩ <;> rw [hrun, hrun'] at h
  · obtain ⟨hrel, hfact, hr, hfine, hle⟩ := h
    rw [bind_ok hrun, bind_ok hrun']
    exact (hk a a' hrel scope scope' r r' hscope hr hfine hfact).map hle (fun _ _ h => h)
      fun _ _ h => h
  · exact h.elim
  · exact h.elim
  · rw [bind_error hrun, bind_error hrun']
    exact h

theorem map {rel₂ : α → α → Prop} {fact₂ : α → List Token → Prop}
    (hp : W.Runs ahead p p' rel fact) (hrel : ∀ a a', rel a a' → rel₂ a a')
    (hfact : ∀ a ts, fact a ts → fact₂ a ts) : W.Runs ahead p p' rel₂ fact₂ :=
  fun scope scope' s s' hscope hs hfine ha =>
    (hp scope scope' s s' hscope hs hfine ha).map (Nat.le_refl _) hrel hfact

/-- Both go on with the same answer. -/
theorem thenSame {k k' : α → Parser β} (hp : W.Runs ahead p p' (· = ·) fact)
    (hk : ∀ a, W.Runs (fact a) (k a) (k' a) rel' fact') :
    W.Runs ahead (p >>= k) (p' >>= k') rel' fact' :=
  hp.bind fun a _ h => h ▸ hk a

/-- Both go on in the same branch. -/
theorem branch {q q' : Parser Bool} {told : Bool → List Token → Prop} {k k' : Bool → Parser β}
    (hq : W.Runs ahead q q' (· = ·) told)
    (hfalse : W.Runs (told false) (k false) (k' false) rel' fact')
    (htrue : W.Runs (told true) (k true) (k' true) rel' fact') :
    W.Runs ahead (q >>= k) (q' >>= k') rel' fact' :=
  hq.thenSame fun
    | false => hfalse
    | true => htrue

theorem weaken {rel₂ : α → α → Prop} (hp : W.Runs ahead p p' rel fact)
    (h : ∀ a a', rel a a' → rel₂ a a') : W.Runs ahead p p' rel₂ fact :=
  hp.map h fun _ _ h => h

/-- What the tokens ahead tell. -/
theorem given {φ : Prop} (hφ : ∀ ts, ahead ts → φ ∧ ahead' ts)
    (h : φ → W.Runs ahead' p p' rel fact) : W.Runs ahead p p' rel fact :=
  fun scope scope' s s' hscope hs hfine ha =>
    h (hφ _ ha).1 scope scope' s s' hscope hs hfine (hφ _ ha).2

theorem after (h : ∀ ts, ahead' ts → ahead ts) (hp : W.Runs ahead p p' rel fact) :
    W.Runs ahead' p p' rel fact :=
  given (fun ts ha => ⟨trivial, h ts ha⟩) fun _ => hp

/-- What was seen is not needed. -/
theorem seen (hp : W.Runs anything p p' rel fact) : W.Runs ahead p p' rel fact :=
  after (fun _ _ => trivial) hp

theorem forget (hp : W.Runs ahead p p' rel fact) : W.Runs ahead p p' rel fun _ => anything :=
  hp.map (fun _ _ h => h) fun _ _ _ => trivial

/-- There are no such tokens ahead. -/
theorem never (h : ∀ ts, ¬ ahead ts) : W.Runs ahead p p' rel fact :=
  fun _ _ s _ _ _ _ ha => absurd ha (h s.rest)

/-- Only what is told about the tokens is kept of an answer. -/
theorem discardTo {told : List Token → Prop} (hp : W.Runs ahead p p' rel fact)
    (h : ∀ a ts, fact a ts → told ts) :
    W.Runs ahead (discard p) (discard p') (fun _ _ => True) fun _ => told := by
  show W.Runs ahead (p >>= fun _ => Pure.pure ()) (p' >>= fun _ => Pure.pure ()) _ _
  exact hp.bind fun a _ _ => pure trivial (h a)

theorem discard (hp : W.Alike p p' rel) :
    W.Alike (discard p) (discard p') fun _ _ => True := discardTo hp fun _ _ h => h

/-- No tokens come back. -/
theorem short (hp : W.Alike p p' rel) (n : Nat) :
    W.Runs (·.length ≤ n) p p' rel fun _ ts => ts.length ≤ n := by
  intro scope scope' s s' hscope hs hfine hn
  have h := hp scope scope' s s' hscope hs hfine trivial
  rcases hrun : p scope s with ⟨a, r⟩ | ⟨f, r⟩ <;>
    rcases hrun' : p' scope' s' with ⟨a', r'⟩ | ⟨f', r'⟩ <;> rw [hrun, hrun'] at h
  · obtain ⟨hrel, -, hr, hfine, hle⟩ := h
    exact ⟨hrel, Nat.le_trans hle hn, hr, hfine, hle⟩
  · exact h.elim
  · exact h.elim
  · exact h

theorem unexpected (hW : W.Lawful) (what : String) :
    W.Runs ahead (unexpected what) (unexpected what) rel fact := by
  intro scope scope' s s' hscope hs hfine _
  rcases hrest : s.rest with _ | ⟨t, ts⟩
  · have hrun : ∀ (scope : Scope) {s : Progress}, s.rest = [] →
        (Parser.unexpected what : Parser α) scope s =
          .error (.error (.endOfInput what (.atOffset scope.source scope.source.byteSize))) s := by
      rintro scope ⟨_⟩ rfl
      rfl
    rw [hrun scope hrest, hrun scope' (hs.nil hrest), hscope.source, hscope.source']
    exact ⟨hW.failsEnd (.endOfInput what) (hrest ▸ hfine), hs⟩
  · obtain ⟨t', ts', hrest', ht⟩ := hs.cons hfine hrest
    have hrun : ∀ (scope : Scope) {s : Progress} {t : Token} {ts : List Token},
        s.rest = t :: ts → (Parser.unexpected what : Parser α) scope s =
          .error (.error (.unexpected what t)) s := by
      rintro scope ⟨_⟩ t ts rfl
      rfl
    rw [hrun scope hrest, hrun scope' hrest']
    exact ⟨hW.failsUnexpected what ht, hs⟩

theorem fail {e e' : ParseError} (h : W.fails (.error e) (.error e')) :
    W.Runs ahead (fail e) (fail e') rel fact :=
  (Breaks.fail h).runs

/-- An option that both configurations agree on. -/
theorem askIf {q q' : Parser α} (c c' : Config → Bool) (hc : c W.config = c' W.config')
    (hp : c W.config = true → W.Runs ahead p p' rel fact)
    (hq : c W.config = false → W.Runs ahead q q' rel fact) :
    W.Runs ahead (do if c (← read).config then p else q) (do if c' (← read).config then p' else q')
      rel fact := by
  intro scope scope' s s' hscope
  show W.Meets s s' → W.fine s.rest → ahead s.rest → W.Outcome s.rest.length rel fact
    ((if c scope.config then p else q) scope s) ((if c' scope'.config then p' else q') scope' s')
  rw [hscope.config, hscope.config', ← hc]
  rcases h : c W.config with _ | _
  · exact hq h scope scope' s s' hscope
  · exact hp h scope scope' s s' hscope

theorem within (context : Context) (h : W.Runs ahead p p' rel fact) :
    W.Runs ahead (within context p) (within context p') rel fact :=
  fun _ _ s s' hscope => h _ _ s s' { hscope with context := rfl }

theorem deeper (hW : W.Lawful) (h : W.Runs ahead p p' rel fact) :
    W.Runs ahead (deeper p) (deeper p') rel fact := by
  have hrefuse : ∀ {scope scope' : Scope} {s s' : Progress} (cause : Cause),
      W.Scopes scope scope' → W.Meets s s' → W.fine s.rest →
        W.fails (scope.refusal cause s) (scope'.refusal cause s') := by
    intro scope scope' s s' cause hscope hs hfine
    unfold Scope.refusal
    rcases hrest : s.rest with _ | ⟨t, ts⟩
    · rw [hs.nil hrest, hscope.source, hscope.source']
      exact hW.failsEnd cause (hrest ▸ hfine)
    · obtain ⟨t', ts', hrest', ht⟩ := hs.cons hfine hrest
      rw [hrest']
      exact hW.failsAt cause ht
  intro scope scope' s s' hscope hs hfine ha
  have hlimit : scope'.config.depthLimit = scope.config.depthLimit := by
    rw [hscope.config, hscope.config', hW.depthLimit]
  have hbudget : scope'.config.stackBudget = scope.config.stackBudget := by
    rw [hscope.config, hscope.config', hW.stackBudget]
  have hexceeds : scope'.config.exceedsStack (scope'.stack s'.taken scope.depth) =
      scope.config.exceedsStack (scope.stack s.taken scope.depth) := by
    unfold Config.exceedsStack
    rw [hbudget, hscope.stack, hs.taken]
  rw [deeper_run, deeper_run, hlimit, ← hscope.depth, hexceeds, hbudget]
  by_cases hlimit : scope.config.depthLimit ≤ scope.depth
  · rw [if_pos hlimit, if_pos hlimit]
    exact ⟨hrefuse _ hscope hs hfine, hs⟩
  · rw [if_neg hlimit, if_neg hlimit]
    by_cases hstack : scope.config.exceedsStack (scope.stack s.taken scope.depth)
    · rw [if_pos hstack, if_pos hstack]
      exact ⟨hrefuse _ hscope hs hfine, hs⟩
    · rw [if_neg hstack, if_neg hstack]
      refine h _ _ _ _ { hscope with depth := rfl } { hs with deepest := ?_ } hfine ha
      rw [hs.deepest]

/-! ## Repetition -/

/-- A repetition over the tokens that are left is one over any tokens, as many as they are. -/
theorem repeated {step step' : α → Parser (Option α)} {a a' : α}
    (h : ∀ ts : List Token, W.Runs (·.length ≤ ts.length) (iterateOver step ts a)
      (iterateOver step' ts a') rel fact) :
    W.Runs anything (iterate step a) (iterate step' a') rel fact := by
  intro scope scope' s s' hscope hs hfine _
  show W.Outcome s.rest.length rel _
    (iterateOver step s.rest a scope s) (iterateOver step' s'.rest a' scope' s')
  rw [InStep.iterateOver_congr step' a' hs.length_eq.symm]
  exact h s.rest scope scope' s s' hscope hs hfine (Nat.le_refl _)

theorem iterate {step step' : α → Parser (Option α)} {a a' : α}
    (h : ∀ a a', rel a a' → W.Alike (step a) (step' a') (Option.Rel rel)) (ha : rel a a') :
    W.Alike (iterate step a) (iterate step' a') rel := by
  refine repeated fun ts => .seen ?_
  induction ts generalizing a a' with
  | nil =>
    refine (h a a' ha).bind fun o o' ho => answer ?_
    rcases ho with hb | _
    · exact hb
    · exact ha
  | cons t ts ih =>
    refine (h a a' ha).bind fun o o' ho => ?_
    rcases ho with hb | _
    · exact ih hb
    · exact answer ha

/-- Where each answer of the step has taken a token, the repetition ends only because the step finds
no more. -/
theorem iterateUntil {step step' : α → Parser (Option α)} {a a' : α} {ends : List Token → Prop}
    (h : ∀ n a a', rel a a' → W.Runs (·.length ≤ n) (step a) (step' a') (Option.Rel rel)
      fun o ts => if o.isSome then ts.length < n else ends ts) (ha : rel a a') :
    W.Runs anything (Parser.iterate step a) (Parser.iterate step' a') rel fun _ => ends := by
  refine repeated fun ts => ?_
  induction ts generalizing a a' with
  | nil =>
    refine (h 0 a a' ha).bind fun o o' ho => ?_
    rcases ho with hb | _
    · -- no token was left for the step to take
      exact never fun ts h => Nat.not_lt_zero _ h
    · exact answer ha
  | cons t ts ih =>
    refine (h (ts.length + 1) a a' ha).bind fun o o' ho => ?_
    rcases ho with hb | _
    · exact after (fun _ h => Nat.le_of_lt_succ h) (ih hb)
    · exact answer ha

theorem many {next next' : Parser (Option α)} (h : W.Alike next next' (Option.Rel rel)) :
    W.Alike (many next) (many next') (List.Forall₂ rel) := by
  have hloop : W.Alike (Parser.iterate (fun items => do return (← next).map (· :: items)) [])
      (Parser.iterate (fun items => do return (← next').map (· :: items)) [])
      (List.Forall₂ rel) := by
    refine iterate (fun items items' hitems => h.bind fun o o' ho => answer ?_) .nil
    rcases ho with ha | _
    · exact .some (.cons ha hitems)
    · exact .none
  exact hloop.bind fun items items' hitems => answer (List.forall₂_reverse_iff.2 hitems)

/-! ## Looking at tokens -/

theorem look {f : List Token → α}
    (h : ∀ {ts ts'}, List.Forall₂ W.listed ts ts' → rel (f ts) (f ts')) :
    W.Runs ahead (do return f (← get).rest) (do return f (← get).rest) rel fun a ts =>
      a = f ts ∧ ahead ts :=
  fun _ _ _ _ _ hs hfine ha => ⟨h hs.rest, ⟨rfl, ha⟩, hs, hfine, Nat.le_refl _⟩

theorem current : W.Runs ahead current current (Option.Rel W.tok) fun o ts =>
    ts.head? = o ∧ ahead ts := by
  intro scope scope' s s' _ hs hfine ha
  refine ⟨?_, ⟨rfl, ha⟩, hs, hfine, Nat.le_refl _⟩
  rcases hrest : s.rest with _ | ⟨t, ts⟩
  · rw [hs.nil hrest]
    exact .none
  · obtain ⟨t', ts', hrest', ht⟩ := hs.cons hfine hrest
    rw [hrest']
    exact .some ht

/-- The next token is one for which the run goes on. -/
theorem ofCurrent {k k' : Option Token → Parser β}
    (hnone : W.Runs ahead (k none) (k' none) rel' fact')
    (hsome : ∀ t t', W.tok t t' →
      W.Runs (fun ts => ts.head? = some t ∧ ahead ts) (k (some t)) (k' (some t')) rel' fact') :
    W.Runs ahead (Parser.current >>= k) (Parser.current >>= k') rel' fact' := by
  refine current.bind fun o o' ho => ?_
  rcases ho with ht | _
  · exact hsome _ _ ht
  · exact after (fun _ h => h.2) hnone

theorem map_kind (hW : W.Lawful) {ts ts' : List Token} (h : List.Forall₂ W.listed ts ts') :
    ts.map Token.kind = ts'.map Token.kind := by
  induction h with
  | nil => rfl
  | cons ht _ ih => rw [List.map_cons, List.map_cons, hW.listed_kind ht, ih]

theorem kindAt (hW : W.Lawful) (n : Nat) : W.Runs ahead (kindAt n) (kindAt n) (· = ·) fun o ts =>
    o = ts[n]?.map Token.kind ∧ ahead ts :=
  look (f := fun ts => ts[n]?.map Token.kind) fun h => by
    simp only [← List.getElem?_map, map_kind hW h]

theorem kind_of_head? {ts : List Token} (h : ts.head? = some t) :
    ts[0]?.map Token.kind = some t.kind := by
  rw [← List.head?_eq_getElem?, h]
  rfl

theorem currentKind (hW : W.Lawful) : W.Runs ahead currentKind currentKind (· = ·) fun o ts =>
    o = ts[0]?.map Token.kind ∧ ahead ts := kindAt hW 0

theorem atEnd : W.Runs ahead atEnd atEnd (· = ·) fun b ts =>
    b = ts.isEmpty ∧ ahead ts :=
  look fun h => by rcases h with _ | _ <;> rfl

/-- The answer tells whether the next token is of a kind. -/
theorem sees (hW : W.Lawful) (kind : TokenKind) :
    W.Runs ahead (sees kind) (sees kind) (· = ·) fun b ts =>
      (b = true → ts[0]?.map Token.kind = some kind) ∧ ahead ts := by
  refine (currentKind hW).thenSame fun o => ?_
  refine pure rfl fun ts ⟨ho, ha⟩ => ⟨fun h => ?_, ha⟩
  rw [← ho]
  exact eq_of_beq h

theorem seesKeyword (hW : W.Lawful) (k : Keyword) :
    W.Alike (seesKeyword k) (seesKeyword k) (· = ·) := (sees hW _).forget

theorem keyword? (hW : W.Lawful) (ht : W.tok t t') : t.keyword? = t'.keyword? := by
  unfold Token.keyword?
  rw [hW.kind ht]

theorem isName (hW : W.Lawful) (ht : W.tok t t') : t.isName = t'.isName := by
  unfold Token.isName
  rw [hW.kind ht]

theorem isNamePart (hW : W.Lawful) (ht : W.tok t t') : t.isNamePart = t'.isNamePart := by
  unfold Token.isNamePart
  rw [isName hW ht, keyword? hW ht]

theorem seesOneOf (hW : W.Lawful) (ks : List Keyword) :
    W.Alike (seesOneOf ks) (seesOneOf ks) (· = ·) := by
  refine current.bind fun o o' ho => ?_
  rcases ho with ht | _
  · refine pure ?_ fun _ _ => trivial
    rw [keyword? hW ht]
  · exact pure rfl fun _ _ => trivial

/-! ## Taking tokens -/

/-- The next token is taken, where it may be, or the run breaks off behind it. -/
theorem ofAdvance (hW : W.Lawful) {k k' : Option Token → Parser β}
    (hnone : W.Runs (fun ts => ts = [] ∧ ahead ts) (k none) (k' none) rel' fact')
    (hsome : ∀ t t', W.tok t t' → W.Breaks (k (some t)) (k' (some t')) ∨
      (∀ ts, ahead (t :: ts) → W.fine (t :: ts) → W.fine ts) ∧
        W.Runs (fun ts => ahead (t :: ts)) (k (some t)) (k' (some t')) rel' fact') :
    W.Runs ahead (Parser.advance >>= k) (Parser.advance >>= k') rel' fact' := by
  intro scope scope' s s' hscope hs hfine ha
  rcases hrest : s.rest with _ | ⟨t, ts⟩
  · have hrun : ∀ (scope : Scope) {s : Progress}, s.rest = [] →
        Parser.advance scope s = .ok none s := by
      rintro scope ⟨_⟩ rfl
      rfl
    rw [bind_ok (hrun scope hrest), bind_ok (hrun scope' (hs.nil hrest)), ← hrest]
    exact hnone scope scope' s s' hscope hs hfine ⟨hrest, ha⟩
  · obtain ⟨t', ts', hrest', ht⟩ := hs.cons hfine hrest
    rw [bind_ok (advance_run hrest scope), bind_ok (advance_run hrest' scope')]
    have hnext := hs.advanced hW hrest hrest'
    rw [hrest] at ha hfine
    rcases hsome t t' ht with hbreak | ⟨htakes, hk⟩
    · exact hbreak.outcome hscope hnext
    · exact (hk scope scope' _ _ hscope hnext (htakes ts ha hfine) ha).map (Nat.le_succ _)
        (fun _ _ h => h) fun _ _ h => h

/-- The next token is taken, where it may be. -/
theorem advance (hW : W.Lawful)
    (h : ∀ {t t' ts}, W.tok t t' → ahead (t :: ts) → W.fine (t :: ts) → W.fine ts) :
    W.Runs ahead advance advance (Option.Rel W.tok) fun _ => anything := by
  have hbind : W.Runs ahead (Parser.advance >>= Pure.pure) (Parser.advance >>= Pure.pure)
      (Option.Rel W.tok) fun _ => anything :=
    ofAdvance hW (answer .none).forget fun t t' ht =>
      .inr ⟨fun ts ha => h ht ha, (answer (.some ht)).forget⟩
  exact hbind

/-- The token that was seen is taken, or the run breaks off behind it. -/
theorem takeSeen (hW : W.Lawful) {q q' : Parser β}
    (h : W.Breaks q q' ∨ (∀ t' ts, W.tok t t' → ahead (t :: ts) → W.fine (t :: ts) → W.fine ts) ∧
      W.Runs (fun ts => ahead (t :: ts)) q q' rel' fact') :
    W.Runs (fun ts => ts.head? = some t ∧ ahead ts) (do Functor.discard Parser.advance; q)
      (do Functor.discard Parser.advance; q') rel' fact' := by
  intro scope scope' s s' hscope hs hfine ⟨hhead, ha⟩
  obtain ⟨ts, hrest⟩ := List.head?_eq_some_iff.1 hhead
  obtain ⟨t', ts', hrest', ht⟩ := hs.cons hfine hrest
  rw [discard_advance_run hrest, discard_advance_run hrest']
  have hnext := hs.advanced hW hrest hrest'
  rw [hrest] at ha hfine
  rcases h with hbreak | ⟨htakes, hq⟩
  · exact hbreak.outcome hscope hnext
  · refine (hq scope scope' _ _ hscope hnext (htakes t' ts ht ha hfine) ha).map ?_
      (fun _ _ h => h) fun _ _ h => h
    rw [hrest]
    exact Nat.le_succ _

theorem takePlain (hW : W.Lawful) {q q' : Parser β} (hk : t.kind.isPlain)
    (hq : W.Runs anything q q' rel' fact') :
    W.Runs (fun ts => ts.head? = some t ∧ ahead ts) (do Functor.discard Parser.advance; q)
      (do Functor.discard Parser.advance; q') rel' fact' :=
  takeSeen hW (.inr ⟨fun _ _ ht _ => hW.takes_plain ht hk, hq.seen⟩)

/-- A token of a kind that was seen is taken, and what else was seen is behind it. -/
theorem takeFirst (hW : W.Lawful) {kind : TokenKind} (hk : kind.isPlain) :
    W.Runs (fun ts => ts[0]?.map Token.kind = some kind ∧ ahead ts) (Functor.discard Parser.advance)
      (Functor.discard Parser.advance) (fun _ _ => True) fun _ ts => ∃ t, ahead (t :: ts) := by
  show W.Runs _ (Parser.advance >>= fun _ => Pure.pure ()) (Parser.advance >>= fun _ =>
    Pure.pure ()) _ _
  refine ofAdvance hW (never ?_) fun t t' ht => .inr ⟨fun ts ha => ?_, ?_⟩
  · rintro _ ⟨rfl, h, -⟩
    cases h
  · refine hW.takes_plain ht ?_
    rw [Option.some.inj ha.1]
    exact hk
  · exact pure trivial fun ts ha => ⟨t, ha.2⟩

theorem takeKind (hW : W.Lawful) {kind : TokenKind} (hk : kind.isPlain) :
    W.Runs (fun ts => ts[0]?.map Token.kind = some kind) (Functor.discard Parser.advance)
      (Functor.discard Parser.advance) (fun _ _ => True) fun _ => anything := by
  have hfirst : W.Runs (fun ts => ts[0]?.map Token.kind = some kind ∧ anything ts)
      (Functor.discard Parser.advance) (Functor.discard Parser.advance) (fun _ _ => True) _ :=
    takeFirst hW hk
  exact after (fun _ h => ⟨h, trivial⟩) hfirst.forget

/-- The word that a production begins with. -/
theorem word (hW : W.Lawful) {k k' : Option Token → Parser β} {kind : TokenKind}
    (hk : kind.isPlain) (hnone : W.Alike (k none) (k' none) rel')
    (hsome : ∀ t t', W.tok t t' → W.Alike (k (some t)) (k' (some t')) rel') :
    W.Runs (fun ts => ts[0]?.map Token.kind = some kind) (Parser.advance >>= k)
      (Parser.advance >>= k') rel' fun _ => anything := by
  refine ofAdvance hW (seen hnone) fun t t' ht => .inr ⟨fun ts ha => ?_, seen (hsome t t' ht)⟩
  refine hW.takes_plain ht ?_
  rw [Option.some.inj ha]
  exact hk

/-- A token that passes a test is taken, and stood before what is ahead then. -/
theorem takeIf? (hW : W.Lawful) {test : Token → Bool}
    (htest : ∀ {t t'}, W.tok t t' → test t = test t')
    (hfine : ∀ {t t' ts}, W.tok t t' → test t → ahead (t :: ts) → W.fine (t :: ts) → W.fine ts) :
    W.Runs ahead (takeIf? test) (takeIf? test)
      (Option.Rel fun t t' => W.tok t t' ∧ test t) fun o ts => ahead (o.toList ++ ts) := by
  refine current.bind fun o o' ho => ?_
  rcases ho with @⟨t, t', ht⟩ | _
  · show W.Runs _ (if test t then Parser.advance else Pure.pure none)
      (if test t' then Parser.advance else Pure.pure none) _ _
    rw [← htest ht]
    by_cases h : test t
    · rw [if_pos h]
      have htake : W.Runs (fun ts => ts.head? = some t ∧ ahead ts) (Parser.advance >>= Pure.pure)
          (Parser.advance >>= Pure.pure) (Option.Rel fun t t' => W.tok t t' ∧ test t)
          fun o ts => ahead (o.toList ++ ts) := by
        refine ofAdvance hW (pure .none fun _ ha => ha.2.2) fun u u' hu => .inr ⟨?_, ?_⟩
        · rintro ts ⟨hhead, ha⟩
          obtain rfl := Option.some.inj hhead
          exact hfine hu h ha
        · have hseen : ∀ ts, (u :: ts).head? = some t ∧ ahead (u :: ts) → u = t ∧ ahead (u :: ts) :=
            fun ts ha => ⟨Option.some.inj ha.1, ha.2⟩
          exact given hseen fun hut => pure (.some ⟨hu, hut ▸ h⟩) fun _ ha => ha
      exact htake
    · rw [if_neg h]
      exact pure .none fun _ ha => ha.2
  · exact pure .none fun _ ha => ha.2

/-- A plain token that passes a test is taken. -/
theorem takeWhere? (hW : W.Lawful) {test : Token → Bool}
    (htest : ∀ {t t'}, W.tok t t' → test t = test t')
    (hplain : ∀ {t t'}, W.tok t t' → test t → t.kind.isPlain) :
    W.Alike (Parser.takeIf? test) (Parser.takeIf? test)
      (Option.Rel fun t t' => W.tok t t' ∧ test t) :=
  (takeIf? hW htest fun ht h _ => hW.takes_plain ht (hplain ht h)).forget

theorem takeBefore? (hW : W.Lawful) {kind : TokenKind} (hk : kind.isPlain) :
    W.Runs ahead (Parser.take? kind) (Parser.take? kind)
      (Option.Rel fun t t' => W.tok t t' ∧ t.kind = kind) fun o ts => ahead (o.toList ++ ts) := by
  have htake : W.Runs ahead (Parser.takeIf? (·.kind == kind)) (Parser.takeIf? (·.kind == kind)) _
      fun o ts => ahead (o.toList ++ ts) :=
    takeIf? hW (fun ht => by rw [hW.kind ht]) fun ht h _ => hW.takes_plain ht (by
      rw [eq_of_beq h]
      exact hk)
  refine htake.weaken fun o o' ho => ?_
  rcases ho with ⟨ht, hkind⟩ | _
  · exact .some ⟨ht, eq_of_beq hkind⟩
  · exact .none

theorem take? (hW : W.Lawful) {kind : TokenKind} (hk : kind.isPlain) :
    W.Alike (take? kind) (take? kind) (Option.Rel fun t t' => W.tok t t' ∧ t.kind = kind) :=
  (takeBefore? hW hk).forget

theorem takeKeyword? (hW : W.Lawful) (k : Keyword) :
    W.Alike (takeKeyword? k) (takeKeyword? k)
      (Option.Rel fun t t' => W.tok t t' ∧ t.kind = .keyword k) := take? hW rfl

theorem isSome_rel {r : α → α → Prop} {o o' : Option α} (h : Option.Rel r o o') :
    o.isSome = o'.isSome := by
  cases h <;> rfl

theorem consume (hW : W.Lawful) {kind : TokenKind} (hk : kind.isPlain) :
    W.Alike (consume kind) (consume kind) (· = ·) :=
  (take? hW hk).bind fun _ _ ho => answer (isSome_rel ho)

theorem consumeKeyword (hW : W.Lawful) (k : Keyword) :
    W.Alike (consumeKeyword k) (consumeKeyword k) (· = ·) := consume hW rfl

/-- The sign of an assignment, once one was begun. -/
theorem consumeSign (hW : W.Lawful) (hsets : W.sets) :
    W.Alike (Parser.consume .eq) (Parser.consume .eq) (· = ·) := by
  have htake : W.Alike (Parser.takeIf? (·.kind == .eq)) (Parser.takeIf? (·.kind == .eq)) _ :=
    (takeIf? hW (fun ht => by rw [hW.kind ht]) fun ht h _ =>
      hW.takes_sign ht (eq_of_beq h) hsets).forget
  exact htake.bind fun _ _ ho => answer (isSome_rel ho)

/-- The expected token stood before what is ahead then. -/
theorem expectBefore (hW : W.Lawful) {kind : TokenKind} (hk : kind.isPlain) (what : String) :
    W.Runs ahead (Parser.expect kind what) (Parser.expect kind what) W.tok
      fun t ts => ahead (t :: ts) := by
  refine (takeBefore? hW hk).bind fun o o' ho => ?_
  rcases ho with ⟨ht, -⟩ | _
  · exact pure ht fun _ h => h
  · exact unexpected hW what

theorem expect (hW : W.Lawful) {kind : TokenKind} (hk : kind.isPlain) (what : String) :
    W.Alike (expect kind what) (expect kind what) W.tok := (expectBefore hW hk what).forget

theorem expectKeyword (hW : W.Lawful) (k : Keyword) :
    W.Alike (expectKeyword k) (expectKeyword k) W.tok := expect hW rfl _

/-- The keyword that a setting or an assignment begins with. -/
theorem expectSets (hW : W.Lawful) {k : Keyword} (hk : k = .SET ∨ k = .PRAGMA) :
    W.Alike (Parser.expectKeyword k) (Parser.expectKeyword k) fun t t' => W.tok t t' ∧ W.sets := by
  intro scope scope' s s' hscope hs hfine _
  have hexpect : W.Runs (· = s.rest) (Parser.expectKeyword k) (Parser.expectKeyword k)
      (fun t t' => W.tok t t' ∧ t.kind = .keyword k) fun t ts => t :: ts = s.rest := by
    refine (takeBefore? hW rfl).bind fun o o' ho => ?_
    rcases ho with ht | _
    · exact pure ht fun _ h => h
    · exact unexpected hW _
  have hout := hexpect scope scope' s s' hscope hs hfine rfl
  rcases hrun : Parser.expectKeyword k scope s with ⟨t, r⟩ | ⟨f, r⟩ <;>
    rcases hrun' : Parser.expectKeyword k scope' s' with ⟨t', r'⟩ | ⟨f', r'⟩ <;>
    rw [hrun, hrun'] at hout
  · obtain ⟨⟨ht, hkind⟩, hrest, hr⟩ := hout
    refine ⟨⟨ht, hW.sets ht ?_ (hrest ▸ hfine)⟩, trivial, hr⟩
    rw [hkind]
    exact hk.imp (congrArg _) (congrArg _)
  · exact hout.elim
  · exact hout.elim
  · exact hout

/-! ## Names -/

theorem checkQuotes (hW : W.Lawful) (ht : W.tok t t') :
    W.Runs ahead (checkQuotes t) (checkQuotes t') (fun _ _ =>
      W.config.strictAnsi = true → t.isMisquoted = false) fun _ => ahead := by
  have hask : (W.config.strictAnsi && t.kind == .quotedIdentifier &&
      t.text.toList.head? != some '"') = (W.config.strictAnsi && t.isMisquoted) :=
    Bool.and_assoc ..
  have hask' : (W.config'.strictAnsi && t'.kind == .quotedIdentifier &&
      t'.text.toList.head? != some '"') = (W.config'.strictAnsi && t'.isMisquoted) :=
    Bool.and_assoc ..
  refine askIf (fun c => c.strictAnsi && t.kind == .quotedIdentifier &&
    t.text.toList.head? != some '"') (fun c => c.strictAnsi && t'.kind == .quotedIdentifier &&
    t'.text.toList.head? != some '"') ?_ (fun _ => fail (hW.failsAt _ ht)) fun h => answer ?_
  · rw [hask, hask', hW.strictAnsi, hW.misquoted ht]
  · rw [hask] at h
    exact fun hstrict => by simpa [hstrict] using h

theorem expectWord (hW : W.Lawful) {test : Token → Bool}
    (htest : ∀ {t t'}, W.tok t t' → test t = test t')
    (hplain : ∀ {t}, test t → t.kind.isPlain ∨ t.kind = .quotedIdentifier) (what : String) :
    W.Alike (expectWord test what) (expectWord test what) W.tok := by
  refine ofCurrent (unexpected hW what) fun t t' ht => ?_
  show W.Runs _ (if test t then _ else _) (if test t' then _ else _) _ _
  rw [← htest ht]
  by_cases h : test t
  · rw [if_pos h, if_pos h]
    refine (checkQuotes hW ht).bind fun _ _ hquotes => takeSeen hW (.inr ⟨fun _ _ ht _ => ?_, ?_⟩)
    · rcases hplain h with hk | hk
      · exact hW.takes_plain ht hk
      · exact hW.takes_name ht hk hquotes
    · exact (answer ht).forget
  · rw [if_neg h, if_neg h]
    exact unexpected hW what

theorem plain_of_keyword? (h : t.keyword?.isSome) : t.kind.isPlain := by
  unfold Token.keyword? at h
  split at h
  · next hk => rw [hk]; rfl
  · cases h

theorem plain_of_isName (h : t.isName) : t.kind.isPlain ∨ t.kind = .quotedIdentifier := by
  unfold Token.isName at h
  split at h
  · next hk => rw [hk]; exact .inl rfl
  · next hk => exact .inr hk
  · next hk => rw [hk]; exact .inl rfl
  · cases h

theorem expectName (hW : W.Lawful) (what : String) :
    W.Alike (expectName what) (expectName what) W.tok :=
  expectWord hW (isName hW) plain_of_isName what

theorem expectNamePart (hW : W.Lawful) (what : String) :
    W.Alike (expectNamePart what) (expectNamePart what) W.tok := by
  refine expectWord hW (isNamePart hW) (fun h => ?_) what
  rcases Bool.or_eq_true_iff.1 h with h | h
  · exact plain_of_isName h
  · exact .inl (plain_of_keyword? h)

/-! ## Nodes -/

variable {k : Kind} {u u' : Tree}

theorem edit (c c' : Command) :
    W.Runs ahead (edit c) (edit c') (fun _ _ => True) fun _ => ahead := by
  intro scope scope' s s' _ hs hfine ha
  have hrest := s.rest_edited c
  refine ⟨trivial, ?_, hs.edited c c', ?_, Nat.le_of_eq (congrArg List.length hrest)⟩
  · exact hrest.symm ▸ ha
  · exact hrest.symm ▸ hfine

theorem newNode (hW : W.Lawful) {kind : Kind} (hk : kind ≠ .parenExpr)
    {location location' : Location} {span span' : Span} (h : ∀ i i' context, W.number i i' →
      W.tree (.leaf { kind, id := i, context, location, span })
        (.leaf { kind, id := i', context, location := location', span := span' })) :
    W.Runs ahead (newNode kind location span) (newNode kind location' span') (W.Made kind)
      fun _ => ahead := by
  intro scope scope' s s' hscope hs hfine ha
  have hedit := hs.edited (.alloc kind location span scope.context)
    (.alloc kind location' span' scope'.context)
  have hrest := s.rest_edited (.alloc kind location span scope.context)
  refine ⟨⟨?_, rfl, rfl, hk⟩, hrest.symm ▸ ha, { hedit with number := hW.next hedit.number },
    hrest.symm ▸ hfine, Nat.le_of_eq (congrArg List.length hrest)⟩
  have htree := h _ _ scope.context hedit.number
  rwa [hscope.context] at htree ⊢

/-- A node of a kind that the options allow. -/
theorem nodeOf (hW : W.Lawful) (ht : W.tok t t') (hparen : k != .parenExpr)
    (hk : k.isExtension = true → W.config.allowExtensions = true) :
    W.Runs ahead (nodeAt k t) (nodeAt k t') (W.Made k) fun _ => ahead :=
  newNode hW (bne_iff_ne.1 hparen) fun _ _ context hi =>
    hW.leaf context ht hi (bne_iff_ne.1 hparen) hk

theorem nodeAt (hW : W.Lawful) (ht : W.tok t t') (hk : k.isCommon) :
    W.Runs ahead (Parser.nodeAt k t) (Parser.nodeAt k t') (W.Made k) fun _ => ahead := by
  obtain ⟨hparen, hextension⟩ := Bool.and_eq_true_iff.1 hk
  refine nodeOf hW ht hparen fun h => ?_
  rw [h] at hextension
  cases hextension

theorem nodeOver (hW : W.Lawful) (hu : W.tree u u') (hk : k.isCommon)
    (hplace : k.floats = true ∨ W.Placed u u') :
    W.Runs ahead (nodeOver k u) (nodeOver k u') (W.Made k) fun _ => ahead := by
  have hparen := bne_iff_ne.1 (Bool.and_eq_true_iff.1 hk).1
  exact (edit _ _).bind fun _ _ _ => newNode hW hparen fun _ _ context hi =>
    hW.spans context hu hplace hi hk

theorem amend (hW : W.Lawful) {change change' : Node → Node} (h : W.Amends k change change')
    (hu : W.Made k u u') :
    W.Runs ahead (amend u change) (amend u' change') (W.Made k) fun _ => ahead := by
  refine (edit _ _).bind fun _ _ _ => answer ⟨hW.amend h hu, ?_, ?_, hu.ne_paren⟩
  · obtain ⟨n, cs⟩ := u
    exact (h.kind n).1.trans hu.kind
  · obtain ⟨n, cs⟩ := u'
    exact (h.kind n).2.trans hu.kind'

theorem flag (hW : W.Lawful) (f : Flag) (hf : f ≠ .parenthesized) (hu : W.Made k u u') :
    W.Runs ahead (flag u f) (flag u' f) (W.Made k) fun _ => ahead := amend hW (.mark hf) hu

theorem flagIf (hW : W.Lawful) (b : Bool) (f : Flag) (hf : f ≠ .parenthesized)
    (hu : W.Made k u u') :
    W.Runs ahead (flagIf b f u) (flagIf b f u') (W.Made k) fun _ => ahead := by
  cases b
  · exact answer hu
  · exact flag hW f hf hu

theorem finish (hW : W.Lawful) (hu : W.Made k u u') :
    W.Runs ahead (finish u) (finish u') (W.Made k) fun _ => ahead := by
  have hstop : W.Runs ahead (do let p ← get; return p.lastEnd) (do let p ← get; return p.lastEnd)
      W.stop fun _ => ahead :=
    fun _ _ _ _ _ hs hfine ha => ⟨hs.lastEnd, ha, hs, hfine, Nat.le_refl _⟩
  exact hstop.bind fun _ _ h => amend hW (.extend h) hu

theorem attach (hW : W.Lawful) {c c' : Tree} (hu : W.Made k u u') (hc : W.Fits k c c') :
    W.Runs ahead (attach u c) (attach u' c') (W.Made k) fun _ => ahead :=
  (edit _ _).bind fun _ _ _ => answer ⟨hW.attach hu hc, hu.kind, hu.kind', hu.ne_paren⟩

theorem prepend (hW : W.Lawful) {c c' : Tree} (hu : W.Made k u u') (hc : W.Fits k c c') :
    W.Runs ahead (prepend u c) (prepend u' c') (W.Made k) fun _ => ahead :=
  (edit _ _).bind fun _ _ _ => answer ⟨hW.prepend hu hc, hu.kind, hu.kind', hu.ne_paren⟩

theorem enclosed (hW : W.Lawful) (ht : W.tok t t') (hu : W.Operand u u') :
    W.Runs ahead (Expression.enclosed t u) (Expression.enclosed t' u') W.Operand
      fun _ => ahead := by
  intro scope scope' s s' hscope hs hfine ha
  obtain ⟨r, hrun, hr, hnext⟩ := Expression.enclosed_run t u scope s
  obtain ⟨r', hrun', hr', hnext'⟩ := Expression.enclosed_run t' u' scope' s'
  rw [hrun, hrun', ← hscope.context, hscope.config, hscope.config']
  refine ⟨hW.enclosed scope.context ht hu hs.number hs.lastEnd, hr.rest ▸ ha,
    ⟨?_, ?_, ?_, ?_, ?_⟩, hr.rest ▸ hfine, Nat.le_of_eq (congrArg List.length hr.rest)⟩
  · rw [hr.rest, hr'.rest]
    exact hs.rest
  · rw [hr.taken, hr'.taken, hs.taken]
  · rw [hr.lastEnd, hr'.lastEnd]
    exact hs.lastEnd
  · rw [hr.deepest, hr'.deepest, hs.deepest]
  · rw [hnext, hnext', hscope.config, hscope.config']
    exact hW.enclosed_next hs.number

/-! ## Texts -/

theorem tokenTexts (hW : W.Lawful) {ts ts' : List Token} (h : List.Forall₂ W.tok ts ts') :
    W.Runs ahead (tokenTexts ts) (tokenTexts ts') (List.Forall₂ W.txt) fun _ => ahead := by
  unfold SqlSyntax.tokenTexts
  induction h with
  | nil =>
    rw [List.mapM_nil]
    exact answer .nil
  | cons ht _ ih =>
    rw [List.mapM_cons, List.mapM_cons]
    refine (hW.tokenText ht).bind fun text text' htext => ih.bind fun texts texts' htexts => ?_
    exact answer (.cons htext htexts)

theorem setText (hW : W.Lawful) (hu : W.Made k u u') (ht : W.tok t t') :
    W.Runs ahead (setText u t) (setText u' t') (W.Made k) fun _ => ahead :=
  (hW.tokenText ht).bind fun _ _ htext => amend hW (.text htext) hu

theorem namedNode (hW : W.Lawful) (ht : W.tok t t') (hk : k.isCommon) :
    W.Runs ahead (namedNode k t) (namedNode k t') (W.Made k) fun _ => ahead :=
  (nodeAt hW ht hk).bind fun _ _ hnode => setText hW hnode ht

/-! ## Children -/

variable {item item' : Parser Tree} {fits : Tree → Tree → Prop}

theorem attachWhile (hW : W.Lawful) {next next' : Parser (Option Tree)}
    (h : W.Alike next next' (Option.Rel fits)) (hu : W.Made k u u')
    (hfits : ∀ c c', fits c c' → W.Fits k c c') :
    W.Alike (attachWhile next u) (attachWhile next' u') (W.Made k) := by
  refine iterate (fun parent parent' hparent => h.bind fun o o' ho => ?_) hu
  rcases ho with hc | _
  · exact (attach hW hparent (hfits _ _ hc)).bind fun _ _ hparent => answer (.some hparent)
  · exact answer .none

theorem afterComma? (hW : W.Lawful) (h : W.Alike item item' fits) :
    W.Alike (afterComma? item) (afterComma? item') (Option.Rel fits) := by
  refine (consume hW rfl).branch ?_ ?_
  · exact answer .none
  · exact h.bind fun _ _ hc => answer (.some hc)

theorem attachList (hW : W.Lawful) (h : W.Alike item item' fits) (hu : W.Made k u u')
    (hfits : ∀ c c', fits c c' → W.Fits k c c') :
    W.Alike (attachList item u) (attachList item' u') (W.Made k) :=
  h.bind fun _ _ hc => (attach hW hu (hfits _ _ hc)).bind fun _ _ hu =>
    attachWhile hW (afterComma? hW h) hu hfits

theorem attachIf (hW : W.Lawful) (b : Bool) (h : W.Alike item item' fits) (hu : W.Made k u u')
    (hfits : ∀ c c', fits c c' → W.Fits k c c') :
    W.Alike (attachIf b item u) (attachIf b item' u') (W.Made k) := by
  cases b
  · exact answer hu
  · exact h.bind fun _ _ hc => attach hW hu (hfits _ _ hc)

end Runs

/-- The productions that occur inside one another run alike. -/
structure Serves (W : Pairing) (inner : Nested) : Prop where
  expression : ∀ power, W.Alike (inner.expression power) (inner.expression power) W.Operand
  query : W.Alike inner.query inner.query W.Placed
  joinTree : W.Alike inner.joinTree inner.joinTree W.Placed
  statement : W.Alike inner.statement inner.statement W.Placed

end Pairing

end SqlSyntax
