import SqlSyntax.Grammar.Name
import SqlSyntax.Proofs.Boundary

/-!
# Steps inside a statement

A run that begins inside a statement, with the tokens ahead as required, ends inside it: where it
answers, answer and tokens ahead are as told, and where it fails, it still has not taken the
semicolon (`Boundary.Leads`). Most productions leave no more and no fewer parentheses open than
they find (`Boundary.Stays`).

Steps that only look at tokens or make nodes leave any tokens ahead as they are. A token is taken
when its kind is known, so what the reader has seen of the next token (`Boundary.At`) has to last
until it takes it.
-/

namespace SqlSyntax

open SqlSyntax.Parser

namespace Boundary

/-- Every point of a run is inside. -/
def law (B : Boundary) : Law :=
  .plainly B.source B.config (fun _ ts => B.Inside 0 ts) fun _ _ => True

/-- What the tokens ahead are before a parser and after it; every point of the run is inside. -/
def Leads (B : Boundary) (ahead : List Token → Prop) (p : Parser α)
    (fact : α → List Token → Prop) : Prop :=
  B.law.Keeps ahead [] p silent fact

/-- A parser that leaves as many parentheses open as it finds. -/
abbrev Stays (B : Boundary) (d : Nat) (p : Parser α) : Prop :=
  B.Leads (B.Inside d) p fun _ => B.Inside d

variable {B : Boundary} {α β : Type} {ahead ahead' : List Token → Prop} {p : Parser α}
  {fact : α → List Token → Prop} {fact' : β → List Token → Prop} {d e : Nat} {kind : TokenKind}

/-- The token behind an inner one is the next once that is taken. -/
theorem Inside.at_of_second {t : Token} {ts : List Token} (h : B.Inside d (t :: ts))
    (ht : t.kind.isInner) (hsecond : (t :: ts)[1]?.map Token.kind = some kind) : B.At d kind ts :=
  ⟨h.next (.inner ht), by rw [List.head?_eq_getElem?]; exact hsecond⟩

theorem At.mem_before {ts : List Token} (h : B.At d kind ts) (hk : kind ≠ .semicolon) :
    ∃ t ∈ B.before, t.kind = kind := by
  obtain ⟨hinside, hhead⟩ := h
  obtain ⟨t, rest, rfl, -⟩ := hinside.exists_cons
  obtain rfl := Option.some.inj hhead
  exact ⟨t, hinside.mem (.inr hk), rfl⟩

theorem At.ne_trigger {ts : List Token} (h : B.At d kind ts) : kind ≠ .keyword .TRIGGER := by
  rintro rfl
  obtain ⟨t, ht, hkind⟩ := h.mem_before (by decide)
  exact (B.plain t ht).1 hkind

theorem At.ne_alter {ts : List Token} (h : B.At d kind ts) : kind ≠ .keyword .ALTER := by
  rintro rfl
  obtain ⟨t, ht, hkind⟩ := h.mem_before (by decide)
  exact (B.plain t ht).2 hkind

namespace Leads

/-! ## Runs -/

section Results

variable {scope : Scope} {s s' : Progress}

theorem ok {a : α} (hp : B.Leads ahead p fact) (hsource : scope.source = B.source)
    (hconfig : scope.config = B.config) (ha : ahead s.rest) (hs : B.Inside 0 s.rest)
    (hrun : p scope s = .ok a s') : fact a s'.rest := by
  have hout := hp scope [] s hsource hconfig ha hs
  rw [hrun] at hout
  exact hout.1

theorem error {f : Failure} (hp : B.Leads ahead p fact) (hsource : scope.source = B.source)
    (hconfig : scope.config = B.config) (ha : ahead s.rest) (hs : B.Inside 0 s.rest)
    (hrun : p scope s = .error f s') : B.Inside 0 s'.rest := by
  have hout := hp scope [] s hsource hconfig ha hs
  rw [hrun] at hout
  obtain ⟨-, _, hinside⟩ := hout
  exact hinside

end Results

theorem pure {a : α} (h : ∀ ts, ahead ts → fact a ts) : B.Leads ahead (pure a) fact :=
  Law.Keeps.pure silent h

/-- An answer, with the tokens ahead as they are. -/
theorem answer (a : α) : B.Leads ahead (Pure.pure a) fun _ => ahead := pure fun _ h => h

theorem bind {k : α → Parser β} (hp : B.Leads ahead p fact)
    (hk : ∀ a, B.Leads (fact a) (k a) fact') : B.Leads ahead (p >>= k) fact' :=
  Law.Keeps.bind hp hk

theorem weaken {fact' : α → List Token → Prop} (hp : B.Leads ahead p fact)
    (h : ∀ a ts, fact a ts → fact' a ts) : B.Leads ahead p fact' :=
  Law.Keeps.weaken hp h

/-- What the tokens ahead tell. -/
theorem given {φ : Prop} (hφ : ∀ ts, ahead ts → φ ∧ ahead' ts) (h : φ → B.Leads ahead' p fact) :
    B.Leads ahead p fact :=
  Law.Keeps.given hφ h

theorem after (h : ∀ ts, ahead' ts → ahead ts) (hp : B.Leads ahead p fact) :
    B.Leads ahead' p fact :=
  given (fun ts ha => ⟨trivial, h ts ha⟩) fun _ => hp

/-- There are no such tokens ahead. -/
theorem never (h : ∀ ts, ¬ ahead ts) : B.Leads ahead p fact :=
  fun _ _ s _ _ ha _ => absurd ha (h s.rest)

theorem discard {after : List Token → Prop} (hp : B.Leads ahead p fun _ => after) :
    B.Leads ahead (discard p) fun _ => after :=
  Law.Keeps.discard hp fun _ _ h => h

theorem fail (e : ParseError) : B.Leads ahead (fail e) fact :=
  fun _ _ _ _ _ _ hs => ⟨trivial, [], hs⟩

theorem unexpected (what : String) : B.Leads ahead (unexpected what) fact := by
  rintro scope others ⟨_ | ⟨t, rest⟩⟩ _ _ _ hs
  · exact ⟨trivial, [], hs⟩
  · exact ⟨trivial, [], hs⟩

theorem askIf {c : Config → Bool} {q : Parser α} (hp : B.Leads ahead p fact)
    (hq : B.Leads ahead q fact) : B.Leads ahead (do if c (← read).config then p else q) fact :=
  Law.Keeps.askIf hp hq

theorem within (context : Context) (h : B.Leads ahead p fact) :
    B.Leads ahead (within context p) fact :=
  Law.Keeps.within context h

theorem deeper (h : B.Leads ahead p fact) : B.Leads ahead (deeper p) fact := by
  intro scope others s hsource hconfig ha hs
  rw [deeper_run]
  split
  · exact ⟨trivial, [], hs⟩
  · split
    · exact ⟨trivial, [], hs⟩
    · exact h _ others _ hsource hconfig ha hs

theorem iterate {step : α → Parser (Option α)} (h : ∀ a, B.Leads ahead (step a) fun _ => ahead)
    (a : α) : B.Leads ahead (iterate step a) fun _ => ahead := by
  have hover : ∀ (ts : List Token) (a : α),
      B.Leads ahead (iterateOver step ts a) fun _ => ahead := by
    intro ts
    induction ts with
    | nil => exact fun a => (h a).bind fun _ => answer _
    | cons t ts ih =>
      refine fun a => (h a).bind fun o => ?_
      rcases o with _ | b
      · exact answer a
      · exact ih b
  exact fun scope others s => hover s.rest a scope others s

theorem many {next : Parser (Option α)} (h : B.Leads ahead next fun _ => ahead) :
    B.Leads ahead (many next) fun _ => ahead :=
  (iterate (fun _ => h.bind fun _ => answer _) []).bind fun _ => answer _

/-! ## Nodes and texts -/

theorem edit (c : Command) : B.Leads ahead (edit c) fun _ => ahead := Law.plain_edit c

theorem newNode (kind : Kind) (location : Location) (span : Span) :
    B.Leads ahead (newNode kind location span) fun t ts => t.kind = kind ∧ ahead ts := by
  intro scope others s hsource hconfig ha hs
  have hedit : B.Leads ahead (Parser.edit (.alloc kind location span scope.context))
      fun _ => ahead := edit _
  obtain ⟨ha, hs⟩ := hedit scope others s hsource hconfig ha hs
  exact ⟨⟨rfl, ha⟩, hs⟩

theorem kindedNode (kind : Kind) (t : Token) :
    B.Leads ahead (Parser.nodeAt kind t) fun u ts => u.kind = kind ∧ ahead ts :=
  newNode kind _ _

theorem nodeAt (kind : Kind) (t : Token) : B.Leads ahead (nodeAt kind t) fun _ => ahead :=
  (kindedNode kind t).weaken fun _ _ h => h.2

theorem nodeOver (kind : Kind) (first : Tree) :
    B.Leads ahead (nodeOver kind first) fun _ => ahead :=
  (edit _).bind fun _ => (newNode kind _ _).weaken fun _ _ h => h.2

theorem amend (t : Tree) (change : Node → Node) : B.Leads ahead (amend t change) fun _ => ahead :=
  (edit _).bind fun _ => answer _

theorem flagKind (t : Tree) (f : Flag) :
    B.Leads ahead (flag t f) fun u ts => u.kind = t.kind ∧ ahead ts := by
  have hkind : (t.mapHead (·.mark f)).kind = t.kind := by
    cases t
    rfl
  exact (edit _).bind fun _ => pure fun _ h => ⟨hkind, h⟩

theorem flag (t : Tree) (f : Flag) : B.Leads ahead (flag t f) fun _ => ahead :=
  (flagKind t f).weaken fun _ _ h => h.2

theorem flagIfKind (condition : Bool) (f : Flag) (t : Tree) :
    B.Leads ahead (flagIf condition f t) fun u ts => u.kind = t.kind ∧ ahead ts := by
  unfold Parser.flagIf
  split
  · exact flagKind t f
  · exact pure fun _ h => ⟨rfl, h⟩

theorem flagIf (condition : Bool) (f : Flag) (t : Tree) :
    B.Leads ahead (flagIf condition f t) fun _ => ahead :=
  (flagIfKind condition f t).weaken fun _ _ h => h.2

theorem finish (t : Tree) : B.Leads ahead (finish t) fun _ => ahead := by
  have hstop : B.Leads ahead (do let p ← get; return p.lastEnd) fun _ => ahead :=
    fun _ _ _ _ _ ha hs => ⟨ha, hs⟩
  exact hstop.bind fun stop => amend t fun n => { n with span := n.span.extend stop }

theorem attach (parent child : Tree) : B.Leads ahead (attach parent child) fun _ => ahead :=
  (edit _).bind fun _ => answer _

theorem prepend (parent child : Tree) : B.Leads ahead (prepend parent child) fun _ => ahead :=
  (edit _).bind fun _ => answer _

theorem tokenText (t : Token) : B.Leads ahead (tokenText t) fun _ => ahead :=
  Law.plain_tokenText (fun _ _ => trivial) t

theorem tokenTexts : ∀ ts : List Token, B.Leads ahead (tokenTexts ts) fun _ => ahead
  | [] => by
    rw [SqlSyntax.tokenTexts, List.mapM_nil]
    exact answer _
  | t :: ts => by
    rw [SqlSyntax.tokenTexts, List.mapM_cons]
    exact (tokenText t).bind fun _ => (tokenTexts ts).bind fun _ => answer _

theorem setText (t : Tree) (token : Token) : B.Leads ahead (setText t token) fun _ => ahead :=
  (tokenText token).bind fun _ => amend t _

theorem namedNode (kind : Kind) (t : Token) : B.Leads ahead (namedNode kind t) fun _ => ahead :=
  (nodeAt kind t).bind fun node => setText node t

/-! ## Looking at tokens -/

theorem look (f : List Token → α) :
    B.Leads ahead (do return f (← get).rest) fun a ts => a = f ts ∧ ahead ts :=
  fun _ _ _ _ _ ha hs => ⟨⟨rfl, ha⟩, hs⟩

theorem kindAt (n : Nat) : B.Leads ahead (kindAt n) fun _ => ahead :=
  (look fun ts => ts[n]?.map Token.kind).weaken fun _ _ h => h.2

theorem sees (kind : TokenKind) : B.Leads ahead (sees kind) fun _ => ahead :=
  (kindAt 0).bind fun _ => answer _

theorem seesKeyword (k : Keyword) : B.Leads ahead (seesKeyword k) fun _ => ahead := sees _

/-- The next token is one of the source. -/
theorem current {k : Option Token → Parser β}
    (hk : ∀ t ∈ tokenize B.source, B.Leads (B.At d t.kind) (k (some t)) fact') :
    B.Leads (B.Inside d) (current >>= k) fact' := by
  have hlook : B.Leads (B.Inside d) Parser.current fun o ts => o = ts.head? ∧ B.Inside d ts :=
    look List.head?
  refine hlook.bind fun o => ?_
  rcases o with _ | t
  · refine never fun ts ⟨hnone, hinside⟩ => ?_
    obtain ⟨t, rest, rfl, -⟩ := hinside.exists_cons
    cases hnone
  · have hseen : ∀ ts, some t = ts.head? ∧ B.Inside d ts →
        t ∈ tokenize B.source ∧ B.At d t.kind ts := by
      rintro ts ⟨hsome, hinside⟩
      obtain ⟨u, rest, rfl, hu⟩ := hinside.exists_cons
      obtain rfl := Option.some.inj hsome
      exact ⟨hu, hinside, rfl⟩
    exact given hseen (hk t)

theorem currentKind {k : Option TokenKind → Parser β}
    (hk : ∀ kind, B.Leads (B.At d kind) (k (some kind)) fact') :
    B.Leads (B.Inside d) (currentKind >>= k) fact' := by
  have hlook : B.Leads (B.Inside d) Parser.currentKind fun o ts =>
      o = ts[0]?.map Token.kind ∧ B.Inside d ts := look fun ts => ts[0]?.map Token.kind
  refine hlook.bind fun o => ?_
  rcases o with _ | kind
  · refine never fun ts ⟨hnone, hinside⟩ => ?_
    obtain ⟨t, rest, rfl, -⟩ := hinside.exists_cons
    cases hnone
  · exact after (fun _ h => ⟨h.2, by rw [List.head?_eq_getElem?, h.1]⟩) (hk kind)

/-- The answer tells whether the next token is of a kind. -/
theorem ifSees (kind : TokenKind) {k : Bool → Parser β}
    (htrue : B.Leads (B.At d kind) (k true) fact')
    (hfalse : B.Leads (B.Inside d) (k false) fact') :
    B.Leads (B.Inside d) (Parser.sees kind >>= k) fact' := by
  refine currentKind (k := fun o => k (o == some kind)) fun found => ?_
  by_cases h : found = kind
  · subst h
    rw [beq_self_eq_true]
    exact htrue
  · rw [beq_eq_false_iff_ne.2 fun heq => h (Option.some.inj heq)]
    exact after (fun _ h => h.1) hfalse

theorem seesOneOf (ks : List Keyword) : B.Stays d (seesOneOf ks) :=
  current fun _ _ => (answer _).weaken fun _ _ h => h.1

/-! ## Taking tokens -/

/-- A token is taken, where one may be. -/
theorem advance {fact : Option Token → List Token → Prop}
    (h : ∀ t ts, ahead (t :: ts) → B.Inside 0 ts ∧ fact (some t) ts) :
    B.Leads ahead advance fact := by
  rintro scope others ⟨ts⟩ _ _ ha hs
  have hinside : B.Inside 0 ts := hs
  obtain ⟨t, rest, rfl, -⟩ := hinside.exists_cons
  exact (h t rest ha).symm

/-- The token that was seen is taken. -/
theorem take (h : kind.Shifts d e) : B.Leads (B.At d kind) Parser.advance fun _ => B.Inside e := by
  refine advance fun t ts hat => ?_
  obtain ⟨hinside, hhead⟩ := hat
  obtain rfl := Option.some.inj hhead
  have hnext := hinside.next h
  exact ⟨hnext.zero, hnext⟩

theorem takeInner (h : kind.isInner) :
    B.Leads (B.At d kind) Parser.advance fun _ => B.Inside d :=
  take (.inner h)

/-- The token that was seen is taken, and the one behind it was seen too. -/
theorem takeFirst {next : TokenKind} (h : kind.isInner) :
    B.Leads (fun ts => B.At d kind ts ∧ ts[1]?.map Token.kind = some next) Parser.advance
      fun _ => B.At d next := by
  refine advance fun t ts ⟨⟨hinside, hhead⟩, hsecond⟩ => ?_
  obtain rfl := Option.some.inj hhead
  have hat := hinside.at_of_second h hsecond
  exact ⟨hat.1.zero, hat⟩

/-- What was seen is not needed. -/
theorem seen {p : Parser β} (h : B.Leads (B.Inside d) p fact') : B.Leads (B.At d kind) p fact' :=
  after (fun _ h => h.1) h

theorem takeIf? {test : Token → Bool} (h : ∀ t ∈ tokenize B.source, test t → t.kind.isInner) :
    B.Stays d (takeIf? test) := by
  refine current fun t ht => ?_
  show B.Leads _ (if test t then Parser.advance else Pure.pure none) _
  split
  · next htest => exact takeInner (h t ht htest)
  · exact (answer _).weaken fun _ _ h => h.1

/-- A token of a kind is taken where one may be, else the tokens ahead are as they were. -/
theorem takeWhere {after : List Token → Prop}
    (h : ∀ t ts, t.kind = kind → ahead (t :: ts) → B.Inside 0 ts ∧ after ts) :
    B.Leads ahead (take? kind) fun o => if o.isSome then after else ahead := by
  have hlook : B.Leads ahead Parser.current fun o ts => o = ts.head? ∧ ahead ts := look List.head?
  refine hlook.bind fun o => ?_
  rcases o with _ | t
  · exact pure fun _ h => h.2
  · show B.Leads _ (if t.kind == kind then Parser.advance else Pure.pure none) _
    split
    · next hkind =>
      refine advance fun u ts ⟨hhead, ha⟩ => ?_
      obtain rfl := Option.some.inj hhead
      exact h t ts (eq_of_beq hkind) ha
    · exact pure fun _ h => h.2

theorem expectWhere {after : List Token → Prop} (what : String)
    (h : ∀ t ts, t.kind = kind → ahead (t :: ts) → B.Inside 0 ts ∧ after ts) :
    B.Leads ahead (expect kind what) fun _ => after :=
  (takeWhere h).bind fun o => by
    cases o
    · exact unexpected what
    · exact answer _

/-- More or fewer parentheses are open if a token was taken. -/
theorem take? (h : kind.Shifts d e) :
    B.Leads (B.Inside d) (take? kind) fun o => if o.isSome then B.Inside e else B.Inside d :=
  takeWhere fun _ _ hkind hinside =>
    have hnext := hinside.next (hkind ▸ h)
    ⟨hnext.zero, hnext⟩

theorem take?_inner (h : kind.isInner) : B.Stays d (Parser.take? kind) :=
  (take? (.inner h)).weaken fun o _ h => by cases o <;> exact h

theorem takeKeyword? (k : Keyword) : B.Stays d (takeKeyword? k) := take?_inner rfl

theorem consume (h : kind.Shifts d e) :
    B.Leads (B.Inside d) (consume kind) fun b => if b then B.Inside e else B.Inside d :=
  (take? h).bind fun o => by
    cases o
    · exact answer _
    · exact answer _

theorem consume_inner (h : kind.isInner) : B.Stays d (Parser.consume kind) :=
  (take?_inner h).bind fun _ => answer _

theorem consumeKeyword (k : Keyword) : B.Stays d (consumeKeyword k) := consume_inner rfl

theorem expect (h : kind.Shifts d e) (what : String) :
    B.Leads (B.Inside d) (expect kind what) fun _ => B.Inside e :=
  expectWhere what fun _ _ hkind hinside =>
    have hnext := hinside.next (hkind ▸ h)
    ⟨hnext.zero, hnext⟩

theorem expectKeyword (k : Keyword) : B.Stays d (expectKeyword k) := expect (.inner rfl) _

/-- The token behind the expected one was seen. -/
theorem expectFirst {next : TokenKind} (h : kind.isInner) (what : String) :
    B.Leads (fun ts => B.Inside d ts ∧ ts[1]?.map Token.kind = some next)
      (Parser.expect kind what) fun _ => B.At d next :=
  expectWhere what fun _ _ hkind hahead =>
    have hat := hahead.1.at_of_second (hkind ▸ h) hahead.2
    ⟨hat.1.zero, hat⟩

/-- The opening parenthesis. -/
theorem opens (what : String) :
    B.Leads (B.Inside d) (Parser.expect .leftParen what) fun _ => B.Inside (d + 1) :=
  expect .opening what

/-- The closing parenthesis. -/
theorem closes (what : String) :
    B.Leads (B.Inside (d + 1)) (Functor.discard (Parser.expect .rightParen what)) fun _ =>
      B.Inside d :=
  (expect .closing what).discard

theorem checkQuotes (t : Token) : B.Leads ahead (checkQuotes t) fun _ => ahead :=
  askIf (c := fun c => c.strictAnsi && t.kind == .quotedIdentifier &&
    t.text.toList.head? != some '"') (fail _) (answer ())

theorem expectWord {test : Token → Bool} (h : ∀ t, test t → t.kind.isInner) (what : String) :
    B.Stays d (expectWord test what) := by
  refine current fun t _ => ?_
  show B.Leads _ (if test t then _ else _) _
  split
  · next htest =>
    exact (checkQuotes t).bind fun _ => (takeInner (h t htest)).discard.bind fun _ => answer t
  · exact unexpected what

end Leads

theorem isInner_of_isName {t : Token} (h : t.isName) : t.kind.isInner := by
  unfold Token.isName at h
  split at h
  · next hk => rw [hk]; rfl
  · next hk => rw [hk]; rfl
  · next hk => rw [hk]; rfl
  · cases h

theorem isInner_of_keyword? {t : Token} (h : t.keyword?.isSome) : t.kind.isInner := by
  unfold Token.keyword? at h
  split at h
  · next hk => rw [hk]; rfl
  · cases h

namespace Leads

theorem expectName (what : String) : B.Stays d (expectName what) :=
  expectWord (fun _ h => isInner_of_isName h) what

theorem expectNamePart (what : String) : B.Stays d (expectNamePart what) := by
  refine expectWord (fun t h => ?_) what
  rcases Bool.or_eq_true_iff.1 h with h | h
  · exact isInner_of_isName h
  · exact isInner_of_keyword? h

/-! ## Repetition -/

theorem attachWhile {next : Parser (Option Tree)} (h : B.Stays d next) (t : Tree) :
    B.Stays d (attachWhile next t) := by
  refine iterate (fun parent => h.bind fun o => ?_) t
  rcases o with _ | item
  · exact answer _
  · exact (attach parent item).bind fun _ => answer _

theorem afterComma? {item : Parser Tree} (h : B.Stays d item) : B.Stays d (afterComma? item) :=
  (consume_inner rfl).bind fun b => by
    cases b
    · exact answer _
    · exact h.bind fun _ => answer _

theorem attachList {item : Parser Tree} (h : B.Stays d item) (t : Tree) :
    B.Stays d (attachList item t) :=
  h.bind fun u => (attach t u).bind fun t => attachWhile (afterComma? h) t

theorem attachIf (condition : Bool) {item : Parser Tree} (h : B.Stays d item) (t : Tree) :
    B.Stays d (attachIf condition item t) := by
  unfold Parser.attachIf
  split
  · exact h.bind fun u => attach t u
  · exact answer t

end Leads

/-- The productions that occur inside one another leave as many parentheses open as they find. -/
structure Serves (B : Boundary) (inner : Nested) : Prop where
  expression : ∀ {d : Nat} (power : Nat), B.Stays d (inner.expression power)
  query : ∀ {d : Nat}, B.Stays d inner.query
  joinTree : ∀ {d : Nat}, B.Stays d inner.joinTree
  statement : ∀ {d : Nat}, B.Stays d inner.statement

end Boundary

end SqlSyntax
