import SqlSyntax.Grammar.Expression
import SqlSyntax.Proofs.Runs

/-!
# Tokens behind a run

A run over some tokens is compared with one over the same tokens with a sequel behind them. Up to a
token that it leaves, a run looks at its tokens one by one, so the other goes the same way and
leaves the sequel too. Where a run takes all of its tokens, it has looked for more, and the other
goes the same way if the sequel begins with nothing that it looked for (`Sequel.Leaves`).

An expression looks for tokens that go on it (`TokenKind.goesOn`), and behind `::` for more words of
the type. So a sequel that begins with another token has no part in the expression before it, unless
it begins with a word and the expression ends in a type (`Sequel.Free`).
-/

namespace SqlSyntax

open SqlSyntax.Parser

/-- Behind the tokens of an expression, the token may belong to it. -/
def TokenKind.goesOn : TokenKind → Bool
  | .dot | .leftParen => true
  | .keyword .OVER | .keyword .ESCAPE | .keyword .NOT => true
  | kind => (Power.trailing? kind).isSome || (Power.joining? kind none).isSome

theorem TokenKind.goesOn_of_trailing? {kind : TokenKind} {power : Nat}
    (h : Power.trailing? kind = some power) : kind.goesOn := by
  unfold Power.trailing? at h
  split at h
  · rfl
  · rfl
  · cases h

theorem TokenKind.goesOn_of_joining? {kind : TokenKind} {next : Option TokenKind}
    {powers : Nat × Nat} (h : Power.joining? kind next = some powers) : kind.goesOn := by
  unfold Power.joining? at h
  split at h <;> first | rfl | cases h

/-- The tokens end with `::` and words of a type name. -/
def EndsInType (ts : List Token) : Prop :=
  ∃ before sign words, ts = before ++ sign :: words ∧ sign.kind = .doubleColon ∧
    ∀ t ∈ words, t.isTypeWord

theorem EndsInType.doubleColon_mem {ts : List Token} (h : EndsInType ts) :
    ∃ t ∈ ts, t.kind = .doubleColon := by
  obtain ⟨_, sign, _, rfl, hsign, -⟩ := h
  exact ⟨sign, by simp, hsign⟩

theorem EndsInType.of_suffix {ts us : List Token} (h : EndsInType us) (hsuffix : us <:+ ts) :
    EndsInType ts := by
  obtain ⟨before, sign, words, rfl, hsign, hwords⟩ := h
  obtain ⟨more, rfl⟩ := hsuffix
  exact ⟨more ++ before, sign, words, by rw [List.append_assoc], hsign, hwords⟩

/-- The same point of a run, with more tokens behind those that are not taken yet. -/
structure Progress.FollowedBy (tail : List Token) (s s' : Progress) : Prop where
  rest : s'.rest = s.rest ++ tail
  taken : s'.taken = s.taken
  lastEnd : s'.lastEnd = s.lastEnd
  nodes : s'.nodes = s.nodes

theorem Progress.FollowedBy.edited {tail : List Token} {s s' : Progress} (h : s.FollowedBy tail s')
    (c : Command) : (s.edited c).FollowedBy tail (s'.edited c) where
  rest := by rw [s.rest_edited, s'.rest_edited, h.rest]
  taken := by rw [s.taken_edited, s'.taken_edited, h.taken]
  lastEnd := by rw [s.lastEnd_edited, s'.lastEnd_edited, h.lastEnd]
  nodes := by rw [s.nodes_edited, s'.nodes_edited, h.nodes]

/-- Tokens that come behind those of an expression. -/
structure Sequel where
  tokens : List Token
  stops : ∀ t ∈ tokens.head?, t.kind.goesOn = false
  noStar : startsStar tokens = false

namespace Sequel

variable {Z : Sequel} {whole : Prop} {α β : Type} {ahead ahead' : List Token → Prop}
  {p p' : Parser α} {fact : α → List Token → Prop} {fact' : β → List Token → Prop}
  {ts us rs : List Token} {kind : TokenKind} {t : Token}

/-- The sequel does not begin with a word of the type that the tokens end with. -/
def Free (Z : Sequel) (ts : List Token) : Prop :=
  ∀ t ∈ Z.tokens.head?, t.isTypeWord → ¬ EndsInType ts

/-- A run from the first tokens to the second looks at nothing behind them, or it may take all of
them. -/
def Clear (Z : Sequel) (whole : Prop) (ts rs : List Token) : Prop :=
  rs ≠ [] ∨ whole ∧ Z.Free ts

/-- A run that may take all of its tokens does not look for a token of the kind, or the sequel does
not begin with one. -/
def Bars (Z : Sequel) (whole : Prop) (kind : TokenKind) : Prop :=
  whole → ∀ t ∈ Z.tokens.head?, t.kind ≠ kind

/-- The sequel begins with a closing parenthesis. -/
def Closes (Z : Sequel) : Prop := ∀ t ∈ Z.tokens.head?, t.kind = .rightParen

/-- The first parser leaves an end of its tokens, of which the fact tells. With the sequel behind
the tokens, the second gives the same answer and leaves the sequel behind that end. -/
def Leaves (Z : Sequel) (whole : Prop) (ahead : List Token → Prop) (p p' : Parser α)
    (fact : α → List Token → Prop) : Prop :=
  ∀ (scope : Scope) (s : Progress) (a : α) (r : Progress), ahead s.rest → p scope s = .ok a r →
    r.rest <:+ s.rest ∧ fact a r.rest ∧
      (Z.Clear whole s.rest r.rest → ∀ s', s.FollowedBy Z.tokens s' →
        ∃ r', p' scope s' = .ok a r' ∧ r.FollowedBy Z.tokens r')

/-- The same of a parser that takes a token at least. -/
structure Takes (Z : Sequel) (whole : Prop) (ahead : List Token → Prop) (p p' : Parser α)
    (fact : α → List Token → Prop) : Prop where
  leaves : Z.Leaves whole ahead p p' fact
  ne_nil : ∀ {scope : Scope} {s : Progress} {a : α} {r : Progress}, ahead s.rest →
    p scope s = .ok a r → s.rest ≠ []

/-- The same whatever tokens are ahead. -/
abbrev Stays (Z : Sequel) (whole : Prop) (p p' : Parser α) : Prop :=
  Z.Leaves whole Law.anything p p' fun _ => Law.anything

theorem Free.of_suffix (h : Z.Free ts) (hsuffix : us <:+ ts) : Z.Free us :=
  fun t ht hword hends => h t ht hword (hends.of_suffix hsuffix)

theorem Clear.before (h : Z.Clear whole ts rs) (hsuffix : rs <:+ us) : Z.Clear whole ts us :=
  h.imp_left fun hrs hus => hrs (List.suffix_nil.1 (hus ▸ hsuffix))

theorem Clear.behind (h : Z.Clear whole ts rs) (hsuffix : us <:+ ts) : Z.Clear whole us rs :=
  h.imp_right fun hwhole => ⟨hwhole.1, hwhole.2.of_suffix hsuffix⟩

theorem bars_of_goesOn (h : kind.goesOn) : Z.Bars whole kind := by
  rintro - t ht rfl
  rw [Z.stops t ht] at h
  cases h

theorem bars_of_closes (h : whole → Z.Closes) (hkind : kind ≠ .rightParen) : Z.Bars whole kind :=
  fun hwhole t ht hk => hkind (hk ▸ h hwhole t ht)

theorem bars_false : Z.Bars False kind := False.elim

namespace Leaves

/-! ## Runs -/

theorem pure {a : α} (h : ∀ ts, ahead ts → fact a ts) :
    Z.Leaves whole ahead (Pure.pure a) (Pure.pure a) fact := by
  rintro scope s _ _ ha ⟨⟩
  exact ⟨List.suffix_rfl, h _ ha, fun _ s' hs' => ⟨s', rfl, hs'⟩⟩

/-- An answer, with the tokens ahead as they are. -/
theorem answer (a : α) : Z.Leaves whole ahead (Pure.pure a) (Pure.pure a) fun _ => ahead :=
  pure fun _ h => h

/-- A parser that fails in any case. -/
theorem never (h : ∀ scope s a r, p scope s ≠ .ok a r) : Z.Leaves whole ahead p p' fact :=
  fun scope s a r _ hrun => absurd hrun (h scope s a r)

theorem unexpected (what : String) :
    Z.Leaves whole ahead (unexpected what) p' fact := by
  refine never fun scope s a r => ?_
  obtain ⟨_ | ⟨t, rest⟩⟩ := s <;> nofun

theorem fail (e : ParseError) : Z.Leaves whole ahead (fail e) p' fact :=
  never fun _ _ _ _ => nofun

theorem bind {k k' : α → Parser β} (hp : Z.Leaves whole ahead p p' fact)
    (hk : ∀ a, Z.Leaves whole (fact a) (k a) (k' a) fact') :
    Z.Leaves whole ahead (p >>= k) (p' >>= k') fact' := by
  intro scope s b r ha hrun
  obtain ⟨a, m, hm, hr⟩ := exists_of_bind hrun
  obtain ⟨hsuffix, hfact, hfirst⟩ := hp scope s a m ha hm
  obtain ⟨hsuffix', hfact', hsecond⟩ := hk a scope m b r hfact hr
  refine ⟨hsuffix'.trans hsuffix, hfact', fun hclear s' hs' => ?_⟩
  obtain ⟨m', hm', hfollowed⟩ := hfirst (hclear.before hsuffix') s' hs'
  obtain ⟨r', hr', hfollowed'⟩ := hsecond (hclear.behind hsuffix) m' hfollowed
  exact ⟨r', by rw [bind_ok hm', hr'], hfollowed'⟩

theorem weaken {fact' : α → List Token → Prop} (hp : Z.Leaves whole ahead p p' fact)
    (h : ∀ a ts, fact a ts → fact' a ts) : Z.Leaves whole ahead p p' fact' := by
  intro scope s a r ha hrun
  obtain ⟨hsuffix, hfact, hsame⟩ := hp scope s a r ha hrun
  exact ⟨hsuffix, h _ _ hfact, hsame⟩

theorem after (h : ∀ ts, ahead' ts → ahead ts) (hp : Z.Leaves whole ahead p p' fact) :
    Z.Leaves whole ahead' p p' fact :=
  fun scope s a r ha => hp scope s a r (h _ ha)

/-- What was seen is not needed. -/
theorem seen (hp : Z.Leaves whole Law.anything p p' fact) : Z.Leaves whole ahead p p' fact :=
  hp.after fun _ _ => trivial

theorem forget (hp : Z.Leaves whole ahead p p' fact) :
    Z.Leaves whole ahead p p' fun _ => Law.anything :=
  hp.weaken fun _ _ _ => trivial

/-- What holds however many tokens are ahead. -/
theorem ofShort {fact : Nat → α → List Token → Prop}
    (h : ∀ n, Z.Leaves whole (·.length ≤ n) p p' (fact n)) : Z.Stays whole p p' := by
  intro scope s a r _ hrun
  obtain ⟨hsuffix, -, hsame⟩ := h s.rest.length scope s a r (Nat.le_refl _) hrun
  exact ⟨hsuffix, trivial, hsame⟩

theorem discard {P : List Token → Prop} (hp : Z.Leaves whole ahead p p' fun _ => P) :
    Z.Leaves whole ahead (discard p) (discard p') fun _ => P := by
  show Z.Leaves whole ahead (p >>= fun _ => Pure.pure ()) (p' >>= fun _ => Pure.pure ()) _
  exact hp.bind fun _ => answer ()

/-- What comes behind a parser takes a token, so the parser leaves one. -/
theorem into {k k' : α → Parser β} (hp : Z.Leaves False ahead p p' fact)
    (hk : ∀ a, Z.Takes whole (fact a) (k a) (k' a) fact') :
    Z.Takes whole ahead (p >>= k) (p' >>= k') fact' := by
  constructor
  · intro scope s b r ha hrun
    obtain ⟨a, m, hm, hr⟩ := exists_of_bind hrun
    obtain ⟨hsuffix, hfact, hfirst⟩ := hp scope s a m ha hm
    obtain ⟨hsuffix', hfact', hsecond⟩ := (hk a).leaves scope m b r hfact hr
    refine ⟨hsuffix'.trans hsuffix, hfact', fun hclear s' hs' => ?_⟩
    obtain ⟨m', hm', hfollowed⟩ := hfirst (.inl ((hk a).ne_nil hfact hr)) s' hs'
    obtain ⟨r', hr', hfollowed'⟩ := hsecond (hclear.behind hsuffix) m' hfollowed
    exact ⟨r', by rw [bind_ok hm', hr'], hfollowed'⟩
  · intro scope s b r ha hrun hs
    obtain ⟨a, m, hm, hr⟩ := exists_of_bind hrun
    obtain ⟨hsuffix, hfact, -⟩ := hp scope s a m ha hm
    exact (hk a).ne_nil hfact hr (List.suffix_nil.1 (hs ▸ hsuffix))

theorem within (context : Context) (h : Z.Leaves whole ahead p p' fact) :
    Z.Leaves whole ahead (within context p) (within context p') fact :=
  fun scope => h { scope with context := some context }

theorem ask {k k' : Scope → Parser α}
    (h : ∀ scope, Z.Leaves whole ahead (k scope) (k' scope) fact) :
    Z.Leaves whole ahead (do k (← read)) (do k' (← read)) fact :=
  fun scope => h scope scope

theorem askIf {c : Config → Bool} {q q' : Parser α} (hp : Z.Leaves whole ahead p p' fact)
    (hq : Z.Leaves whole ahead q q' fact) :
    Z.Leaves whole ahead (do if c (← read).config then p else q)
      (do if c (← read).config then p' else q') fact := by
  refine ask fun scope => ?_
  split
  · exact hp
  · exact hq

theorem deeper (h : Z.Leaves whole ahead p p' fact) :
    Z.Leaves whole ahead (deeper p) (deeper p') fact := by
  intro scope s a r ha hrun
  rw [deeper_run] at hrun
  split at hrun
  · cases hrun
  next hlimit =>
  split at hrun
  · cases hrun
  next hstack =>
  obtain ⟨hsuffix, hfact, hsame⟩ :=
    h _ { s with deepest := max s.deepest (scope.depth + 1) } a r ha hrun
  refine ⟨hsuffix, hfact, fun hclear s' hs' => ?_⟩
  obtain ⟨r', hr', hfollowed⟩ := hsame hclear
    { s' with deepest := max s'.deepest (scope.depth + 1) }
    ⟨hs'.rest, hs'.taken, hs'.lastEnd, hs'.nodes⟩
  rw [← hs'.taken] at hstack
  exact ⟨r', by rw [deeper_run, if_neg hlimit, if_neg hstack, hr'], hfollowed⟩

/-- The word of a type that the tokens end with matters only where the run takes all of them. -/
theorem freely (h : Z.Leaves False ahead p p' fact)
    (hfree : Z.Leaves whole (fun ts => ahead ts ∧ Z.Free ts) p p' fact) :
    Z.Leaves whole ahead p p' fact := by
  intro scope s a r ha hrun
  obtain ⟨hsuffix, hfact, hsame⟩ := h scope s a r ha hrun
  refine ⟨hsuffix, hfact, ?_⟩
  rintro (hrest | ⟨hwhole, hts⟩)
  · exact hsame (.inl hrest)
  · exact (hfree scope s a r ⟨ha, hts⟩ hrun).2.2 (.inr ⟨hwhole, hts⟩)

/-! ## Repetition -/

section Repetition

variable {step step' : α → Parser (Option α)}

/-- Each answer of the step takes a token, so the rounds are not used up. -/
theorem iterateOver
    (h : ∀ n a, Z.Leaves whole (fun ts => ahead ts ∧ ts.length ≤ n) (step a) (step' a)
      fun o ts => ahead ts ∧ (o.isSome → ts.length < n)) :
    ∀ {rounds rounds' : List Token} {a : α}, rounds.length ≤ rounds'.length →
      Z.Leaves whole (fun ts => ahead ts ∧ ts.length ≤ rounds.length) (iterateOver step rounds a)
        (iterateOver step' rounds' a) fun _ => ahead := by
  intro rounds
  induction rounds with
  | nil =>
    intro rounds' a _ scope s b r ha hrun
    obtain ⟨o, m, hm, hr⟩ := exists_of_bind hrun
    obtain ⟨hsuffix, ⟨hahead, hless⟩, hsame⟩ := h 0 a scope s o m ha hm
    cases hr
    rcases o with _ | b
    · refine ⟨hsuffix, hahead, fun hclear s' hs' => ?_⟩
      obtain ⟨r', hr', hfollowed⟩ := hsame hclear s' hs'
      exact ⟨r', iterateOver_none hr' rounds', hfollowed⟩
    · exact absurd (hless rfl) (Nat.not_lt_zero _)
  | cons round rounds ih =>
    intro rounds' a hle scope s b r ha hrun
    obtain ⟨round', rounds', rfl⟩ : ∃ t ts, rounds' = t :: ts :=
      List.exists_cons_of_length_pos (Nat.lt_of_lt_of_le (Nat.succ_pos _) hle)
    obtain ⟨o, m, hm, hr⟩ := exists_of_bind hrun
    obtain ⟨hsuffix, ⟨hahead, hless⟩, hsame⟩ := h _ a scope s o m ha hm
    rcases o with _ | c
    · cases hr
      refine ⟨hsuffix, hahead, fun hclear s' hs' => ?_⟩
      obtain ⟨r', hr', hfollowed⟩ := hsame hclear s' hs'
      exact ⟨r', iterateOver_none hr' _, hfollowed⟩
    · obtain ⟨hsuffix', hahead', hsame'⟩ := ih (a := c) (Nat.le_of_succ_le_succ hle) scope m b r
        ⟨hahead, Nat.le_of_lt_succ (hless rfl)⟩ hr
      refine ⟨hsuffix'.trans hsuffix, hahead', fun hclear s' hs' => ?_⟩
      obtain ⟨m', hm', hfollowed⟩ := hsame (hclear.before hsuffix') s' hs'
      obtain ⟨r', hr', hfollowed'⟩ := hsame' (hclear.behind hsuffix) m' hfollowed
      exact ⟨r', by rw [iterateOver_some hm', hr'], hfollowed'⟩

theorem iterate
    (h : ∀ n a, Z.Leaves whole (fun ts => ahead ts ∧ ts.length ≤ n) (step a) (step' a)
      fun o ts => ahead ts ∧ (o.isSome → ts.length < n)) (a : α) :
    Z.Leaves whole ahead (iterate step a) (iterate step' a) fun _ => ahead := by
  intro scope s b r ha hrun
  have hover {rounds' : List Token} (hle : s.rest.length ≤ rounds'.length) :=
    iterateOver h (a := a) hle scope s b r ⟨ha, Nat.le_refl _⟩ hrun
  obtain ⟨hsuffix, hahead, -⟩ := hover (Nat.le_refl _)
  refine ⟨hsuffix, hahead, fun hclear s' hs' => ?_⟩
  have hle : s.rest.length ≤ s'.rest.length := by simp [hs'.rest]
  exact (hover hle).2.2 hclear s' hs'

theorem many {next next' : Parser (Option α)}
    (h : ∀ n, Z.Leaves whole (fun ts => ahead ts ∧ ts.length ≤ n) next next'
      fun o ts => ahead ts ∧ (o.isSome → ts.length < n)) :
    Z.Leaves whole ahead (many next) (many next') fun _ => ahead := by
  refine (iterate (fun n items => (h n).bind fun o => pure fun ts hts => ?_) []).bind
    fun _ => answer _
  rwa [Option.isSome_map]

end Repetition

/-! ## Nodes and texts -/

/-- A parser that answers in any case, and looks at no tokens. -/
theorem still {answer : Scope → Progress → α} {next : Scope → Progress → Progress}
    (hrun : ∀ scope s, p scope s = .ok (answer scope s) (next scope s))
    (hrest : ∀ scope s, (next scope s).rest = s.rest)
    (hsame : ∀ {scope s s'}, s.FollowedBy Z.tokens s' →
      answer scope s' = answer scope s ∧ (next scope s).FollowedBy Z.tokens (next scope s')) :
    Z.Leaves whole ahead p p fun _ => ahead := by
  intro scope s a r ha hok
  rw [hrun] at hok
  injection hok with hanswer hnext
  subst hanswer hnext
  rw [hrest]
  refine ⟨List.suffix_rfl, ha, fun _ s' hs' => ?_⟩
  obtain ⟨hanswer, hfollowed⟩ := hsame hs'
  exact ⟨next scope s', by rw [hrun, hanswer], hfollowed⟩

theorem edit (c : Command) : Z.Leaves whole ahead (edit c) (edit c) fun _ => ahead :=
  still (fun _ _ => rfl) (fun _ s => s.rest_edited c) fun h => ⟨rfl, h.edited c⟩

/-- A new node gets the number of nodes, which is the same in both runs. -/
theorem newNode (kind : Kind) (location : Location) (span : Span) :
    Z.Leaves whole ahead (newNode kind location span) (newNode kind location span)
      fun _ => ahead := by
  have hnumber (context : Option Context) : Z.Leaves whole ahead
      (modifyGet fun p => (Tree.leaf { kind, id := p.nodes, context, location, span },
        { p with nodes := p.nodes + 1 }))
      (modifyGet fun p => (Tree.leaf { kind, id := p.nodes, context, location, span },
        { p with nodes := p.nodes + 1 })) fun _ => ahead :=
    still (fun _ _ => rfl) (fun _ _ => rfl) fun h =>
      ⟨by rw [h.nodes], h.rest, h.taken, h.lastEnd, congrArg (· + 1) h.nodes⟩
  exact fun scope => ((edit _).bind fun _ => hnumber scope.context) scope

theorem nodeAt (kind : Kind) (t : Token) :
    Z.Leaves whole ahead (nodeAt kind t) (nodeAt kind t) fun _ => ahead :=
  newNode kind _ _

theorem nodeOver (kind : Kind) (first : Tree) :
    Z.Leaves whole ahead (nodeOver kind first) (nodeOver kind first) fun _ => ahead :=
  (edit _).bind fun _ => newNode kind _ _

theorem amend (t : Tree) (change : Node → Node) :
    Z.Leaves whole ahead (amend t change) (amend t change) fun _ => ahead :=
  (edit _).bind fun _ => answer _

theorem flag (t : Tree) (f : Flag) :
    Z.Leaves whole ahead (flag t f) (flag t f) fun _ => ahead :=
  amend t _

theorem flagIf (condition : Bool) (f : Flag) (t : Tree) :
    Z.Leaves whole ahead (flagIf condition f t) (flagIf condition f t) fun _ => ahead := by
  unfold Parser.flagIf
  split
  · exact flag t f
  · exact answer t

theorem finish (t : Tree) : Z.Leaves whole ahead (finish t) (finish t) fun _ => ahead := by
  have hstop : Z.Leaves whole ahead (do return (← get).lastEnd) (do return (← get).lastEnd)
      fun _ => ahead :=
    still (fun _ _ => rfl) (fun _ _ => rfl) fun h => ⟨h.lastEnd, h⟩
  exact hstop.bind fun stop => amend t fun n => { n with span := n.span.extend stop }

theorem attach (parent child : Tree) :
    Z.Leaves whole ahead (attach parent child) (attach parent child) fun _ => ahead :=
  (edit _).bind fun _ => answer _

theorem prepend (parent child : Tree) :
    Z.Leaves whole ahead (prepend parent child) (prepend parent child) fun _ => ahead :=
  (edit _).bind fun _ => answer _

theorem copy (text : String) : Z.Leaves whole ahead (copy text) (copy text) fun _ => ahead :=
  (edit _).bind fun _ => still (fun _ _ => rfl) (fun _ _ => rfl) fun h =>
    ⟨rfl, h.rest, h.taken, h.lastEnd, h.nodes⟩

theorem quotedText (quote : Char) (t : Token) :
    Z.Leaves whole ahead (quotedText quote t) (quotedText quote t) fun _ => ahead := by
  unfold Parser.quotedText
  generalize t.span.inner 1 = inner
  refine ask fun scope => ?_
  rcases scope.source.slice? inner.start inner.stop with _ | body
  · exact never fun _ _ _ _ => nofun
  · dsimp only
    split
    · exact copy _
    · exact answer _

theorem tokenText (t : Token) :
    Z.Leaves whole ahead (tokenText t) (tokenText t) fun _ => ahead := by
  unfold Parser.tokenText
  split
  · exact quotedText _ t
  · split
    · exact answer _
    · exact answer _
    · exact quotedText _ t
  · exact answer _
  · exact answer _

theorem tokenTexts :
    ∀ ts : List Token, Z.Leaves whole ahead (tokenTexts ts) (tokenTexts ts) fun _ => ahead
  | [] => by
    rw [SqlSyntax.tokenTexts, List.mapM_nil]
    exact answer _
  | t :: ts => by
    rw [SqlSyntax.tokenTexts, List.mapM_cons]
    exact (tokenText t).bind fun _ => (tokenTexts ts).bind fun _ => answer _

theorem setText (t : Tree) (token : Token) :
    Z.Leaves whole ahead (setText t token) (setText t token) fun _ => ahead :=
  (tokenText token).bind fun _ => amend t _

theorem namedNode (kind : Kind) (t : Token) :
    Z.Leaves whole ahead (namedNode kind t) (namedNode kind t) fun _ => ahead :=
  (nodeAt kind t).bind fun node => setText node t

/-! ## Looking at tokens -/

/-- What is done does not depend on what is seen behind the tokens. -/
theorem peek {f : List Token → β} {k k' : β → Parser α}
    (hf : ∀ ts, ahead ts → Z.Clear whole ts ts → k' (f (ts ++ Z.tokens)) = k' (f ts))
    (hk : ∀ b, Z.Leaves whole (fun ts => f ts = b ∧ ahead ts) (k b) (k' b) fact) :
    Z.Leaves whole ahead (do k (f (← get).rest)) (do k' (f (← get).rest)) fact := by
  intro scope s a r ha hrun
  obtain ⟨hsuffix, hfact, hsame⟩ := hk (f s.rest) scope s a r ⟨rfl, ha⟩ hrun
  refine ⟨hsuffix, hfact, fun hclear s' hs' => ?_⟩
  obtain ⟨r', hr', hfollowed⟩ := hsame hclear s' hs'
  refine ⟨r', ?_, hfollowed⟩
  show k' (f s'.rest) scope s' = _
  rw [hs'.rest, hf s.rest ha ((hclear.before hsuffix).behind List.suffix_rfl), hr']

/-- The next token was seen already. -/
theorem currentSeen {k k' : Option Token → Parser α}
    (hk : Z.Leaves whole (fun ts => ts.head? = some t ∧ ahead ts) (k (some t)) (k' (some t)) fact) :
    Z.Leaves whole (fun ts => ts.head? = some t ∧ ahead ts) (Parser.current >>= k)
      (Parser.current >>= k') fact := by
  refine peek (f := List.head?) (fun ts ha _ => ?_) fun o => ?_
  · rw [List.head?_append, ha.1, Option.some_or]
  · by_cases ho : o = some t
    · subst ho
      exact hk.after fun _ h => h.2
    · exact fun _ _ _ _ h => absurd (h.1.symm.trans h.2.1) ho

/-- Behind the next token, it makes no difference whether there is none or one that goes on nothing.
-/
theorem kindAt_one {k k' : Option TokenKind → Parser α}
    (hsame : ∀ kind : TokenKind, kind.goesOn = false → k' (some kind) = k' none)
    (hk : ∀ o, Z.Leaves whole (fun ts => ts.head? = some t ∧ ahead ts) (k o) (k' o) fact) :
    Z.Leaves whole (fun ts => ts.head? = some t ∧ ahead ts) (kindAt 1 >>= k) (kindAt 1 >>= k')
      fact := by
  refine peek (f := fun ts => ts[1]?.map Token.kind) ?_ fun o => (hk o).after fun _ h => h.2
  rintro (_ | ⟨u, _ | ⟨v, ts⟩⟩) ⟨hhead, -⟩ -
  · cases hhead
  · rw [List.singleton_append, List.getElem?_cons_succ, ← List.head?_eq_getElem?]
    rcases htokens : Z.tokens.head? with _ | v
    · rfl
    · exact hsame v.kind (Z.stops v htokens)
  · rfl

/-- What is seen is not behind the tokens. -/
theorem look {f : List Token → α}
    (hf : ∀ ts, ahead ts → Z.Clear whole ts ts → f (ts ++ Z.tokens) = f ts) :
    Z.Leaves whole ahead (do return f (← get).rest) (do return f (← get).rest)
      fun a ts => f ts = a ∧ ahead ts :=
  peek (k := Pure.pure) (fun ts ha hclear => by rw [hf ts ha hclear]) fun _ => pure fun _ h => h

/-- Where no token is ahead, the first of the sequel makes no difference. -/
theorem currentKind {k k' : Option TokenKind → Parser α}
    (hsame : whole → ∀ t ∈ Z.tokens.head?, k' (some t.kind) = k' none)
    (hk : ∀ o, Z.Leaves whole (fun ts => ts.head?.map Token.kind = o ∧ ahead ts) (k o) (k' o)
      fact) :
    Z.Leaves whole ahead (currentKind >>= k) (currentKind >>= k') fact := by
  refine peek (f := fun ts => ts[0]?.map Token.kind) ?_ fun o => (hk o).after ?_
  · rintro (_ | ⟨t, ts⟩) - hclear
    · obtain ⟨hwhole, -⟩ := hclear.resolve_left fun h => h rfl
      rw [List.nil_append, ← List.head?_eq_getElem?]
      rcases hhead : Z.tokens.head? with _ | t
      · rfl
      · exact hsame hwhole t hhead
    · rfl
  · rintro ts ⟨hseen, ha⟩
    exact ⟨by rw [List.head?_eq_getElem?, hseen], ha⟩

theorem sees (hkind : Z.Bars whole kind) :
    Z.Leaves whole ahead (sees kind) (sees kind)
      fun b ts => (b = true → ts.head?.map Token.kind = some kind) ∧ ahead ts := by
  refine currentKind (k := fun o => Pure.pure (o == some kind)) (fun hwhole t ht => ?_) fun o => ?_
  · rw [beq_eq_false_iff_ne.2 fun h => hkind hwhole t ht (Option.some.inj h)]
    rfl
  · exact pure fun ts h => ⟨fun ho => h.1.trans (eq_of_beq ho), h.2⟩

theorem seesOneOf (ks : List Keyword) :
    Z.Leaves False ahead (seesOneOf ks) (seesOneOf ks) fun _ => ahead := by
  have hlook : Parser.seesOneOf ks = do
      return (← get).rest.head?.any fun t => t.keyword?.any ks.contains := by
    funext scope s
    obtain ⟨_ | ⟨t, ts⟩⟩ := s <;> rfl
  rw [hlook]
  refine (look (f := fun ts => ts.head?.any fun t => t.keyword?.any ks.contains) ?_).weaken
    fun _ _ h => h.2
  rintro (_ | ⟨t, ts⟩) - hclear
  · exact absurd rfl (hclear.resolve_right And.left)
  · rfl

/-- A parser that needs a next token. -/
theorem current {k k' : Option Token → Parser α} (hnone : ∀ scope s a r, k none scope s ≠ .ok a r)
    (hsome : ∀ t, Z.Leaves whole (fun ts => ts.head? = some t ∧ ahead ts) (k (some t))
      (k' (some t)) fact) :
    Z.Takes whole ahead (current >>= k) (current >>= k') fact := by
  have hhead {scope : Scope} {s : Progress} {a : α} {r : Progress}
      (hrun : k s.rest.head? scope s = .ok a r) : ∃ t, s.rest.head? = some t := by
    refine Option.ne_none_iff_exists'.1 fun h => ?_
    rw [h] at hrun
    exact hnone _ _ _ _ hrun
  constructor
  · intro scope s a r ha hrun
    obtain ⟨t, ht⟩ := hhead hrun
    have hrun : k s.rest.head? scope s = .ok a r := hrun
    rw [ht] at hrun
    obtain ⟨hsuffix, hfact, hsame⟩ := hsome t scope s a r ⟨ht, ha⟩ hrun
    refine ⟨hsuffix, hfact, fun hclear s' hs' => ?_⟩
    obtain ⟨r', hr', hfollowed⟩ := hsame hclear s' hs'
    refine ⟨r', ?_, hfollowed⟩
    show k' s'.rest.head? scope s' = _
    rw [hs'.rest, List.head?_append, ht, Option.some_or, hr']
  · intro scope s a r _ hrun hs
    obtain ⟨t, ht⟩ := hhead hrun
    rw [hs] at ht
    cases ht

/-! ## Taking tokens -/

section Taking

variable {s s' : Progress} {rest tail : List Token} {test : Token → Bool}

theorem takeIf?_run (test : Token → Bool) (scope : Scope) (s : Progress) :
    takeIf? test scope s =
      match s.rest with
      | [] => .ok none s
      | t :: rest => if test t then .ok (some t) (s.advanced t rest) else .ok none s := by
  obtain ⟨_ | ⟨t, rest⟩⟩ := s
  · rfl
  · show (if test t then Parser.advance else Pure.pure none : Parser (Option Token)) scope _ = _
    dsimp only
    split <;> rfl

theorem followedBy_advanced (h : s.FollowedBy tail s') (hrest : s.rest = t :: rest) :
    s'.rest = t :: (rest ++ tail) ∧
      (s.advanced t rest).FollowedBy tail (s'.advanced t (rest ++ tail)) :=
  ⟨by rw [h.rest, hrest, List.cons_append], rfl, congrArg (· + 1) h.taken, rfl, h.nodes⟩

/-- A token is taken if it passes the test; where there is none, none passes behind. -/
theorem takeIf? {P : List Token → Prop}
    (hbar : whole → ahead [] → ∀ t ∈ Z.tokens.head?, test t = false)
    (h : ∀ t ts, test t → ahead (t :: ts) → P ts) :
    Z.Leaves whole ahead (takeIf? test) (takeIf? test) fun o =>
      if o.isSome then P else ahead := by
  intro scope s a r ha hrun
  rw [takeIf?_run] at hrun
  rcases hs : s.rest with _ | ⟨t, rest⟩
  · rw [hs] at hrun ha
    cases hrun
    rw [hs]
    refine ⟨List.suffix_rfl, ha, fun hclear s' hs' => ⟨s', ?_, hs'⟩⟩
    obtain ⟨hwhole, -⟩ := hclear.resolve_left fun h => h rfl
    have hrest : s'.rest = Z.tokens := by rw [hs'.rest, hs, List.nil_append]
    rw [takeIf?_run, hrest]
    rcases htokens : Z.tokens with _ | ⟨t, more⟩
    · rfl
    · dsimp only
      rw [hbar hwhole ha t (htokens ▸ rfl), if_neg Bool.false_ne_true]
  · rw [hs] at hrun ha
    dsimp only at hrun
    split at hrun
    · next htest =>
      cases hrun
      refine ⟨List.suffix_cons t rest, h t rest htest ha, fun _ s' hs' => ?_⟩
      obtain ⟨hrest, hfollowed⟩ := followedBy_advanced hs' hs
      exact ⟨_, by rw [takeIf?_run, hrest]; exact if_pos htest, hfollowed⟩
    · next htest =>
      cases hrun
      rw [hs]
      refine ⟨List.suffix_rfl, ha, fun _ s' hs' => ⟨s', ?_, hs'⟩⟩
      obtain ⟨hrest, -⟩ := followedBy_advanced hs' hs
      rw [takeIf?_run, hrest]
      exact if_neg htest

/-- A token that is taken is one less. -/
theorem takeIf?_short (hbar : whole → ∀ t ∈ Z.tokens.head?, test t = false) (n : Nat) :
    Z.Leaves whole (·.length ≤ n) (Parser.takeIf? test) (Parser.takeIf? test) fun o ts =>
      ts.length ≤ n ∧ (o.isSome → ts.length < n) := by
  refine (takeIf? (P := (·.length < n)) (fun hwhole _ => hbar hwhole) fun _ _ _ h => h).weaken ?_
  rintro (_ | t) ts h
  · exact ⟨h, nofun⟩
  · exact ⟨Nat.le_of_lt h, fun _ => h⟩

theorem take?_short (hkind : Z.Bars whole kind) (n : Nat) :
    Z.Leaves whole (·.length ≤ n) (take? kind) (take? kind) fun o ts =>
      ts.length ≤ n ∧ (o.isSome → ts.length < n) :=
  takeIf?_short (fun hwhole t ht => beq_eq_false_iff_ne.2 (hkind hwhole t ht)) n

theorem take? (hkind : Z.Bars whole kind) : Z.Stays whole (take? kind) (take? kind) :=
  .ofShort (take?_short hkind)

theorem takeKeyword? {k : Keyword} (hk : Z.Bars whole (.keyword k)) :
    Z.Stays whole (takeKeyword? k) (takeKeyword? k) := take? hk

theorem consume_short (hkind : Z.Bars whole kind) (n : Nat) :
    Z.Leaves whole (·.length ≤ n) (consume kind) (consume kind) fun b ts =>
      b → ts.length < n :=
  (take?_short hkind n).bind fun _ => pure fun _ h => h.2

theorem consume (hkind : Z.Bars whole kind) : Z.Stays whole (consume kind) (consume kind) :=
  .ofShort (consume_short hkind)

theorem consumeKeyword {k : Keyword} (hk : Z.Bars whole (.keyword k)) :
    Z.Stays whole (consumeKeyword k) (consumeKeyword k) := consume hk

/-- The next token is taken, of which there is one. -/
theorem advance {P : List Token → Prop} (hne : ¬ ahead [])
    (h : ∀ t ts, ahead (t :: ts) → P ts) :
    Z.Leaves whole ahead advance advance fun _ => P := by
  intro scope s a r ha hrun
  rcases hs : s.rest with _ | ⟨t, rest⟩
  · exact absurd (hs ▸ ha) hne
  · rw [advance_run hs] at hrun
    cases hrun
    refine ⟨List.suffix_cons t rest, h t rest (hs ▸ ha), fun _ s' hs' => ?_⟩
    obtain ⟨hrest, hfollowed⟩ := followedBy_advanced hs' hs
    exact ⟨_, advance_run hrest scope, hfollowed⟩

/-- The token that was seen is taken. -/
theorem takeSeen {P : List Token → Prop} (h : ∀ t ts, ahead (t :: ts) → P ts) :
    Z.Leaves whole (fun ts => ts.head? = some t ∧ ahead ts) (Functor.discard Parser.advance)
      (Functor.discard Parser.advance) fun _ => P :=
  (advance (by simp) fun _ _ ha => h _ _ ha.2).discard

end Taking

end Leaves

namespace Takes

theorem bind {k k' : α → Parser β} (hp : Z.Takes whole ahead p p' fact)
    (hk : ∀ a, Z.Leaves whole (fact a) (k a) (k' a) fact') :
    Z.Takes whole ahead (p >>= k) (p' >>= k') fact' where
  leaves := hp.leaves.bind hk
  ne_nil ha hrun := by
    obtain ⟨a, m, hm, -⟩ := exists_of_bind hrun
    exact hp.ne_nil ha hm

theorem discard {P : List Token → Prop} (hp : Z.Takes whole ahead p p' fun _ => P) :
    Z.Takes whole ahead (discard p) (discard p') fun _ => P := by
  show Z.Takes whole ahead (p >>= fun _ => Pure.pure ()) (p' >>= fun _ => Pure.pure ()) _
  exact hp.bind fun _ => .answer ()

theorem after (h : ∀ ts, ahead' ts → ahead ts) (hp : Z.Takes whole ahead p p' fact) :
    Z.Takes whole ahead' p p' fact where
  leaves := hp.leaves.after h
  ne_nil ha := hp.ne_nil (h _ ha)

theorem seen (hp : Z.Takes whole Law.anything p p' fact) : Z.Takes whole ahead p p' fact :=
  hp.after fun _ _ => trivial

theorem within (context : Context) (h : Z.Takes whole ahead p p' fact) :
    Z.Takes whole ahead (within context p) (within context p') fact where
  leaves := h.leaves.within context
  ne_nil ha hrun := h.ne_nil ha hrun

theorem deeper (h : Z.Takes whole ahead p p' fact) :
    Z.Takes whole ahead (deeper p) (deeper p') fact where
  leaves := h.leaves.deeper
  ne_nil {scope s a r} ha hrun := by
    rw [deeper_run] at hrun
    split at hrun
    · cases hrun
    split at hrun
    · cases hrun
    exact h.ne_nil (s := { s with deepest := max s.deepest (scope.depth + 1) }) ha hrun

/-- A parser that fails in any case. -/
theorem never (h : ∀ scope s a r, p scope s ≠ .ok a r) : Z.Takes whole ahead p p' fact where
  leaves := .never h
  ne_nil _ hrun := absurd hrun (h _ _ _ _)

theorem unexpected_ne (what : String) (scope : Scope) (s : Progress) (a : α) (r : Progress) :
    (Parser.unexpected what : Parser α) scope s ≠ .ok a r := by
  obtain ⟨_ | ⟨t, rest⟩⟩ := s <;> nofun

theorem unexpected (what : String) : Z.Takes whole ahead (unexpected what) p' fact :=
  never (unexpected_ne what)

section Needs

variable {k k' : Option Token → Parser β} {P : List Token → Prop}
  (hnone : ∀ scope s b r, k none scope s ≠ .ok b r) (hP : ∀ t ts, ahead (t :: ts) → P ts)
  (hsome : ∀ t, Z.Leaves whole P (k (some t)) (k' (some t)) fact')

include hnone hP hsome

/-- A parser that needs a token which passes the test. -/
theorem takeIf? {test : Token → Bool} :
    Z.Takes whole ahead (takeIf? test >>= k) (takeIf? test >>= k') fact' := by
  unfold Parser.takeIf?
  rw [bind_assoc, bind_assoc]
  refine Leaves.current (fun scope s b r => ?_) fun t => ?_
  · rw [pure_bind]
    exact hnone scope s b r
  · dsimp only
    split
    · refine (Leaves.advance (P := P) (by simp) fun u ts h => hP u ts h.2).bind fun o => ?_
      rcases o with _ | u
      · exact .never hnone
      · exact hsome u
    · rw [pure_bind]
      exact .never hnone

theorem advance :
    Z.Takes whole ahead (advance >>= k) (advance >>= k') fact' := by
  have hadvance : Parser.advance = Parser.takeIf? fun _ => true := by
    funext scope s
    obtain ⟨_ | ⟨t, rest⟩⟩ := s <;> rfl
  rw [hadvance]
  exact takeIf? hnone hP hsome

end Needs

theorem expectWhere {P : List Token → Prop} (hP : ∀ t ts, ahead (t :: ts) → P ts)
    (kind : TokenKind) (what : String) :
    Z.Takes whole ahead (expect kind what) (expect kind what) fun _ => P :=
  takeIf? (unexpected_ne what) hP fun t => .answer t

theorem expect (kind : TokenKind) (what : String) :
    Z.Takes whole ahead (expect kind what) (expect kind what) fun _ => Law.anything :=
  expectWhere (fun _ _ _ => trivial) kind what

theorem expectKeyword (k : Keyword) :
    Z.Takes whole ahead (expectKeyword k) (expectKeyword k) fun _ => Law.anything :=
  expect _ _

theorem expectWord (test : Token → Bool) (what : String) :
    Z.Takes whole ahead (expectWord test what) (expectWord test what) fun _ => Law.anything := by
  refine Leaves.current (unexpected_ne what) fun t => ?_
  show Z.Leaves whole _ (if test t then _ else _) (if test t then _ else _) _
  split
  · have hquotes : Z.Leaves whole (fun ts => ts.head? = some t ∧ ahead ts) (checkQuotes t)
        (checkQuotes t) fun _ ts => ts.head? = some t ∧ ahead ts :=
      .askIf (c := fun c => c.strictAnsi && t.kind == .quotedIdentifier &&
        t.text.toList.head? != some '"') (.fail _) (.answer ())
    exact hquotes.bind fun _ => (Leaves.takeSeen fun _ _ _ => trivial).bind fun _ => .answer t
  · exact .unexpected what

theorem expectName (what : String) :
    Z.Takes whole ahead (expectName what) (expectName what) fun _ => Law.anything :=
  expectWord _ what

theorem expectNamePart (what : String) :
    Z.Takes whole ahead (expectNamePart what) (expectNamePart what) fun _ => Law.anything :=
  expectWord _ what

end Takes

namespace Leaves

/-! ## Items -/

section Items

variable {item item' : Parser Tree} {next next' : Parser (Option Tree)}

/-- No tokens come back. -/
theorem keep {P : List Token → Prop} (hp : Z.Leaves whole ahead p p' fact)
    (hP : ∀ {ts us : List Token}, us <:+ ts → P ts → P us) :
    Z.Leaves whole (fun ts => ahead ts ∧ P ts) p p' fun _ => P := by
  rintro scope s a r ⟨ha, ht⟩ hrun
  obtain ⟨hsuffix, -, hsame⟩ := hp scope s a r ha hrun
  exact ⟨hsuffix, hP hsuffix ht, hsame⟩

/-- Where fewer tokens than some number are ahead, fewer are left. -/
theorem short (hp : Z.Leaves whole ahead p p' fact) (n : Nat) :
    Z.Leaves whole (fun ts => ahead ts ∧ ts.length < n) p p' fun _ ts => ts.length < n :=
  hp.keep fun hsuffix hn => Nat.lt_of_le_of_lt hsuffix.length_le hn

theorem upTo (hp : Z.Stays whole p p') (n : Nat) :
    Z.Leaves whole (·.length ≤ n) p p' fun _ ts => ts.length ≤ n :=
  (hp.keep fun hsuffix hn => Nat.le_trans hsuffix.length_le hn).after fun _ hn => ⟨trivial, hn⟩

theorem attachWhile
    (h : ∀ n, Z.Leaves whole (·.length ≤ n) next next' fun o ts => o.isSome → ts.length < n)
    (t : Tree) : Z.Stays whole (attachWhile next t) (attachWhile next' t) := by
  refine iterate (fun n parent => ?_) t
  refine ((h n).after fun _ h => h.2).bind fun o => ?_
  rcases o with _ | u
  · exact pure fun _ _ => ⟨trivial, nofun⟩
  · exact (attach parent u).bind fun _ => pure fun _ hless => ⟨trivial, fun _ => hless rfl⟩

theorem afterComma? (hcomma : Z.Bars whole .comma) (h : Z.Stays whole item item') (n : Nat) :
    Z.Leaves whole (·.length ≤ n) (afterComma? item) (afterComma? item') fun o ts =>
      o.isSome → ts.length < n := by
  refine (consume_short hcomma n).bind fun b => ?_
  cases b
  · exact pure fun _ _ => nofun
  · refine ((h.short n).after fun _ hless => ⟨trivial, hless rfl⟩).bind fun _ => ?_
    exact pure fun _ hless _ => hless

theorem attachList (hcomma : Z.Bars whole .comma) (h : Z.Stays whole item item') (t : Tree) :
    Z.Stays whole (attachList item t) (attachList item' t) :=
  h.bind fun u => (attach t u).bind fun t => attachWhile (afterComma? hcomma h) t

theorem attachIf (condition : Bool) (h : Z.Stays whole item item') (t : Tree) :
    Z.Stays whole (attachIf condition item t) (attachIf condition item' t) := by
  unfold Parser.attachIf
  split
  · exact h.bind fun u => attach t u
  · exact answer t

end Items

end Leaves

/-- The sequel is no part of what the productions that occur inside one another do. A query looks
for more than an expression does, so only a closing parenthesis keeps it from going on. -/
structure Serves (Z : Sequel) (inner inner' : Nested) : Prop where
  expression : ∀ {whole : Prop} (power : Nat), Z.Takes whole Law.anything (inner.expression power)
    (inner'.expression power) fun _ => Law.anything
  query : ∀ {whole : Prop}, (whole → Z.Closes) → Z.Takes whole Law.anything inner.query
    inner'.query fun _ => Law.anything
  joinTree : ∀ {whole : Prop}, (whole → Z.Closes) → Z.Takes whole Law.anything inner.joinTree
    inner'.joinTree fun _ => Law.anything

end Sequel

end SqlSyntax
