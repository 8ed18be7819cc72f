import SqlSyntax.Proofs.Grammar.Schema

/-!
# What every run keeps

A law says what holds of the detached trees and the progress at each point of a run, and how the
run may fail. If the single steps keep a law (`Law.Allows`), and the productions that occur inside
one another keep it (`Law.Serves`), then every production that is put together from steps keeps it
(`Built.keeps`): the induction over the grammar is done once, for all laws.
-/

namespace SqlSyntax

open SqlSyntax.Parser

/-- What a level that is not allowed fails with. -/
def Scope.refusal (scope : Scope) (cause : Cause) (s : Progress) : Failure :=
  let stop := Location.atOffset scope.source scope.source.byteSize
  match s.rest.head? with
  | some t => .error (.atToken cause t)
  | none => .error ⟨cause, stop, ⟨stop.offset, stop.offset⟩, none⟩

theorem Parser.read_run {α : Type} (k : Scope → Parser α) (scope : Scope) (s : Progress) :
    (read >>= k) scope s = k scope scope s := rfl

theorem Parser.get_run {α : Type} (k : Progress → Parser α) (scope : Scope) (s : Progress) :
    (get >>= k) scope s = k s scope s := rfl

theorem Parser.deeper_run {α : Type} (p : Parser α) (scope : Scope) (s : Progress) :
    deeper p scope s =
      if scope.config.depthLimit ≤ scope.depth then
        .error (scope.refusal (.depthExceeded scope.config.depthLimit) s) s
      else if scope.config.exceedsStack (scope.stack s.taken scope.depth) then
        .error (scope.refusal (.stackExhausted scope.config.stackBudget scope.depth) s) s
      else p { scope with depth := scope.depth + 1 }
        { s with deepest := max s.deepest (scope.depth + 1) } := by
  unfold deeper
  rw [read_run, get_run]
  dsimp only
  by_cases hlimit : scope.config.depthLimit ≤ scope.depth
  · rw [if_pos hlimit, if_pos hlimit]
    rcases s with ⟨_ | ⟨t, rest⟩⟩ <;> rfl
  · rw [if_neg hlimit, if_neg hlimit]
    by_cases hstack : scope.config.exceedsStack (scope.stack s.taken scope.depth)
    · rw [if_pos hstack, if_pos hstack]
      rcases s with ⟨_ | ⟨t, rest⟩⟩ <;> rfl
    · rw [if_neg hstack, if_neg hstack]
      rfl

/-- What holds at each point of the runs over a source, and how they may fail. -/
structure Law where
  source : Source
  config : Config
  /-- The law at a point where these trees are detached. -/
  Holds : List Tree → Progress → Prop
  /-- How a run may fail with these tokens ahead. -/
  Fair : Failure → List Token → Prop

namespace Law

variable {L : Law} {α β : Type}

/-- The law after a run: it holds of the trees of the answer, and after a failure of some trees. In
both cases the other trees are still there. -/
def Outcome (L : Law) (post : α → List Tree) (fact : α → List Token → Prop) (others : List Tree) :
    EStateM.Result Failure Progress α → Prop
  | .ok a s => fact a s.rest ∧ L.Holds (post a ++ others) s
  | .error f s => L.Fair f s.rest ∧ ∃ left, L.Holds (left ++ others) s

/-- Where the law holds, and the tokens ahead are as required, it holds after the parser, whose
answer and the tokens then ahead are as told. -/
def Keeps (L : Law) (ahead : List Token → Prop) (pre : List Tree) (p : Parser α)
    (post : α → List Tree) (fact : α → List Token → Prop) : Prop :=
  ∀ (scope : Scope) (others : List Tree) (s : Progress), scope.source = L.source →
    scope.config = L.config → ahead s.rest → L.Holds (pre ++ others) s →
    L.Outcome post fact others (p scope s)

/-- Whatever tokens are ahead. -/
def anything (_ : List Token) : Prop := True

/-- The single steps keep the law. -/
structure Allows (L : Law) (T : Terms) : Prop where
  config : T.config = L.config
  perm : ∀ {ts us s}, ts.Perm us → L.Holds ts s → L.Holds us s
  known : ∀ {ts s}, L.Holds ts s → ∀ t ∈ s.rest, T.known t
  advanced : ∀ {ts s t rest}, s.rest = t :: rest → L.Holds ts s →
    L.Holds ts { s with rest, taken := s.taken + 1, lastEnd := t.span.stop }
  deepened : ∀ {ts s n}, L.Holds ts s → L.Holds ts { s with deepest := n }
  fairAt : ∀ {t cause r}, cause.kind ≠ .invalid → T.known t → L.Fair (.error (.atToken cause t)) r
  fairEnd : ∀ {cause}, cause.kind ≠ .invalid →
    let stop := Location.atOffset L.source L.source.byteSize
    L.Fair (.error ⟨cause, stop, ⟨stop.offset, stop.offset⟩, none⟩) []
  nodeAt : ∀ {ahead t} kind, T.known t →
    L.Keeps ahead [] (nodeAt kind t) one fun u r => u.Fresh kind t.span.start ∧ ahead r
  nodeOver : ∀ {ahead} kind first,
    L.Keeps ahead [first] (nodeOver kind first) (fun t => [first, t]) fun u r =>
      u.Fresh kind first.head.span.start ∧ ahead r
  amend : ∀ {ahead t change}, (∀ n, (change n).Kept n) →
    (T.free t ∨ ∀ n, (change n).operator = n.operator) →
    L.Keeps ahead [t] (amend t change) one fun u r => u = t.mapHead change ∧ ahead r
  attach : ∀ {ahead parent} child, T.free parent →
    L.Keeps ahead [child, parent] (attach parent child) one fun u r =>
      u = parent.append [child] ∧ ahead r
  prepend : ∀ {ahead parent} child, T.free parent →
    L.Keeps ahead [child, parent] (prepend parent child) one fun u r =>
      u = parent.prepend child ∧ ahead r
  inscribe : ∀ {pre base tokens change} {fact : Tree → Prop}, (∀ t ∈ tokens, T.known t) →
    Inscribes tokens.length change → L.Keeps anything pre base one (fun t _ => fact t) →
    (∀ t, fact t → T.writable t) →
    L.Keeps anything pre (inscribe tokens base change) one fun u _ =>
      ∃ t, fact t ∧ u.head.Alike t.head
  inscribeType : ∀ {pre base} {fact : Tree → Prop},
    L.Keeps anything [] typeName silent (fun _ _ => True) →
    L.Keeps anything pre base one (fun t _ => fact t) →
    (∀ t, fact t → t.head.Blank ∧ t.kind.namesType) →
    L.Keeps anything pre (inscribeType base) (fun r => one r.1) fun r _ =>
      ∃ t, fact t ∧ r.1.head.Alike t.head

/-- The productions that occur inside one another keep the law, and expressions end as told. -/
structure Serves (L : Law) (ends : Nat → Tree → List Token → Prop) (inner : Nested) : Prop where
  expression : ∀ power, L.Keeps anything [] (inner.expression power) one (ends power)
  query : L.Keeps anything [] inner.query one fun _ _ => True
  joinTree : L.Keeps anything [] inner.joinTree one fun _ _ => True
  statement : L.Keeps anything [] inner.statement one fun _ _ => True

/-- The law is kept by a change of the root of a tree. -/
def Amends (L : Law) (change : Node → Node) : Prop :=
  (∀ n, (change n).Alike n) ∧ ∀ t, L.Keeps anything [t] (amend t change) one fun u r =>
    u = t.mapHead change ∧ anything r

namespace Keeps

variable {ahead : List Token → Prop} {pre : List Tree} {p : Parser α} {post : α → List Tree}
  {fact : α → List Token → Prop}

theorem pure (post : α → List Tree) {a : α} (h : ∀ r, ahead r → fact a r) :
    L.Keeps ahead (post a) (pure a) post fact :=
  fun _ _ _ _ _ ha hs => ⟨h _ ha, hs⟩

theorem bind {mid : α → List Tree} {k : α → Parser β} {post : β → List Tree}
    {fact' : β → List Token → Prop} (hp : L.Keeps ahead pre p mid fact)
    (hk : ∀ a, L.Keeps (fact a) (mid a) (k a) post fact') :
    L.Keeps ahead pre (p >>= k) post fact' := by
  intro scope others s hsource hconfig ha hs
  have h := hp scope others s hsource hconfig ha hs
  show L.Outcome post fact' others (EStateM.bind (p scope) (fun a => k a scope) s)
  unfold EStateM.bind
  cases hrun : p scope s with
  | ok a s' =>
    rw [hrun] at h
    exact hk a scope others s' hsource hconfig h.1 h.2
  | error f s' =>
    rw [hrun] at h
    exact h

theorem frame (others : List Tree) (hp : L.Keeps ahead pre p post fact) :
    L.Keeps ahead (pre ++ others) p (fun a => post a ++ others) fact := by
  intro scope more s hsource hconfig ha hs
  rw [List.append_assoc] at hs
  have h := hp scope (others ++ more) s hsource hconfig ha hs
  cases hrun : p scope s with
  | ok a s' =>
    rw [hrun] at h
    refine ⟨h.1, ?_⟩
    rw [List.append_assoc]
    exact h.2
  | error f s' =>
    rw [hrun] at h
    obtain ⟨hf, left, hleft⟩ := h
    refine ⟨hf, left ++ others, ?_⟩
    rw [List.append_assoc]
    exact hleft

theorem relax {pre' : List Tree} {post' : α → List Tree} {fact' : α → List Token → Prop}
    {ahead' : List Token → Prop} (hperm : ∀ {ts us s}, ts.Perm us → L.Holds ts s → L.Holds us s)
    (hp : L.Keeps ahead pre p post fact) (hahead : ∀ r, ahead' r → ahead r)
    (hpre : pre'.Perm pre) (hpost : ∀ a r, fact a r → (post a).Perm (post' a))
    (hfact : ∀ a r, fact a r → fact' a r) : L.Keeps ahead' pre' p post' fact' := by
  intro scope others s hsource hconfig ha hs
  have h := hp scope others s hsource hconfig (hahead _ ha) (hperm (hpre.append_right others) hs)
  cases hrun : p scope s with
  | ok a s' =>
    rw [hrun] at h
    exact ⟨hfact a _ h.1, hperm ((hpost a _ h.1).append_right others) h.2⟩
  | error f s' =>
    rw [hrun] at h
    exact h

/-- What is known beside the law, as the tokens ahead tell. -/
theorem given {φ : Prop} {ahead' : List Token → Prop} (hφ : ∀ r, ahead r → φ ∧ ahead' r)
    (h : φ → L.Keeps ahead' pre p post fact) : L.Keeps ahead pre p post fact :=
  fun scope others s hsource hconfig ha hs =>
    h (hφ _ ha).1 scope others s hsource hconfig (hφ _ ha).2 hs

theorem whichever {ι : Type} {ahead : ι → List Token → Prop}
    (h : ∀ i, L.Keeps (ahead i) pre p post fact) :
    L.Keeps (fun r => ∃ i, ahead i r) pre p post fact :=
  fun scope others s hsource hconfig ⟨i, ha⟩ hs => h i scope others s hsource hconfig ha hs

theorem weaken {fact' : α → List Token → Prop} (hp : L.Keeps ahead pre p post fact)
    (hfact : ∀ a r, fact a r → fact' a r) : L.Keeps ahead pre p post fact' := by
  intro scope others s hsource hconfig ha hs
  have h := hp scope others s hsource hconfig ha hs
  cases hrun : p scope s with
  | ok a s' =>
    rw [hrun] at h
    exact ⟨hfact a _ h.1, h.2⟩
  | error f s' =>
    rw [hrun] at h
    exact h

theorem ask {k : Config → Parser α} (h : L.Keeps ahead pre (k L.config) post fact) :
    L.Keeps ahead pre (do k (← read).config) post fact := by
  intro scope others s hsource hconfig ha hs
  show L.Outcome post fact others (k scope.config scope s)
  rw [hconfig]
  exact h scope others s hsource hconfig ha hs

theorem askIf {c : Config → Bool} {q : Parser α} (hp : L.Keeps ahead pre p post fact)
    (hq : L.Keeps ahead pre q post fact) :
    L.Keeps ahead pre (do if c (← read).config then p else q) post fact := by
  refine ask (k := fun config => if c config then p else q) ?_
  split
  · exact hp
  · exact hq

theorem within (context : Context) (h : L.Keeps ahead pre p post fact) :
    L.Keeps ahead pre (within context p) post fact :=
  fun scope others s hsource hconfig ha hs =>
    h { scope with context := some context } others s hsource hconfig ha hs

theorem iterate {step : α → Parser (Option α)} {fact : α → Prop} {a : α}
    (holds : α → List Tree)
    (h : ∀ a, fact a → L.Keeps anything (holds a) (step a) (fun o => holds (o.getD a))
      fun o _ => ∀ b ∈ o, fact b) (ha : fact a) :
    L.Keeps anything (holds a) (iterate step a) holds fun a _ => fact a := by
  have hover : ∀ (ts : List Token) (a : α), fact a →
      L.Keeps anything (holds a) (iterateOver step ts a) holds fun a _ => fact a := by
    intro ts
    induction ts with
    | nil =>
      intro a ha
      refine (h a ha).bind fun o => ?_
      rcases o with _ | b
      · exact pure holds fun _ _ => ha
      · exact pure holds fun _ hb => hb b rfl
    | cons t ts ih =>
      intro a ha
      refine (h a ha).bind fun o => ?_
      rcases o with _ | b
      · exact pure holds fun _ _ => ha
      · intro scope others s hsource hconfig hb hs
        exact ih b (hb b rfl) scope others s hsource hconfig trivial hs
  intro scope others s hsource hconfig _ hs
  exact hover s.rest a ha scope others s hsource hconfig trivial hs

/-- A step of a production that has other trees besides. -/
theorem step {live : List Tree} {k : α → Parser β} {post' : β → List Tree}
    {fact' : β → List Token → Prop} (hp : L.Keeps ahead pre p post fact)
    (hk : ∀ a, L.Keeps (fact a) (post a ++ live) (k a) post' fact') :
    L.Keeps ahead (pre ++ live) (p >>= k) post' fact' :=
  (hp.frame live).bind hk

theorem read {live : List Tree} {k : α → Parser β} {post' : β → List Tree}
    {fact' : β → List Token → Prop} (hp : L.Keeps ahead [] p silent fact)
    (hk : ∀ a, L.Keeps (fact a) live (k a) post' fact') :
    L.Keeps ahead live (p >>= k) post' fact' :=
  hp.step hk

theorem make {p : Parser Tree} {fact : Tree → List Token → Prop} {live : List Tree}
    {k : Tree → Parser β} {post' : β → List Tree} {fact' : β → List Token → Prop}
    (hp : L.Keeps ahead [] p one fact)
    (hk : ∀ t, L.Keeps (fact t) (t :: live) (k t) post' fact') :
    L.Keeps ahead live (p >>= k) post' fact' :=
  hp.step hk

theorem grow {t : Tree} {p : Parser Tree} {fact : Tree → List Token → Prop} {live : List Tree}
    {k : Tree → Parser β} {post' : β → List Tree} {fact' : β → List Token → Prop}
    (hp : L.Keeps ahead [t] p one fact)
    (hk : ∀ t, L.Keeps (fact t) (t :: live) (k t) post' fact') :
    L.Keeps ahead (t :: live) (p >>= k) post' fact' :=
  hp.step hk

theorem join {t u : Tree} {p : Parser Tree} {fact : Tree → List Token → Prop} {live : List Tree}
    {k : Tree → Parser β} {post' : β → List Tree} {fact' : β → List Token → Prop}
    (hp : L.Keeps ahead [u, t] p one fact)
    (hk : ∀ t, L.Keeps (fact t) (t :: live) (k t) post' fact') :
    L.Keeps ahead (u :: t :: live) (p >>= k) post' fact' :=
  hp.step hk

theorem cover {first : Tree} {p : Parser Tree} {fact : Tree → List Token → Prop}
    {live : List Tree} {k : Tree → Parser β} {post' : β → List Tree}
    {fact' : β → List Token → Prop} (hp : L.Keeps ahead [first] p (fun t => [first, t]) fact)
    (hk : ∀ t, L.Keeps (fact t) (first :: t :: live) (k t) post' fact') :
    L.Keeps ahead (first :: live) (p >>= k) post' fact' :=
  hp.step hk

theorem discard {after : List Token → Prop} (hp : L.Keeps ahead [] p silent fact)
    (h : ∀ a r, fact a r → after r) : L.Keeps ahead [] (discard p) silent fun _ => after := by
  show L.Keeps ahead [] (p >>= fun _ => Pure.pure ()) silent fun _ => after
  exact hp.bind fun a => pure silent (h a)

theorem tokenTexts : ∀ {tokens : List Token},
    (∀ t ∈ tokens, L.Keeps ahead [] (tokenText t) silent fun _ => ahead) →
      L.Keeps ahead [] (SqlSyntax.tokenTexts tokens) silent fun _ => ahead
  | [], _ => by
    unfold SqlSyntax.tokenTexts
    rw [List.mapM_nil]
    exact pure silent fun _ h => h
  | t :: tokens, h => by
    obtain ⟨ht, htokens⟩ := List.forall_mem_cons.1 h
    unfold SqlSyntax.tokenTexts
    rw [List.mapM_cons]
    refine ht.read fun text => (tokenTexts htokens).read fun texts => ?_
    exact pure silent fun _ h => h

theorem amendMade {change : Node → Node} {made : Tree → Prop} {t : Tree} (h : L.Amends change) :
    L.Keeps (fun _ => made t) [t] (amend t change) one fun u _ =>
      ∃ t, made t ∧ u.head.Alike t.head := by
  refine .given (fun _ ht => ⟨ht, trivial⟩) fun ht => (h.2 t).weaken fun u _ hu => ⟨t, ht, ?_⟩
  exact hu.1 ▸ t.alike_mapHead h.1

/-- A law that is kept by texts of tokens and by changes of roots is kept where these meet. -/
theorem inscribe {base : Parser Tree} {made : Tree → Prop} {tokens : List Token}
    {change : List Text → Node → Node}
    (htext : ∀ t ∈ tokens, L.Keeps anything [] (tokenText t) silent fun _ => anything)
    (hbase : L.Keeps anything pre base one fun t _ => made t)
    (hchange : ∀ texts, L.Amends (change texts)) :
    L.Keeps anything pre (Parser.inscribe tokens base change) one fun u _ =>
      ∃ t, made t ∧ u.head.Alike t.head :=
  (tokenTexts htext).read fun texts => hbase.bind fun _ => amendMade (hchange texts)

theorem inscribeType {base : Parser Tree} {made : Tree → Prop}
    (hname : L.Keeps anything [] typeName silent fun _ _ => True)
    (hbase : L.Keeps anything pre base one fun t _ => made t)
    (hchange : ∀ text dataType, L.Amends fun n => { n with text, dataType }) :
    L.Keeps anything pre (Parser.inscribeType base) (fun r => one r.1) fun r _ =>
      ∃ t, made t ∧ r.1.head.Alike t.head := by
  refine hname.read fun r => hbase.bind fun _ => ?_
  exact (amendMade (hchange r.1 (some r.2))).bind fun _ _ _ _ _ _ hmade hs => ⟨hmade, hs⟩

end Keeps

namespace Allows

variable {T : Terms} {ahead : List Token → Prop} {pre : List Tree} {post : α → List Tree}
  {fact : α → List Token → Prop}

theorem fail (hL : L.Allows T) {t : Token} {cause : Cause} (hc : cause.kind = .syntaxError)
    (h : T.known t) : L.Keeps ahead pre (fail (.atToken cause t)) post fact :=
  fun _ _ _ _ _ _ hs => ⟨hL.fairAt (by rw [hc]; decide) h, pre, hs⟩

theorem unexpected (hL : L.Allows T) (what : String) :
    L.Keeps ahead pre (unexpected what) post fact := by
  intro scope others s hsource _ _ hs
  rcases s with ⟨_ | ⟨t, rest⟩⟩
  · refine ⟨?_, pre, hs⟩
    rw [hsource]
    exact hL.fairEnd nofun
  · exact ⟨hL.fairAt nofun (hL.known hs t List.mem_cons_self), pre, hs⟩

theorem advance (hL : L.Allows T) :
    L.Keeps anything [] advance silent fun o _ => ∀ t ∈ o, T.known t := by
  intro scope others s _ _ _ hs
  rcases s with ⟨_ | ⟨t, rest⟩⟩
  · exact ⟨nofun, hs⟩
  · refine ⟨?_, hL.advanced rfl hs⟩
    rintro _ ⟨⟩
    exact hL.known hs t List.mem_cons_self

/-- The token that is known to come next is taken. -/
theorem take (hL : L.Allows T) {t : Token} {after : List Token → Prop} :
    L.Keeps (fun r => ∃ rest, r = t :: rest ∧ after rest) [] Parser.advance silent fun o r =>
      o = some t ∧ after r := by
  intro scope others s _ _ ha hs
  obtain ⟨r⟩ := s
  obtain ⟨rest, rfl, ha⟩ := ha
  exact ⟨⟨rfl, ha⟩, hL.advanced rfl hs⟩

theorem fairRefusal (hL : L.Allows T) {scope : Scope} {s : Progress} {ts : List Tree}
    {cause : Cause} (hc : cause.kind ≠ .invalid) (hsource : scope.source = L.source)
    (hs : L.Holds ts s) : L.Fair (scope.refusal cause s) s.rest := by
  rcases s with ⟨_ | ⟨t, rest⟩⟩
  · unfold Scope.refusal
    rw [hsource]
    exact hL.fairEnd hc
  · exact hL.fairAt hc (hL.known hs t List.mem_cons_self)

theorem deeper {p : Parser α} (hL : L.Allows T) (h : L.Keeps ahead pre p post fact) :
    L.Keeps ahead pre (deeper p) post fact := by
  intro scope others s hsource hconfig ha hs
  rw [deeper_run]
  split
  · exact ⟨hL.fairRefusal nofun hsource hs, pre, hs⟩
  · split
    · exact ⟨hL.fairRefusal nofun hsource hs, pre, hs⟩
    · exact h _ others _ hsource hconfig ha (hL.deepened hs)

end Allows

end Law

open Law in
/-- What is put together from steps keeps every law that allows them. -/
theorem Built.keeps {T : Terms} {L : Law} {ends : Nat → Tree → List Token → Prop} {α : Type}
    {pre : List Tree} {p : Parser α} {post : α → List Tree} {fact : α → Prop} (hL : L.Allows T)
    (hself : L.Serves ends T.self) (h : Built T pre p post fact) :
    L.Keeps anything pre p post fun a _ => fact a := by
  induction h with
  | done post a h => exact .pure post fun _ _ => h
  | bind _ _ ihp ihk => exact ihp.bind fun a => .given (fun _ h => ⟨h, trivial⟩) (ihk a)
  | frame others _ ih => exact ih.frame others
  | relax _ hpre hpost hfact ih =>
    exact ih.relax hL.perm (fun _ h => h) hpre (fun a _ => hpost a) fun a _ => hfact a
  | look f _ h => exact fun _ _ s _ _ _ hs => ⟨h s.rest s.lastEnd (hL.known hs), hs⟩
  | ask _ _ ih =>
    rw [hL.config] at ih
    exact ih.ask
  | advance => exact hL.advance
  | fail hc h => exact hL.fail hc h
  | unexpected what => exact hL.unexpected what
  | deeper _ ih => exact hL.deeper ih
  | within context _ ih => exact ih.within context
  | nodeAt kind h => exact (hL.nodeAt kind h).weaken fun _ _ h => h.1
  | nodeOver kind first => exact (hL.nodeOver kind first).weaken fun _ _ h => h.1
  | amend hc ht => exact (hL.amend hc ht).weaken fun _ _ h => h.1
  | attach child h => exact (hL.attach child h).weaken fun _ _ h => h.1
  | prepend child h => exact (hL.prepend child h).weaken fun _ _ h => h.1
  | inscribe h hc _ hfact ih => exact hL.inscribe h hc ih hfact
  | inscribeType _ _ hfact ihname ih => exact hL.inscribeType ihname ih hfact
  | iterate holds _ ha ih => exact .iterate holds ih ha
  | expression power => exact (hself.expression power).weaken fun _ _ _ => trivial
  | query => exact hself.query
  | joinTree => exact hself.joinTree
  | statement => exact hself.statement

namespace Law

variable {L : Law} {ends : Nat → Tree → List Token → Prop} {known : Token → Prop}
  {bars : Kind → Bool} {hbars : ∀ k, k.isOperator = false → bars k = false}

theorem Allows.serves_zero (hL : ∀ self, L.Allows ⟨L.config, self, known, bars, hbars⟩) :
    L.Serves ends (Nested.upTo 0) :=
  let hL := hL (Nested.upTo 0)
  ⟨fun _ => hL.unexpected _, hL.unexpected _, hL.unexpected _, hL.unexpected _⟩

/-- If expressions keep a law, then so do all productions, however deep they call one another. -/
theorem Allows.serves (hL : ∀ self, L.Allows ⟨L.config, self, known, bars, hbars⟩)
    (hexpression : ∀ n, L.Serves ends (Nested.upTo n) → ∀ power,
      L.Keeps anything [] (SqlSyntax.expression (Nested.upTo n) power) one (ends power)) :
    ∀ n, L.Serves ends (Nested.upTo n)
  | 0 => Allows.serves_zero hL
  | n + 1 => by
    have ih := Allows.serves hL hexpression n
    rw [Nested.upTo_succ]
    exact {
      expression := hexpression n ih
      query := query_makes.yields.keeps (hL _) ih
      joinTree := joinTree_yields.keeps (hL _) ih
      statement := statement_makes.yields.keeps (hL _) ih }

end Law

end SqlSyntax
