import SqlSyntax.Proofs.Built

/-!
# Steps that productions share

Looking at tokens, taking them, making nodes and filling them with children, each put together from
the steps of `Built`.
-/

namespace SqlSyntax.Built

open SqlSyntax.Parser

variable {T : Terms}

/-- An answer without trees. -/
theorem answer {fact : α → Prop} {a : α} (h : fact a) : T.Reads (pure a) fact := done silent a h

/-- A tree as it is. -/
theorem keep {fact : Tree → Prop} {t : Tree} (h : fact t) : Built T [t] (pure t) one fact :=
  done one t h

/-! ## Tokens -/

theorem current : T.Reads Parser.current fun o => ∀ t ∈ o, T.known t :=
  look (fun ts _ => ts.head?) (fun _ _ _ h _ => h) fun _ _ h t ht => h t (List.mem_of_mem_head? ht)

theorem foundAhead_kindAt (n : Nat) : FoundAhead fun ts _ => ts[n]?.map Token.kind := by
  intro ts us _ _ h
  simp only [← List.getElem?_map, h]

theorem kindAt (n : Nat) : T.Reads (Parser.kindAt n) fun _ => True :=
  look (fun ts _ => ts[n]?.map Token.kind) (foundAhead_kindAt n) fun _ _ _ => trivial

theorem currentKind : T.Reads Parser.currentKind fun _ => True := kindAt 0

theorem atEnd : T.Reads Parser.atEnd fun _ => True :=
  look (fun ts _ => ts.isEmpty) (by rintro (_ | _) (_ | _) _ h - <;> simp at h ⊢)
    fun _ _ _ => trivial

theorem sees (kind : TokenKind) : T.Reads (Parser.sees kind) fun _ => True :=
  look (fun ts _ => ts[0]?.map Token.kind == some kind)
    (fun ts us n h hk => congrArg (· == some kind) (foundAhead_kindAt 0 ts us n h hk))
    fun _ _ _ => trivial

theorem seesKeyword (k : Keyword) : T.Reads (Parser.seesKeyword k) fun _ => True := sees _

theorem seesOneOf (ks : List Keyword) : T.Reads (Parser.seesOneOf ks) fun _ => True := by
  refine current.read fun o _ => ?_
  cases o <;> exact answer trivial

theorem takeIf? (test : Token → Bool) :
    T.Reads (Parser.takeIf? test) fun o => ∀ t ∈ o, T.known t := by
  refine current.read fun o _ => ?_
  rcases o with _ | t
  · exact answer nofun
  · show T.Reads (if test t then Parser.advance else pure none) _
    split
    · exact .advance
    · exact answer nofun

theorem take? (kind : TokenKind) : T.Reads (Parser.take? kind) fun o => ∀ t ∈ o, T.known t :=
  takeIf? _

theorem takeKeyword? (k : Keyword) : T.Reads (Parser.takeKeyword? k) fun o => ∀ t ∈ o, T.known t :=
  take? _

theorem consume (kind : TokenKind) : T.Reads (Parser.consume kind) fun _ => True :=
  (take? kind).read fun _ _ => answer trivial

theorem consumeKeyword (k : Keyword) : T.Reads (Parser.consumeKeyword k) fun _ => True := consume _

theorem expect (kind : TokenKind) (what : String) : T.Reads (Parser.expect kind what) T.known := by
  refine (take? kind).read fun o ho => ?_
  rcases o with _ | t
  · exact .unexpected what
  · exact answer (ho t rfl)

theorem expectKeyword (k : Keyword) : T.Reads (Parser.expectKeyword k) T.known := expect _ _

theorem checkQuotes {t : Token} (h : T.known t) : T.Reads (Parser.checkQuotes t) fun _ => True := by
  refine .askIf (c := fun c => c.strictAnsi && t.kind == .quotedIdentifier &&
    t.text.toList.head? != some '"') (.refuse fun hc => ?_) (fun _ => .fail rfl h)
    fun _ => answer trivial
  simp only [Bool.and_eq_true, and_assoc]
  exact And.imp_left hc.strictAnsi

theorem expectWord (test : Token → Bool) (what : String) :
    T.Reads (Parser.expectWord test what) T.known := by
  refine current.read fun o ho => ?_
  rcases o with _ | t
  · exact .unexpected what
  · have ht := ho t rfl
    show T.Reads (if test t then _ else _) _
    split
    · refine (checkQuotes ht).read fun _ _ => ?_
      exact Built.advance.discard.read fun _ _ => answer ht
    · exact .unexpected what

theorem expectName (what : String) : T.Reads (Parser.expectName what) T.known := expectWord _ what

theorem expectNamePart (what : String) : T.Reads (Parser.expectNamePart what) T.known :=
  expectWord _ what

theorem many {next : Parser (Option Token)} {fact : Token → Prop}
    (h : T.Reads next fun o => ∀ t ∈ o, fact t) :
    T.Reads (Parser.many next) fun ts => ∀ t ∈ ts, fact t := by
  unfold Parser.many
  have hloop : T.Reads (Parser.iterate (fun items => do return (← next).map (· :: items)) [])
      fun ts => ∀ t ∈ ts, fact t := by
    refine .iterate silent (fun items hitems => ?_) nofun
    refine h.read fun o ho => .answer ?_
    rcases o with _ | t
    · exact nofun
    · rintro _ ⟨⟩
      exact List.forall_mem_cons.2 ⟨ho t rfl, hitems⟩
  exact hloop.read fun ts hts => .answer fun t ht => hts t (List.mem_reverse.1 ht)

/-! ## Nodes -/

variable {t : Tree} {p : Parser Tree}

theorem free_of_kind {t u : Tree} (h : T.free t) (hk : u.kind = t.kind) : T.free u := by
  unfold Terms.free at h ⊢
  rwa [hk]

theorem bare_of_kept {t u : Tree} (h : T.bare t) (hu : u.head.Kept t.head) : T.bare u :=
  ⟨free_of_kind h.1 hu.kind, hu.blank h.2⟩

theorem bare_of_fresh {kind : Kind} {start : Nat} (h : t.Fresh kind start)
    (hk : kind.isOperator = false) : T.bare t := by
  refine ⟨?_, h.blank⟩
  rw [Terms.free, h.kind]
  exact T.bars_operators kind hk

theorem bareNode {token : Token} (kind : Kind) (h : T.known token)
    (hk : kind.isOperator = false) : T.Opens (Parser.nodeAt kind token) :=
  (Built.nodeAt kind h).weaken fun _ ht => bare_of_fresh ht hk

theorem node {token : Token} (kind : Kind) (h : T.known token) (hk : kind.isOperator = false) :
    T.Makes (Parser.nodeAt kind token) :=
  (bareNode kind h hk).weaken fun _ ht => ht.1

theorem bareAbove (kind : Kind) (first : Tree) (hk : kind.isOperator = false) :
    Built T [first] (Parser.nodeOver kind first) (fun t => [first, t]) T.bare :=
  (Built.nodeOver kind first).weaken fun _ ht => bare_of_fresh ht hk

theorem nodeAbove (kind : Kind) (first : Tree) (hk : kind.isOperator = false) :
    Built T [first] (Parser.nodeOver kind first) (fun t => [first, t]) T.free :=
  (bareAbove kind first hk).weaken fun _ ht => ht.1

theorem grows (hp : T.Extends t p) (h : T.free t) : T.Grows t p :=
  hp.weaken fun _ hu => free_of_kind h hu.kind

theorem amendKept (t : Tree) {change : Node → Node} (hc : ∀ n, (change n).Kept n)
    (hop : ∀ n, (change n).operator = n.operator) : T.Extends t (Parser.amend t change) :=
  (Built.amend hc (.inr hop)).weaken fun u hu => by
    rw [hu]
    cases t
    exact hc _

theorem amendFree (change : Node → Node) (h : T.free t) (hc : ∀ n, (change n).Kept n) :
    T.Grows t (Parser.amend t change) :=
  (Built.amend hc (.inl h)).weaken fun u hu => free_of_kind h (by
    rw [hu]
    cases t
    exact (hc _).kind)

theorem flagAny (t : Tree) (f : Flag) : T.Extends t (Parser.flag t f) :=
  amendKept t (fun _ => ⟨⟨rfl, rfl, rfl, rfl, rfl⟩, rfl⟩) fun _ => rfl

theorem flag (h : T.free t) (f : Flag) : T.Grows t (Parser.flag t f) := (flagAny t f).grows h

theorem flagIfAny (t : Tree) (condition : Bool) (f : Flag) :
    T.Extends t (Parser.flagIf condition f t) := by
  unfold Parser.flagIf
  split
  · exact flagAny t f
  · exact keep (.refl _)

theorem flagIf (h : T.free t) (condition : Bool) (f : Flag) :
    T.Grows t (Parser.flagIf condition f t) :=
  (flagIfAny t condition f).grows h

theorem finishAny (t : Tree) : T.Extends t (Parser.finish t) := by
  have hlook : T.Reads (do let p ← get; return p.lastEnd) fun _ => True :=
    look (fun _ n => n) (fun _ _ _ _ _ => rfl) fun _ _ _ => trivial
  show T.Extends t ((do let p ← get; return p.lastEnd) >>= fun stop =>
    Parser.amend t fun n => { n with span := n.span.extend stop })
  refine hlook.read fun stop _ => ?_
  exact amendKept t (fun _ => ⟨⟨rfl, rfl, rfl, rfl, rfl⟩, rfl⟩) fun _ => rfl

theorem finish (h : T.free t) : T.Grows t (Parser.finish t) := (finishAny t).grows h

theorem attachAny {parent : Tree} (child : Tree) (h : T.free parent) :
    Built T [child, parent] (Parser.attach parent child) one fun u =>
      u.head.Kept parent.head :=
  (Built.attach child h).weaken fun _ hu => hu ▸ .refl _

theorem attachFree {parent : Tree} (child : Tree) (h : T.free parent) :
    Built T [child, parent] (Parser.attach parent child) one T.free :=
  (attachAny child h).weaken fun _ hu => free_of_kind h hu.kind

theorem prependFree {parent : Tree} (child : Tree) (h : T.free parent) :
    Built T [child, parent] (Parser.prepend parent child) one T.free :=
  (Built.prepend child h).weaken fun _ hu => free_of_kind h (by rw [hu]; rfl)

/-! ## Texts -/

/-- The texts of tokens are written into a tree. -/
theorem inscribeTree {tokens : List Token} {change : List Text → Node → Node}
    (h : T.writable t) (hknown : ∀ token ∈ tokens, T.known token)
    (hc : Inscribes tokens.length change) :
    Built T [t] (Parser.inscribe tokens (pure t) change) one fun u =>
      u.head.Alike t.head := by
  refine (Built.inscribe hknown hc (done one t rfl) fun _ hu => hu ▸ h).weaken ?_
  rintro u ⟨_, rfl, hu⟩
  exact hu

theorem setText {token : Token} (h : T.writable t) (hk : T.known token) :
    Built T [t] (Parser.setText t token) one fun u => u.head.Alike t.head := by
  have heq : Parser.setText t token =
      Parser.inscribe [token] (pure t) fun texts n => { n with text := texts.headD .none } := by
    simp only [Parser.setText, Parser.inscribe, SqlSyntax.tokenTexts, List.mapM_cons,
      List.mapM_nil, bind_assoc, pure_bind, List.headD_cons]
  rw [heq]
  refine inscribeTree h (List.forall_mem_singleton.2 hk) {
    alike := fun _ _ => ⟨rfl, rfl, rfl, rfl, rfl⟩
    operator := fun _ _ => rfl
    texts := ?_ }
  intro texts n hlength
  obtain ⟨text, rfl⟩ := List.length_eq_one_iff.1 hlength
  exact ⟨[n.qualifier, n.schema, n.catalog], [], List.sublist_cons_self _ _, nofun, .refl _⟩

/-- A tree without a text gets one. -/
theorem setBare {token : Token} (h : T.bare t) (hk : T.known token) :
    T.Grows t (Parser.setText t token) :=
  (setText (.inl h.2) hk).weaken fun _ hu => free_of_kind h.1 hu.kind

theorem namedNode {token : Token} (kind : Kind) (h : T.known token)
    (hk : kind.isOperator = false) : T.Makes (Parser.namedNode kind token) :=
  (bareNode kind h hk).make fun _ ht => setBare ht h

/-! ## Repetition -/

theorem attachWhile {next : Parser (Option Tree)} (hnext : Built T [] next perhaps fun _ => True)
    (h : T.free t) : T.Grows t (Parser.attachWhile next t) := by
  refine .iterate one (fun t ht => ?_) h
  refine hnext.step fun o _ => ?_
  rcases o with _ | item
  · exact done (fun o : Option Tree => one (o.getD t)) none nofun
  · refine (attachFree item ht).join fun u hu => ?_
    exact done (fun o : Option Tree => one (o.getD t)) (some u) (by simpa using hu)

theorem afterComma? {item : Parser Tree} (hitem : T.Yields item) :
    Built T [] (Parser.afterComma? item) perhaps fun _ => True := by
  refine (consume .comma).read fun b _ => ?_
  cases b
  · exact done perhaps none trivial
  · exact hitem.make fun u _ => done perhaps (some u) trivial

theorem attachList {item : Parser Tree} (hitem : T.Yields item) (h : T.free t) :
    T.Grows t (Parser.attachList item t) := by
  refine hitem.make fun u _ => ?_
  exact (attachFree u h).join fun t ht => attachWhile (afterComma? hitem) ht

theorem attachIf (condition : Bool) {item : Parser Tree} (hitem : T.Yields item) (h : T.free t) :
    T.Grows t (Parser.attachIf condition item t) := by
  unfold Parser.attachIf
  split
  · exact hitem.make fun u _ => attachFree u h
  · exact keep h

end SqlSyntax.Built
