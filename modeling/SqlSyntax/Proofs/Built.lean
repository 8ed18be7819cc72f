import Mathlib.Data.List.Perm.Basic
import SqlSyntax.Grammar.Statement

/-!
# What productions are made of

Every production is put together from few kinds of steps: it looks at the tokens ahead, takes one,
fails, makes a node, changes one, puts one under another, repeats a step, goes a level deeper, or
calls one of the four productions that occur inside one another. `Built` says so of a production,
and with it which detached trees the production is given and which it leaves.

What holds of each kind of step and is carried along from step to step holds of every production,
by induction on `Built`.
-/

namespace SqlSyntax

/-- The kinds of nodes whose children an operator chooses. -/
def Kind.isOperator : Kind → Bool
  | .binaryExpr | .unaryExpr | .inExpr | .betweenExpr | .likeExpr | .isExpr => true
  | _ => false

/-- What the steps of a production may rely on. -/
structure Terms where
  config : Config
  self : Nested
  /-- What is known of each token that is read. -/
  known : Token → Prop
  /-- The kinds of nodes that get no children here. -/
  bars : Kind → Bool
  bars_operators : ∀ k, k.isOperator = false → bars k = false

/-- The tree may get children. -/
def Terms.free (T : Terms) (t : Tree) : Prop := T.bars t.kind = false

/-- The nodes agree in what never changes once a node is made. -/
structure Node.Alike (m n : Node) : Prop where
  kind : m.kind = n.kind
  id : m.id = n.id
  location : m.location = n.location
  start : m.span.start = n.span.start
  context : m.context = n.context

/-! ## Texts of nodes -/

/-- The texts of a node: its own, its qualifier, its schema and its catalog. -/
def Node.texts (n : Node) : List Text := [n.text, n.qualifier, n.schema, n.catalog]

/-- The node holds no text. -/
def Node.Blank (n : Node) : Prop := ∀ text ∈ n.texts, text = .none

/-- The nodes agree in what never changes, and in their texts. -/
structure Node.Kept (m n : Node) : Prop extends Node.Alike m n where
  texts : m.texts = n.texts

namespace Node.Kept

variable {l m n : Node}

theorem refl (n : Node) : n.Kept n := ⟨⟨rfl, rfl, rfl, rfl, rfl⟩, rfl⟩

theorem trans (h : l.Kept m) (h' : m.Kept n) : l.Kept n where
  kind := h.kind.trans h'.kind
  id := h.id.trans h'.id
  location := h.location.trans h'.location
  start := h.start.trans h'.start
  context := h.context.trans h'.context
  texts := h.texts.trans h'.texts

theorem blank (h : m.Kept n) (hn : n.Blank) : m.Blank := by
  unfold Node.Blank
  rw [h.texts]
  exact hn

end Node.Kept

/-- The tree is a new node of a kind, which starts at an offset and holds no text. -/
structure Tree.Fresh (kind : Kind) (start : Nat) (t : Tree) : Prop where
  kind : t.kind = kind
  start : t.head.span.start = start
  blank : t.head.Blank

theorem Tree.Fresh.leaf (kind : Kind) (id : Nat) (context : Option Context) (location : Location)
    (span : Span) : (Tree.leaf { kind, id, context, location, span }).Fresh kind span.start := by
  refine ⟨rfl, rfl, fun text htext => ?_⟩
  simpa [Tree.leaf, Tree.head, Node.texts] using htext

theorem Tree.alike_mapHead {change : Node → Node} (hc : ∀ n, (change n).Alike n) (t : Tree) :
    (t.mapHead change).head.Alike t.head := by
  cases t
  exact hc _

/-- The change writes so many texts into a node: each goes to a place of its own, in some order. A
text that the node holds there is lost, and a place that gets none of them is left empty or as it
was. -/
structure Inscribes (count : Nat) (change : List Text → Node → Node) : Prop where
  alike : ∀ texts n, (change texts n).Alike n
  operator : ∀ texts n, (change texts n).operator = n.operator
  texts : ∀ {texts n}, texts.length = count → ∃ kept empty, kept.Sublist n.texts ∧
    (∀ text ∈ empty, text = Text.none) ∧ (change texts n).texts.Perm (texts ++ kept ++ empty)

/-- The tree may get children, and its root holds no text. -/
def Terms.bare (T : Terms) (t : Tree) : Prop := T.free t ∧ t.head.Blank

/-- Texts are written only into a node without any, but for a collation: it was given the name of
its collation before, and starts with `CONSTRAINT` if it is given a name of its own. -/
def Terms.writable (T : Terms) (t : Tree) : Prop :=
  t.head.Blank ∨ t.kind = .collateConstraint ∧
    ∃ word, T.known word ∧ word.kind = .keyword .CONSTRAINT ∧
      t.head.span.start = word.span.start

/-- Nodes that hold the name of a type as it is written. -/
def Kind.namesType : Kind → Bool
  | .typeName | .castExpr => true
  | _ => false

namespace Parser

/-- Writes the texts of tokens into the tree that a parser answers. -/
def inscribe (tokens : List Token) (base : Parser Tree) (change : List Text → Node → Node) :
    Parser Tree := do
  let texts ← tokenTexts tokens
  let t ← base
  amend t (change texts)

/-- Writes the type that comes next into the tree that a parser answers. -/
def inscribeType (base : Parser Tree) : Parser (Tree × DataType) := do
  let (text, dataType) ← typeName
  let t ← base
  let t ← amend t fun n => { n with text, dataType := some dataType }
  return (t, dataType)

end Parser

/-! ## Steps -/

/-- What is found ahead depends on the next token and on the kinds of those after it. -/
def FoundAhead (f : List Token → Nat → α) : Prop :=
  ∀ ts us n, ts.head? = us.head? → ts.map Token.kind = us.map Token.kind → f ts n = f us n

/-- No detached trees. -/
def silent (_ : α) : List Tree := []

/-- One detached tree. -/
def one (t : Tree) : List Tree := [t]

/-- One detached tree or none. -/
def perhaps (t : Option Tree) : List Tree := t.toList

/-- The second configuration refuses no more than the first, and asks for the same nodes. -/
structure Config.Eases (c c' : Config) : Prop where
  compactTree : c.compactTree = c'.compactTree
  strictAnsi : c'.strictAnsi = true → c.strictAnsi = true
  allowExtensions : c.allowExtensions = true → c'.allowExtensions = true

/-- What is chosen by a configuration depends on its options, and the stricter ones only refuse. -/
structure Config.Chooses (k : Config → Parser α) : Prop where
  same : ∀ {c c'}, c.Eases c' → c'.Eases c → k c = k c'
  eased : ∀ {c c'}, c.Eases c' → k c = k c' ∨ ∃ e, k c = Parser.fail e

namespace Config.Chooses

variable {p q : Parser α} {e : ParseError}

theorem refuse {rule : Config → Bool}
    (h : ∀ {c c' : Config}, c.Eases c' → rule c' = true → rule c = true) :
    Chooses fun c => if rule c then Parser.fail e else q where
  same hc hc' := by
    have hrule : rule _ = rule _ := Bool.eq_iff_iff.2 ⟨h hc', h hc⟩
    simp only [hrule]
  eased {c c'} hc := by
    by_cases hr : rule c = true
    · exact .inr ⟨e, if_pos hr⟩
    · exact .inl (by rw [if_neg hr, if_neg fun hr' => hr (h hc hr')])

theorem allow : Chooses fun c => if c.allowExtensions then p else Parser.fail e where
  same {c c'} hc hc' := by
    have hrule : c.allowExtensions = c'.allowExtensions :=
      Bool.eq_iff_iff.2 ⟨hc.allowExtensions, hc'.allowExtensions⟩
    simp only [hrule]
  eased {c c'} hc := by
    by_cases hr : c.allowExtensions = true
    · exact .inl (by rw [if_pos hr, if_pos (hc.allowExtensions hr)])
    · exact .inr ⟨e, if_neg hr⟩

theorem compact : Chooses fun c => if c.compactTree then p else q where
  same hc _ := by simp only [hc.compactTree]
  eased hc := .inl (by simp only [hc.compactTree])

end Config.Chooses

open SqlSyntax.Parser in
/-- A parser is put together from steps that are allowed. From the detached trees `pre` it comes to
the trees `post a` with the answer `a`, of which `fact a` holds; when it fails, the trees that it
has are left as they are. -/
inductive Built (T : Terms) : {α : Type} → List Tree → Parser α → (α → List Tree) →
    (α → Prop) → Prop
  | done {α : Type} {fact : α → Prop} (post : α → List Tree) (a : α) (h : fact a) :
    Built T (post a) (pure a) post fact
  | bind {α β : Type} {pre : List Tree} {p : Parser α} {mid : α → List Tree} {fact : α → Prop}
    {k : α → Parser β} {post : β → List Tree} {fact' : β → Prop} (hp : Built T pre p mid fact)
    (hk : ∀ a, fact a → Built T (mid a) (k a) post fact') : Built T pre (p >>= k) post fact'
  | frame {α : Type} {pre : List Tree} {p : Parser α} {post : α → List Tree} {fact : α → Prop}
    (others : List Tree) (hp : Built T pre p post fact) :
    Built T (pre ++ others) p (fun a => post a ++ others) fact
  | relax {α : Type} {pre pre' : List Tree} {p : Parser α} {post post' : α → List Tree}
    {fact fact' : α → Prop} (hp : Built T pre p post fact) (hpre : pre'.Perm pre)
    (hpost : ∀ a, fact a → (post a).Perm (post' a)) (hfact : ∀ a, fact a → fact' a) :
    Built T pre' p post' fact'
  | look {α : Type} {fact : α → Prop} (f : List Token → Nat → α) (hf : FoundAhead f)
    (h : ∀ ts n, (∀ t ∈ ts, T.known t) → fact (f ts n)) :
    Built T [] (do let p ← get; return f p.rest p.lastEnd) silent fact
  | ask {α : Type} {pre : List Tree} {k : Config → Parser α} {post : α → List Tree}
    {fact : α → Prop} (hk : Config.Chooses k) (h : Built T pre (k T.config) post fact) :
    Built T pre (do k (← read).config) post fact
  | advance : Built T [] advance silent (fun o => ∀ t ∈ o, T.known t)
  | fail {α : Type} {pre : List Tree} {post : α → List Tree} {fact : α → Prop} {t : Token}
    {cause : Cause} (hc : cause.kind = .syntaxError) (h : T.known t) :
    Built T pre (fail (.atToken cause t)) post fact
  | unexpected {α : Type} {pre : List Tree} {post : α → List Tree} {fact : α → Prop}
    (what : String) : Built T pre (unexpected what) post fact
  | deeper {α : Type} {pre : List Tree} {p : Parser α} {post : α → List Tree} {fact : α → Prop}
    (h : Built T pre p post fact) : Built T pre (deeper p) post fact
  | within {α : Type} {pre : List Tree} {p : Parser α} {post : α → List Tree} {fact : α → Prop}
    (context : Context) (h : Built T pre p post fact) : Built T pre (within context p) post fact
  | nodeAt {t : Token} (kind : Kind) (h : T.known t) :
    Built T [] (nodeAt kind t) one (Tree.Fresh kind t.span.start)
  | nodeOver (kind : Kind) (first : Tree) :
    Built T [first] (nodeOver kind first) (fun t => [first, t])
      (Tree.Fresh kind first.head.span.start)
  | amend {t : Tree} {change : Node → Node} (hc : ∀ n, (change n).Kept n)
    (ht : T.free t ∨ ∀ n, (change n).operator = n.operator) :
    Built T [t] (amend t change) one (· = t.mapHead change)
  | attach {parent : Tree} (child : Tree) (h : T.free parent) :
    Built T [child, parent] (attach parent child) one (· = parent.append [child])
  | prepend {parent : Tree} (child : Tree) (h : T.free parent) :
    Built T [child, parent] (prepend parent child) one (· = parent.prepend child)
  | inscribe {pre : List Tree} {base : Parser Tree} {fact : Tree → Prop} {tokens : List Token}
    {change : List Text → Node → Node} (h : ∀ t ∈ tokens, T.known t)
    (hc : Inscribes tokens.length change) (hbase : Built T pre base one fact)
    (hfact : ∀ t, fact t → T.writable t) :
    Built T pre (inscribe tokens base change) one fun u => ∃ t, fact t ∧ u.head.Alike t.head
  | inscribeType {pre : List Tree} {base : Parser Tree} {fact : Tree → Prop}
    (hname : Built T [] typeName silent fun _ => True) (hbase : Built T pre base one fact)
    (hfact : ∀ t, fact t → t.head.Blank ∧ t.kind.namesType) :
    Built T pre (inscribeType base) (fun r => one r.1)
      fun r => ∃ t, fact t ∧ r.1.head.Alike t.head
  | iterate {α : Type} {fact : α → Prop} {step : α → Parser (Option α)} {a : α}
    (holds : α → List Tree) (h : ∀ a, fact a → Built T (holds a) (step a)
      (fun o => holds (o.getD a)) (fun o => ∀ b ∈ o, fact b)) (ha : fact a) :
    Built T (holds a) (iterate step a) holds fact
  | expression (power : Nat) : Built T [] (T.self.expression power) one (fun _ => True)
  | query : Built T [] T.self.query one (fun _ => True)
  | joinTree : Built T [] T.self.joinTree one (fun _ => True)
  | statement : Built T [] T.self.statement one (fun _ => True)

namespace Terms

/-- A parser that takes tokens and leaves the trees alone. -/
abbrev Reads (T : Terms) (p : Parser α) (fact : α → Prop) : Prop := Built T [] p silent fact

/-- A production that makes a tree which may get more children. -/
abbrev Makes (T : Terms) (p : Parser Tree) : Prop := Built T [] p one T.free

/-- A production that makes a tree whose root holds no text yet. -/
abbrev Opens (T : Terms) (p : Parser Tree) : Prop := Built T [] p one T.bare

/-- A production that makes a tree. -/
abbrev Yields (T : Terms) (p : Parser Tree) : Prop := Built T [] p one fun _ => True

/-- A production that changes a tree and may put others under it. -/
abbrev Grows (T : Terms) (t : Tree) (p : Parser Tree) : Prop := Built T [t] p one T.free

/-- A production that changes a tree and may put others under it, but writes no text into it. -/
abbrev Extends (T : Terms) (t : Tree) (p : Parser Tree) : Prop :=
  Built T [t] p one fun u => u.head.Kept t.head

end Terms

namespace Built

variable {T : Terms} {α β : Type} {p : Parser α} {pre live : List Tree} {post : α → List Tree}
  {fact : α → Prop}

/-- A choice that the configuration makes. -/
theorem askIf {c : Config → Bool} {q : Parser α}
    (hc : Config.Chooses fun config => if c config then p else q)
    (hp : c T.config = true → Built T pre p post fact)
    (hq : c T.config = false → Built T pre q post fact) :
    Built T pre (do if c (← read).config then p else q) post fact := by
  refine .ask hc ?_
  cases hask : c T.config
  · exact hq hask
  · exact hp hask

/-- A step of a production that has other trees besides. -/
theorem step {k : α → Parser β} {post' : β → List Tree} {fact' : β → Prop}
    (hp : Built T pre p post fact)
    (hk : ∀ a, fact a → Built T (post a ++ live) (k a) post' fact') :
    Built T (pre ++ live) (p >>= k) post' fact' :=
  (hp.frame live).bind hk

/-- A step that leaves the trees alone. -/
theorem read {k : α → Parser β} {post' : β → List Tree} {fact' : β → Prop}
    (hp : T.Reads p fact) (hk : ∀ a, fact a → Built T live (k a) post' fact') :
    Built T live (p >>= k) post' fact' :=
  hp.step hk

/-- A step that makes a tree. -/
theorem make {p : Parser Tree} {fact : Tree → Prop} {k : Tree → Parser β} {post' : β → List Tree}
    {fact' : β → Prop} (hp : Built T [] p one fact)
    (hk : ∀ t, fact t → Built T (t :: live) (k t) post' fact') :
    Built T live (p >>= k) post' fact' :=
  hp.step hk

/-- A step that changes the tree that was made last. -/
theorem grow {t : Tree} {p : Parser Tree} {fact : Tree → Prop} {k : Tree → Parser β}
    {post' : β → List Tree} {fact' : β → Prop} (hp : Built T [t] p one fact)
    (hk : ∀ t, fact t → Built T (t :: live) (k t) post' fact') :
    Built T (t :: live) (p >>= k) post' fact' :=
  hp.step hk

/-- A step that makes one tree of the last two. -/
theorem join {t u : Tree} {p : Parser Tree} {fact : Tree → Prop} {k : Tree → Parser β}
    {post' : β → List Tree} {fact' : β → Prop} (hp : Built T [u, t] p one fact)
    (hk : ∀ t, fact t → Built T (t :: live) (k t) post' fact') :
    Built T (u :: t :: live) (p >>= k) post' fact' :=
  hp.step hk

/-- A step that makes a tree over the one that was made last. -/
theorem cover {first : Tree} {p : Parser Tree} {fact : Tree → Prop} {k : Tree → Parser β}
    {post' : β → List Tree} {fact' : β → Prop}
    (hp : Built T [first] p (fun t => [first, t]) fact)
    (hk : ∀ t, fact t → Built T (first :: t :: live) (k t) post' fact') :
    Built T (first :: live) (p >>= k) post' fact' :=
  hp.step hk

theorem weaken {fact' : α → Prop} (hp : Built T pre p post fact)
    (hfact : ∀ a, fact a → fact' a) : Built T pre p post fact' :=
  hp.relax (.refl _) (fun _ _ => .refl _) hfact

/-- The trees may be given in any order. -/
theorem reorder {pre' : List Tree} (hp : Built T pre p post fact) (h : pre'.Perm pre) :
    Built T pre' p post fact :=
  hp.relax h (fun _ _ => .refl _) fun _ h => h

theorem swap {t u : Tree} (hp : Built T (t :: u :: live) p post fact) :
    Built T (u :: t :: live) p post fact :=
  hp.reorder (.swap t u live)

theorem rotate {t u v : Tree} (hp : Built T (t :: u :: v :: live) p post fact) :
    Built T (v :: t :: u :: live) p post fact :=
  hp.reorder ((List.Perm.swap t v _).trans (.cons t (.swap u v _)))

theorem discard (hp : T.Reads p fact) : T.Reads (discard p) fun _ => True := by
  show T.Reads (p >>= fun _ => pure ()) _
  exact bind hp fun _ _ => done silent () trivial

theorem yields {p : Parser Tree} (hp : Built T pre p one T.free) :
    Built T pre p one fun _ => True :=
  hp.weaken fun _ _ => trivial

end Built

end SqlSyntax
