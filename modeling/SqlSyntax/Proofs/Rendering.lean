import SqlSyntax.Proofs.Levels
import SqlSyntax.Proofs.Runs

/-!
# Formulas as they are written

Expressions of operands and plain operators, the symbols that one is written with, and the tree that
it stands for. An operand gets parentheses only where its level asks for them, so a tree says how a
formula was written up to the parentheses that it could have had besides.
-/

namespace SqlSyntax

/-! ## Operators and their tokens -/

namespace BinaryOp

/-- Operators without words of their own for what is around them. -/
def isPlain : BinaryOp → Bool
  | .is | .like | .glob => false
  | _ => true

/-- The token that stands for an operator. -/
def tokenKind : BinaryOp → TokenKind
  | .add => .plus
  | .sub => .minus
  | .mul => .star
  | .div => .slash
  | .mod => .percent
  | .eq => .eq
  | .notEq => .notEq
  | .lt => .lt
  | .ltEq => .ltEq
  | .gt => .gt
  | .gtEq => .gtEq
  | .and => .keyword .AND
  | .or => .keyword .OR
  | .is => .keyword .IS
  | .like => .keyword .LIKE
  | .glob => .keyword .GLOB
  | .concat => .concat
  | .bitAnd => .bitAnd
  | .bitOr => .bitOr
  | .bitXor => .bitXor
  | .leftShift => .leftShift
  | .rightShift => .rightShift

theorem ofToken?_tokenKind (op : BinaryOp) : ofToken? op.tokenKind = some op := by
  cases op <;> rfl

theorem level_lt_primary (op : BinaryOp) : op.level < Power.primary := by
  cases op <;> decide

theorem joining?_tokenKind (op : BinaryOp) (next : Option TokenKind) :
    Power.joining? op.tokenKind next = some (op.level, op.level + 1) := by
  cases op <;> rfl

theorem trailing?_tokenKind (op : BinaryOp) : Power.trailing? op.tokenKind = none := by
  cases op <;> rfl

end BinaryOp

namespace UnaryOp

/-- The token that stands for an operator. -/
def tokenKind : UnaryOp → TokenKind
  | .neg => .minus
  | .plus => .plus
  | .not => .keyword .NOT
  | .bitNot => .bitNot

theorem ofToken?_tokenKind (op : UnaryOp) : ofToken? op.tokenKind = some op := by
  cases op <;> rfl

theorem leading?_tokenKind (op : UnaryOp) : Power.leading? op.tokenKind = some op.level := by
  cases op <;> rfl

end UnaryOp

/-- The operators of plain nodes. -/
abbrev PlainOp := { op : BinaryOp // op.isPlain }

/-! ## Formulas -/

/-- An operand without operators. -/
inductive Leaf where
  | integer (text : String)
  | column (name : String)
  | parameter (text : String)
deriving DecidableEq

namespace Leaf

def kind : Leaf → Kind
  | integer _ => .integerLiteral
  | column _ => .columnRef
  | parameter _ => .parameter

def text : Leaf → String
  | integer text | column text | parameter text => text

end Leaf

inductive Formula where
  | leaf (l : Leaf)
  | unary (op : UnaryOp) (x : Formula)
  | binary (op : PlainOp) (left right : Formula)
deriving DecidableEq

/-- What formulas are written with. -/
inductive Symbol where
  | leaf (l : Leaf)
  | unary (op : UnaryOp)
  | binary (op : PlainOp)
  | opening
  | closing
deriving DecidableEq

namespace Formula

/-- How tightly a formula holds together. -/
def level : Formula → Nat
  | leaf _ => Power.primary
  | unary op _ => op.level
  | binary op _ _ => op.1.level

/-- The power that the operators after a formula must be less than, or else they would take its
last operand. -/
def bound : Formula → Nat
  | leaf _ => Power.primary
  | unary op _ => op.level
  | binary op _ _ => op.1.level + 1

theorem level_le_bound : ∀ e : Formula, e.level ≤ e.bound
  | leaf _ => Nat.le_refl _
  | unary _ _ => Nat.le_refl _
  | binary _ _ _ => Nat.le_succ _

/-- The number of operators. -/
def operators : Formula → Nat
  | leaf _ => 0
  | unary _ x => x.operators + 1
  | binary _ left right => left.operators + right.operators + 1

/-- Symbols with parentheses around them if a condition holds. -/
def enclosedIf (condition : Bool) (symbols : List Symbol) : List Symbol :=
  if condition then .opening :: (symbols ++ [.closing]) else symbols

/-- The symbols of a formula. An operand to the left of an operator has parentheses if its level is
less than that of the operator, one to the right if its level is not greater, and one after a sign
or `NOT` if its level is less. -/
def symbols : Formula → List Symbol
  | leaf l => [.leaf l]
  | unary op x => .unary op :: enclosedIf (x.level < op.level) x.symbols
  | binary op left right =>
    enclosedIf (left.level < op.1.level) left.symbols ++
      .binary op :: enclosedIf (right.level ≤ op.1.level) right.symbols

/-- A node of a select list that was not made at a place. -/
def node (kind : Kind) (operator : Option Operator) (text : Text) : Node :=
  { kind, id := 0, text, operator, context := some .selectList, location := {}, span := {} }

/-- The tree that a formula stands for as a select item. -/
def tree : Formula → Tree
  | leaf l => .leaf (node l.kind none (.copied l.text))
  | unary op x => .node (node .unaryExpr (some (.unary op)) .none) [x.tree]
  | binary op left right =>
    .node (node .binaryExpr (some (.binary op.1)) .none) [left.tree, right.tree]

/-- The statement that selects a formula and nothing else. -/
def selection (e : Formula) : Tree :=
  .node { kind := .selectStmt, id := 0, location := {}, span := {} }
    [.node (node .selectList none .none) [e.tree]]

end Formula

/-- Signs group to the right without parentheses, and a sum on the right of a sum has some. -/
example :
    let one := Formula.leaf (.integer "1")
    let a := Formula.leaf (.column "a")
    (Formula.binary ⟨.add, rfl⟩ one
      (.binary ⟨.sub, rfl⟩ (.unary .neg (.unary .not a)) a)).symbols =
      [.leaf (.integer "1"), .binary ⟨.add, rfl⟩, .opening, .unary .neg, .opening, .unary .not,
        .leaf (.column "a"), .closing, .binary ⟨.sub, rfl⟩, .leaf (.column "a"), .closing] := by
  decide

/-! ## Symbols and tokens -/

/-- The token writes the symbol. -/
def Symbol.Writes : Symbol → Token → Prop
  | leaf (.integer text), t => t.kind = .integer ∧ t.text = text
  | leaf (.column name), t => t.isName ∧ t.content = name
  | leaf (.parameter text), t => t.kind = .parameter ∧ t.text = text
  | unary op, t => t.kind = op.tokenKind
  | binary op, t => t.kind = op.1.tokenKind
  | opening, t => t.kind = .leftParen
  | closing, t => t.kind = .rightParen

instance (symbol : Symbol) (t : Token) : Decidable (symbol.Writes t) :=
  match symbol with
  | .leaf (.integer text) => inferInstanceAs (Decidable (t.kind = .integer ∧ t.text = text))
  | .leaf (.column name) => inferInstanceAs (Decidable (t.isName ∧ t.content = name))
  | .leaf (.parameter text) => inferInstanceAs (Decidable (t.kind = .parameter ∧ t.text = text))
  | .unary op => inferInstanceAs (Decidable (t.kind = op.tokenKind))
  | .binary op => inferInstanceAs (Decidable (t.kind = op.1.tokenKind))
  | .opening => inferInstanceAs (Decidable (t.kind = .leftParen))
  | .closing => inferInstanceAs (Decidable (t.kind = .rightParen))

/-- Strict mode has nothing against how the token is written. -/
structure Token.Accepted (config : Config) (t : Token) : Prop where
  quotes : t.QuotesPass config
  spelling : config.strictAnsi → t.text ≠ "==" ∧ t.text ≠ "!="

/-- Each token writes its symbol, is a token of the source, and passes. -/
def Symbol.Written (source : Source) (config : Config) (symbol : Symbol) (t : Token) : Prop :=
  symbol.Writes t ∧ t.ReadFrom source ∧ t.Accepted config

theorem Symbol.written_of_writes {source : Source} {config : Config} {ss : List Symbol}
    {ts : List Token} (h : List.Forall₂ Writes ss ts) (hread : ∀ t ∈ ts, t.ReadFrom source)
    (haccepted : ∀ t ∈ ts, t.Accepted config) : List.Forall₂ (Written source config) ss ts := by
  induction h with
  | nil => exact .nil
  | cons ht _ ih =>
    obtain ⟨hreadHead, hread⟩ := List.forall_mem_cons.1 hread
    obtain ⟨hacceptedHead, haccepted⟩ := List.forall_mem_cons.1 haccepted
    exact .cons ⟨ht, hreadHead, hacceptedHead⟩ (ih hread haccepted)

/-- What may come after an operand: an operator, a closing parenthesis or the end. -/
def AfterOperand (ts : List Token) : Prop :=
  ∀ t ∈ ts.head?, t.kind = .rightParen ∨ ∃ op : BinaryOp, t.kind = op.tokenKind

namespace AfterOperand

variable {ts : List Token} {t : Token}

theorem nil : AfterOperand [] := by
  rintro _ ⟨⟩

theorem closing (h : t.kind = .rightParen) : AfterOperand (t :: ts) := by
  rintro _ ⟨⟩
  exact .inl h

theorem operator {op : BinaryOp} (h : t.kind = op.tokenKind) : AfterOperand (t :: ts) := by
  rintro _ ⟨⟩
  exact .inr ⟨op, h⟩

theorem stops_closing (h : t.kind = .rightParen) (power : Nat) : Power.Stops power (t :: ts) := by
  intro p hp
  rw [Power.ahead?, h] at hp
  cases hp

theorem ahead?_operator {op : BinaryOp} (h : t.kind = op.tokenKind) :
    Power.ahead? (t :: ts) = some op.level := by
  rw [Power.ahead?, h, op.trailing?_tokenKind, op.joining?_tokenKind]
  rfl

theorem ne (h : AfterOperand ts) {kind : TokenKind} (hparen : kind ≠ .rightParen)
    (hop : ∀ op : BinaryOp, op.tokenKind ≠ kind) : ts.head?.map Token.kind ≠ some kind := by
  rcases ts with _ | ⟨t, ts⟩
  · nofun
  · rintro ⟨⟩
    obtain hk | ⟨op, hk⟩ := h t rfl
    · exact hparen hk
    · exact hop op hk.symm

theorem no_dot (h : AfterOperand ts) : ts.head?.map Token.kind ≠ some .dot :=
  h.ne nofun fun op => by cases op <;> nofun

theorem no_opening (h : AfterOperand ts) : ts.head?.map Token.kind ≠ some .leftParen :=
  h.ne nofun fun op => by cases op <;> nofun

end AfterOperand

/-- A token that may begin a formula. -/
structure Token.Begins (t : Token) : Prop where
  star : t.kind ≠ .star
  reserved : ∀ k, t.kind = .keyword k → k.isReserved → k = .NOT

theorem Symbol.Writes.begins {symbol : Symbol} {t : Token} (h : symbol.Writes t)
    (hbinary : ∀ op, symbol ≠ .binary op) : t.Begins := by
  have hkind : ∀ kind, t.kind = kind → kind ≠ .star → (∀ k, kind = .keyword k → k = .NOT) →
      t.Begins := by
    rintro _ rfl hstar hk
    exact ⟨hstar, fun k h _ => hk k h⟩
  rcases symbol with (text | name | text) | op | op | _ | _
  · exact hkind _ h.1 (by decide) fun k hk => by cases hk
  · obtain ⟨hname, -⟩ := h
    exact ⟨fun hk => by simp [Token.isName, hk] at hname,
      fun k hk hreserved => by simp [Token.isName, hk, hreserved] at hname⟩
  · exact hkind _ h.1 (by decide) fun k hk => by cases hk
  · refine hkind _ h ?_ ?_ <;> cases op <;> simp [UnaryOp.tokenKind]
  · exact absurd rfl (hbinary op)
  · exact hkind _ h (by decide) fun k hk => by cases hk
  · exact hkind _ h (by decide) fun k hk => by cases hk

namespace Token.Begins

variable {t : Token} (h : t.Begins)

include h

theorem ne_keyword {k : Keyword} (hreserved : k.isReserved) (hnot : k ≠ .NOT) :
    t.kind ≠ .keyword k :=
  fun hk => hnot (h.reserved k hk hreserved)

theorem seesOneOf {ks : List Keyword} (hks : ∀ k ∈ ks, k.isReserved ∧ k ≠ .NOT) :
    t.keyword?.any ks.contains = false := by
  unfold keyword?
  split
  · next k hk =>
    simp only [Option.any_some, List.contains_eq_mem, decide_eq_false_iff_not]
    exact fun hmem => h.ne_keyword (hks k hmem).1 (hks k hmem).2 hk
  · rfl

end Token.Begins

theorem Symbol.Writes.no_dot {symbol : Symbol} {t : Token} (h : symbol.Writes t) :
    t.kind ≠ .dot := by
  have hkind : ∀ kind, t.kind = kind → kind ≠ .dot → t.kind ≠ .dot := by
    rintro _ rfl hkind
    exact hkind
  rcases symbol with (text | name | text) | op | op | _ | _
  · exact hkind _ h.1 (by decide)
  · intro hk
    have hname := h.1
    simp [Token.isName, hk] at hname
  · exact hkind _ h.1 (by decide)
  · exact hkind _ h (by cases op <;> decide)
  · exact hkind _ h (by cases op.1 <;> decide)
  · exact hkind _ h (by decide)
  · exact hkind _ h (by decide)

theorem Formula.symbols_head : ∀ e : Formula,
    ∃ symbol ss, e.symbols = symbol :: ss ∧ ∀ op, symbol ≠ .binary op
  | leaf l => ⟨.leaf l, [], rfl, nofun⟩
  | unary op x => ⟨.unary op, _, rfl, nofun⟩
  | binary op left right => by
    obtain ⟨symbol, ss, hleft, hbinary⟩ := symbols_head left
    rw [symbols, enclosedIf]
    split
    · exact ⟨.opening, _, rfl, nofun⟩
    · exact ⟨symbol, _, by rw [hleft]; rfl, hbinary⟩

/-! ## Trees up to places -/

/-- A text by its characters, wherever they are kept. -/
def Text.erased (source : Source) (text : Text) : Text :=
  (text.resolve source).elim .none .copied

/-- The node without its number, its place and the mark of parentheses. -/
def Node.erased (source : Source) (n : Node) : Node :=
  { n with
    id := 0
    text := n.text.erased source
    flags := n.flags.without (.only .parenthesized)
    location := {}
    span := {} }

namespace Tree

mutual
/-- The tree without the numbers and places of its nodes and without the marks of parentheses. -/
def erased (source : Source) : Tree → Tree
  | .node n cs => .node (n.erased source) (erasedAll source cs)

def erasedAll (source : Source) : List Tree → List Tree
  | [] => []
  | t :: ts => erased source t :: erasedAll source ts
end

theorem shape_node (n : Node) (cs : List Tree) :
    shape (.node n cs) = n.kind :: cs.flatMap shape := by
  rw [shape, preorder_node, List.map_cons, List.map_flatMap]
  rfl

mutual
theorem shape_erased (source : Source) : ∀ t : Tree, (t.erased source).shape = t.shape
  | .node n cs => by
    rw [erased, shape_node, shape_node, flatMap_shape_erased source cs]
    rfl

theorem flatMap_shape_erased (source : Source) :
    ∀ ts : List Tree, (erasedAll source ts).flatMap shape = ts.flatMap shape
  | [] => rfl
  | t :: ts => by
    rw [erasedAll, List.flatMap_cons, List.flatMap_cons, shape_erased source t,
      flatMap_shape_erased source ts]
end

theorem erased_mapHead {source : Source} {change : Node → Node}
    (h : ∀ n, (change n).erased source = n.erased source) (u : Tree) :
    Tree.erased source (u.mapHead change) = u.erased source := by
  cases u
  rw [Tree.mapHead, Tree.erased, h, Tree.erased]

end Tree

namespace Formula

theorem erased_node (source : Source) (kind : Kind) (id : Nat) (operator : Option Operator)
    (text : Text) (location : Location) (span : Span) :
    Node.erased source { kind, id, text, operator, context := some .selectList, location, span } =
      node kind operator (text.erased source) := by
  have hflags : Flags.empty.without (.only .parenthesized) = .empty := by decide
  rw [Node.erased, hflags]
  rfl

theorem erased_mark (source : Source) (n : Node) :
    (n.mark .parenthesized).erased source = n.erased source := by
  have hflags : (n.flags.insert .parenthesized).without (.only .parenthesized) =
      n.flags.without (.only .parenthesized) := by
    ext i hi
    simp only [Flags.insert, Flags.without, BitVec.getElem_and, BitVec.getElem_or,
      BitVec.getElem_not]
    cases (Flags.only .parenthesized)[i] <;> simp
  rw [Node.erased, Node.mark, hflags]
  rfl

variable {e x y : Formula} {source : Source} {id : Nat} {location : Location} {span : Span}

/-- A node with the text of a leaf stands for the leaf. -/
theorem erased_leaf (l : Leaf) {text : Text} (h : text.resolve source = some l.text) :
    Tree.erased source (.leaf
      { kind := l.kind, id, text, context := some .selectList, location, span }) =
      (leaf l).tree := by
  rw [Tree.leaf, Tree.erased, Tree.erasedAll, erased_node, Text.erased, h]
  rfl

theorem erased_unary (op : UnaryOp) {inner : Tree} (h : inner.erased source = x.tree) :
    Tree.erased source (.node
      { kind := .unaryExpr, id, operator := some (.unary op), context := some .selectList,
        location, span } [inner]) = (unary op x).tree := by
  rw [Tree.erased, erased_node, Tree.erasedAll, h, Tree.erasedAll]
  rfl

theorem erased_binary (op : PlainOp) {left right : Tree} (hleft : left.erased source = x.tree)
    (hright : right.erased source = y.tree) :
    Tree.erased source (.node
      { kind := .binaryExpr, id, operator := some (.binary op.1), context := some .selectList,
        location, span } [left, right]) = (binary op x y).tree := by
  rw [Tree.erased, erased_node, Tree.erasedAll, Tree.erasedAll, hleft, hright, Tree.erasedAll]
  rfl

theorem erased_list {u : Tree} (h : u.erased source = e.tree) :
    Tree.erased source (.node
      { kind := .selectList, id, context := some .selectList, location, span } [u]) =
      .node (node .selectList none .none) [e.tree] := by
  rw [Tree.erased, erased_node, Tree.erasedAll, h, Tree.erasedAll]
  rfl

theorem erased_selection {list : Tree}
    (h : list.erased source = .node (node .selectList none .none) [e.tree]) :
    Tree.erased source (.node { kind := .selectStmt, id, location, span } [list]) =
      e.selection := by
  have hflags : Flags.empty.without (.only .parenthesized) = .empty := by decide
  rw [Tree.erased, Tree.erasedAll, h, Tree.erasedAll, Node.erased, hflags]
  rfl

end Formula

end SqlSyntax
