import Mathlib.Data.List.Forall2
import SqlSyntax.Grammar.Expression
import SqlSyntax.Proofs.Growth

/-!
# Two runs of one production

Two runs over like tokens, under configurations that allow the same, go the same way: no production
looks at the trees that it makes. So the answers are as much alike as what the single steps make of
them (`Pairing.Runs`). A pairing says what is alike, and its laws (`Pairing.Lawful`) say that the
steps keep it so.

The tokens that are taken matter too. Some kinds of tokens may only be taken where they were checked
or where their place allows them; the others are plain.
-/

namespace SqlSyntax

open SqlSyntax.Parser

namespace TokenKind

/-- Neither a quoted name, nor an operator or sign that may be refused, nor an error. -/
def isPlain : TokenKind → Bool
  | .quotedIdentifier | .eq | .notEq | .doubleColon | .error _ => false
  | _ => true

/-- Text that is no token of the language. -/
def isError : TokenKind → Bool
  | .error _ => true
  | _ => false

theorem isError_of_isPlain {kind : TokenKind} (h : kind.isPlain) : kind.isError = false := by
  cases kind <;> first | rfl | cases h

end TokenKind

namespace Token

/-- A name in other quotes than double ones. -/
def isMisquoted (t : Token) : Bool :=
  t.kind == .quotedIdentifier && t.text.toList.head? != some '"'

/-- An operator that strict mode spells otherwise. -/
def isMisspelled (t : Token) : Bool := t.text == "==" || t.text == "!="

end Token

namespace Kind

/-- What an expression may be. -/
def isOperand : Kind → Bool
  | .binaryExpr | .unaryExpr | .parenExpr | .functionCall | .castExpr | .extractExpr => true
  | .caseExpr | .existsExpr | .positionExpr | .substringExpr | .inExpr | .betweenExpr => true
  | .likeExpr | .isExpr | .collateExpr | .subqueryExpr | .rowValue | .columnRef => true
  | .parameter | .integerLiteral | .floatLiteral | .stringLiteral | .blobLiteral => true
  | .booleanLiteral | .nullLiteral => true
  | _ => false

/-- Nodes that begin where an expression under them begins. -/
def floats : Kind → Bool
  | .binaryExpr | .inExpr | .betweenExpr | .likeExpr | .isExpr | .castExpr | .collateExpr => true
  | .resultColumn | .orderByItem | .indexedColumn => true
  | _ => false

/-- Statements that are an extension. -/
def isExtension : Kind → Bool
  | .pragmaStmt | .vacuumStmt | .attachStmt | .detachStmt | .reindexStmt => true
  | _ => false

/-- Nodes that list rows or tables, and never expressions. -/
def listsRows : Kind → Bool
  | .valuesStmt | .valuesClause | .withClause => true
  | _ => false

/-- Nodes that begin with a token of their own, and name no type. -/
def isAnchored (k : Kind) : Bool := !k.floats && !k.namesType

theorem isAnchored_spec {k : Kind} (h : k.isAnchored) : k.floats = false ∧ k.namesType = false := by
  simpa [isAnchored] using h

/-- Nodes that are made under any options. -/
def isCommon (k : Kind) : Bool := k != .parenExpr && !k.isExtension

end Kind

/-! ## Steps that take no token -/

/-- The same point of a run, but for the nodes that are stored and counted. -/
structure Progress.Beside (s r : Progress) : Prop where
  rest : r.rest = s.rest
  taken : r.taken = s.taken
  lastEnd : r.lastEnd = s.lastEnd
  deepest : r.deepest = s.deepest

namespace Parser

variable (u child : Tree) (scope : Scope) (s : Progress)

theorem edited_beside (c : Command) : s.Beside (s.edited c) ∧ (s.edited c).nodes = s.nodes := by
  unfold Progress.edited
  split
  · exact ⟨⟨rfl, rfl, rfl, rfl⟩, rfl⟩
  · split <;> exact ⟨⟨rfl, rfl, rfl, rfl⟩, rfl⟩

theorem nodeAt_run (kind : Kind) (t : Token) :
    ∃ r, nodeAt kind t scope s = .ok (.leaf
        { kind, id := s.nodes, context := scope.context, location := t.location, span := t.span })
        r ∧ s.Beside r ∧ r.nodes = s.nodes + 1 := by
  let made : Command := .alloc kind t.location t.span scope.context
  obtain ⟨hbeside, hn⟩ := edited_beside s made
  refine ⟨{ s.edited made with nodes := (s.edited made).nodes + 1 }, ?_, { hbeside with },
    congrArg (· + 1) hn⟩
  rw [← hn]
  rfl

theorem attach_run :
    ∃ r, attach u child scope s = .ok (u.append [child]) r ∧ s.Beside r ∧ r.nodes = s.nodes :=
  ⟨_, rfl, edited_beside s _⟩

theorem finish_run :
    ∃ r, finish u scope s = .ok (u.mapHead fun n => { n with span := n.span.extend s.lastEnd }) r ∧
      s.Beside r ∧ r.nodes = s.nodes :=
  ⟨_, rfl, edited_beside s _⟩

end Parser

namespace Expression

/-- An expression in parentheses: under a node of its own, or marked in a compact tree. -/
def surrounded (config : Config) (opening : Token) (id : Nat) (context : Option Context)
    (stop : Nat) (inner : Tree) : Tree :=
  if config.compactTree then inner.mapHead (·.mark .parenthesized)
  else
    let span := opening.span.extend stop
    .node { kind := .parenExpr, id, context, location := opening.location, span } [inner]

/-- The number of the next node after an expression in parentheses. -/
def afterParen (config : Config) (i : Nat) : Nat := if config.compactTree then i else i + 1

theorem enclosed_run (opening : Token) (inner : Tree) (scope : Scope) (s : Progress) :
    ∃ r, enclosed opening inner scope s = .ok (surrounded scope.config opening s.nodes
        scope.context s.lastEnd inner) r ∧
      s.Beside r ∧ r.nodes = afterParen scope.config s.nodes := by
  have hrun : enclosed opening inner scope s = (if scope.config.compactTree then
      flag inner .parenthesized
    else do finish (← attach (← nodeAt .parenExpr opening) inner)) scope s := rfl
  rw [hrun, surrounded, afterParen]
  by_cases hcompact : scope.config.compactTree
  · rw [if_pos hcompact, if_pos hcompact, if_pos hcompact]
    exact ⟨_, rfl, edited_beside s _⟩
  · rw [if_neg hcompact, if_neg hcompact, if_neg hcompact]
    obtain ⟨r₁, hrun₁, ⟨hr₁, ht₁, hl₁, hd₁⟩, hn₁⟩ := nodeAt_run scope s .parenExpr opening
    obtain ⟨r₂, hrun₂, ⟨hr₂, ht₂, hl₂, hd₂⟩, hn₂⟩ := attach_run _ inner scope r₁
    obtain ⟨r₃, hrun₃, ⟨hr₃, ht₃, hl₃, hd₃⟩, hn₃⟩ := finish_run _ scope r₂
    rw [bind_ok hrun₁, bind_ok hrun₂, hrun₃, hl₂, hl₁]
    exact ⟨r₃, rfl, ⟨by rw [hr₃, hr₂, hr₁], by rw [ht₃, ht₂, ht₁], by rw [hl₃, hl₂, hl₁],
      by rw [hd₃, hd₂, hd₁]⟩, by rw [hn₃, hn₂, hn₁]⟩

end Expression

/-! ## Pairings -/

/-- What two runs are compared by. -/
structure Pairing where
  source : Source
  source' : Source
  config : Config
  config' : Config
  /-- Tokens at the same place of both lists. -/
  listed : Token → Token → Prop
  /-- Where tokens end. -/
  stop : Nat → Nat → Prop
  txt : Text → Text → Prop
  /-- The names of types, which are kept as they are written. -/
  written : Text → Text → Prop
  tree : Tree → Tree → Prop
  /-- How many nodes each run has made. -/
  number : Nat → Nat → Prop
  fails : Failure → Failure → Prop
  /-- Only tokens that may be taken were taken before these. -/
  fine : List Token → Prop
  /-- A setting or an assignment was begun. -/
  sets : Prop

namespace Pairing

variable {W : Pairing} {α β : Type}

/-- Tokens that were next where only tokens that may be taken had been taken. -/
def tok (W : Pairing) (t t' : Token) : Prop := W.listed t t' ∧ ∃ ts, W.fine (t :: ts)

/-- The points that two runs have come to. -/
structure Meets (W : Pairing) (s s' : Progress) : Prop where
  rest : List.Forall₂ W.listed s.rest s'.rest
  taken : s.taken = s'.taken
  lastEnd : W.stop s.lastEnd s'.lastEnd
  deepest : s.deepest = s'.deepest
  number : W.number s.nodes s'.nodes

/-- What two runs are told. -/
structure Scopes (W : Pairing) (scope scope' : Scope) : Prop where
  source : scope.source = W.source
  source' : scope'.source = W.source'
  config : scope.config = W.config
  config' : scope'.config = W.config'
  stack : scope.stack = scope'.stack
  depth : scope.depth = scope'.depth
  context : scope.context = scope'.context

/-- What two runs came to, from `n` tokens. -/
def Outcome (W : Pairing) (n : Nat) (rel : α → α → Prop) (fact : α → List Token → Prop) :
    EStateM.Result Failure Progress α → EStateM.Result Failure Progress α → Prop
  | .ok a r, .ok a' r' =>
    rel a a' ∧ fact a r.rest ∧ W.Meets r r' ∧ W.fine r.rest ∧ r.rest.length ≤ n
  | .error f r, .error f' r' => W.fails f f' ∧ W.Meets r r'
  | _, _ => False

/-- From points that meet, with the tokens ahead as required, both parsers answer or both fail. The
answers are alike, and the tokens then ahead are as told. -/
def Runs (W : Pairing) (ahead : List Token → Prop) (p p' : Parser α) (rel : α → α → Prop)
    (fact : α → List Token → Prop) : Prop :=
  ∀ (scope scope' : Scope) (s s' : Progress), W.Scopes scope scope' → W.Meets s s' →
    W.fine s.rest → ahead s.rest → W.Outcome s.rest.length rel fact (p scope s) (p' scope' s')

/-- Both parsers fail, whatever was taken. -/
def Breaks (W : Pairing) (p p' : Parser α) : Prop :=
  ∀ (scope scope' : Scope) (s s' : Progress), W.Scopes scope scope' → W.Meets s s' →
    ∃ f f' r r', p scope s = .error f r ∧ p' scope' s' = .error f' r' ∧ W.fails f f' ∧
      W.Meets r r'

/-- Whatever tokens are ahead. -/
def anything (_ : List Token) : Prop := True

/-- The parsers run alike, whatever tokens are ahead. -/
abbrev Alike (W : Pairing) (p p' : Parser α) (rel : α → α → Prop) : Prop :=
  W.Runs anything p p' rel fun _ => anything

/-- Trees of a kind. Their roots belong together. -/
structure Made (W : Pairing) (k : Kind) (t t' : Tree) : Prop where
  tree : W.tree t t'
  kind : t.kind = k
  kind' : t'.kind = k
  ne_paren : k ≠ .parenExpr

/-- Trees that begin at the same place. -/
def Placed (W : Pairing) (t t' : Tree) : Prop := ∃ k : Kind, k.isAnchored ∧ W.Made k t t'

/-- Trees of expressions. -/
def Operand (W : Pairing) (t t' : Tree) : Prop := W.tree t t' ∧ t.kind.isOperand

/-- Trees that may stand under a node of a kind. -/
def Fits (W : Pairing) (k : Kind) (t t' : Tree) : Prop :=
  W.tree t t' ∧ (k.listsRows = true → W.Placed t t')

/-- Changes of a node of a kind that do the same. -/
inductive Amends (W : Pairing) (k : Kind) : (Node → Node) → (Node → Node) → Prop
  | mark {f : Flag} (h : f ≠ .parenthesized) : Amends W k (·.mark f) (·.mark f)
  | extend {stop stop' : Nat} (h : W.stop stop stop') :
      Amends W k (fun n => { n with span := n.span.extend stop })
        fun n => { n with span := n.span.extend stop' }
  | text {text text' : Text} (h : W.txt text text') :
      Amends W k (fun n => { n with text }) fun n => { n with text := text' }
  | typed {text text' : Text} (hk : k.namesType) (h : W.written text text') (d : DataType) :
      Amends W k (fun n => { n with text, dataType := some d })
        fun n => { n with text := text', dataType := some d }
  | dataType (d : DataType) : Amends W k (fun n => { n with dataType := some d })
      fun n => { n with dataType := some d }
  | operator (op : Option Operator) : Amends W k (fun n => { n with operator := op })
      fun n => { n with operator := op }
  | name {ts ts' : List Text} (h : List.Forall₂ W.txt ts ts') :
      Amends W k (·.withName ts) (·.withName ts')
  | column {ts ts' : List Text} (h : List.Forall₂ W.txt ts ts') :
      Amends W k (·.withColumn ts) (·.withColumn ts')

theorem Amends.kind {k : Kind} {change change' : Node → Node} (h : W.Amends k change change')
    (n : Node) :
    (change n).kind = n.kind ∧ (change' n).kind = n.kind := by
  cases h <;> exact ⟨rfl, rfl⟩

/-- Like tokens are read alike, and the options that are asked for are the same. -/
structure Reads (W : Pairing) : Prop where
  strictAnsi : W.config.strictAnsi = W.config'.strictAnsi
  allowExtensions : W.config.allowExtensions = W.config'.allowExtensions
  depthLimit : W.config.depthLimit = W.config'.depthLimit
  stackBudget : W.config.stackBudget = W.config'.stackBudget
  listed_kind : ∀ {t t'}, W.listed t t' → t.kind = t'.kind
  listed_stop : ∀ {t t'}, W.listed t t' → W.stop t.span.stop t'.span.stop
  misquoted : ∀ {t t'}, W.tok t t' → t.isMisquoted = t'.isMisquoted
  spelling : ∀ {t t'}, W.tok t t' → t.isMisspelled ∨ t'.isMisspelled → t.text = t'.text
  word : ∀ {t t'}, W.tok t t' → ∀ w, sameWord t.text w = sameWord t'.text w
  plain_word : ∀ {t t' w}, W.tok t t' → w ∈ ["ROWID", "NO", "ACTION"] → sameWord t.text w →
    t.kind.isPlain
  dataType : ∀ {ts ts'}, List.Forall₂ W.tok ts ts' → ∀ p q,
    DataType.ofName (" ".intercalate ((ts.map Token.text).dropWhile (·.isEmpty))) p q =
      DataType.ofName (" ".intercalate ((ts'.map Token.text).dropWhile (·.isEmpty))) p q
  unsigned : ∀ {t t'}, W.tok t t' → unsigned? t.text = unsigned? t'.text
  noText : W.txt .none .none
  written : ∀ {t t' stop stop'}, W.tok t t' → W.stop stop stop' →
    W.written (.slice ⟨t.span.start, stop⟩) (.slice ⟨t'.span.start, stop'⟩)
  tokenText : ∀ {t t' ahead}, W.tok t t' →
    W.Runs ahead (tokenText t) (tokenText t') W.txt fun _ => ahead
  failsAt : ∀ {t t'} cause, W.tok t t' →
    W.fails (.error (.atToken cause t)) (.error (.atToken cause t'))
  failsUnexpected : ∀ {t t'} what, W.tok t t' →
    W.fails (.error (.unexpected what t)) (.error (.unexpected what t'))
  failsEnd : ∀ cause, W.fine [] →
    let stop := Location.atOffset W.source W.source.byteSize
    let stop' := Location.atOffset W.source' W.source'.byteSize
    W.fails (.error ⟨cause, stop, ⟨stop.offset, stop.offset⟩, none⟩)
      (.error ⟨cause, stop', ⟨stop'.offset, stop'.offset⟩, none⟩)

/-- Which tokens may be taken, and where. -/
structure Takes (W : Pairing) : Prop where
  takes_plain : ∀ {t t' ts}, W.tok t t' → t.kind.isPlain → W.fine (t :: ts) → W.fine ts
  takes_name : ∀ {t t' ts}, W.tok t t' → t.kind = .quotedIdentifier →
    (W.config.strictAnsi = true → t.isMisquoted = false) → W.fine (t :: ts) → W.fine ts
  takes_call : ∀ {t t' ts}, W.tok t t' → t.kind = .quotedIdentifier →
    ts[0]?.map Token.kind = some .leftParen → W.fine (t :: ts) → W.fine ts
  takes_operator : ∀ {t t' ts}, W.tok t t' → t.kind = .eq ∨ t.kind = .notEq →
    (W.config.strictAnsi = true → t.isMisspelled = false) → W.fine (t :: ts) → W.fine ts
  takes_sign : ∀ {t t' ts}, W.tok t t' → t.kind = .eq → W.sets → W.fine (t :: ts) → W.fine ts
  takes_cast : ∀ {t t' ts}, W.tok t t' → t.kind = .doubleColon → W.config.strictAnsi = false →
    W.config.allowExtensions = true → W.fine (t :: ts) → W.fine ts
  sets : ∀ {t t' ts}, W.tok t t' → t.kind = .keyword .SET ∨ t.kind = .keyword .PRAGMA →
    W.fine (t :: ts) → W.sets

/-- All tokens of the language may be taken, wherever they stand. -/
theorem takes_of_next (hsets : W.sets)
    (hnext : ∀ {t ts}, t.kind.isError = false → W.fine (t :: ts) → W.fine ts) : W.Takes where
  takes_plain _ hk := hnext (TokenKind.isError_of_isPlain hk)
  takes_name _ hk _ := hnext (by rw [hk]; rfl)
  takes_call _ hk _ := hnext (by rw [hk]; rfl)
  takes_operator _ hk _ := hnext (by rcases hk with hk | hk <;> rw [hk] <;> rfl)
  takes_sign _ hk _ := hnext (by rw [hk]; rfl)
  takes_cast _ hk _ _ := hnext (by rw [hk]; rfl)
  sets _ _ _ := hsets

/-- Like trees stay alike when they are made, changed and put under one another. -/
structure Builds (W : Pairing) : Prop where
  next : ∀ {i i'}, W.number i i' → W.number (i + 1) (i' + 1)
  leaf : ∀ {t t' i i' kind} context, W.tok t t' → W.number i i' → kind ≠ .parenExpr →
    (kind.isExtension = true → W.config.allowExtensions = true) →
    W.tree (.leaf { kind, id := i, context, location := t.location, span := t.span })
      (.leaf { kind, id := i', context, location := t'.location, span := t'.span })
  spans : ∀ {t t' i i' kind} context, W.tree t t' → kind.floats = true ∨ W.Placed t t' →
    W.number i i' → kind.isCommon →
    W.tree (.leaf { kind, id := i, context, location := t.head.location, span := t.head.span })
      (.leaf { kind, id := i', context, location := t'.head.location, span := t'.head.span })
  amend : ∀ {k t t' change change'}, W.Amends k change change' → W.Made k t t' →
    W.tree (t.mapHead change) (t'.mapHead change')
  attach : ∀ {k t t' c c'}, W.Made k t t' → W.Fits k c c' →
    W.tree (t.append [c]) (t'.append [c'])
  prepend : ∀ {k t t' c c'}, W.Made k t t' → W.Fits k c c' →
    W.tree (t.prepend c) (t'.prepend c')
  enclosed : ∀ {t t' u u' i i' stop stop'} context, W.tok t t' → W.Operand u u' →
    W.number i i' → W.stop stop stop' →
    W.Operand (Expression.surrounded W.config t i context stop u)
      (Expression.surrounded W.config' t' i' context stop' u')
  enclosed_next : ∀ {i i'}, W.number i i' →
    W.number (Expression.afterParen W.config i) (Expression.afterParen W.config' i')

/-- What is alike stays so. -/
structure Lawful (W : Pairing) : Prop extends Reads W, Takes W, Builds W

theorem Lawful.kind (hW : W.Lawful) {t t' : Token} (ht : W.tok t t') : t.kind = t'.kind :=
  hW.listed_kind ht.1

/-! ## Points that meet -/

namespace Meets

variable {s s' : Progress} {t : Token} {ts : List Token}

theorem length_eq (h : W.Meets s s') : s.rest.length = s'.rest.length := h.rest.length_eq

theorem cons (h : W.Meets s s') (hfine : W.fine s.rest) (hs : s.rest = t :: ts) :
    ∃ t' ts', s'.rest = t' :: ts' ∧ W.tok t t' := by
  have hrest := h.rest
  rw [hs] at hrest hfine
  obtain ⟨t', ts', ht, -, hs'⟩ := List.forall₂_cons_left_iff.1 hrest
  exact ⟨t', ts', hs', ht, ts, hfine⟩

theorem nil (h : W.Meets s s') (hs : s.rest = []) : s'.rest = [] := by
  have hrest := h.rest
  rw [hs] at hrest
  exact List.forall₂_nil_left_iff.1 hrest

theorem advanced (hW : W.Lawful) (h : W.Meets s s') {t' : Token} {ts' : List Token}
    (hs : s.rest = t :: ts) (hs' : s'.rest = t' :: ts') :
    W.Meets (s.advanced t ts) (s'.advanced t' ts') := by
  have hrest := h.rest
  rw [hs, hs', List.forall₂_cons] at hrest
  exact { h with
    rest := hrest.2
    lastEnd := hW.listed_stop hrest.1
    taken := congrArg (· + 1) h.taken }

theorem edited (h : W.Meets s s') (c c' : Command) : W.Meets (s.edited c) (s'.edited c') := by
  obtain ⟨⟨hr, ht, hl, hd⟩, hn⟩ := edited_beside s c
  obtain ⟨⟨hr', ht', hl', hd'⟩, hn'⟩ := edited_beside s' c'
  refine ⟨?_, ?_, ?_, ?_, ?_⟩
  · rw [hr, hr']
    exact h.rest
  · rw [ht, ht', h.taken]
  · rw [hl, hl']
    exact h.lastEnd
  · rw [hd, hd', h.deepest]
  · rw [hn, hn']
    exact h.number

end Meets

/-! ## Trees that fit -/

theorem Made.root_ne_paren {k : Kind} {t t' : Tree} (h : W.Made k t t') : t.kind ≠ .parenExpr := by
  rw [h.kind]
  exact h.ne_paren

theorem Made.placed {k : Kind} {t t' : Tree} (h : W.Made k t t') (hk : k.isAnchored) :
    W.Placed t t' := ⟨k, hk, h⟩

theorem Made.fits {k j : Kind} {t t' : Tree} (h : W.Made k t t') (hk : k.isAnchored) :
    W.Fits j t t' := ⟨h.tree, fun _ => h.placed hk⟩

theorem Made.operand {k : Kind} {t t' : Tree} (h : W.Made k t t') (hk : k.isOperand) :
    W.Operand t t' :=
  ⟨h.tree, by
    rw [h.kind]
    exact hk⟩

theorem Placed.tree {t t' : Tree} : W.Placed t t' → W.tree t t'
  | ⟨_, _, h⟩ => Made.tree h

theorem Placed.fits {k : Kind} {t t' : Tree} (h : W.Placed t t') : W.Fits k t t' :=
  ⟨h.tree, fun _ => h⟩

theorem fits_of_tree {k : Kind} {t t' : Tree} (hk : k.listsRows = false) (h : W.tree t t') :
    W.Fits k t t' :=
  ⟨h, fun hrows => by
    rw [hk] at hrows
    cases hrows⟩

theorem Operand.fits {k : Kind} {t t' : Tree} (h : W.Operand t t') (hk : k.listsRows = false) :
    W.Fits k t t' := fits_of_tree hk h.1

end Pairing

end SqlSyntax
