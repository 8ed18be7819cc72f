import SqlSyntax.Proofs.Trees
import SqlSyntax.Token

/-!
# Trees over their tokens

A tree is laid out over the tokens that it was read from: each node starts at a token or at its
first child, gets its children in the order in which they were read, and is carried on to the last
token that was read (`Tree.Laid`). Only three nodes are put elsewhere: a `WITH` goes in front of a
statement that was read behind it, and the two numbers of a limit are told apart when both are
there.

The layout is told in the order of the tokens, whatever the order in which the nodes were made: a
tree is a value, so an operator that is made after its right operand is the same tree as one that
is made before it.
-/

namespace SqlSyntax

/-! ## Runs of tokens -/

/-- Where the first of some tokens starts. -/
def startOf (w : List Token) : Nat := (w.head?.map (·.span.start)).getD 0

/-- Where the last of some tokens ends. -/
def stopOf (w : List Token) : Nat := (w.getLast?.map (·.span.stop)).getD 0

/-- How many of the tokens are stars. -/
def starsOf (w : List Token) : Nat := w.countP (·.kind == .star)

/-- The last of the tokens is of a kind. -/
def EndsWith (kind : TokenKind) (w : List Token) : Prop := w.getLast?.map Token.kind = some kind

instance (kind : TokenKind) (w : List Token) : Decidable (EndsWith kind w) :=
  inferInstanceAs (Decidable (_ = _))

section Tokens

variable {v w : List Token} {x : Token}

@[simp]
theorem startOf_cons (x : Token) (w : List Token) : startOf (x :: w) = x.span.start := rfl

@[simp]
theorem stopOf_concat (w : List Token) (x : Token) : stopOf (w ++ [x]) = x.span.stop := by
  simp [stopOf]

theorem startOf_append (h : v ≠ []) (w : List Token) : startOf (v ++ w) = startOf v := by
  obtain ⟨x, v, rfl⟩ := List.exists_cons_of_ne_nil h
  rfl

theorem stopOf_append (v : List Token) (h : w ≠ []) : stopOf (v ++ w) = stopOf w := by
  simp [stopOf, List.getLast?_append, List.getLast?_eq_some_getLast h]

@[simp]
theorem starsOf_nil : starsOf [] = 0 := rfl

@[simp]
theorem starsOf_append (v w : List Token) : starsOf (v ++ w) = starsOf v + starsOf w :=
  List.countP_append

@[simp]
theorem starsOf_cons (x : Token) (w : List Token) :
    starsOf (x :: w) = (x.kind == .star).toNat + starsOf w := by
  by_cases h : x.kind = .star <;> simp [starsOf, h, Nat.add_comm]

theorem not_endsWith_append {kind : TokenKind} (hv : v ≠ []) (h : ¬ EndsWith kind v) :
    ¬ EndsWith kind (w ++ v) := by
  simpa [EndsWith, List.getLast?_append, List.getLast?_eq_some_getLast hv] using h

end Tokens

/-! ## Nodes -/

/-- A multiplication. -/
def Node.isProduct (n : Node) : Bool :=
  n.kind == .binaryExpr && n.operator == some (.binary .mul)

/-- A call whose arguments are a star. -/
def Node.isStarCall (n : Node) : Bool := n.kind == .functionCall && n.has .starArgs

/-- How many stars a node stands for itself. -/
def Node.stars (n : Node) : Nat :=
  n.isProduct.toNat + (n.kind == .wildcard).toNat + (n.kind == .qualifiedWildcard).toNat +
    n.isStarCall.toNat

/-- The nodes agree in what a layout tells of them. -/
structure Node.Matches (m n : Node) : Prop where
  kind : m.kind = n.kind
  context : m.context = n.context
  span : m.span = n.span
  starArgs : m.has .starArgs = n.has .starArgs
  operator : n.kind = .binaryExpr → m.operator = n.operator

theorem Node.Matches.isProduct {m n : Node} (h : m.Matches n) : m.isProduct = n.isProduct := by
  unfold Node.isProduct
  by_cases hk : n.kind = .binaryExpr
  · rw [h.kind, h.operator hk]
  · simp only [h.kind, beq_eq_false_iff_ne.2 hk, Bool.false_and]

theorem Node.Matches.stars {m n : Node} (h : m.Matches n) : m.stars = n.stars := by
  simp [Node.stars, Node.isStarCall, h.isProduct, h.kind, h.starArgs]

/-- What is known of the root of a tree that is being made. -/
structure Label where
  kind : Kind
  context : Option Context
  start : Nat
  /-- The root is marked as a call with a star. -/
  starred : Bool := false

def Node.label (n : Node) : Label := ⟨n.kind, n.context, n.span.start, n.has .starArgs⟩

theorem Node.Matches.label {m n : Node} (h : m.Matches n) : m.label = n.label := by
  simp [Node.label, h.kind, h.context, h.span, h.starArgs]

namespace Tree

/-- Where the root of a tree starts. -/
def start (t : Tree) : Nat := t.head.span.start

/-- Where the root of a tree ends. -/
def stop (t : Tree) : Nat := t.head.span.stop

/-- Where a tree starts, with its `WITH` if it has one. -/
def opening (t : Tree) : Nat :=
  match t.children with
  | [] => t.start
  | c :: _ => if c.kind = .withClause then c.start else t.start

/-- The tree reaches from the first of the tokens to the last; a `WITH` that is its first child
stands in front of it. -/
inductive Frames (t : Tree) : List Token → Prop
  | alone {w : List Token} (start : t.start = startOf w) (stop : stopOf w ≤ t.stop)
      (bare : ∀ c ∈ t.children.head?, c.kind ≠ .withClause) : Frames t w
  | behind {v w : List Token} {clause : Tree} (first : t.children.head? = some clause)
      (kind : clause.kind = .withClause) (clauseStart : clause.start = startOf v)
      (clauseStop : stopOf v ≤ clause.stop) (start : t.start = startOf w)
      (stop : stopOf w ≤ t.stop) (hv : v ≠ []) (hw : w ≠ []) : Frames t (v ++ w)

theorem Frames.opening {t : Tree} {w : List Token} (h : t.Frames w) : t.opening = startOf w := by
  obtain ⟨n, cs⟩ := t
  cases h with
  | alone start _ bare =>
    rcases cs with _ | ⟨c, cs⟩
    · exact start
    · exact (if_neg (bare c rfl)).trans start
  | behind first kind clauseStart _ _ _ hv =>
    rcases cs with _ | ⟨c, cs⟩
    · cases first
    · cases first
      exact (if_pos kind).trans (clauseStart.trans (startOf_append hv _).symm)

end Tree

/-! ## Roles -/

/-- What a tree may be put to. -/
inductive Role where
  /-- An expression, a table, a clause, or whatever has no rules of its own. -/
  | plain
  /-- An expression or a star of a select list. -/
  | column
  | query
  | statement
  | window
  /-- A select list. -/
  | columns

namespace Kind

/-- Lists of columns that are selected or returned. -/
def listsColumns : Kind → Bool
  | .selectList | .returningClause => true
  | _ => false

/-- Stars that stand for columns. -/
def isWildcard : Kind → Bool
  | .wildcard | .qualifiedWildcard => true
  | _ => false

/-- Kinds that may stand wherever no rule asks for another. -/
def isOrdinary : Kind → Bool
  | .windowSpec | .withClause | .offsetClause => false
  | k => !k.listsColumns && !k.isWildcard && !k.isQuery

/-- Statements that may stand behind a `WITH`. -/
def takesWith : Kind → Bool
  | .insertStmt | .updateStmt | .deleteStmt => true
  | k => k.isQuery

theorem takesWith_of_isQuery {k : Kind} (h : k.isQuery = true) : k.takesWith = true := by
  cases k <;> first | rfl | cases h

/-- The context that nodes of a kind give to what stands under them. -/
def gives : Kind → Option Context
  | .fromClause => some .fromClause
  | .whereClause => some .whereClause
  | .groupByClause => some .groupByClause
  | .havingClause => some .havingClause
  | .orderByClause => some .orderByClause
  | .onCondition => some .joinCondition
  | .caseExpr => some .caseExpression
  | .functionCall | .extractExpr | .positionExpr | .substringExpr => some .functionArgument
  | _ => none

/-- Kinds whose query is a query of its own inside another statement. -/
def holdsSubquery : Kind → Bool
  | .subqueryExpr | .derivedTable | .existsExpr | .commonTableExpr => true
  | _ => false

end Kind

/-- The kinds of trees that are put to a role. -/
def Role.admits : Role → Kind → Bool
  | .plain, k => k.isOrdinary
  | .column, k => k.isOrdinary || k.isWildcard
  | .query, k => k.isQuery
  | .statement, k => k.isOrdinary || k.isQuery
  | .window, k => k == .windowSpec
  | .columns, k => k.listsColumns

namespace Label

/-- The tokens are `CAST (`, and the node starts with them. -/
def Calls (l : Label) (w : List Token) : Prop :=
  ∃ word opening : Token, w = [word, opening] ∧ word.kind = .keyword .CAST ∧
    opening.kind = .leftParen ∧ l.start = word.span.start

/-- Under a node that has read the tokens, a tree in this role has this context. -/
def Takes (l : Label) (w : List Token) (role : Role) (c : Option Context) : Prop :=
  match role, l.kind with
  | .columns, k => k.takesWith = true ∧ c = some .selectList
  | .window, .functionCall => c = l.context
  | .window, _ => False
  | .column, k => k.listsColumns = true ∧ c = l.context
  | .plain, .functionCall => l.starred = false ∧ c = some .functionArgument
  | .plain, .castExpr => (w = [] ∧ c = l.context) ∨ (l.Calls w ∧ c = some .functionArgument)
  | .query, .insertStmt => w ≠ [] ∧ c = if EndsWith .leftParen w then some .subquery else l.context
  | .query, .subqueryExpr | .query, .derivedTable | .query, .existsExpr
  | .query, .commonTableExpr => c = some .subquery
  | .query, .castExpr | .query, .functionCall => False
  | .statement, .explainStmt | .statement, .triggerBody => c = l.context
  | .statement, _ => False
  | _, k => c = k.gives.or l.context

end Label

/-! ## Layouts -/

/-- Whether a tree may still get children. -/
inductive Stage where
  | growing | grown

namespace Tree

/-- The tree, which was read from the tokens `v`, stands in a role under a node that had read the
tokens `w`. -/
structure Under (l : Label) (w v : List Token) (role : Role) (c : Tree) : Prop where
  admits : role.admits c.kind = true
  takes : l.Takes w role c.head.context
  frames : role = .query → c.Frames v

/-- The tree is laid out over the tokens. What is grown reaches over its children; what is growing
does so when it is carried on to the last token. -/
inductive Laid : Stage → List Token → Tree → Prop
  /-- A node at the first of its tokens. -/
  | leaf {stage : Stage} {w : List Token} {n : Node} (span : w.head?.map Token.span = some n.span)
      (stars : starsOf w = n.stars) : Laid stage w (.leaf n)
  /-- A node that starts where its first child starts. -/
  | above {v w : List Token} {n : Node} {c : Tree} {role : Role} (first : Laid .grown v c)
      (under : c.Under n.label [] v role) (span : n.span = c.head.span)
      (stars : starsOf w = n.stars) : Laid .growing (v ++ w) (.node n [c])
  /-- A node at the token that its first child begins with. -/
  | ahead {v : List Token} {n : Node} {c : Tree} {role : Role} (first : Laid .grown v c)
      (under : c.Under n.label [] v role) (span : v.head?.map Token.span = some n.span)
      (stars : n.stars = 0) (kind : n.kind ≠ .castExpr) : Laid .growing v (.node n [c])
  | reopen {w : List Token} {t : Tree} (tree : Laid .grown w t) : Laid .growing w t
  | token {stage : Stage} {w : List Token} {t : Tree} {x : Token} (tree : Laid stage w t)
      (unstarred : x.kind ≠ .star) : Laid stage (w ++ [x]) t
  /-- A token in front of a tree. -/
  | behind {w : List Token} {t : Tree} {x : Token} (unstarred : x.kind ≠ .star)
      (tree : Laid .grown w t) : Laid .grown (x :: w) t
  | child {stage : Stage} {w v : List Token} {t c : Tree} {role : Role} (parent : Laid stage w t)
      (child : Laid .grown v c) (under : c.Under t.head.label w v role) :
      Laid .growing (w ++ v) (t.append [c])
  | amend {stage : Stage} {w : List Token} {t : Tree} {change : Node → Node}
      (tree : Laid stage w t) (alike : (change t.head).Matches t.head) :
      Laid stage w (t.mapHead change)
  | finish {stage : Stage} {w : List Token} {t : Tree} (tree : Laid stage w t) :
      Laid .grown w (t.mapHead fun n => { n with span := n.span.extend (stopOf w) })
  /-- A `WITH` in front of the statement behind it. -/
  | with {v w : List Token} {t c : Tree} (clause : Laid .grown v c) (tree : Laid .grown w t)
      (kind : c.kind = .withClause) (context : c.head.context = t.head.context)
      (takes : t.kind.takesWith = true) : Laid .grown (v ++ w) (t.prepend c)
  /-- Both numbers of a limit: behind a comma stands the count, and behind `OFFSET` how many rows
  are skipped. -/
  | limit {stage : Stage} {w u v : List Token} {word mark : Token} {t a b counted skipped : Tree}
      {count skip : Node} (tree : Laid stage w t) (query : t.kind.isQuery = true)
      (unstarred : word.kind ≠ .star) (first : Laid .grown u a) (second : Laid .grown v b)
      (order : mark.kind = .comma ∧ counted = b ∧ skipped = a ∨
        mark.kind = .keyword .OFFSET ∧ counted = a ∧ skipped = b)
      (counts : count.kind = .limitClause ∧ skip.kind = .offsetClause)
      (contexts : ∀ n ∈ [count, skip, counted.head, skipped.head], n.context = t.head.context)
      (ordinary : ∀ c ∈ [counted, skipped], c.kind.isOrdinary = true)
      (countSpan : count.span = word.span.extend (stopOf v))
      (skipSpan : skip.span = mark.span.extend (stopOf v)) :
      Laid .growing (w ++ word :: (u ++ mark :: v))
        (t.append [.node count [counted], .node skip [skipped]])

end Tree

end SqlSyntax
