import SqlSyntax.Proofs.EntryPoints
import SqlSyntax.Proofs.Rendering

/-!
# Statements with one select item

`SELECT` and the tokens of an expression make a statement that selects the expression and nothing
else (`Session.parseTokens_item`). An expression may be a token alone: a literal, a parameter or a
column.
-/

namespace SqlSyntax

open SqlSyntax.Parser SqlSyntax.Expression

theorem Config.exceedsStack_of_unbounded {config : Config} (h : config.stackBudget = 0)
    (used : Nat) : config.exceedsStack used = false := by
  rw [exceedsStack, h]
  rfl

/-! ## Tokens that are operands -/

section Operand

variable {scope : Scope} {ts rest : List Token} {t : Token} {self : Nested} {P : Text → Prop}

namespace Token

theorem not_reserved {k : Keyword} (h : t.isName) (hk : t.kind = .keyword k) :
    k.isReserved = false := by
  simpa [Token.isName, hk] using h

theorem leading?_of_isName (h : t.isName) : Power.leading? t.kind = none := by
  unfold Power.leading?
  split
  all_goals first
    | rfl
    | next hk => exact absurd (not_reserved h hk) (by decide)
    | next hk => simp [Token.isName, hk] at h

theorem literalKind?_of_isName (h : t.isName) : literalKind? t.kind = none := by
  unfold literalKind?
  split
  all_goals first
    | rfl
    | next hk => exact absurd (not_reserved h hk) (by decide)
    | next hk => simp [Token.isName, hk] at h

end Token

/-- A name that no parenthesis follows is a column. -/
theorem primary_of_isName (h : t.isName) (hfollow : AfterOperand rest)
    {fact : Tree → List Token → Prop}
    (hcolumn : Gives scope (t :: rest) (columnReference false) fact) :
    Gives scope (t :: rest) (primary self) fact := by
  refine Gives.current.next ?_
  dsimp only [List.head?_cons]
  rw [Token.literalKind?_of_isName h]
  have hnamed : Gives scope (t :: rest) (named self t) fact := by
    refine (Gives.kindAt 1).next ?_
    rw [if_pos]
    · exact hcolumn
    · rw [bne_iff_ne, List.getElem?_cons_succ, ← List.head?_eq_getElem?]
      exact hfollow.no_opening
  dsimp only
  split
  all_goals first
    | rwa [if_pos h]
    | next hk => exact absurd (Token.not_reserved h hk) (by decide)
    | next hk => simp [Token.isName, hk] at h

/-- A name that no dot and no parenthesis follows is a column that keeps its text. -/
theorem column_run (hname : t.isName) (hquotes : t.QuotesPass scope.config)
    (hfollow : AfterOperand rest)
    (htext : Gives scope rest (tokenText t) fun text r => P text ∧ r = rest) :
    Gives scope (t :: rest) (operand self) fun u r =>
      u.IsLeaf .columnRef scope.context P ∧ r = rest := by
  have hparts : Gives scope rest (columnParts false 3) fun found r =>
      found = ([], false) ∧ r = rest := (Gives.consume_false hfollow.no_dot).next (.pure ⟨rfl, rfl⟩)
  have hcolumn : Gives scope (t :: rest) (columnReference false) fun u r =>
      u.IsLeaf .columnRef scope.context P ∧ r = rest := by
    unfold columnReference
    refine (Gives.expectWord _ hname hquotes).next (hparts.next ?_)
    dsimp only [Bool.false_and]
    refine (Gives.tokenTexts_one htext).bind ?_
    rintro _ _ ⟨⟨text, rfl, hP⟩, rfl⟩
    refine (Gives.newNode _ _ _).bind ?_
    rintro _ _ ⟨⟨id, rfl⟩, rfl⟩
    refine (Gives.amend _ _).next ?_
    refine (Gives.finish _).weaken ?_
    rintro _ _ ⟨⟨stop, rfl⟩, rfl⟩
    exact ⟨⟨id, text, _, _, rfl, hP⟩, rfl⟩
  refine Gives.current.next ?_
  dsimp only [List.head?_cons]
  rw [Token.leading?_of_isName hname]
  exact primary_of_isName hname hfollow hcolumn

/-- A literal or a parameter keeps the text of its token. -/
theorem literal_run {kind : Kind} (hleading : Power.leading? t.kind = none)
    (hkind : literalKind? t.kind = some kind) (hboolean : kind ≠ .booleanLiteral)
    (htext : Gives scope rest (tokenText t) fun text r => P text ∧ r = rest) :
    Gives scope (t :: rest) (operand self) fun u r =>
      u.IsLeaf kind scope.context P ∧ r = rest := by
  refine Gives.current.next ?_
  dsimp only [List.head?_cons]
  rw [hleading]
  refine Gives.current.next ?_
  dsimp only [List.head?_cons]
  rw [hkind]
  refine Gives.advance.skip ?_
  refine (Gives.namedNode htext kind).bind ?_
  rintro u _ ⟨hu, rfl⟩
  rw [if_neg (by simpa using hboolean)]
  exact .pure ⟨hu, rfl⟩

/-- An expression that the tokens ahead stop is as it is. -/
theorem iterateOver_stops {u : Tree} {power : Nat} (h : Power.Stops power rest)
    (rounds : List Token) :
    Gives scope rest (iterateOver (grow? self power) rounds u) fun v r => v = u ∧ r = rest :=
  fun s hs => ⟨u, s, iterateOver_none (grow?_of_stops (hs ▸ h)) rounds, rfl, hs⟩

/-- An operand that the tokens behind it stop is an expression. -/
theorem expression_run_stops {fact : Tree → Prop} {power : Nat}
    (hopens : scope.Opens scope.depth)
    (hoperand : Gives { scope with depth := scope.depth + 1 } ts (operand self) fun u r =>
      fact u ∧ r = rest) (hstops : Power.Stops power rest) :
    Gives scope ts (expression self power) fun u r => fact u ∧ r = rest := by
  refine .deeper hopens (hoperand.bind ?_)
  rintro u _ ⟨hu, rfl⟩
  refine (Gives.iterate (iterateOver_stops hstops _)).weaken ?_
  rintro _ _ ⟨rfl, rfl⟩
  exact ⟨hu, rfl⟩

/-- An operand that nothing follows is an expression. -/
theorem expression_run_operand {fact : Tree → Prop} (power : Nat)
    (hopens : scope.Opens scope.depth)
    (hoperand : Gives { scope with depth := scope.depth + 1 } ts (operand self) fun u r =>
      fact u ∧ r = []) :
    Gives scope ts (expression self power) fun u r => fact u ∧ r = [] :=
  expression_run_stops hopens hoperand (Power.stops_nil power)

/-- A number that the tokens behind it stop is an expression. -/
theorem integer_run {power : Nat} (hopens : scope.Opens scope.depth) (ht : t.kind = .integer)
    (hstops : Power.Stops power rest) :
    Gives scope (t :: rest) (expression self power) fun u r =>
      u.shape = [.integerLiteral] ∧ r = rest := by
  have htext : Gives { scope with depth := scope.depth + 1 } rest (tokenText t) fun _ r =>
      True ∧ r = rest := by
    unfold tokenText
    rw [ht]
    exact .pure ⟨trivial, rfl⟩
  have hoperand : Gives { scope with depth := scope.depth + 1 } (t :: rest) (operand self)
      fun u r => u.IsLeaf .integerLiteral scope.context (fun _ => True) ∧ r = rest :=
    literal_run (by rw [ht]; rfl) (by rw [ht]; rfl) nofun htext
  refine (expression_run_stops hopens hoperand hstops).weaken ?_
  rintro _ _ ⟨⟨id, text, location, span, rfl, -⟩, rfl⟩
  exact ⟨rfl, rfl⟩

end Operand

/-! ## Operators between operands -/

/-- The node of an operator. -/
def BinaryOp.nodeKind : BinaryOp → Kind
  | .is => .isExpr
  | .like | .glob => .likeExpr
  | _ => .binaryExpr

theorem BinaryOp.nodeKind_of_isPlain (op : BinaryOp) (h : op.isPlain) :
    op.nodeKind = .binaryExpr := by
  cases op <;> first | rfl | cases h

/-- The tree applies the operator to two operands. -/
def Tree.Applies (op : BinaryOp) (context : Option Context) (u left right : Tree) : Prop :=
  ∃ id location span, u = .node
    { kind := op.nodeKind, id, operator := some (.binary op), context, location, span }
    [left, right]

section Operator

variable {scope : Scope} {self : Nested} {op : BinaryOp} {t : Token} {ts rest : List Token}
  {left : Tree} {fact : Tree → Prop}

theorem binary_run (hplain : op.isPlain) (hkind : t.kind = op.tokenKind)
    (hright : Gives scope ts (self.expression (op.level + 1)) fun u r => fact u ∧ r = rest)
    (hspelling : scope.config.strictAnsi → t.text ≠ "==" ∧ t.text ≠ "!=") :
    Gives scope ts (Expression.binary self left t (op.level + 1)) fun u r =>
      (∃ right, fact right ∧ u.Applies op scope.context left right) ∧ r = rest := by
  unfold Expression.binary
  refine .askIf (c := fun c => c.strictAnsi && (t.text == "==" || t.text == "!="))
    (fun hrefused => ?_) fun _ => ?_
  · simp only [Bool.and_eq_true, Bool.or_eq_true, beq_iff_eq] at hrefused
    exact absurd hrefused.2 (not_or.2 (hspelling hrefused.1))
  rw [hkind, op.ofToken?_tokenKind]
  refine hright.bind ?_
  rintro right _ ⟨hfact, rfl⟩
  refine (Gives.nodeOver _ _).bind ?_
  rintro _ _ ⟨⟨id, location, span, rfl⟩, rfl⟩
  refine (Gives.amend _ _).next ((Gives.attach _ _).next ?_)
  refine (Gives.attach _ _).weaken ?_
  rintro _ _ ⟨rfl, rfl⟩
  exact ⟨⟨right, hfact, id, location, span, by rw [op.nodeKind_of_isPlain hplain]; rfl⟩, rfl⟩

theorem likeness_run (hlike : op.nodeKind = .likeExpr)
    (hright : Gives scope ts (self.expression (op.level + 1)) fun u r => fact u ∧ r = rest)
    (hescape : rest.head?.map Token.kind ≠ some (.keyword .ESCAPE)) :
    Gives scope ts (likeness self left op (op.level + 1)) fun u r =>
      (∃ right, fact right ∧ u.Applies op scope.context left right) ∧ r = rest := by
  unfold likeness
  refine (Gives.nodeOver _ _).bind ?_
  rintro _ _ ⟨⟨id, location, span, rfl⟩, rfl⟩
  refine (Gives.amend _ _).next (hright.bind ?_)
  rintro right _ ⟨hfact, rfl⟩
  refine (Gives.attach _ _).next ((Gives.attach _ _).next ((Gives.consume_false hescape).next ?_))
  exact .pure ⟨⟨right, hfact, id, location, span, by rw [hlike]; rfl⟩, rfl⟩

theorem identity_run
    (hright : Gives scope ts (self.expression (BinaryOp.is.level + 1)) fun u r =>
      fact u ∧ r = rest)
    (hnot : ts.head?.map Token.kind ≠ some (.keyword .NOT)) :
    Gives scope ts (identity self left (BinaryOp.is.level + 1)) fun u r =>
      (∃ right, fact right ∧ u.Applies .is scope.context left right) ∧ r = rest := by
  unfold identity
  refine (Gives.nodeOver _ _).bind ?_
  rintro _ _ ⟨⟨id, location, span, rfl⟩, rfl⟩
  refine (Gives.amend _ _).next ((Gives.consume_false hnot).next (hright.bind ?_))
  rintro right _ ⟨hfact, rfl⟩
  refine (Gives.attach _ _).next ((Gives.attach _ _).next ?_)
  exact .pure ⟨⟨right, hfact, id, location, span, rfl⟩, rfl⟩

variable (hkind : t.kind = op.tokenKind)
  (hright : Gives scope ts (self.expression (op.level + 1)) fun u r => fact u ∧ r = rest)
  (hspelling : scope.config.strictAnsi → t.text ≠ "==" ∧ t.text ≠ "!=")
  (hnot : op = .is → ts.head?.map Token.kind ≠ some (.keyword .NOT))
  (hescape : rest.head?.map Token.kind ≠ some (.keyword .ESCAPE))

include hkind hright hspelling hnot hescape

/-- Each operator makes its node of the two operands. -/
theorem application_run :
    Gives scope ts (application self left t (op.level + 1)) fun u r =>
      (∃ right, fact right ∧ u.Applies op scope.context left right) ∧ r = rest := by
  unfold application
  rw [hkind]
  cases op with
  | is => exact identity_run hright (hnot rfl)
  | like | glob => exact likeness_run rfl hright hescape
  | _ => exact binary_run rfl hkind hright hspelling

/-- An operator that binds tightly enough is taken with the operand to its right. -/
theorem grow?_run {power : Nat} (hpower : power ≤ op.level) :
    Gives scope (t :: ts) (grow? self power left) fun o r =>
      (∃ u right, o = some u ∧ fact right ∧ u.Applies op scope.context left right) ∧
        r = rest := by
  have hne : ¬ (t.kind == .keyword .NOT) = true := by
    rw [hkind]
    cases op <;> decide
  have hjoining : Gives scope (t :: ts) (joining self left t (op.level + 1)) fun u r =>
      (∃ right, fact right ∧ u.Applies op scope.context left right) ∧ r = rest := by
    refine Gives.advance.skip ?_
    rw [if_neg hne]
    refine (application_run hkind hright hspelling hnot hescape).bind ?_
    rintro _ _ ⟨⟨right, hfact, id, location, span, rfl⟩, rfl⟩
    refine (Gives.finish _).weaken ?_
    rintro _ _ ⟨⟨stop, rfl⟩, rfl⟩
    exact ⟨⟨right, hfact, id, location, _, rfl⟩, rfl⟩
  unfold grow?
  refine Gives.current.next ?_
  dsimp only [List.head?_cons]
  rw [hkind, op.trailing?_tokenKind]
  refine (Gives.kindAt 1).next ?_
  rw [op.joining?_tokenKind]
  dsimp only
  rw [if_neg (Nat.not_lt.2 hpower)]
  refine hjoining.bind ?_
  rintro u _ ⟨⟨right, hfact, hu⟩, rfl⟩
  exact .pure ⟨⟨u, right, rfl, hfact, hu⟩, rfl⟩

end Operator

/-! ## The statement around an expression -/

/-- The statement selects the tree and nothing else. -/
def Tree.Selects (statement item : Tree) : Prop :=
  ∃ id location span id' location' span',
    statement = .node { kind := .selectStmt, id, location, span }
      [.node
        { kind := .selectList, id := id', context := some .selectList, location := location',
          span := span' } [item]]

/-- The same of a query in a context. -/
def Tree.SelectsIn (context : Option Context) (query item : Tree) : Prop :=
  ∃ id location span id' location' span',
    query = .node { kind := .selectStmt, id, context, location, span }
      [.node
        { kind := .selectList, id := id', context := some .selectList, location := location',
          span := span' } [item]]

/-- A token that may begin a select item other than a star. -/
structure Token.BeginsItem (t : Token) : Prop where
  star : t.kind ≠ .star
  distinct : t.kind ≠ .keyword .DISTINCT
  all : t.kind ≠ .keyword .ALL

theorem Token.Begins.item {t : Token} (h : t.Begins) : t.BeginsItem :=
  ⟨h.star, h.ne_keyword rfl nofun, h.ne_keyword rfl nofun⟩

/-- With these tokens ahead, the clause of a tree is left out. -/
def Omitted (scope : Scope) (ts : List Token) (clause : Tree → Parser Tree) : Prop :=
  ∀ u, Gives scope ts (clause u) fun v r => v = u ∧ r = ts

theorem startsStar_of_no_dot {ts : List Token} (h : ∀ t ∈ ts, t.kind ≠ .dot) :
    startsStar ts = false := by
  rcases ts with _ | ⟨t, _ | ⟨dot, ts⟩⟩
  · rfl
  · rfl
  · have hdot : dot.kind ≠ .dot := h dot (by simp)
    simp [startsStar, hdot]

/-- A token that belongs to no core of a query, behind one. -/
def TokenKind.endsCore : TokenKind → Bool
  | .rightParen | .semicolon | .keyword .ORDER | .keyword .LIMIT => true
  | _ => false

/-- No more of a core of a query comes next. -/
def EndsCore (ts : List Token) : Prop := ∀ t ∈ ts.head?, t.kind.endsCore

theorem EndsCore.nil : EndsCore [] := by
  rintro _ ⟨⟩

theorem EndsCore.ne {ts : List Token} (h : EndsCore ts) {kind : TokenKind}
    (hkind : kind.endsCore = false) : ts.head?.map Token.kind ≠ some kind := by
  intro heq
  obtain ⟨t, ht, rfl⟩ := Option.map_eq_some_iff.1 heq
  rw [h t ht] at hkind
  cases hkind

section Item

variable {scope : Scope} {self : Nested} {select first : Token} {more rest : List Token}
  {fact : Tree → Prop} (hfirst : first.BeginsItem) (hstar : startsStar (first :: more) = false)
  (hrest : EndsCore rest)

include hfirst hstar hrest

/-- An expression before the end is a select item as it is. -/
theorem resultColumn_run
    (hitem : Gives scope (first :: more) (self.expression 0) fun u r => fact u ∧ r = rest) :
    Gives scope (first :: more) (Query.resultColumn self) fun u r => fact u ∧ r = rest := by
  have hnostar : (first :: more).head?.map Token.kind ≠ some .star :=
    fun h => hfirst.star (Option.some.inj h)
  refine (Gives.take?_none hnostar).next ?_
  dsimp only
  have hqualified : Gives scope (first :: more) seesQualifiedStar fun b r =>
      b = false ∧ r = first :: more := by
    refine (Gives.look fun ts => ts.head?.any Token.isName && startsStar ts).weaken ?_
    rintro _ _ ⟨rfl, rfl⟩
    rw [hstar, Bool.and_false]
    exact ⟨rfl, rfl⟩
  have hunseen {kind : TokenKind} (hkind : kind.endsCore = false) :
      Gives scope rest (sees kind) fun b r => b = false ∧ r = rest := by
    refine (Gives.sees kind).weaken ?_
    rintro _ _ ⟨rfl, rfl⟩
    exact ⟨beq_eq_false_iff_ne.2 (List.head?_eq_getElem? ▸ hrest.ne hkind), rfl⟩
  have halias : Gives scope rest aliasName? fun o r => o = none ∧ r = rest := by
    refine (Gives.consume_false (hrest.ne rfl)).next ?_
    exact (hunseen rfl).next ((hunseen rfl).next (.pure ⟨rfl, rfl⟩))
  refine hqualified.next (hitem.bind ?_)
  rintro u _ ⟨hu, rfl⟩
  exact halias.next (.pure ⟨hu, rfl⟩)

/-- The list of select items with the expression alone. -/
theorem resultColumns_run
    (hitem : Gives scope (first :: more) (self.expression 0) fun u r => fact u ∧ r = rest) :
    Gives scope (first :: more) (Query.resultColumns self .selectList) fun list r =>
      (∃ id location span item, fact item ∧ list =
        .node { kind := .selectList, id, context := scope.context, location, span } [item]) ∧
      r = rest := by
  refine Gives.current.next ?_
  refine (Gives.newNode _ _ _).bind ?_
  rintro _ _ ⟨⟨id, rfl⟩, rfl⟩
  have hone := resultColumn_run hfirst hstar hrest hitem
  refine (Gives.attachList_one hone (hrest.ne rfl)).bind ?_
  rintro _ _ ⟨⟨u, hu, rfl⟩, rfl⟩
  refine (Gives.finish _).weaken ?_
  rintro _ _ ⟨⟨stop, rfl⟩, rfl⟩
  exact ⟨⟨id, _, _, u, hu, rfl⟩, rfl⟩

variable (hselect : select.kind = .keyword .SELECT)
  (hitem : Gives { scope with context := some .selectList } (first :: more) (self.expression 0)
    fun u r => fact u ∧ r = rest)

include hselect hitem

theorem select_run :
    Gives scope (select :: first :: more) (Query.select self) fun u r =>
      (∃ item, fact item ∧ u.SelectsIn scope.context item) ∧ r = rest := by
  have hquantifier : Omitted scope (first :: more) Query.quantifier? := by
    intro u
    refine (Gives.consume_false (by simpa using hfirst.distinct)).next ?_
    exact (Gives.consume_false (by simpa using hfirst.all)).next (.pure ⟨rfl, rfl⟩)
  have hlist := Gives.within .selectList (resultColumns_run hfirst hstar hrest hitem)
  have hfrom : Omitted scope rest (Query.fromClause? self.joinTree) :=
    fun u => (Gives.take?_none (hrest.ne rfl)).next (.pure ⟨rfl, rfl⟩)
  have hwhere : Omitted scope rest (Query.whereClause? self) :=
    fun u => (Gives.take?_none (hrest.ne rfl)).next (.pure ⟨rfl, rfl⟩)
  have hgroup : Omitted scope rest (Query.groupBy? self) :=
    fun u => (Gives.take?_none (hrest.ne rfl)).next (.pure ⟨rfl, rfl⟩)
  have hhaving : Omitted scope rest (Query.having? self) :=
    fun u => (Gives.take?_none (hrest.ne rfl)).next (.pure ⟨rfl, rfl⟩)
  refine (Gives.expect _ hselect).next ?_
  refine (Gives.newNode _ _ _).bind ?_
  rintro _ _ ⟨⟨id, rfl⟩, rfl⟩
  refine (hquantifier _).next (hlist.bind ?_)
  rintro _ _ ⟨⟨id', location', span', item, hfact, rfl⟩, rfl⟩
  refine (Gives.attach _ _).next ((hfrom _).next ((hwhere _).next ((hgroup _).next ?_)))
  refine (hhaving _).next ((Gives.finish _).weaken ?_)
  rintro _ _ ⟨⟨stop, rfl⟩, rfl⟩
  exact ⟨⟨item, hfact, id, _, _, id', location', span', rfl⟩, rfl⟩

/-- A query of one core is the core, and then maybe its order and its limit. -/
theorem body_run_core {fact' : Tree → List Token → Prop}
    (hmore : ∀ u item, fact item → u.SelectsIn scope.context item → Gives scope rest (do
      let query ← attachIf (← seesKeyword .ORDER) (orderBy self) u
      finish (← Query.limit? self query)) fact') :
    Gives scope (select :: first :: more) (Query.body self) fact' := by
  have hcore : Gives scope (select :: first :: more) (Query.core self) fun u r =>
      (∃ item, fact item ∧ u.SelectsIn scope.context item) ∧ r = rest := by
    refine (Gives.sees _).next ?_
    rw [if_neg (by simp [hselect])]
    exact select_run hfirst hstar hrest hselect hitem
  have hcombined : ∀ u, Gives scope rest (Query.combined? self u) fun o r =>
      o = none ∧ r = rest := by
    have hoperator : Gives scope rest Query.setOperator? fun o r => o = none ∧ r = rest := by
      refine (Gives.take?_none (hrest.ne rfl)).next ?_
      have htake : Gives scope rest (takeIf? fun t => t.kind == .keyword .INTERSECT ||
          t.kind == .keyword .EXCEPT) fun o r => o = none ∧ r = rest := by
        refine Gives.takeIf?_none fun t ht => ?_
        have hends := hrest t ht
        generalize t.kind = kind at hends
        unfold TokenKind.endsCore at hends
        split at hends <;> first | rfl | cases hends
      exact htake.next (.pure ⟨rfl, rfl⟩)
    exact fun u => hoperator.next (.pure ⟨rfl, rfl⟩)
  refine hcore.bind ?_
  rintro u _ ⟨⟨item, hfact, hu⟩, rfl⟩
  exact (Gives.iterate_none (hcombined _)).next (hmore u item hfact hu)

omit hrest hitem in
/-- A query of one core without order or limit is the core. -/
theorem body_run (hitem : Gives { scope with context := some .selectList } (first :: more)
      (self.expression 0) fun u r => fact u ∧ r = []) :
    Gives scope (select :: first :: more) (Query.body self) fun u r =>
      (∃ item, fact item ∧ u.SelectsIn scope.context item) ∧ r = [] := by
  refine body_run_core hfirst hstar .nil hselect hitem ?_
  rintro _ item hfact ⟨id, location, span, id', location', span', rfl⟩
  have horder : Omitted scope [] (attachIf false (orderBy self)) :=
    fun u => .pure ⟨rfl, rfl⟩
  have hlimit : Omitted scope [] (Query.limit? self) :=
    fun u => (Gives.take?_nil _).next (.pure ⟨rfl, rfl⟩)
  refine (Gives.sees _).next ((horder _).next ((hlimit _).next ((Gives.finish _).weaken ?_)))
  rintro _ _ ⟨⟨stop, rfl⟩, rfl⟩
  exact ⟨⟨item, hfact, id, _, _, id', location', span', rfl⟩, rfl⟩

end Item

/-- A query that does not begin with `WITH` is what follows. -/
theorem query_run {scope : Scope} {self : Nested} {first : Token} {more : List Token}
    {fact : Tree → List Token → Prop} (hopens : scope.Opens scope.depth)
    (hfirst : first.kind ≠ .keyword .WITH)
    (hbody : Gives { scope with depth := scope.depth + 1 } (first :: more) (Query.body self) fact) :
    Gives scope (first :: more) (query self) fact := by
  refine .deeper hopens ((Gives.sees _).next ?_)
  rw [if_neg (by simp [hfirst])]
  exact hbody

section Statement

variable {scope : Scope} {self : Nested} {select first : Token} {more : List Token}
  {fact : Tree → Prop} (htop : scope.depth = 0) (hroom : ∀ depth < 2, scope.Opens depth)
  (hselect : select.kind = .keyword .SELECT)

include htop hroom hselect

/-- A statement that begins with `SELECT` is a query. -/
theorem statement_run_body {fact' : Tree → List Token → Prop}
    (hbody : Gives { scope with depth := 2 } (select :: more) (Query.body self) fact') :
    Gives scope (select :: more) (statement self) fact' := by
  refine .deeper (htop ▸ hroom 0 (by decide)) (Gives.current.next ?_)
  dsimp only [List.head?_cons]
  rw [Token.keyword?, hselect]
  rw [htop]
  exact query_run (hroom 1 (by decide)) (by rw [hselect]; decide) hbody

theorem statement_run (hfirst : first.BeginsItem) (hstar : startsStar (first :: more) = false)
    (hitem : Gives { scope with depth := 2, context := some .selectList } (first :: more)
      (self.expression 0) fun u r => fact u ∧ r = []) :
    Gives scope (select :: first :: more) (statement self) fun u r =>
      (∃ item, fact item ∧ u.SelectsIn scope.context item) ∧ r = [] := by
  refine statement_run_body htop hroom hselect ?_
  exact body_run hfirst hstar hselect hitem

end Statement

/-! ## Rules -/

/-- A node that no rule is about. -/
def Kind.unruled : Kind → Bool
  | .selectStmt | .compoundSelect | .valuesStmt | .valuesClause | .insertStmt | .whereClause
  | .groupByClause | .withClause | .createTableStmt => false
  | kind => !kind.isJoin

theorem Kind.check_of_unruled {u : Tree} (h : u.kind.unruled) (source : Source) (mode : Mode) :
    Validation.check source mode u = [] := by
  unfold Validation.check
  generalize u.kind = kind at h
  unfold unruled at h
  split at h
  all_goals first
    | cases h
    | rw [Bool.not_eq_true'] at h
      simp [h]

/-- A tree of such nodes. -/
def Tree.Unruled (u : Tree) : Prop := ∀ k ∈ u.shape, k.unruled

theorem Tree.Unruled.node {n : Node} {cs : List Tree} (hn : n.kind.unruled)
    (hcs : ∀ c ∈ cs, c.Unruled) : (Tree.node n cs).Unruled := by
  rw [Unruled, shape_node]
  refine List.forall_mem_cons.2 ⟨hn, fun k hk => ?_⟩
  obtain ⟨c, hc, hk⟩ := List.mem_flatMap.1 hk
  exact hcs c hc k hk

theorem Tree.Unruled.of_shape {u : Tree} {ks : List Kind} (h : u.shape = ks)
    (hks : ∀ k ∈ ks, k.unruled) : u.Unruled := by
  rwa [Unruled, h]

/-- No node of the tree breaks a rule. -/
def Tree.KeepsRules (source : Source) (mode : Mode) (u : Tree) : Prop :=
  ∀ v ∈ u.preorder, Validation.check source mode v = []

namespace Tree.KeepsRules

variable {source : Source} {mode : Mode} {u : Tree} {n : Node} {cs : List Tree}

theorem of_unruled (h : u.Unruled) : u.KeepsRules source mode := fun v hv =>
  Kind.check_of_unruled (h v.kind (List.mem_map_of_mem hv)) source mode

theorem node (hn : Validation.check source mode (.node n cs) = [])
    (hcs : ∀ c ∈ cs, c.KeepsRules source mode) : (Tree.node n cs).KeepsRules source mode := by
  intro v hv
  rw [preorder_node] at hv
  obtain rfl | hv := List.mem_cons.1 hv
  · exact hn
  · obtain ⟨c, hc, hv⟩ := List.mem_flatMap.1 hv
    exact hcs c hc v hv

theorem unruled (hn : n.kind.unruled) (hcs : ∀ c ∈ cs, c.KeepsRules source mode) :
    (Tree.node n cs).KeepsRules source mode := by
  have hkind : (Tree.node n cs).kind.unruled := hn
  exact node (Kind.check_of_unruled hkind source mode) hcs

/-- The rule for a core of a query is about its `HAVING`. -/
theorem core (hn : n.kind = .selectStmt) (hhaving : ∀ c ∈ cs, c.kind ≠ .havingClause)
    (hcs : ∀ c ∈ cs, c.KeepsRules source mode) : (Tree.node n cs).KeepsRules source mode := by
  refine node ?_ hcs
  have hnone : (Tree.node n cs).child? .havingClause = none :=
    List.find?_eq_none.2 fun c hc => by simpa using hhaving c hc
  have hkind : (Tree.node n cs).kind = .selectStmt := hn
  rw [Validation.check, hkind]
  simp only [Validation.checkHaving, hnone]

theorem validate (h : u.KeepsRules source mode) : SqlSyntax.validate source mode u = none := by
  have hnone : validateAll source mode u = [] := List.flatMap_eq_nil_iff.2 h
  rw [SqlSyntax.validate, hnone, List.head?_nil]

end Tree.KeepsRules

/-- A query that selects a tree keeps the rules that the tree keeps. -/
theorem Tree.SelectsIn.keepsRules {context : Option Context} {query item : Tree}
    (h : query.SelectsIn context item) {source : Source} {mode : Mode}
    (hitem : item.KeepsRules source mode) : query.KeepsRules source mode := by
  obtain ⟨id, location, span, id', location', span', rfl⟩ := h
  refine .core rfl (List.forall_mem_singleton.2 nofun) (List.forall_mem_singleton.2 ?_)
  exact .unruled rfl (List.forall_mem_singleton.2 hitem)

theorem Tree.Selects.keepsRules {statement item : Tree} (h : statement.Selects item)
    {source : Source} {mode : Mode} (hitem : item.KeepsRules source mode) :
    statement.KeepsRules source mode := by
  have hquery : statement.SelectsIn none item := h
  exact hquery.keepsRules hitem

/-- A parse of one statement may open so many levels. -/
def Session.HasRoom (s : Session) (levels : Nat) : Prop :=
  ∀ depth < levels, depth < s.config.depthLimit ∧
    ∀ taken, s.config.exceedsStack (s.stack .one taken depth) = false

theorem Session.HasRoom.mono {s : Session} {levels fewer : Nat} (h : s.HasRoom levels)
    (hle : fewer ≤ levels) : s.HasRoom fewer :=
  fun depth hdepth => h depth (Nat.lt_of_lt_of_le hdepth hle)

theorem Session.HasRoom.opens {s : Session} {levels : Nat} (h : s.HasRoom levels)
    (source : Source) : ∀ depth < levels, (s.scope .one source).Opens depth := h

theorem Session.hasRoom_default {levels : Nat} (h : levels ≤ 1000) :
    ({} : Session).HasRoom levels := by
  intro depth hdepth
  have hlimit : depth < 1000 := Nat.lt_of_lt_of_le hdepth h
  refine ⟨hlimit, fun taken => Bool.and_eq_false_imp.2 fun _ => decide_eq_false ?_⟩
  have hbudget : ({} : Session).config.stackBudget = 1048576 := rfl
  rw [hbudget]
  show ¬1048576 < 1024 * (depth + 1)
  omega

/-- A statement that takes all tokens and keeps the rules is the answer. -/
theorem Session.parseTokens_statement (s : Session) (source : Source) {first : Token}
    {more : List Token} {fact : Tree → Prop}
    (hread : ∀ t ∈ first :: more, t.ReadFrom source) (hfirst : first.kind ≠ .semicolon)
    (hstatement : Gives (s.scope .one source) (first :: more)
      (statement (Nested.upTo (more.length + 1))) fun u r => fact u ∧ r = [])
    (hrules : ∀ u, fact u → validate source s.config.mode u = none) :
    ∃ t, (s.parseTokens source (first :: more)).1 = .ok t ∧ fact t := by
  obtain ⟨t, p, hrun, hfact, hp⟩ := hstatement (s.start (first :: more)) rfl
  generalize hstart : s.start (first :: more) = start at hrun
  have hrest : start.rest = first :: more := by rw [← hstart]; rfl
  have hpast : start.pastSemicolons = start := by
    unfold Progress.pastSemicolons
    rw [hrest, Progress.past, if_neg hfirst]
  have hnext : Script.nextStatement (s.scope .one source) start = .ok t p := by
    unfold Script.nextStatement
    rw [← hstart] at hrun ⊢
    exact hrun
  have hsingle : Script.single (s.scope .one source) start =
      .ok t p.pastSemicolons := by
    have hne : start.rest ≠ [] := hrest ▸ List.cons_ne_nil _ _
    rw [Script.single_run, hpast, hnext, if_neg hne]
    dsimp only
    rw [if_pos]
    rw [Script.rest_pastSemicolons, hp]
    rfl
  have hsound : start.Sound source [] := hstart ▸ Progress.start_sound hread _ _
  have heq := run_eq (s.scope .one source) (Law.single_keeps (Law.sound_allows source s.config)
    (Law.sound_serves source s.config)) hsound
  rw [hsingle] at heq
  refine ⟨t, ?_, hfact⟩
  unfold parseTokens finish
  rw [hstart, heq]
  show checked source s.config.mode t = .ok t
  rw [checked, hrules t hfact]

/-- `SELECT` and the tokens of an expression are answered with the statement that selects it. -/
theorem Session.parseTokens_select (s : Session) (source : Source) {select first : Token}
    {more : List Token} {fact : Tree → Prop} (hroom : s.HasRoom 2)
    (hread : ∀ t ∈ select :: first :: more, t.ReadFrom source)
    (hselect : select.kind = .keyword .SELECT) (hfirst : first.BeginsItem)
    (hdot : ∀ t ∈ first :: more, t.kind ≠ .dot)
    (hitem : Gives { s.scope .one source with depth := 2, context := some .selectList }
      (first :: more) ((Nested.upTo (more.length + 2)).expression 0) fun u r => fact u ∧ r = [])
    (hrules : ∀ u, fact u → u.Unruled) :
    ∃ t item, (s.parseTokens source (select :: first :: more)).1 = .ok t ∧ fact item ∧
      t.Selects item := by
  obtain ⟨t, hparse, item, hfact, ht⟩ := s.parseTokens_statement source hread
    (by rw [hselect]; decide)
    (statement_run rfl hroom hselect hfirst (startsStar_of_no_dot hdot) hitem) <| by
      rintro u ⟨item, hfact, hu⟩
      exact (hu.keepsRules (.of_unruled (hrules item hfact))).validate
  exact ⟨t, item, hparse, hfact, ht⟩

theorem Session.parseTokens_item (s : Session) (source : Source) {select first : Token}
    {more : List Token} {fact : Tree → Prop} (hroom : s.HasRoom 2)
    (hread : ∀ t ∈ select :: first :: more, t.ReadFrom source)
    (hselect : select.kind = .keyword .SELECT) (hfirst : first.Begins)
    (hdot : ∀ t ∈ first :: more, t.kind ≠ .dot)
    (hitem : Gives { s.scope .one source with depth := 2, context := some .selectList }
      (first :: more) ((Nested.upTo (more.length + 2)).expression 0) fun u r => fact u ∧ r = [])
    (hrules : ∀ u, fact u → u.Unruled) :
    ∃ t item, (s.parseTokens source (select :: first :: more)).1 = .ok t ∧ fact item ∧
      t.Selects item :=
  s.parseTokens_select source hroom hread hselect hfirst.item hdot hitem hrules

end SqlSyntax
