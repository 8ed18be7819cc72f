import SqlSyntax.Grammar.Expression
import SqlSyntax.Proofs.Grammar.Name

/-!
# The steps of expressions

The productions of operands make trees that may get children. An expression in parentheses is the
exception: in a compact tree it is what stood inside. The productions of operators choose the
children of their nodes, so they are put together from steps only where no kind is barred.
-/

namespace SqlSyntax

open SqlSyntax.Parser

variable {T : Terms}

/-- The tree may get children, unless it may have lost its parentheses. -/
def Terms.closed (T : Terms) (t : Tree) : Prop := T.config.compactTree = false → T.free t

namespace Expression

/-! ## Clauses -/

theorem nullsOrder_grows {item : Tree} (h : T.free item) : T.Grows item (nullsOrder item) := by
  unfold nullsOrder
  refine (Built.consumeKeyword .NULLS).read fun b _ => ?_
  cases b
  · exact .keep h
  · refine (Built.consumeKeyword .FIRST).read fun b _ => ?_
    cases b
    · exact (Built.expectKeyword .LAST).discard.read fun _ _ => .flag h _
    · exact .flag h _

theorem orderByItem_makes : T.Makes (orderByItem T.self) := by
  unfold orderByItem
  refine (Built.expression 0).make fun key _ => ?_
  refine (Built.nodeAbove .orderByItem key rfl).cover fun item hitem => ?_
  refine (Built.attachFree key hitem).join fun item hitem => ?_
  refine (direction_grows hitem).grow fun item hitem => ?_
  exact (nullsOrder_grows hitem).grow fun item hitem => .finish hitem

theorem orderBy_makes : T.Makes (orderBy T.self) := by
  unfold orderBy
  refine (Built.expectKeyword .ORDER).read fun t ht => ?_
  refine (Built.expectKeyword .BY).discard.read fun _ _ => ?_
  refine (Built.node .orderByClause ht rfl).make fun clause hclause => ?_
  refine (Built.within _ (.attachList orderByItem_makes.yields hclause)).grow fun clause h => ?_
  exact .finish h

theorem seesQuery_reads : T.Reads seesQuery fun _ => True := Built.seesOneOf _

theorem enclosedQuery_grows {node : Tree} (h : T.free node) :
    T.Grows node (enclosedQuery T.self node) := by
  unfold enclosedQuery
  refine (Built.within .subquery Built.query).make fun query _ => ?_
  refine (Built.attachFree query h).join fun node h => ?_
  exact (Built.expect _ _).discard.read fun _ _ => .finish h

theorem subquery_makes {kind : Kind} {opening : Token} (ho : T.known opening)
    (hk : kind.isOperator = false) : T.Makes (subquery T.self kind opening) := by
  unfold subquery
  refine (Built.node kind ho hk).make fun node hnode => ?_
  exact (Built.flag hnode _).grow fun node hnode => enclosedQuery_grows hnode

/-! ## Parentheses -/

theorem row_grows {opening : Token} (ho : T.known opening) (first : Tree) :
    T.Grows first (row T.self opening first) := by
  unfold row
  refine (Built.node .rowValue ho rfl).make fun node hnode => .swap ?_
  refine (Built.attachFree first hnode).join fun node hnode => ?_
  refine (Built.attachWhile (.afterComma? (Built.expression 0)) hnode).grow fun node hnode => ?_
  exact (Built.expect _ _).discard.read fun _ _ => .finish hnode

theorem enclosed_closed {opening : Token} (ho : T.known opening) (inner : Tree) :
    Built T [inner] (enclosed opening inner) one T.closed := by
  unfold enclosed
  refine .askIf (c := Config.compactTree) .compact (fun hc => ?_) fun _ => ?_
  · exact (Built.flagAny inner _).weaken fun _ _ h => by simp [hc] at h
  · refine (Built.node .parenExpr ho rfl).make fun node hnode => .swap ?_
    refine (Built.attachFree inner hnode).join fun node hnode => ?_
    exact (Built.finish hnode).weaken fun _ h _ => h

theorem parenthesized_closed : Built T [] (parenthesized T.self) one T.closed := by
  unfold parenthesized
  refine .deeper ?_
  refine (Built.expect _ _).read fun opening ho => seesQuery_reads.read fun b _ => ?_
  cases b
  · refine (Built.expression 0).make fun first _ => (Built.sees _).read fun b _ => ?_
    cases b
    · exact (Built.expect _ _).discard.read fun _ _ => enclosed_closed ho first
    · exact (row_grows ho first).weaken fun _ h _ => h
  · exact (subquery_makes ho rfl).weaken fun _ h _ => h

/-! ## Literals and calls -/

theorem literalKind?_isOperator {kind : TokenKind} {k : Kind} (h : literalKind? kind = some k) :
    k.isOperator = false := by
  unfold literalKind? at h
  split at h <;> cases h <;> rfl

theorem literal_makes {kind : Kind} {t : Token} (ht : T.known t) (hk : kind.isOperator = false) :
    T.Makes (literal kind t) := by
  unfold literal
  refine (Built.namedNode kind ht hk).make fun node hnode => ?_
  split
  · exact .amendFree (fun n => { n with dataType := some .boolean }) hnode fun _ =>
      ⟨⟨rfl, rfl, rfl, rfl, rfl⟩, rfl⟩
  · exact .keep hnode

theorem partition?_grows {node : Tree} (h : T.free node) :
    T.Grows node (partition? T.self node) := by
  unfold partition?
  refine (Built.takeKeyword? .PARTITION).read fun o ho => ?_
  rcases o with _ | t
  · exact .keep h
  · refine (Built.expectKeyword .BY).discard.read fun _ _ => ?_
    refine (Built.node .partitionByClause (ho t rfl) rfl).make fun clause hclause => ?_
    refine (Built.attachList (Built.expression 0) hclause).grow fun clause hclause => ?_
    exact (Built.finish hclause).grow fun clause _ => .attachFree clause h

theorem window_makes {word : Token} (hw : T.known word) : T.Makes (window T.self word) := by
  unfold window
  refine (Built.sees _).read fun b _ => ?_
  cases b
  · refine (Built.expectName _).read fun name hname => ?_
    refine (Built.bareNode .windowSpec hw rfl).make fun node hnode => ?_
    exact (Built.setBare hnode hname).grow fun node hnode => .finish hnode
  · refine Built.advance.discard.read fun _ _ => ?_
    refine (Built.node .windowSpec hw rfl).make fun node hnode => ?_
    refine (partition?_grows hnode).grow fun node hnode => ?_
    refine (Built.seesKeyword .ORDER).read fun b _ => ?_
    refine (Built.attachIf b orderBy_makes.yields hnode).grow fun node hnode => ?_
    exact (Built.expect _ _).discard.read fun _ _ => .finish hnode

theorem over?_grows {node : Tree} (h : T.free node) : T.Grows node (over? T.self node) := by
  unfold over?
  refine (Built.takeKeyword? .OVER).read fun o ho => ?_
  rcases o with _ | word
  · exact .keep h
  · exact (window_makes (ho word rfl)).make fun window _ => .attachFree window h

theorem arguments_grows {node : Tree} (h : T.free node) :
    T.Grows node (arguments T.self node) := by
  unfold arguments
  refine (Built.consume .star).read fun b _ => ?_
  cases b
  · refine (Built.sees _).read fun b _ => ?_
    cases b
    · refine (Built.consumeKeyword .DISTINCT).read fun b _ => ?_
      refine (Built.flagIf h b _).grow fun node h => ?_
      exact .within _ (.attachList (Built.expression 0) h)
    · exact .keep h
  · exact .flag h _

theorem call_makes : T.Makes (call T.self) := by
  unfold call
  refine Built.advance.read fun o ho => ?_
  rcases o with _ | name
  · exact .unexpected _
  · refine (Built.namedNode .functionCall (ho name rfl) rfl).make fun node hnode => ?_
    refine (Built.expect _ _).discard.read fun _ _ => ?_
    refine (arguments_grows hnode).grow fun node hnode => ?_
    refine (Built.expect _ _).discard.read fun _ _ => ?_
    exact (over?_grows hnode).grow fun node hnode => .finish hnode

/-- A cast gets its type once its operand is under it. -/
theorem setType_grows {node cast : Tree} {start : Nat} (hnode : node.Fresh .castExpr start)
    (hcast : cast.head.Kept node.head) : T.Grows cast (setType cast) := by
  have heq : setType cast = inscribeType (pure cast) >>= fun r => pure r.1 := by
    simp only [setType, inscribeType, pure_bind, bind_assoc, bind_pure]
  have hk : cast.kind = .castExpr := hcast.kind.trans hnode.kind
  rw [heq]
  refine Built.bind (.inscribeType typeName_reads (.done one cast rfl) ?_) ?_
  · rintro _ rfl
    exact ⟨hcast.blank hnode.blank, hk ▸ rfl⟩
  · rintro ⟨u, dataType⟩ ⟨_, rfl, hu⟩
    refine .keep ?_
    rw [Terms.free, show u.kind = .castExpr from hu.kind.trans hk]
    exact T.bars_operators _ rfl

theorem cast_makes : T.Makes (cast T.self) := by
  unfold cast
  refine (Built.expectKeyword .CAST).read fun t ht => ?_
  refine (Built.nodeAt .castExpr ht).make fun node hnode => ?_
  have hfree : T.free node := (Built.bare_of_fresh hnode rfl).1
  refine (Built.expect _ _).discard.read fun _ _ => ?_
  refine (Built.within _ (Built.expression 0)).make fun inner _ => ?_
  refine (Built.attachAny inner hfree).join fun _ hkept => ?_
  refine (Built.expectKeyword .AS).discard.read fun _ _ => ?_
  refine (setType_grows hnode hkept).grow fun node hnode => ?_
  exact (Built.expect _ _).discard.read fun _ _ => .finish hnode

theorem extract_makes : T.Makes (extract T.self) := by
  unfold extract
  refine (Built.expectKeyword .EXTRACT).read fun t ht => ?_
  refine (Built.bareNode .extractExpr ht rfl).make fun node hnode => ?_
  refine (Built.expect _ _).discard.read fun _ _ => ?_
  refine (Built.expectNamePart _).read fun field hfield => ?_
  refine (Built.setBare hnode hfield).grow fun node hnode => ?_
  refine (Built.expectKeyword .FROM).discard.read fun _ _ => ?_
  refine (Built.within _ (Built.expression 0)).make fun inner _ => ?_
  refine (Built.attachFree inner hnode).join fun node hnode => ?_
  exact (Built.expect _ _).discard.read fun _ _ => .finish hnode

/-! ## Cases -/

theorem whenArm?_perhaps : Built T [] (whenArm? T.self) perhaps fun _ => True := by
  unfold whenArm?
  refine (Built.takeKeyword? .WHEN).read fun o ho => ?_
  rcases o with _ | t
  · exact .done perhaps none trivial
  · refine (Built.node .whenClause (ho t rfl) rfl).make fun arm harm => ?_
    refine (Built.expression 0).make fun condition _ => ?_
    refine (Built.expectKeyword .THEN).discard.read fun _ _ => ?_
    refine (Built.expression 0).make fun result _ => .rotate ?_
    refine (Built.attachFree condition harm).join fun arm harm => .swap ?_
    refine (Built.attachFree result harm).join fun arm harm => ?_
    exact (Built.finish harm).grow fun arm _ => .done perhaps (some arm) trivial

theorem otherwise?_grows {node : Tree} (h : T.free node) :
    T.Grows node (otherwise? T.self node) := by
  unfold otherwise?
  refine (Built.takeKeyword? .ELSE).read fun o ho => ?_
  rcases o with _ | t
  · exact .keep h
  · refine (Built.node .elseClause (ho t rfl) rfl).make fun clause hclause => ?_
    refine (Built.expression 0).make fun result _ => ?_
    refine (Built.attachFree result hclause).join fun clause hclause => ?_
    exact (Built.finish hclause).grow fun clause _ => .attachFree clause h

theorem arms_grows {node : Tree} (h : T.free node) : T.Grows node (arms T.self node) := by
  unfold arms
  refine whenArm?_perhaps.step fun o _ => ?_
  rcases o with _ | arm
  · exact .unexpected _
  · exact (Built.attachFree arm h).join fun node h => .attachWhile whenArm?_perhaps h

theorem caseOf_makes : T.Makes (caseOf T.self) := by
  unfold caseOf
  refine (Built.expectKeyword .CASE).read fun t ht => ?_
  refine (Built.node .caseExpr ht rfl).make fun node hnode => ?_
  refine (Built.within _ ?_).grow fun node hnode => .finish hnode
  refine (Built.seesKeyword .WHEN).read fun b _ => ?_
  refine (Built.attachIf _ (Built.expression 0) hnode).grow fun node hnode => ?_
  refine (arms_grows hnode).grow fun node hnode => ?_
  refine (otherwise?_grows hnode).grow fun node hnode => ?_
  exact (Built.expectKeyword .END).discard.read fun _ _ => .keep hnode

/-! ## Calls with their own syntax -/

theorem existence_makes : T.Makes (existence T.self) := by
  unfold existence
  refine (Built.expectKeyword .EXISTS).read fun t ht => ?_
  refine (Built.node .existsExpr ht rfl).make fun node hnode => ?_
  exact (Built.expect _ _).discard.read fun _ _ => enclosedQuery_grows hnode

theorem position_makes : T.Makes (position T.self) := by
  unfold position
  refine Built.advance.read fun o ho => ?_
  rcases o with _ | t
  · exact .unexpected _
  · refine (Built.node .positionExpr (ho t rfl) rfl).make fun node hnode => ?_
    refine (Built.expect _ _).discard.read fun _ _ => ?_
    refine (Built.within _ ?_).grow fun node hnode =>
      (Built.expect _ _).discard.read fun _ _ => .finish hnode
    refine (Built.expression _).make fun needle _ => ?_
    refine (Built.expectKeyword .IN).discard.read fun _ _ => ?_
    refine (Built.expression 0).make fun haystack _ => .rotate ?_
    exact (Built.attachFree needle hnode).join fun node hnode => .swap (.attachFree haystack hnode)

theorem substringArguments_grows {node : Tree} (h : T.free node) :
    T.Grows node (substringArguments T.self node) := by
  unfold substringArguments
  refine (Built.expression 0).make fun text _ => ?_
  refine (Built.attachFree text h).join fun node h => ?_
  refine (Built.consumeKeyword .FROM).read fun b _ => ?_
  cases b
  · refine (Built.expect _ _).discard.read fun _ _ => ?_
    refine (Built.expression 0).make fun start _ => ?_
    refine (Built.attachFree start h).join fun node h => ?_
    exact (Built.consume .comma).read fun b _ => .attachIf b (Built.expression 0) h
  · refine (Built.expression 0).make fun start _ => ?_
    refine (Built.attachFree start h).join fun node h => ?_
    exact (Built.consumeKeyword .FOR).read fun b _ => .attachIf b (Built.expression 0) h

theorem substring_makes : T.Makes (substring T.self) := by
  unfold substring
  refine Built.advance.read fun o ho => ?_
  rcases o with _ | t
  · exact .unexpected _
  · refine (Built.node .substringExpr (ho t rfl) rfl).make fun node hnode => ?_
    refine (Built.expect _ _).discard.read fun _ _ => ?_
    refine (Built.within _ (substringArguments_grows hnode)).grow fun node hnode => ?_
    exact (Built.expect _ _).discard.read fun _ _ => .finish hnode

theorem named_makes (t : Token) : T.Makes (named T.self t) := by
  unfold named
  refine (Built.kindAt 1).read fun o _ => ?_
  split_ifs
  · exact columnReference_makes false
  · exact position_makes
  · exact substring_makes
  · exact call_makes

theorem primary_closed : Built T [] (primary T.self) one T.closed := by
  unfold primary
  refine Built.current.read fun o ho => ?_
  rcases o with _ | t
  · exact .unexpected _
  have hclosed : ∀ {p : Parser Tree}, T.Makes p → Built T [] p one T.closed :=
    fun hp => hp.weaken fun _ h _ => h
  dsimp only
  split
  · next hkind =>
    refine Built.advance.discard.read fun _ _ => hclosed ?_
    exact literal_makes (ho t rfl) (literalKind?_isOperator hkind)
  · split
    · exact parenthesized_closed
    · exact hclosed caseOf_makes
    · exact hclosed cast_makes
    · exact hclosed extract_makes
    · exact hclosed existence_makes
    · refine (Built.kindAt 1).read fun o _ => ?_
      split
      · exact hclosed call_makes
      · exact .unexpected _
    · refine (Built.kindAt 1).read fun o _ => ?_
      split
      · exact hclosed call_makes
      · exact .unexpected _
    · split
      · exact hclosed (named_makes t)
      · exact .unexpected _

/-! ## Operators -/

theorem listItems_grows {list : Tree} (h : T.free list) : T.Grows list (listItems T.self list) := by
  unfold listItems
  refine (Built.sees _).read fun b _ => ?_
  cases b
  · exact .attachList (Built.expression 0) h
  · exact .keep h

theorem memberList_makes {opening : Token} (ho : T.known opening) :
    T.Makes (memberList T.self opening) := by
  unfold memberList
  refine (Built.node .exprList ho rfl).make fun list hlist => ?_
  refine (listItems_grows hlist).grow fun list hlist => ?_
  exact (Built.expect _ _).discard.read fun _ _ => .finish hlist

theorem membership_grows (hin : T.bars .inExpr = false) (left : Tree) :
    T.Grows left (membership T.self left) := by
  unfold membership
  refine (Built.nodeOver .inExpr left).cover fun node hnode => ?_
  refine (Built.attachFree left (by rwa [Terms.free, hnode.kind])).join fun node hnode => ?_
  refine (Built.expect _ _).read fun opening ho => seesQuery_reads.read fun b _ => ?_
  cases b
  · exact (memberList_makes ho).make fun list _ => .attachFree list hnode
  · exact (subquery_makes ho rfl).make fun query _ => .attachFree query hnode

theorem signCast_grows (left : Tree) {t : Token} (ht : T.known t) :
    T.Grows left (signCast left t) := by
  unfold signCast
  refine .askIf (c := fun c => c.strictAnsi || !c.allowExtensions) (.refuse fun hc => ?_)
    (fun _ => .fail rfl ht) fun _ => ?_
  · simp only [Bool.or_eq_true, Bool.not_eq_true']
    exact Or.imp hc.strictAnsi fun h => Bool.eq_false_iff.2 fun h' => by
      simp [hc.allowExtensions h'] at h
  refine (Built.nodeOver .castExpr left).cover fun node hnode => ?_
  refine (Built.attachAny left (Built.bare_of_fresh hnode rfl).1).join fun _ hkept => ?_
  refine (setType_grows hnode hkept).grow fun node hnode => ?_
  exact .finish hnode

theorem collation_grows (left : Tree) : T.Grows left (collation left) := by
  unfold collation
  refine (Built.expectNamePart _).read fun name hname => ?_
  refine (Built.bareAbove .collateExpr left rfl).cover fun node hnode => .swap ?_
  refine (Built.setBare hnode hname).grow fun node hnode => .swap ?_
  exact (Built.attachFree left hnode).join fun node hnode => .finish hnode

/-- What follows the token of an operator after its operand. -/
theorem afterTrailing_grows (left : Tree) {t : Token} (ht : T.known t) :
    T.Grows left (if t.kind == .doubleColon then signCast left t else collation left) := by
  split
  · exact signCast_grows left ht
  · exact collation_grows left

theorem trailing_grows (left : Tree) {t : Token} (ht : T.known t) :
    T.Grows left (trailing left t) :=
  Built.advance.discard.read fun _ _ => afterTrailing_grows left ht

section Unbarred

variable (hT : ∀ k, T.bars k = false)

include hT

theorem unary_makes {t : Token} (ht : T.known t) (power : Nat) :
    T.Makes (unary T.self t power) := by
  unfold unary
  refine (Built.expression power).make fun inner _ => ?_
  refine (Built.nodeAt .unaryExpr ht).make fun node _ => ?_
  refine (Built.amendFree (fun n => { n with operator := (UnaryOp.ofToken? t.kind).map .unary })
    (hT _) fun _ => ⟨⟨rfl, rfl, rfl, rfl, rfl⟩, rfl⟩).grow fun node hnode => .swap ?_
  exact (Built.attachFree inner hnode).join fun node hnode => .finish hnode

theorem operand_yields : T.Yields (operand T.self) := by
  unfold operand
  refine Built.current.read fun o ho => ?_
  rcases o with _ | t
  · exact .unexpected _
  dsimp only
  split
  · exact primary_closed.weaken fun _ _ => trivial
  · refine Built.advance.discard.read fun _ _ => (Built.seesKeyword .EXISTS).read fun b _ => ?_
    split
    · exact existence_makes.make fun node h => (Built.flag h _).yields
    · exact (unary_makes hT (ho t rfl) _).yields

theorem range_grows (left : Tree) (power : Nat) : T.Grows left (range T.self left power) := by
  unfold range
  refine (Built.nodeOver .betweenExpr left).cover fun node _ => ?_
  refine (Built.expression power).make fun low _ => ?_
  refine (Built.expectKeyword .AND).discard.read fun _ _ => ?_
  refine (Built.expression power).make fun high _ => ?_
  refine .reorder ?_ (List.perm_append_comm : ([high, low] ++ [left, node]).Perm _)
  refine (Built.attachFree left (hT _)).join fun node hnode => .rotate (.rotate ?_)
  exact (Built.attachFree low hnode).join fun node hnode => .swap (.attachFree high hnode)

theorem setOperator_grows (node : Tree) (op : BinaryOp) : T.Grows node (setOperator node op) :=
  .amendFree (fun n => { n with operator := some (.binary op) }) (hT _) fun _ =>
    ⟨⟨rfl, rfl, rfl, rfl, rfl⟩, rfl⟩

theorem likeness_grows (left : Tree) (op : BinaryOp) (power : Nat) :
    T.Grows left (likeness T.self left op power) := by
  unfold likeness
  refine (Built.nodeOver .likeExpr left).cover fun node _ => .swap ?_
  refine (setOperator_grows hT node op).grow fun node hnode => ?_
  refine (Built.expression power).make fun pattern _ => .rotate (.swap ?_)
  refine (Built.attachFree left hnode).join fun node hnode => .swap ?_
  refine (Built.attachFree pattern hnode).join fun node hnode => ?_
  exact (Built.consumeKeyword _).read fun b _ => .attachIf b (Built.expression power) hnode

theorem identity_grows (left : Tree) (power : Nat) :
    T.Grows left (identity T.self left power) := by
  unfold identity
  refine (Built.nodeOver .isExpr left).cover fun node _ => .swap ?_
  refine (setOperator_grows hT node .is).grow fun node hnode => ?_
  refine (Built.consumeKeyword _).read fun negated _ => ?_
  refine (Built.expression power).make fun right _ => .rotate (.swap ?_)
  refine (Built.attachFree left hnode).join fun node hnode => .swap ?_
  exact (Built.attachFree right hnode).join fun node hnode => .flagIf hnode negated _

theorem binary_grows (left : Tree) {t : Token} (ht : T.known t) (power : Nat) :
    T.Grows left (binary T.self left t power) := by
  unfold binary
  refine .askIf (c := fun c => c.strictAnsi && (t.text == "==" || t.text == "!="))
    (.refuse fun hc => ?_) (fun _ => .fail rfl ht) fun _ => ?_
  · rw [Bool.and_eq_true, Bool.and_eq_true]
    exact And.imp_left hc.strictAnsi
  split
  · exact .fail rfl ht
  · next op _ =>
    refine (Built.expression power).make fun right _ => .swap ?_
    refine (Built.nodeOver .binaryExpr left).cover fun node _ => .swap ?_
    refine (setOperator_grows hT node op).grow fun node hnode => .swap ?_
    exact (Built.attachFree left hnode).join fun node hnode => .swap (.attachFree right hnode)

theorem application_grows (left : Tree) {op : Token} (ho : T.known op) (power : Nat) :
    T.Grows left (application T.self left op power) := by
  unfold application
  split
  · exact membership_grows (hT _) left
  · exact range_grows hT left power
  · exact likeness_grows hT left .like power
  · exact likeness_grows hT left .glob power
  · exact identity_grows hT left power
  · exact binary_grows hT left ho power

/-- What follows the first token of an operator between two operands. -/
theorem afterJoining_grows (left : Tree) {t : Token} (ht : T.known t) (power : Nat) :
    T.Grows left (do
      if t.kind == .keyword .NOT then
        let some op ← advance | unexpected "IN, LIKE, GLOB or BETWEEN"
        finish (← flag (← application T.self left op power) .negated)
      else finish (← application T.self left t power)) := by
  split
  · refine Built.advance.read fun o ho => ?_
    rcases o with _ | op
    · exact .unexpected _
    · refine (application_grows hT left (ho op rfl) power).grow fun node hnode => ?_
      exact (Built.flag hnode _).grow fun node hnode => .finish hnode
  · exact (application_grows hT left ht power).grow fun node hnode => .finish hnode

theorem joining_grows (left : Tree) {t : Token} (ht : T.known t) (power : Nat) :
    T.Grows left (joining T.self left t power) :=
  Built.advance.discard.read fun _ _ => afterJoining_grows hT left ht power

theorem grow?_grows (power : Nat) (left : Tree) :
    Built T [left] (grow? T.self power left) (fun o => [o.getD left]) fun _ => True := by
  have hkeep : Built T [left] (pure none) (fun o : Option Tree => [o.getD left]) fun _ => True :=
    .done (fun o : Option Tree => [o.getD left]) none trivial
  have hsome : ∀ t : Tree, Built T [t] (pure (some t)) (fun o => [o.getD left]) fun _ => True :=
    fun t => .done (fun o : Option Tree => [o.getD left]) (some t) trivial
  unfold grow?
  refine Built.current.read fun o ho => ?_
  rcases o with _ | t
  · exact hkeep
  dsimp only
  split
  · split
    · exact hkeep
    · exact (trailing_grows left (ho t rfl)).grow fun t _ => hsome t
  · refine (Built.kindAt 1).read fun next _ => ?_
    split
    · split
      · exact hkeep
      · exact (joining_grows hT left (ho t rfl) _).grow fun t _ => hsome t
    · exact hkeep

end Unbarred

end Expression

theorem expression_yields (hT : ∀ k, T.bars k = false) (power : Nat) :
    T.Yields (expression T.self power) := by
  unfold expression
  refine .deeper ?_
  refine (Expression.operand_yields hT).make fun t _ => ?_
  refine .iterate one (fun t _ => ?_) trivial
  exact (Expression.grow?_grows hT power t).weaken fun _ _ _ _ => trivial

end SqlSyntax
