import SqlSyntax.Grammar.Expression
import SqlSyntax.Proofs.Boundary.Name

/-!
# Expressions inside a statement

Operands and operators with their parentheses. Some productions take the token that their caller
has seen: the name of a call, the sign before an operand, the operator after one.
-/

namespace SqlSyntax

open SqlSyntax.Parser SqlSyntax.Boundary

variable {B : Boundary} {d : Nat} {self : Nested}

namespace Expression

/-! ## Clauses -/

theorem nullsOrder_stays (item : Tree) : B.Stays d (nullsOrder item) := by
  unfold nullsOrder
  refine (Leads.consumeKeyword .NULLS).bind fun b => ?_
  cases b
  · exact .answer item
  · refine (Leads.consumeKeyword .FIRST).bind fun b => ?_
    cases b
    · exact (Leads.expectKeyword .LAST).discard.bind fun _ => .flag item _
    · exact .flag item _

theorem orderByItem_stays (hself : B.Serves self) : B.Stays d (orderByItem self) := by
  unfold orderByItem
  refine (hself.expression 0).bind fun key => ?_
  refine (Leads.nodeOver .orderByItem key).bind fun item => ?_
  refine (Leads.attach item key).bind fun item => ?_
  refine (direction_stays item).bind fun item => ?_
  exact (nullsOrder_stays item).bind fun item => .finish item

theorem orderBy_stays (hself : B.Serves self) : B.Stays d (orderBy self) := by
  unfold orderBy
  refine (Leads.expectKeyword .ORDER).bind fun t => ?_
  refine (Leads.expectKeyword .BY).discard.bind fun _ => ?_
  refine (Leads.nodeAt .orderByClause t).bind fun clause => ?_
  refine (Leads.within _ (.attachList (orderByItem_stays hself) clause)).bind fun clause => ?_
  exact .finish clause

/-- A query before the parenthesis that closes it. -/
theorem enclosedQuery_closes (hself : B.Serves self) (node : Tree) :
    B.Leads (B.Inside (d + 1)) (enclosedQuery self node) fun _ => B.Inside d := by
  unfold enclosedQuery
  refine (Leads.within .subquery hself.query).bind fun query => ?_
  refine (Leads.attach node query).bind fun node => ?_
  exact (Leads.closes _).bind fun _ => .finish node

theorem subquery_closes (hself : B.Serves self) (kind : Kind) (opening : Token) :
    B.Leads (B.Inside (d + 1)) (subquery self kind opening) fun _ => B.Inside d := by
  unfold subquery
  refine (Leads.nodeAt kind opening).bind fun node => ?_
  exact (Leads.flag node _).bind fun node => enclosedQuery_closes hself node

/-! ## Parentheses -/

theorem row_closes (hself : B.Serves self) (opening : Token) (first : Tree) :
    B.Leads (B.Inside (d + 1)) (row self opening first) fun _ => B.Inside d := by
  unfold row
  refine (Leads.nodeAt .rowValue opening).bind fun node => ?_
  refine (Leads.attach node first).bind fun node => ?_
  refine (Leads.attachWhile (.afterComma? (hself.expression 0)) node).bind fun node => ?_
  exact (Leads.closes _).bind fun _ => .finish node

theorem enclosed_stays (opening : Token) (inner : Tree) : B.Stays d (enclosed opening inner) := by
  unfold enclosed
  refine .askIf (c := Config.compactTree) (.flag inner _) ?_
  refine (Leads.nodeAt .parenExpr opening).bind fun node => ?_
  exact (Leads.attach node inner).bind fun node => .finish node

theorem parenthesized_stays (hself : B.Serves self) : B.Stays d (parenthesized self) := by
  unfold parenthesized
  refine .deeper ?_
  refine (Leads.opens _).bind fun opening => (Leads.seesOneOf _).bind fun b => ?_
  cases b
  · refine (hself.expression 0).bind fun first => (Leads.sees _).bind fun b => ?_
    cases b
    · exact (Leads.closes _).bind fun _ => enclosed_stays opening first
    · exact row_closes hself opening first
  · exact subquery_closes hself _ opening

/-! ## Literals and calls -/

theorem isInner_of_literalKind? {kind : TokenKind} {k : Kind} (h : literalKind? kind = some k) :
    kind.isInner := by
  unfold literalKind? at h
  split at h <;> first | rfl | cases h

theorem literal_stays (kind : Kind) (t : Token) : B.Stays d (literal kind t) := by
  unfold literal
  refine (Leads.namedNode kind t).bind fun node => ?_
  split
  · exact .amend node _
  · exact .answer node

theorem partition?_stays (hself : B.Serves self) (node : Tree) :
    B.Stays d (partition? self node) := by
  unfold partition?
  refine (Leads.takeKeyword? .PARTITION).bind fun o => ?_
  rcases o with _ | t
  · exact .answer node
  · refine (Leads.expectKeyword .BY).discard.bind fun _ => ?_
    refine (Leads.nodeAt .partitionByClause t).bind fun clause => ?_
    refine (Leads.attachList (hself.expression 0) clause).bind fun clause => ?_
    exact (Leads.finish clause).bind fun clause => .attach node clause

theorem window_stays (hself : B.Serves self) (word : Token) : B.Stays d (window self word) := by
  unfold window
  refine .ifSees .leftParen ?_ ?_
  · refine (Leads.take .opening).discard.bind fun _ => ?_
    refine (Leads.nodeAt .windowSpec word).bind fun node => ?_
    refine (partition?_stays hself node).bind fun node => ?_
    refine (Leads.seesKeyword .ORDER).bind fun b => ?_
    refine (Leads.attachIf b (orderBy_stays hself) node).bind fun node => ?_
    exact (Leads.closes _).bind fun _ => .finish node
  · refine (Leads.expectName _).bind fun name => ?_
    refine (Leads.nodeAt .windowSpec word).bind fun node => ?_
    exact (Leads.setText node name).bind fun node => .finish node

theorem over?_stays (hself : B.Serves self) (node : Tree) : B.Stays d (over? self node) := by
  unfold over?
  refine (Leads.takeKeyword? .OVER).bind fun o => ?_
  rcases o with _ | word
  · exact .answer node
  · exact (window_stays hself word).bind fun window => .attach node window

theorem arguments_stays (hself : B.Serves self) (node : Tree) :
    B.Stays d (arguments self node) := by
  unfold arguments
  refine (Leads.consume_inner rfl).bind fun b => ?_
  cases b
  · refine (Leads.sees _).bind fun b => ?_
    cases b
    · refine (Leads.consumeKeyword .DISTINCT).bind fun b => ?_
      refine (Leads.flagIf b _ node).bind fun node => ?_
      exact .within _ (.attachList (hself.expression 0) node)
    · exact .answer node
  · exact .flag node _

/-- A call whose first token is seen to be an inner one. -/
theorem call_leads (hself : B.Serves self) {kind : TokenKind} (hk : kind.isInner) :
    B.Leads (B.At d kind) (call self) fun _ => B.Inside d := by
  unfold call
  refine (Leads.takeInner hk).bind fun o => ?_
  rcases o with _ | name
  · exact .unexpected _
  · refine (Leads.namedNode .functionCall name).bind fun node => ?_
    refine (Leads.opens _).discard.bind fun _ => ?_
    refine (arguments_stays hself node).bind fun node => ?_
    refine (Leads.closes _).bind fun _ => ?_
    exact (over?_stays hself node).bind fun node => .finish node

theorem setType_stays (node : Tree) : B.Stays d (setType node) := by
  unfold setType
  refine typeName_stays.bind ?_
  rintro ⟨text, dataType⟩
  exact .amend node _

theorem cast_stays (hself : B.Serves self) : B.Stays d (cast self) := by
  unfold cast
  refine (Leads.expectKeyword .CAST).bind fun t => ?_
  refine (Leads.nodeAt .castExpr t).bind fun node => ?_
  refine (Leads.opens _).discard.bind fun _ => ?_
  refine (Leads.within _ (hself.expression 0)).bind fun inner => ?_
  refine (Leads.attach node inner).bind fun node => ?_
  refine (Leads.expectKeyword .AS).discard.bind fun _ => ?_
  refine (setType_stays node).bind fun node => ?_
  exact (Leads.closes _).bind fun _ => .finish node

theorem extract_stays (hself : B.Serves self) : B.Stays d (extract self) := by
  unfold extract
  refine (Leads.expectKeyword .EXTRACT).bind fun t => ?_
  refine (Leads.nodeAt .extractExpr t).bind fun node => ?_
  refine (Leads.opens _).discard.bind fun _ => ?_
  refine (Leads.expectNamePart _).bind fun field => ?_
  refine (Leads.setText node field).bind fun node => ?_
  refine (Leads.expectKeyword .FROM).discard.bind fun _ => ?_
  refine (Leads.within _ (hself.expression 0)).bind fun inner => ?_
  refine (Leads.attach node inner).bind fun node => ?_
  exact (Leads.closes _).bind fun _ => .finish node

/-! ## Cases -/

theorem whenArm?_stays (hself : B.Serves self) : B.Stays d (whenArm? self) := by
  unfold whenArm?
  refine (Leads.takeKeyword? .WHEN).bind fun o => ?_
  rcases o with _ | t
  · exact .answer _
  · refine (Leads.nodeAt .whenClause t).bind fun arm => ?_
    refine (hself.expression 0).bind fun condition => ?_
    refine (Leads.expectKeyword .THEN).discard.bind fun _ => ?_
    refine (hself.expression 0).bind fun result => ?_
    refine (Leads.attach arm condition).bind fun arm => ?_
    refine (Leads.attach arm result).bind fun arm => ?_
    exact (Leads.finish arm).bind fun arm => .answer _

theorem otherwise?_stays (hself : B.Serves self) (node : Tree) :
    B.Stays d (otherwise? self node) := by
  unfold otherwise?
  refine (Leads.takeKeyword? .ELSE).bind fun o => ?_
  rcases o with _ | t
  · exact .answer node
  · refine (Leads.nodeAt .elseClause t).bind fun clause => ?_
    refine (hself.expression 0).bind fun result => ?_
    refine (Leads.attach clause result).bind fun clause => ?_
    exact (Leads.finish clause).bind fun clause => .attach node clause

theorem arms_stays (hself : B.Serves self) (node : Tree) : B.Stays d (arms self node) := by
  unfold arms
  refine (whenArm?_stays hself).bind fun o => ?_
  rcases o with _ | arm
  · exact .unexpected _
  · exact (Leads.attach node arm).bind fun node => .attachWhile (whenArm?_stays hself) node

theorem caseOf_stays (hself : B.Serves self) : B.Stays d (caseOf self) := by
  unfold caseOf
  refine (Leads.expectKeyword .CASE).bind fun t => ?_
  refine (Leads.nodeAt .caseExpr t).bind fun node => ?_
  refine (Leads.within _ ?_).bind fun node => .finish node
  refine (Leads.seesKeyword .WHEN).bind fun b => ?_
  refine (Leads.attachIf _ (hself.expression 0) node).bind fun node => ?_
  refine (arms_stays hself node).bind fun node => ?_
  refine (otherwise?_stays hself node).bind fun node => ?_
  exact (Leads.expectKeyword .END).discard.bind fun _ => .answer node

/-! ## Calls with their own syntax -/

theorem existence_stays (hself : B.Serves self) : B.Stays d (existence self) := by
  unfold existence
  refine (Leads.expectKeyword .EXISTS).bind fun t => ?_
  refine (Leads.nodeAt .existsExpr t).bind fun node => ?_
  exact (Leads.opens _).discard.bind fun _ => enclosedQuery_closes hself node

theorem position_leads (hself : B.Serves self) {kind : TokenKind} (hk : kind.isInner) :
    B.Leads (B.At d kind) (position self) fun _ => B.Inside d := by
  unfold position
  refine (Leads.takeInner hk).bind fun o => ?_
  rcases o with _ | t
  · exact .unexpected _
  · refine (Leads.nodeAt .positionExpr t).bind fun node => ?_
    refine (Leads.opens _).discard.bind fun _ => ?_
    refine (Leads.within _ ?_).bind fun node => (Leads.closes _).bind fun _ => .finish node
    refine (hself.expression _).bind fun needle => ?_
    refine (Leads.expectKeyword .IN).discard.bind fun _ => ?_
    refine (hself.expression 0).bind fun haystack => ?_
    exact (Leads.attach node needle).bind fun node => .attach node haystack

theorem substringArguments_stays (hself : B.Serves self) (node : Tree) :
    B.Stays d (substringArguments self node) := by
  unfold substringArguments
  refine (hself.expression 0).bind fun text => ?_
  refine (Leads.attach node text).bind fun node => ?_
  refine (Leads.consumeKeyword .FROM).bind fun b => ?_
  cases b
  · refine (Leads.expect (.inner rfl) _).discard.bind fun _ => ?_
    refine (hself.expression 0).bind fun start => ?_
    refine (Leads.attach node start).bind fun node => ?_
    exact (Leads.consume_inner rfl).bind fun b => .attachIf b (hself.expression 0) node
  · refine (hself.expression 0).bind fun start => ?_
    refine (Leads.attach node start).bind fun node => ?_
    exact (Leads.consumeKeyword .FOR).bind fun b => .attachIf b (hself.expression 0) node

theorem substring_leads (hself : B.Serves self) {kind : TokenKind} (hk : kind.isInner) :
    B.Leads (B.At d kind) (substring self) fun _ => B.Inside d := by
  unfold substring
  refine (Leads.takeInner hk).bind fun o => ?_
  rcases o with _ | t
  · exact .unexpected _
  · refine (Leads.nodeAt .substringExpr t).bind fun node => ?_
    refine (Leads.opens _).discard.bind fun _ => ?_
    refine (Leads.within _ (substringArguments_stays hself node)).bind fun node => ?_
    exact (Leads.closes _).bind fun _ => .finish node

theorem named_leads (hself : B.Serves self) {t : Token} (ht : t.isName) :
    B.Leads (B.At d t.kind) (named self t) fun _ => B.Inside d := by
  have hk := isInner_of_isName ht
  unfold named
  refine (Leads.kindAt 1).bind fun o => ?_
  split_ifs
  · exact .seen (columnReference_stays false)
  · exact position_leads hself hk
  · exact substring_leads hself hk
  · exact call_leads hself hk

theorem primary_stays (hself : B.Serves self) : B.Stays d (primary self) := by
  unfold primary
  refine .current fun t _ => ?_
  dsimp only
  split
  · next hkind =>
    refine (Leads.takeInner (isInner_of_literalKind? hkind)).discard.bind fun _ => ?_
    exact literal_stays _ t
  · have hcall (o : Option TokenKind) (hk : t.kind.isInner) : B.Leads (B.At d t.kind)
        (if o == some .leftParen then call self else unexpected "expression")
        fun _ => B.Inside d := by
      split
      · exact call_leads hself hk
      · exact .unexpected _
    split
    · exact .seen (parenthesized_stays hself)
    · exact .seen (caseOf_stays hself)
    · exact .seen (cast_stays hself)
    · exact .seen (extract_stays hself)
    · exact .seen (existence_stays hself)
    · next hk => exact (Leads.kindAt 1).bind fun o => hcall o (by rw [hk]; rfl)
    · next hk => exact (Leads.kindAt 1).bind fun o => hcall o (by rw [hk]; rfl)
    · split
      · next hname => exact named_leads hself hname
      · exact .unexpected _

/-! ## Operators -/

theorem unary_stays (hself : B.Serves self) (t : Token) (power : Nat) :
    B.Stays d (unary self t power) := by
  unfold unary
  refine (hself.expression power).bind fun inner => ?_
  refine (Leads.nodeAt .unaryExpr t).bind fun node => ?_
  refine (Leads.amend node _).bind fun node => ?_
  exact (Leads.attach node inner).bind fun node => .finish node

theorem isInner_of_leading? {kind : TokenKind} {power : Nat}
    (h : Power.leading? kind = some power) : kind.isInner := by
  unfold Power.leading? at h
  split at h <;> first | rfl | cases h

theorem operand_stays (hself : B.Serves self) : B.Stays d (operand self) := by
  unfold operand
  refine .current fun t _ => ?_
  dsimp only
  split
  · exact .seen (primary_stays hself)
  · next hleading =>
    refine (Leads.takeInner (isInner_of_leading? hleading)).discard.bind fun _ => ?_
    refine (Leads.seesKeyword .EXISTS).bind fun b => ?_
    split
    · exact (existence_stays hself).bind fun node => .flag node _
    · exact unary_stays hself t _

theorem listItems_stays (hself : B.Serves self) (list : Tree) :
    B.Stays d (listItems self list) := by
  unfold listItems
  refine (Leads.sees _).bind fun b => ?_
  cases b
  · exact .attachList (hself.expression 0) list
  · exact .answer list

theorem memberList_closes (hself : B.Serves self) (opening : Token) :
    B.Leads (B.Inside (d + 1)) (memberList self opening) fun _ => B.Inside d := by
  unfold memberList
  refine (Leads.nodeAt .exprList opening).bind fun list => ?_
  refine (listItems_stays hself list).bind fun list => ?_
  exact (Leads.closes _).bind fun _ => .finish list

theorem membership_stays (hself : B.Serves self) (left : Tree) :
    B.Stays d (membership self left) := by
  unfold membership
  refine (Leads.nodeOver .inExpr left).bind fun node => ?_
  refine (Leads.attach node left).bind fun node => ?_
  refine (Leads.opens _).bind fun opening => (Leads.seesOneOf _).bind fun b => ?_
  cases b
  · exact (memberList_closes hself opening).bind fun list => .attach node list
  · exact (subquery_closes hself _ opening).bind fun query => .attach node query

theorem range_stays (hself : B.Serves self) (left : Tree) (power : Nat) :
    B.Stays d (range self left power) := by
  unfold range
  refine (Leads.nodeOver .betweenExpr left).bind fun node => ?_
  refine (hself.expression power).bind fun low => ?_
  refine (Leads.expectKeyword .AND).discard.bind fun _ => ?_
  refine (hself.expression power).bind fun high => ?_
  refine (Leads.attach node left).bind fun node => ?_
  exact (Leads.attach node low).bind fun node => .attach node high

theorem setOperator_stays (node : Tree) (op : BinaryOp) : B.Stays d (setOperator node op) :=
  .amend node _

theorem likeness_stays (hself : B.Serves self) (left : Tree) (op : BinaryOp) (power : Nat) :
    B.Stays d (likeness self left op power) := by
  unfold likeness
  refine (Leads.nodeOver .likeExpr left).bind fun node => ?_
  refine (setOperator_stays node op).bind fun node => ?_
  refine (hself.expression power).bind fun pattern => ?_
  refine (Leads.attach node left).bind fun node => ?_
  refine (Leads.attach node pattern).bind fun node => ?_
  exact (Leads.consumeKeyword _).bind fun b => .attachIf b (hself.expression power) node

theorem identity_stays (hself : B.Serves self) (left : Tree) (power : Nat) :
    B.Stays d (identity self left power) := by
  unfold identity
  refine (Leads.nodeOver .isExpr left).bind fun node => ?_
  refine (setOperator_stays node .is).bind fun node => ?_
  refine (Leads.consumeKeyword _).bind fun negated => ?_
  refine (hself.expression power).bind fun right => ?_
  refine (Leads.attach node left).bind fun node => ?_
  exact (Leads.attach node right).bind fun node => .flagIf negated _ node

theorem binary_stays (hself : B.Serves self) (left : Tree) (t : Token) (power : Nat) :
    B.Stays d (binary self left t power) := by
  unfold binary
  refine .askIf (c := fun c => c.strictAnsi && (t.text == "==" || t.text == "!=")) (.fail _) ?_
  split
  · exact .fail _
  · next op _ =>
    refine (hself.expression power).bind fun right => ?_
    refine (Leads.nodeOver .binaryExpr left).bind fun node => ?_
    refine (setOperator_stays node op).bind fun node => ?_
    exact (Leads.attach node left).bind fun node => .attach node right

theorem application_stays (hself : B.Serves self) (left : Tree) (op : Token) (power : Nat) :
    B.Stays d (application self left op power) := by
  unfold application
  split
  · exact membership_stays hself left
  · exact range_stays hself left power
  · exact likeness_stays hself left .like power
  · exact likeness_stays hself left .glob power
  · exact identity_stays hself left power
  · exact binary_stays hself left op power

theorem isInner_of_joining? {kind : TokenKind} {next : Option TokenKind} {powers : Nat × Nat}
    (h : Power.joining? kind next = some powers) : kind.isInner := by
  unfold Power.joining? at h
  split at h <;> first | rfl | cases h

theorem exists_of_negates {next : Option TokenKind} (h : Power.negates next) :
    ∃ kind, next = some kind ∧ kind.isInner := by
  unfold Power.negates at h
  split at h <;> first | exact ⟨_, rfl, rfl⟩ | cases h

/-- The operator was seen with the token after it, which is taken too if it is negated. -/
theorem joining_leads (hself : B.Serves self) (left : Tree) {t : Token} {next : Option TokenKind}
    {powers : Nat × Nat} (h : Power.joining? t.kind next = some powers) (power : Nat) :
    B.Leads (fun ts => B.At d t.kind ts ∧ ts[1]?.map Token.kind = next)
      (joining self left t power) fun _ => B.Inside d := by
  unfold joining
  by_cases hnot : t.kind = .keyword .NOT
  · have hnegates : Power.negates next := by
      rw [hnot] at h
      by_contra hnegates
      simp [Power.joining?, hnegates] at h
    obtain ⟨kind, rfl, hkind⟩ := exists_of_negates hnegates
    refine (Leads.takeFirst (by rw [hnot]; rfl)).discard.bind fun _ => ?_
    rw [if_pos (beq_iff_eq.2 hnot)]
    refine (Leads.takeInner hkind).bind fun o => ?_
    rcases o with _ | op
    · exact .unexpected _
    · refine (application_stays hself left op power).bind fun node => ?_
      exact (Leads.flag node _).bind fun node => .finish node
  · refine .after (fun ts h => h.1) ?_
    refine (Leads.takeInner (isInner_of_joining? h)).discard.bind fun _ => ?_
    rw [if_neg fun heq => hnot (eq_of_beq heq)]
    exact (application_stays hself left t power).bind fun node => .finish node

theorem signCast_stays (left : Tree) (t : Token) : B.Stays d (signCast left t) := by
  unfold signCast
  refine .askIf (c := fun c => c.strictAnsi || !c.allowExtensions) (.fail _) ?_
  refine (Leads.nodeOver .castExpr left).bind fun node => ?_
  refine (Leads.attach node left).bind fun node => ?_
  exact (setType_stays node).bind fun node => .finish node

theorem collation_stays (left : Tree) : B.Stays d (collation left) := by
  unfold collation
  refine (Leads.expectNamePart _).bind fun name => ?_
  refine (Leads.nodeOver .collateExpr left).bind fun node => ?_
  refine (Leads.setText node name).bind fun node => ?_
  exact (Leads.attach node left).bind fun node => .finish node

theorem isInner_of_trailing? {kind : TokenKind} {power : Nat}
    (h : Power.trailing? kind = some power) : kind.isInner := by
  unfold Power.trailing? at h
  split at h <;> first | rfl | cases h

theorem trailing_leads (left : Tree) {t : Token} {power : Nat}
    (h : Power.trailing? t.kind = some power) :
    B.Leads (B.At d t.kind) (trailing left t) fun _ => B.Inside d := by
  unfold trailing
  refine (Leads.takeInner (isInner_of_trailing? h)).discard.bind fun _ => ?_
  split
  · exact signCast_stays left t
  · exact collation_stays left

theorem grow?_stays (hself : B.Serves self) (power : Nat) (left : Tree) :
    B.Stays d (grow? self power left) := by
  unfold grow?
  refine .current fun t _ => ?_
  dsimp only
  split
  · next htrailing =>
    split
    · exact .seen (.answer _)
    · exact (trailing_leads left htrailing).bind fun _ => .answer _
  · refine (Leads.look fun ts => ts[1]?.map Token.kind).bind fun next => ?_
    refine .after (fun ts h => (⟨h.2, h.1.symm⟩ :
      B.At d t.kind ts ∧ ts[1]?.map Token.kind = next)) ?_
    split
    · next l r hjoining =>
      split
      · exact .pure fun ts h => h.1.1
      · exact (joining_leads hself left hjoining r).bind fun _ => .answer _
    · exact .pure fun ts h => h.1.1

end Expression

theorem expression_stays (hself : B.Serves self) (power : Nat) :
    B.Stays d (expression self power) := by
  unfold expression
  refine .deeper ((Expression.operand_stays hself).bind fun t => ?_)
  exact .iterate (Expression.grow?_stays hself power) t

end SqlSyntax
