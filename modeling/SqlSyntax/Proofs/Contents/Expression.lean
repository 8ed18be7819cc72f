import SqlSyntax.Grammar.Expression
import SqlSyntax.Proofs.Contents.Answers
import SqlSyntax.Proofs.Levels
import SqlSyntax.Proofs.Runs

/-!
# The places of expressions

Each production of an expression fills the places of the node that it makes, and expressions stand
wherever an expression is asked for. That a row has two expressions or more is not told by its own
production: it is entered at a comma.
-/

namespace SqlSyntax

open SqlSyntax.Parser SqlSyntax.Tree

variable {t : Tree} {k : Kind} {P : Tree → Prop}

/-- The productions that occur inside one another answer complete trees of their sort. -/
structure Nested.Fits (inner : Nested) : Prop where
  expression : ∀ power, Answers (inner.expression power) (Fit isExpression)
  query : Answers inner.query (Fit (·.kind.isQuery))
  joinTree : Answers inner.joinTree (Fit (·.kind.isTable))
  statement : Answers inner.statement Complete

/-! ## Names -/

theorem objectName_answers (kind : Kind) : Answers (objectName kind) (Over kind) := by
  unfold objectName
  refine .skip fun first => .skip fun others => ?_
  refine (Answers.nodeAt kind first).bind fun node hnode => .skip fun texts => ?_
  refine .bind (.amendLasting lasting_over hnode.toOver fun _ => ⟨rfl, rfl, rfl, rfl⟩) ?_
  exact fun node h => .finish lasting_over h

theorem columnParts_unstarred : ∀ n, Answers (columnParts false n) (·.2 = false)
  | 0 => by
    unfold columnParts columnStar
    exact .either (.either (.unexpected _) (.unexpected _)) (.pure rfl)
  | n + 1 => by
    unfold columnParts columnStar
    refine .either (.either (.unexpected _) (.skip fun part => ?_)) (.pure rfl)
    exact (columnParts_unstarred n).bind fun r hr => .pure hr

theorem columnReference_over (allowStar : Bool) :
    Answers (columnReference allowStar) fun t =>
      t.Over .columnRef ∨ allowStar = true ∧ t.Over .qualifiedWildcard := by
  have hparts : Answers (columnParts allowStar 3) fun r => r.2 = true → allowStar = true := by
    cases allowStar
    · exact (columnParts_unstarred 3).weaken fun _ h h' => by simp [h] at h'
    · exact fun _ _ _ _ _ _ => rfl
  unfold columnReference
  refine .skip fun first => hparts.bind ?_
  rintro ⟨parts, star⟩ hstar
  dsimp only
  split
  · exact .throw _
  · refine .skip fun texts => (Answers.nodeAt _ first).bind fun node hnode => ?_
    refine .bind (.amendLasting lasting_over hnode.toOver fun _ => ⟨rfl, rfl, rfl, rfl⟩) ?_
    intro node h
    refine (Answers.finish lasting_over h).weaken fun u hu => ?_
    cases star
    · exact .inl hu
    · exact .inr ⟨hstar rfl, hu⟩

theorem columnReference_complete (allowStar : Bool) :
    Answers (columnReference allowStar) Complete :=
  (columnReference_over allowStar).weaken fun _ h => h.elim (·.complete rfl) (·.2.complete rfl)

theorem direction_answers (hP : Lasting P) (h : P t) : Answers (direction t) P := by
  unfold direction
  exact .either (.flag hP h nofun) (.either (.flag hP h nofun) (.pure h))

theorem columnName_answers : Answers columnName Complete :=
  .skip fun name => (Answers.namedNode .identifier name).weaken fun _ h => h.toOver.complete rfl

theorem columnList_answers : Answers columnList Complete := by
  unfold columnList
  refine .skip fun t => (Answers.nodeAt .columnList t).bind fun list hlist => ?_
  have hitem : Answers (do direction (← columnName)) Complete :=
    columnName_answers.bind fun _ h => direction_answers lasting_complete h
  refine (Answers.underList hlist.toOver hitem).bind fun list h => .skip fun _ => ?_
  exact .finish lasting_complete (h.complete rfl)

theorem aliased_answers (h : t.Over k) (name : Token) : Answers (aliased t name) (Over k) := by
  unfold aliased
  refine (Answers.namedNode .alias name).bind fun label hlabel => ?_
  refine (Answers.under h (hlabel.toOver.complete rfl)).bind fun t h => ?_
  exact .bind (.flag lasting_over h nofun) fun t h => .finish lasting_over h

theorem withAlias_answers (h : t.Over k) : Answers (withAlias t) (Over k) := by
  unfold withAlias
  refine .skip fun o => ?_
  rcases o with _ | name
  · exact .pure h
  · exact aliased_answers h name

namespace Expression

variable {inner : Nested} (hinner : inner.Fits)

/-! ## Clauses -/

theorem nullsOrder_answers (hP : Lasting P) (h : P t) : Answers (nullsOrder t) P := by
  unfold nullsOrder
  exact .either (.either (.flag hP h nofun) (.skip fun _ => .flag hP h nofun)) (.pure h)

theorem enclosed_answers (opening : Token) (h : t.Fit isExpression) :
    Answers (enclosed opening t) (Fit isExpression) := by
  unfold enclosed
  refine .skip fun scope => ?_
  split
  · exact .flag lasting_expression h nofun
  · refine (Answers.nodeAt .parenExpr opening).bind fun node hnode => ?_
    refine (Answers.attach node h).bind fun u hu => ?_
    exact .finish lasting_expression ((hu.begun hnode).fit trivial rfl rfl)

include hinner

theorem orderByItem_answers : Answers (orderByItem inner) Complete := by
  unfold orderByItem
  refine (hinner.expression 0).bind fun key hkey => ?_
  refine (Answers.nodeOver .orderByItem key).bind fun item hitem => ?_
  refine (Answers.under hitem.toOver hkey.complete).bind fun item h => ?_
  refine (direction_answers lasting_over h).bind fun item h => ?_
  refine (nullsOrder_answers lasting_over h).bind fun item h => ?_
  exact .finish lasting_complete (h.complete rfl)

theorem orderBy_answers : Answers (orderBy inner) (Fit (·.kind == .orderByClause)) := by
  unfold orderBy
  refine .skip fun t => .skip fun _ => ?_
  refine (Answers.nodeAt .orderByClause t).bind fun clause hclause => ?_
  refine (Answers.within _ (.underList hclause.toOver (orderByItem_answers hinner))).bind ?_
  exact fun clause h => (Answers.finish lasting_over h).weaken fun _ h => h.fit rfl

theorem enclosedQuery_answers (node : Tree) :
    Answers (enclosedQuery inner node) (Gains (.exactly 1 (·.kind.isQuery)) node) := by
  unfold enclosedQuery
  refine (Answers.within _ hinner.query).bind fun query hquery => ?_
  refine (Answers.attach node hquery).bind fun u hu => .skip fun _ => ?_
  exact .finish lasting_gains hu

theorem subquery_answers (kind : Kind) (opening : Token) :
    Answers (subquery inner kind opening) (Begun kind [.exactly 1 (·.kind.isQuery)]) := by
  unfold subquery
  refine (Answers.nodeAt kind opening).bind fun node hnode => ?_
  refine .bind (.flag lasting_begun hnode nofun) fun node h => ?_
  exact (enclosedQuery_answers hinner node).weaken fun u hu => hu.begun h

/-! ## Parentheses -/

/-- A row is read where a comma comes next, so it has a second expression. -/
theorem row_expression {opening : Token} {first u : Tree} {scope : Scope} {s s' : Progress}
    {comma : Token} {rest : List Token} (hfirst : first.Fit isExpression)
    (hs : s.rest = comma :: rest) (hcomma : comma.kind = .comma)
    (h : row inner opening first scope s = .ok u s') : u.Fit isExpression := by
  unfold row at h
  obtain ⟨node, s₁, hnode, h⟩ := exists_of_bind h
  obtain ⟨node₁, s₂, hattach, h⟩ := exists_of_bind h
  obtain ⟨node₂, s₃, hmore, h⟩ := exists_of_bind h
  obtain ⟨_, s₄, -, h⟩ := exists_of_bind h
  have hrest : s₂.rest = comma :: rest := by
    cases hattach
    cases hnode
    rw [Progress.rest_edited, ← hs]
    exact s.rest_edited _
  have hgain := (Answers.attach node hfirst hattach).append
    (Answers.attachWhile_comma (hinner.expression 0) hrest hcomma hmore)
  have hrow := hgain.begun (Answers.nodeAt .rowValue opening hnode)
  exact Answers.finish lasting_expression (hrow.fit trivial rfl rfl) h

theorem parenthesized_answers : Answers (parenthesized inner) (Fit isExpression) := by
  unfold parenthesized
  refine .deeper (.skip fun opening => .skip fun b => ?_)
  cases b
  · refine (hinner.expression 0).bind fun first hfirst => ?_
    intro scope s u s' hrun
    obtain ⟨b, s₁, hsees, hrun⟩ := exists_of_bind hrun
    injection hsees with hcomma hs
    subst hs
    cases b
    · exact Answers.skip (fun _ => enclosed_answers opening hfirst) hrun
    · rcases hrest : s.rest with _ | ⟨comma, rest⟩
      · simp [hrest] at hcomma
      · exact row_expression hinner hfirst hrest (by simpa [hrest] using hcomma) hrun
  · exact (subquery_answers hinner _ opening).weaken fun _ h => h.fit trivial rfl rfl

/-! ## Literals and calls -/

omit hinner in
theorem literal_answers {kind : Kind} {token : Token} (h : literalKind? token.kind = some kind) :
    Answers (literal kind token) (Fit isExpression) := by
  have hkind : kind.places? false = none ∧ kind.isOperand = true ∧ kind ≠ .castExpr := by
    unfold literalKind? at h
    split at h <;> cases h <;> exact ⟨rfl, rfl, nofun⟩
  have hfit : ∀ {u : Tree}, u.Over kind → u.Fit isExpression := fun hu =>
    ⟨hu.complete hkind.1, by rw [isExpression, hu.kind]; exact hkind.2.1⟩
  unfold literal
  refine (Answers.namedNode kind token).bind fun node hnode => ?_
  split
  · refine (Answers.amend node _).weaken fun u hu => ?_
    subst hu
    exact hfit (hnode.mapHead hnode.kind).toOver
  · exact .pure (hfit hnode.toOver)

theorem partition?_answers (h : t.Over k) : Answers (partition? inner t) (Over k) := by
  unfold partition?
  refine .skip fun o => ?_
  rcases o with _ | word
  · exact .pure h
  · refine .skip fun _ => (Answers.nodeAt .partitionByClause word).bind fun clause hclause => ?_
    refine (Answers.underList hclause.toOver (hinner.expression 0).complete).bind ?_
    intro clause hclause
    refine (Answers.finish lasting_complete (hclause.complete rfl)).bind fun clause hclause => ?_
    exact .under h hclause

theorem window_answers (word : Token) :
    Answers (window inner word) (Fit (·.kind == .windowSpec)) := by
  unfold window
  refine .skip fun b => ?_
  cases b
  · refine .skip fun name => (Answers.nodeAt .windowSpec word).bind fun node hnode => ?_
    refine (Answers.setText lasting_over hnode.toOver name).bind fun node h => ?_
    exact (Answers.finish lasting_over h).weaken fun _ h => h.fit rfl
  · refine .skip fun _ => (Answers.nodeAt .windowSpec word).bind fun node hnode => ?_
    refine (partition?_answers hinner hnode.toOver).bind fun node h => .skip fun b => ?_
    refine (Answers.underIf h (orderBy_answers hinner).complete b).bind fun node h => ?_
    exact .skip fun _ => (Answers.finish lasting_over h).weaken fun _ h => h.fit rfl

theorem over?_answers (node : Tree) :
    Answers (over? inner node) (Gains (.optional (·.kind == .windowSpec)) node) := by
  unfold over?
  refine .skip fun o => ?_
  rcases o with _ | word
  · exact .pure (.none (.refl node) rfl)
  · refine (window_answers hinner word).bind fun window hwindow => ?_
    exact (Answers.attach node hwindow).weaken fun _ h => h.optional

/-- The place of the arguments under a call. -/
def argumentPlace (call : Tree) : Place :=
  ⟨isExpression, 0, if call.head.has .starArgs then some 0 else none⟩

theorem arguments_answers {node : Tree} (h : node.Begun .functionCall [])
    (hplain : node.head.has .starArgs = false) :
    Answers (arguments inner node) fun u => u.Begun .functionCall [argumentPlace u] := by
  unfold arguments
  refine .skip fun b => ?_
  cases b
  · refine .skip fun b => ?_
    cases b
    · refine .skip fun b => .bind (.flagIf lasting_unstarred ⟨h, hplain⟩ b nofun) ?_
      rintro node ⟨h, hplain⟩
      refine .within _ ((Answers.attachList node (hinner.expression 0)).weaken fun u hu => ?_)
      have hplace : argumentPlace u = .atLeast 0 isExpression := by
        rw [argumentPlace, hu.head.starArgs, hplain]
        rfl
      have hany : Gains (.atLeast 0 isExpression) node u := hu.relax (Nat.zero_le _) nofun
      rw [hplace]
      exact hany.begun h
    · exact .pure (h.skip (List.forall_mem_singleton.2 rfl))
  · refine (Answers.amend node _).weaken fun u hu => ?_
    subst hu
    exact (h.mapHead h.kind).skip (List.forall_mem_singleton.2 rfl)

theorem call_answers : Answers (call inner) (Fit isExpression) := by
  unfold call
  refine .skip fun o => ?_
  rcases o with _ | name
  · exact .unexpected _
  have hnode : Answers (namedNode .functionCall name) fun t =>
      t.Begun .functionCall [] ∧ t.head.has .starArgs = false :=
    (Answers.unstarred .functionCall name).bind fun _ h => .setText lasting_unstarred h name
  refine hnode.bind fun node h => .skip fun _ => ?_
  refine (arguments_answers hinner h.1 h.2).bind fun node h => .skip fun _ => ?_
  refine (over?_answers hinner node).bind fun u hu => ?_
  have hplaces : Kind.places? (u.head.has .starArgs) .functionCall =
      some [argumentPlace node, .optional (·.kind == .windowSpec)] := by
    rw [hu.head.starArgs]
    rfl
  exact .finish lasting_expression ((hu.begun h).fit trivial hplaces rfl)

omit hinner in
theorem setType_answers {ps : List Place} (h : t.Begun k ps) :
    Answers (setType t) fun u => u.Begun k ps ∧ u.head.dataType.isSome := by
  unfold setType
  refine .skip fun r => (Answers.amend t _).weaken fun u hu => ?_
  subst hu
  refine ⟨h.mapHead h.kind, ?_⟩
  cases t
  rfl

theorem cast_answers : Answers (cast inner) (Fit isExpression) := by
  unfold cast
  refine .skip fun t => (Answers.nodeAt .castExpr t).bind fun node hnode => .skip fun _ => ?_
  refine (Answers.within _ (hinner.expression 0)).bind fun value hvalue => ?_
  refine (Answers.attach node hvalue).bind fun node h => .skip fun _ => ?_
  refine (setType_answers (h.begun hnode)).bind fun node h => .skip fun _ => ?_
  exact .finish lasting_expression (h.1.fit h.2 rfl rfl)

theorem extract_answers : Answers (extract inner) (Fit isExpression) := by
  unfold extract
  refine .skip fun t => (Answers.nodeAt .extractExpr t).bind fun node hnode => .skip fun _ => ?_
  refine .skip fun field => (Answers.setText lasting_begun hnode field).bind fun node hnode => ?_
  refine .skip fun _ => (Answers.within _ (hinner.expression 0)).bind fun value hvalue => ?_
  refine (Answers.attach node hvalue).bind fun node h => .skip fun _ => ?_
  exact .finish lasting_expression ((h.begun hnode).fit trivial rfl rfl)

/-! ## Cases -/

theorem whenArm?_answers : Answers (whenArm? inner) fun o => ∀ c ∈ o, c.Fit isArm := by
  unfold whenArm?
  refine .skip fun o => ?_
  rcases o with _ | t
  · exact .pure nofun
  · refine (Answers.nodeAt .whenClause t).bind fun arm harm => ?_
    refine (hinner.expression 0).bind fun condition hcondition => .skip fun _ => ?_
    refine (hinner.expression 0).bind fun result hresult => ?_
    refine (Answers.attach arm hcondition).bind fun arm₁ h₁ => ?_
    refine (Answers.attach arm₁ hresult).bind fun arm₂ h₂ => ?_
    have hfilled := (h₁.append h₂).begun harm
    refine .bind (.finish lasting_arm ⟨hfilled.toOver.complete rfl, hfilled.isArm⟩) ?_
    refine fun arm h => .pure ?_
    rintro _ ⟨⟩
    exact h

theorem otherwise?_answers (node : Tree) :
    Answers (otherwise? inner node) (Gains (.optional (·.kind == .elseClause)) node) := by
  unfold otherwise?
  refine .skip fun o => ?_
  rcases o with _ | t
  · exact .pure (.none (.refl node) rfl)
  · refine (Answers.nodeAt .elseClause t).bind fun clause hclause => ?_
    refine (hinner.expression 0).bind fun result hresult => ?_
    refine (Answers.under hclause.toOver hresult.complete).bind fun clause hclause => ?_
    refine (Answers.finish lasting_over hclause).bind fun clause hclause => ?_
    exact (Answers.attach node (hclause.fit rfl)).weaken fun _ h => h.optional

theorem arms_answers (node : Tree) :
    Answers (arms inner node) (Gains (.atLeast 1 isArm) node) := by
  unfold arms
  refine (whenArm?_answers hinner).bind fun o ho => ?_
  rcases o with _ | arm
  · exact .unexpected _
  · refine (Answers.attach node (ho arm rfl)).bind fun u hu => ?_
    exact (Answers.attachWhile u (whenArm?_answers hinner)).weaken fun v hv => hu.append hv

theorem caseOf_answers : Answers (caseOf inner) (Fit isExpression) := by
  unfold caseOf
  refine .skip fun t => (Answers.nodeAt .caseExpr t).bind fun node hnode => ?_
  refine .bind (.within _ (.skip fun b => ?_)) fun _ h => .finish lasting_expression h
  refine (Answers.attachIf _ node (hinner.expression 0)).bind fun node₁ h₁ => ?_
  refine (arms_answers hinner node₁).bind fun node₂ h₂ => ?_
  refine (otherwise?_answers hinner node₂).bind fun node₃ h₃ => .skip fun _ => .pure ?_
  exact (h₃.begun (h₂.begun (h₁.begun hnode))).fit trivial rfl rfl

/-! ## Calls with their own syntax -/

theorem existence_answers : Answers (existence inner) (Fit isExpression) := by
  unfold existence
  refine .skip fun t => (Answers.nodeAt .existsExpr t).bind fun node hnode => .skip fun _ => ?_
  exact (enclosedQuery_answers hinner node).weaken fun _ h => (h.begun hnode).fit trivial rfl rfl

theorem position_answers : Answers (position inner) (Fit isExpression) := by
  unfold position
  refine .skip fun o => ?_
  rcases o with _ | t
  · exact .unexpected _
  refine (Answers.nodeAt .positionExpr t).bind fun node hnode => .skip fun _ => ?_
  refine .bind (.within _ ?_) fun _ h => .skip fun _ => .finish lasting_expression h
  refine (hinner.expression _).bind fun needle hneedle => .skip fun _ => ?_
  refine (hinner.expression 0).bind fun haystack hhaystack => ?_
  refine (Answers.attach node hneedle).bind fun node₁ h₁ => ?_
  refine (Answers.attach node₁ hhaystack).weaken fun node₂ h₂ => ?_
  exact ((h₁.append h₂).begun hnode).fit trivial rfl rfl

theorem substringArguments_answers (node : Tree) :
    Answers (substringArguments inner node) (Gains ⟨isExpression, 2, some 3⟩ node) := by
  unfold substringArguments
  refine (hinner.expression 0).bind fun text htext => ?_
  refine (Answers.attach node htext).bind fun node₁ h₁ => ?_
  have hmore : ∀ more : Parser Bool, Answers (do
      let node ← attach node₁ (← inner.expression 0)
      attachIf (← more) (inner.expression 0) node) (Gains ⟨isExpression, 2, some 3⟩ node) := by
    refine fun more => (hinner.expression 0).bind fun start hstart => ?_
    refine (Answers.attach node₁ hstart).bind fun node₂ h₂ => .skip fun b => ?_
    refine (Answers.attachIf b node₂ (hinner.expression 0)).weaken fun _ h₃ => ?_
    exact (h₁.append h₂).append h₃
  exact .either (hmore _) (.skip fun _ => hmore _)

theorem substring_answers : Answers (substring inner) (Fit isExpression) := by
  unfold substring
  refine .skip fun o => ?_
  rcases o with _ | t
  · exact .unexpected _
  refine (Answers.nodeAt .substringExpr t).bind fun node hnode => .skip fun _ => ?_
  refine (Answers.within _ (substringArguments_answers hinner node)).bind fun node h => ?_
  exact .skip fun _ => .finish lasting_expression ((h.begun hnode).fit trivial rfl rfl)

theorem named_answers (token : Token) : Answers (named inner token) (Fit isExpression) := by
  unfold named
  refine .skip fun o => ?_
  split_ifs
  · refine (columnReference_over false).weaken fun u hu => ?_
    rcases hu with hu | ⟨hstar, -⟩
    · exact ⟨hu.complete rfl, by rw [isExpression, hu.kind]; rfl⟩
    · cases hstar
  · exact position_answers hinner
  · exact substring_answers hinner
  · exact call_answers hinner

theorem primary_answers : Answers (primary inner) (Fit isExpression) := by
  unfold primary
  refine .skip fun o => ?_
  rcases o with _ | t
  · exact .unexpected _
  dsimp only
  split
  · next hkind => exact .skip fun _ => literal_answers hkind
  · split
    · exact parenthesized_answers hinner
    · exact caseOf_answers hinner
    · exact cast_answers hinner
    · exact extract_answers hinner
    · exact existence_answers hinner
    · refine .skip fun o => ?_
      split
      · exact call_answers hinner
      · exact .unexpected _
    · refine .skip fun o => ?_
      split
      · exact call_answers hinner
      · exact .unexpected _
    · split
      · exact named_answers hinner t
      · exact .unexpected _

/-! ## Operators -/

theorem unary_answers {token : Token} {power : Nat} (h : Power.leading? token.kind = some power) :
    Answers (unary inner token power) (Fit isExpression) := by
  obtain ⟨op, hop, -⟩ := Power.operator_of_leading? h
  unfold unary
  refine (hinner.expression power).bind fun value hvalue => ?_
  refine (Answers.nodeAt .unaryExpr token).bind fun node hnode => ?_
  refine (Answers.amend node _).bind fun _ hsigned => ?_
  subst hsigned
  refine (Answers.attach _ hvalue).bind fun u hu => ?_
  refine .finish lasting_expression ((hu.begun (hnode.mapHead hnode.kind)).fit ⟨op, ?_⟩ rfl rfl)
  rw [hu.head.operator]
  cases node
  exact congrArg (Option.map Operator.unary) hop

theorem operand_answers : Answers (operand inner) (Fit isExpression) := by
  unfold operand
  refine .skip fun o => ?_
  rcases o with _ | t
  · exact .unexpected _
  dsimp only
  split
  · exact primary_answers hinner
  · next power hpower =>
    refine .skip fun _ => .skip fun b => ?_
    split
    · exact (existence_answers hinner).bind fun _ h => .flag lasting_expression h nofun
    · exact unary_answers hinner hpower

theorem memberList_answers (opening : Token) :
    Answers (memberList inner opening) (Fit (·.kind == .exprList)) := by
  unfold memberList
  refine (Answers.nodeAt .exprList opening).bind fun list hlist => ?_
  have hitems : Answers (listItems inner list) (Over .exprList) := by
    unfold listItems
    exact .either (.pure hlist.toOver) (.underList hlist.toOver (hinner.expression 0).complete)
  refine hitems.bind fun list h => .skip fun _ => ?_
  exact (Answers.finish lasting_over h).weaken fun _ h => h.fit rfl

theorem membership_answers (h : t.Fit isExpression) :
    Answers (membership inner t) (Fit isExpression) := by
  unfold membership
  refine (Answers.nodeOver .inExpr t).bind fun node hnode => ?_
  refine (Answers.attach node h).bind fun node₁ h₁ => .skip fun opening => .skip fun b => ?_
  have hmembers : ∀ {c : Tree}, c.Fit (fun t => t.kind == .exprList || t.kind == .subqueryExpr) →
      Answers (attach node₁ c) (Fit isExpression) := fun hc =>
    (Answers.attach node₁ hc).weaken fun _ h₂ => (h₂.begun (h₁.begun hnode)).fit trivial rfl rfl
  cases b
  · refine (memberList_answers hinner opening).bind fun list hlist => hmembers ?_
    exact hlist.weaken fun u hu => by rw [hu, Bool.true_or]
  · refine (subquery_answers hinner _ opening).bind fun query hquery => hmembers ?_
    exact ⟨hquery.complete trivial rfl, by rw [hquery.kind]; rfl⟩

theorem range_answers (h : t.Fit isExpression) (power : Nat) :
    Answers (range inner t power) (Fit isExpression) := by
  unfold range
  refine (Answers.nodeOver .betweenExpr t).bind fun node hnode => ?_
  refine (hinner.expression power).bind fun low hlow => .skip fun _ => ?_
  refine (hinner.expression power).bind fun high hhigh => ?_
  refine (Answers.attach node h).bind fun node₁ h₁ => ?_
  refine (Answers.attach node₁ hlow).bind fun node₂ h₂ => ?_
  refine (Answers.attach node₂ hhigh).weaken fun node₃ h₃ => ?_
  exact (((h₁.append h₂).append h₃).begun hnode).fit trivial rfl rfl

omit hinner in
theorem setOperator_answers {ps : List Place} (h : t.Begun k ps) (op : BinaryOp) :
    Answers (setOperator t op) fun u => u.Begun k ps ∧ u.head.operator = some (.binary op) := by
  refine (Answers.amend t _).weaken fun u hu => ?_
  subst hu
  refine ⟨h.mapHead h.kind, ?_⟩
  cases t
  rfl

theorem likeness_answers (h : t.Fit isExpression) (op : BinaryOp) (power : Nat) :
    Answers (likeness inner t op power) (Fit isExpression) := by
  unfold likeness
  refine (Answers.nodeOver .likeExpr t).bind fun node hnode => ?_
  refine (setOperator_answers hnode op).bind fun node hnode => ?_
  refine (hinner.expression power).bind fun pattern hpattern => ?_
  refine (Answers.attach node h).bind fun node₁ h₁ => ?_
  refine (Answers.attach node₁ hpattern).bind fun node₂ h₂ => .skip fun b => ?_
  refine (Answers.attachIf b node₂ (hinner.expression power)).weaken fun node₃ h₃ => ?_
  exact (((h₁.append h₂).append h₃).begun hnode.1).fit trivial rfl rfl

theorem identity_answers (h : t.Fit isExpression) (power : Nat) :
    Answers (identity inner t power) (Fit isExpression) := by
  unfold identity
  refine (Answers.nodeOver .isExpr t).bind fun node hnode => ?_
  refine (setOperator_answers hnode .is).bind fun node hnode => .skip fun negated => ?_
  refine (hinner.expression power).bind fun right hright => ?_
  refine (Answers.attach node h).bind fun node₁ h₁ => ?_
  refine (Answers.attach node₁ hright).bind fun node₂ h₂ => ?_
  have hfit : node₂.Fit isExpression := ((h₁.append h₂).begun hnode.1).fit trivial rfl rfl
  exact .flagIf lasting_expression hfit negated nofun

theorem binary_answers (h : t.Fit isExpression) (token : Token) (power : Nat) :
    Answers (binary inner t token power) (Fit isExpression) := by
  unfold binary
  refine .skip fun scope => ?_
  split
  · exact .throw _
  split
  · exact .throw _
  · next op _ =>
    refine (hinner.expression power).bind fun right hright => ?_
    refine (Answers.nodeOver .binaryExpr t).bind fun node hnode => ?_
    refine (setOperator_answers hnode op).bind fun node hnode => ?_
    refine (Answers.attach node h).bind fun node₁ h₁ => ?_
    refine (Answers.attach node₁ hright).weaken fun node₂ h₂ => ?_
    have hoperator := (h₁.append h₂).head.operator.trans hnode.2
    exact ((h₁.append h₂).begun hnode.1).fit ⟨op, hoperator⟩ rfl rfl

theorem application_answers (h : t.Fit isExpression) (op : Token) (power : Nat) :
    Answers (application inner t op power) (Fit isExpression) := by
  unfold application
  split
  · exact membership_answers hinner h
  · exact range_answers hinner h power
  · exact likeness_answers hinner h .like power
  · exact likeness_answers hinner h .glob power
  · exact identity_answers hinner h power
  · exact binary_answers hinner h op power

theorem joining_answers (h : t.Fit isExpression) (token : Token) (power : Nat) :
    Answers (joining inner t token power) (Fit isExpression) := by
  unfold joining
  refine .skip fun _ => ?_
  split
  · refine .skip fun o => ?_
    rcases o with _ | op
    · exact .unexpected _
    · refine (application_answers hinner h op power).bind fun u hu => ?_
      exact .bind (.flag lasting_expression hu nofun) fun _ h => .finish lasting_expression h
  · exact (application_answers hinner h token power).bind fun _ h => .finish lasting_expression h

omit hinner in
theorem trailing_answers (h : t.Fit isExpression) (token : Token) :
    Answers (trailing t token) (Fit isExpression) := by
  unfold trailing
  refine .skip fun _ => ?_
  split
  · unfold signCast
    refine .skip fun scope => ?_
    dsimp only
    split
    · exact .throw _
    · refine (Answers.nodeOver .castExpr t).bind fun node hnode => ?_
      refine (Answers.attach node h).bind fun node h => ?_
      refine (setType_answers (h.begun hnode)).bind fun node h => ?_
      exact .finish lasting_expression (h.1.fit h.2 rfl rfl)
  · unfold collation
    refine .skip fun name => (Answers.nodeOver .collateExpr t).bind fun node hnode => ?_
    refine (Answers.setText lasting_begun hnode name).bind fun node hnode => ?_
    refine (Answers.attach node h).bind fun node h => ?_
    exact .finish lasting_expression ((h.begun hnode).fit trivial rfl rfl)

theorem grow?_answers (power : Nat) (h : t.Fit isExpression) :
    Answers (grow? inner power t) fun o => ∀ u ∈ o, u.Fit isExpression := by
  unfold grow?
  refine .skip fun o => ?_
  rcases o with _ | token
  · exact .pure nofun
  dsimp only
  split
  · split
    · exact .pure nofun
    · exact (trailing_answers h token).found
  · refine .skip fun next => ?_
    split
    · split
      · exact .pure nofun
      · exact (joining_answers hinner h token _).found
    · exact .pure nofun

end Expression

theorem expression_answers {inner : Nested} (hinner : inner.Fits) (power : Nat) :
    Answers (expression inner power) (Fit isExpression) := by
  unfold expression
  refine .deeper ((Expression.operand_answers hinner).bind fun t h => ?_)
  exact .iterate (fun _ h => Expression.grow?_answers hinner power h) h

end SqlSyntax
