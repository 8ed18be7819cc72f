import SqlSyntax.Grammar.Expression
import SqlSyntax.Proofs.Layout.Name

/-!
# Expressions over their tokens

An expression starts with its first operand, and each operator behind it makes a node over what was
read so far. A star among the tokens is a multiplication, or stands for the arguments of a call.
-/

namespace SqlSyntax

open SqlSyntax.Parser

/-- The productions that occur inside one another lay their trees out over what they read. -/
structure Nested.Lays (inner : Nested) : Prop where
  expression : ∀ power {c}, Yields (inner.expression power) c (Tree.Stands .plain c)
  query : ∀ {c}, Yields inner.query c (Tree.Stands .query c)
  joinTree : ∀ {c}, Yields inner.joinTree c (Tree.Stands .plain c)
  statement : ∀ {c}, Yields inner.statement c (Tree.Stands .statement c)

variable {c : Option Context} {w r v : List Token} {stage : Stage} {l : Label} {t : Tree}
  {x y z : Token} {kind : Kind}

theorem Parser.Yields.within {α : Type} {p : Parser α} {context : Context}
    {fact : α → List Token → Prop} (hp : Yields p (some context) fact) :
    Yields (within context p) c fact :=
  fun r => .within context (hp r)

theorem Parser.Yields.plain {p : Parser Tree} {ctx : Option Context}
    (hp : Yields p c (Tree.Whole kind ctx)) (hk : kind.isOrdinary = true) :
    Yields p c (Tree.Stands .plain ctx) :=
  fun r => (hp r).weaken fun _ _ _ _ h => h.stands hk

/-- An ordinary tree that is being made over what was read from an offset on. -/
def Tree.Raised (c : Option Context) (start : Nat) (t : Tree) (w : List Token) : Prop :=
  ∃ k, k.isOrdinary = true ∧ t.Rooted .growing ⟨k, c, start, false⟩ w

namespace Expression

/-! ## Clauses -/

theorem nullsOrder_lays (h : t.Rooted stage l w) :
    (nullsOrder t).Lays c w r fun t w _ => t.Rooted stage l w := by
  unfold nullsOrder
  refine .consumeKeyword (fun x _ _ hx => ?_) (.pure h)
  refine .consumeKeyword (fun y _ _ hy => ?_) ?_
  · exact .stays (.flag ((h.after hx rfl).after hy rfl) rfl) fun _ h => h
  refine .discard (.expectKeyword fun y _ _ hy => ?_)
  exact .stays (.flag ((h.after hx rfl).after hy rfl) rfl) fun _ h => h

theorem seesQuery_peeks : Stays c seesQuery fun _ => True := by
  refine (Stays.peek _).bind fun o _ => ?_
  rcases o with _ | x
  · exact .pure trivial
  · exact .pure trivial

theorem enclosed_lays {inner : Tree} (hx : x.kind = .leftParen) (hy : y.kind = .rightParen)
    (h : inner.Stands .plain c v) :
    (enclosed x inner).Lays c ([x] ++ v ++ [y]) r fun t w _ => t.Stands .plain c w := by
  unfold enclosed
  refine .ask fun scope => ?_
  split
  · refine .stays (.amend _ _) fun t ht => ?_
    rw [ht]
    refine .amend ?_ rfl fun _ => ⟨rfl, rfl, rfl, Flags.has_insert_of_ne nofun, fun _ => rfl⟩
    exact (h.behind rfl (by rw [hx]; nofun)).tokens rfl (Quiet.one hy rfl).stars
  · refine .stay (.opened (w := [x]) rfl (.one hx rfl)) fun node hnode => ?_
    refine .stay (.attach hnode h rfl) fun node h => ?_
    exact .finishes (h.after hy rfl) fun u hu => hu.stands rfl rfl

section

variable {inner : Nested} (hinner : inner.Lays)
include hinner

theorem orderByItem_laid : Yields (orderByItem inner) c (Tree.Stands .plain c) := by
  intro r
  unfold orderByItem
  refine .call (hinner.expression 0) fun key v _ _ hkey => ?_
  refine .stay (.nodeOver .orderByItem key) fun item hitem => ?_
  refine .stay (.attachOver hitem hkey rfl rfl) fun item h => ?_
  refine (direction_lays h).bind fun item _ _ _ h => ?_
  refine (nullsOrder_lays h).bind fun item _ _ _ h => ?_
  exact .finishes h fun u hu => hu.stands rfl rfl

theorem orderBy_laid : Yields (orderBy inner) c (Tree.Whole .orderByClause c) := by
  intro r
  unfold orderBy
  refine .expectKeyword fun x _ _ hx => .discard (.expectKeyword fun y _ _ hy => ?_)
  refine .stay (.opened (w := [x]) rfl (.one hx rfl)) fun clause h => ?_
  refine Lays.bind (.within _
    (.attachList (h.after hy rfl) (orderByItem_laid hinner) rfl fun _ => rfl)) ?_
  exact fun clause v _ _ h => .finishes h fun u hu => hu.whole rfl rfl

theorem enclosedQuery_lays (h : t.Rooted stage l w)
    (hl : l.Takes w .query (some .subquery)) :
    (enclosedQuery inner t).Lays c w r fun t w _ => t.Finished l w := by
  unfold enclosedQuery
  refine .under h hinner.query.within hl fun node v _ _ h => ?_
  exact .discard (.expect fun y _ _ hy => .finishes (h.after hy rfl) fun _ h => h)

theorem subquery_lays (hx : x.kind = .leftParen)
    (hk : kind = .subqueryExpr ∨ kind = .derivedTable) :
    (subquery inner kind x).Lays c [x] r (fun t w _ => t.Whole kind c w) := by
  unfold subquery
  have hstars : HasStars kind.isWildcard.toNat [x] := by
    rcases hk with rfl | rfl <;> exact .one hx rfl
  refine .stay (.opened (w := [x]) rfl hstars) fun node h => .stay (.flag h rfl) fun node h => ?_
  refine (enclosedQuery_lays hinner h ?_).weaken fun u v _ _ hu => hu.whole rfl rfl
  rcases hk with rfl | rfl <;> rfl

/-! ## Parentheses -/

theorem row_lays {first : Tree} (hx : x.kind = .leftParen) (h : first.Stands .plain c v) :
    (row inner x first).Lays c ([x] ++ v) r fun t w _ => t.Whole .rowValue c w := by
  unfold row
  refine .stay (.opened (w := [x]) rfl (.one hx rfl)) fun node hnode => ?_
  refine .stay (.attach hnode h rfl) fun node h => ?_
  refine (Lays.attachWhile h (Lays.afterComma? (hinner.expression 0) rfl) fun _ => rfl).bind ?_
  intro node u _ _ h
  exact .discard (.expect fun y _ _ hy => .finishes (h.after hy rfl) fun u hu => hu.whole rfl rfl)

theorem parenthesized_laid : Yields (parenthesized inner) c (Tree.Stands .plain c) := by
  intro r
  unfold parenthesized
  refine .deeper (.expect fun x _ _ hx => .stay seesQuery_peeks fun b _ => ?_)
  cases b
  · refine .call (hinner.expression 0) fun first v _ _ hfirst => .sees .comma ?_
    split
    · exact (row_lays hinner hx hfirst).weaken fun u _ _ _ hu => hu.stands rfl
    · exact .discard (.expect fun y _ _ hy => enclosed_lays hx hy hfirst)
  · exact (subquery_lays hinner hx (.inl rfl)).weaken fun u _ _ _ hu => hu.stands rfl

/-! ## Literals and calls -/

omit hinner in
theorem literal_laid (hkind : literalKind? x.kind = some kind) :
    (literal kind x).Lays c [x] r fun t w _ => t.Stands .plain c w := by
  have hk : kind.isOrdinary = true ∧ kind.isWildcard = false ∧ Quiet [x] := by
    unfold literalKind? at hkind
    split at hkind <;> cases hkind <;> exact ⟨rfl, rfl, .one ‹_› rfl⟩
  obtain ⟨hordinary, hwild, hx⟩ := hk
  unfold literal
  refine .stay (.named (w := [x]) rfl (hx.stars.kind hwild)) fun node h => ?_
  split
  · refine .stays (.altered h fun _ _ => ⟨rfl, rfl, rfl, rfl, fun _ => rfl⟩) fun node h => ?_
    exact h.stands hordinary rfl
  · exact .pure (h.stands hordinary rfl)

theorem partition?_lays (h : t.Rooted stage l w) (hl : ∀ w, l.Takes w .plain c) :
    (partition? inner t).Lays c w r fun t w _ => t.Rooted .growing l w := by
  unfold partition?
  refine .takeKeyword? (fun x _ _ hx => ?_) (.pure h.growing)
  refine .discard (.expectKeyword fun y _ _ hy => ?_)
  refine .stay (.opened (w := [x]) rfl (.one hx rfl)) fun clause hclause => ?_
  refine .callFrom (List.append_assoc _ _ _)
    (.attachList (hclause.after hy rfl) (hinner.expression 0) rfl fun _ => rfl) ?_
  intro clause v _ hclause
  refine .finishPart hclause fun clause hclause => ?_
  exact .stays (.attach h (hclause.stands rfl rfl) (hl w)) fun _ h => h

theorem window_lays (hx : x.kind = .keyword .OVER) :
    (window inner x).Lays c [x] r fun t w _ => t.Whole .windowSpec c w := by
  have hopened : Stays c (Parser.nodeAt .windowSpec x)
      (Tree.Rooted .grown ⟨.windowSpec, c, x.span.start, false⟩ · [x]) := .opened rfl (.one hx rfl)
  unfold window
  refine .sees .leftParen ?_
  rcases r with _ | ⟨y, r⟩
  · exact .expectWord fun _ _ hr => nomatch hr
  · split
    · next hy =>
      have hy : y.kind = .leftParen := by simpa using hy
      refine .discard (.advance (.stay hopened fun node h => ?_))
      refine (partition?_lays hinner (h.after hy rfl) fun _ => rfl).bind fun node _ _ _ h => ?_
      refine .sees _ ((Lays.attachIf _ h ((orderBy_laid hinner).plain rfl) rfl).bind ?_)
      intro node _ _ _ h
      refine .discard (.expect fun z _ _ hz => ?_)
      exact .finishes (h.after hz rfl) fun u hu => hu.whole rfl rfl
    · refine .expectWord fun z _ _ hz => .stay hopened fun node h => .stay (.setText h z) ?_
      exact fun node h => .finishes (h.tokens (Quiet.of_isName hz).stars) fun u hu =>
        hu.whole rfl rfl

theorem over?_lays (h : t.Rooted stage l w) (hl : ∀ w, l.Takes w .window c) :
    (over? inner t).Lays c w r fun t w _ => t.Rooted .growing l w := by
  unfold over?
  refine .takeKeyword? (fun x _ _ hx => ?_) (.pure h.growing)
  refine .callFrom rfl (window_lays hinner hx) fun u v _ hu => ?_
  exact .stays (.attach h (hu.stands rfl) (hl w)) fun _ h => h

/-- Arguments, or a star that the call itself stands for. -/
theorem arguments_lays (ht : t.New .functionCall c x.span) (hx : HasStars 0 [x])
    (hy : y.kind = .leftParen) :
    (arguments inner t).Lays c ([x] ++ [y]) r fun t w _ =>
      ∃ starred, t.Rooted .growing ⟨.functionCall, c, x.span.start, starred⟩ w := by
  have hrooted : t.Rooted .grown ⟨.functionCall, c, x.span.start, false⟩ ([x] ++ [y]) :=
    (ht.rooted (w := [x]) rfl hx).after hy rfl
  unfold arguments
  refine .consume (fun z _ _ hz => ?_) (.sees _ ?_)
  · have hstars : HasStars 1 ([x] ++ [y] ++ [z]) := (hx.append (.one hy rfl)).append (.star hz)
    refine .stays (.amend _ _) fun u hu => ⟨true, ?_⟩
    rw [hu]
    exact (Tree.New.starred ht rfl hstars).growing
  · split
    · exact .pure ⟨false, hrooted.growing⟩
    · refine .consumeKeyword (fun z _ _ hz => ?_) ?_
      · refine .stay (.flagIf (hrooted.after hz rfl) true rfl) fun node h => ?_
        refine .within _ (.weaken
          (.attachList h (hinner.expression 0) rfl fun _ => ⟨rfl, rfl⟩) ?_)
        exact fun _ _ _ _ h => ⟨false, h⟩
      · refine .stay (.flagIf hrooted false rfl) fun node h => ?_
        refine .within _ (.weaken
          (.attachList h (hinner.expression 0) rfl fun _ => ⟨rfl, rfl⟩) ?_)
        exact fun _ _ _ _ h => ⟨false, h⟩

theorem call_lays (hx : HasStars 0 [x]) :
    (call inner).Lays c [] (x :: r) fun t w _ => t.Stands .plain c w := by
  unfold call
  refine .advance (.stay (.namedNode .functionCall x) fun node hnode => ?_)
  refine .discard (.expect fun y _ _ hy => ?_)
  refine (arguments_lays hinner hnode hx hy).bind ?_
  rintro node v _ - ⟨starred, h⟩
  refine .discard (.expect fun z _ _ hz => ?_)
  refine (over?_lays hinner (h.after hz rfl) fun _ => rfl).bind fun node _ _ _ h => ?_
  exact .finishes h fun u hu => hu.stands rfl rfl

omit hinner in
theorem setType_lays (h : t.Rooted stage l w) :
    (setType t).Lays c w r fun t w _ => t.Rooted stage l w := by
  unfold setType
  refine .call typeName_laid ?_
  rintro ⟨text, dataType⟩ v _ - hv
  exact .stays (.altered (h.tokens hv.1) fun _ _ => ⟨rfl, rfl, rfl, rfl, fun _ => rfl⟩) fun _ h => h

theorem cast_laid : Yields (cast inner) c (Tree.Stands .plain c) := by
  intro r
  unfold cast
  refine .expectKeyword fun x _ _ hx => ?_
  refine .stay (.opened (w := [x]) rfl (.one hx rfl)) fun node h => ?_
  refine .discard (.expect fun y _ _ hy => ?_)
  refine .under (h.after hy rfl) (hinner.expression 0).within
    (.inr ⟨⟨x, y, rfl, hx, hy, rfl⟩, rfl⟩) fun node v _ _ h => ?_
  refine .discard (.expectKeyword fun z _ _ hz => ?_)
  refine (setType_lays (h.after hz rfl)).bind fun node _ _ _ h => ?_
  exact .discard (.expect fun _ _ _ hz => .finishes (h.after hz rfl) fun u hu => hu.stands rfl rfl)

theorem extract_laid : Yields (extract inner) c (Tree.Stands .plain c) := by
  intro r
  unfold extract
  refine .expectKeyword fun x _ _ hx => ?_
  refine .stay (.opened (w := [x]) rfl (.one hx rfl)) fun node h => ?_
  refine .discard (.expect fun y _ _ hy => ?_)
  refine .expectWord fun field _ _ hfield => .stay (.setText h field) fun node h => ?_
  have h := (h.after hy rfl).tokens (Quiet.of_isNamePart hfield).stars
  refine .discard (.expectKeyword fun z _ _ hz => ?_)
  refine .under (h.after hz rfl) (hinner.expression 0).within rfl fun node v _ _ h => ?_
  exact .discard (.expect fun _ _ _ hz => .finishes (h.after hz rfl) fun u hu => hu.stands rfl rfl)

/-! ## Other operands -/

theorem whenArm?_laid : Yields (whenArm? inner) c (Lays.Found (Tree.Stands .plain c)) := by
  intro r
  unfold whenArm?
  refine .takeKeyword? (fun x _ _ hx => ?_) (.pure rfl)
  refine .stay (.opened (w := [x]) rfl (.one hx rfl)) fun arm h => ?_
  refine .call (hinner.expression 0) fun condition u _ _ hcondition => ?_
  refine .discard (.expectKeyword fun y _ _ hy => ?_)
  refine .call (hinner.expression 0) fun result v _ _ hresult => ?_
  refine .stay (.attach h hcondition rfl) fun arm h => ?_
  refine .stay (.attach (h.after hy rfl) hresult rfl) fun arm h => ?_
  exact .finish h fun arm h => .pure (h.stands rfl rfl)

theorem otherwise?_lays (h : t.Rooted stage l w) (hl : ∀ w, l.Takes w .plain c) :
    (otherwise? inner t).Lays c w r fun t w _ => t.Rooted .growing l w := by
  unfold otherwise?
  refine .takeKeyword? (fun x _ _ hx => ?_) (.pure h.growing)
  refine .stay (.opened (w := [x]) rfl (.one hx rfl)) fun clause hclause => ?_
  refine .call (hinner.expression 0) fun result v _ _ hresult => ?_
  refine .stay (.attach hclause hresult rfl) fun clause hclause => ?_
  rw [List.append_assoc]
  refine .finishPart hclause fun clause hclause => ?_
  exact .stays (.attach h (hclause.stands rfl rfl) (hl w)) fun _ h => h

theorem arms_lays (h : t.Rooted stage l w) (hl : ∀ w, l.Takes w .plain c) :
    (arms inner t).Lays c w r fun t w _ => t.Rooted .growing l w := by
  unfold arms
  refine .call (whenArm?_laid hinner) fun o v _ _ ho => ?_
  rcases o with _ | arm
  · exact .unexpected _
  · exact .stay (.attach h ho (hl w)) fun t h => .attachWhile h (whenArm?_laid hinner) hl

theorem caseOf_laid : Yields (caseOf inner) c (Tree.Stands .plain c) := by
  intro r
  unfold caseOf
  refine .expectKeyword fun x _ _ hx => ?_
  refine .stay (.opened (w := [x]) rfl (.one hx rfl)) fun node h => ?_
  have hbody {r : List Token} : Lays (some .caseExpression) ([] ++ [x]) r (do
      let node ← attachIf (!(← seesKeyword .WHEN)) (inner.expression 0) node
      let node ← otherwise? inner (← arms inner node)
      discard <| expectKeyword .END
      return node) fun t w _ => t.Rooted .growing ⟨.caseExpr, c, x.span.start, false⟩ w := by
    refine .sees _ ((Lays.attachIf _ h (hinner.expression 0) rfl).bind fun node _ _ _ h => ?_)
    refine (arms_lays hinner h fun _ => rfl).bind fun node _ _ _ h => ?_
    refine (otherwise?_lays hinner h fun _ => rfl).bind fun node _ _ _ h => ?_
    exact .discard (.expectKeyword fun y _ _ hy => .pure (h.after hy rfl))
  refine Lays.bind (.within _ hbody) fun node _ _ _ h => ?_
  exact .finishes h fun u hu => hu.stands rfl rfl

theorem existence_laid : Yields (existence inner) c (Tree.Stands .plain c) := by
  intro r
  unfold existence
  refine .expectKeyword fun x _ _ hx => ?_
  refine .stay (.opened (w := [x]) rfl (.one hx rfl)) fun node h => ?_
  refine .discard (.expect fun y _ _ hy => ?_)
  exact (enclosedQuery_lays hinner (h.after hy rfl) rfl).weaken fun u _ _ _ hu => hu.stands rfl rfl

theorem position_lays (hx : HasStars 0 [x]) :
    (position inner).Lays c [] (x :: r) fun t w _ => t.Stands .plain c w := by
  unfold position
  refine .advance (.stay (.opened (w := [x]) rfl hx) fun node h => ?_)
  refine .discard (.expect fun y _ _ hy => ?_)
  have hbody {r : List Token} : Lays (some .functionArgument) ([] ++ [x] ++ [y]) r (do
      let needle ← inner.expression Power.comparison
      discard <| expectKeyword .IN
      let haystack ← inner.expression 0
      attach (← attach node needle) haystack)
      fun t w _ => t.Rooted .growing ⟨.positionExpr, c, x.span.start, false⟩ w := by
    refine .call (hinner.expression _) fun needle u _ _ hneedle => ?_
    refine .discard (.expectKeyword fun z _ _ hz => ?_)
    refine .call (hinner.expression _) fun haystack v _ _ hhaystack => ?_
    refine .stay (.attach (h.after hy rfl) hneedle rfl) fun node h => ?_
    exact .stays (.attach (h.after hz rfl) hhaystack rfl) fun _ h => h
  refine Lays.bind (.within _ hbody) fun node _ _ _ h => ?_
  exact .discard (.expect fun z _ _ hz => .finishes (h.after hz rfl) fun u hu => hu.stands rfl rfl)

theorem substringArguments_lays (h : t.Rooted stage l w) (hl : ∀ w, l.Takes w .plain c) :
    (substringArguments inner t).Lays c w r fun t w _ => t.Rooted .growing l w := by
  unfold substringArguments
  refine .under h (hinner.expression 0) (hl _) fun node u _ _ h => ?_
  refine .consumeKeyword (fun x _ _ hx => ?_) (.discard (.expect fun x _ _ hx => ?_))
  · refine .under (h.after hx rfl) (hinner.expression 0) (hl _) fun node v _ _ h => ?_
    refine .consumeKeyword (fun y _ _ hy => ?_) ?_
    · exact .attachIf _ (h.after hy rfl) (hinner.expression 0) (hl _)
    · exact .attachIf _ h (hinner.expression 0) (hl _)
  · refine .under (h.after hx rfl) (hinner.expression 0) (hl _) fun node v _ _ h => ?_
    refine .consume (fun y _ _ hy => ?_) ?_
    · exact .attachIf _ (h.after hy rfl) (hinner.expression 0) (hl _)
    · exact .attachIf _ h (hinner.expression 0) (hl _)

theorem substring_lays (hx : HasStars 0 [x]) :
    (substring inner).Lays c [] (x :: r) fun t w _ => t.Stands .plain c w := by
  unfold substring
  refine .advance (.stay (.opened (w := [x]) rfl hx) fun node h => ?_)
  refine .discard (.expect fun y _ _ hy => ?_)
  refine Lays.bind (.within _ (substringArguments_lays hinner (h.after hy rfl) fun _ => rfl)) ?_
  intro node _ _ _ h
  exact .discard (.expect fun z _ _ hz => .finishes (h.after hz rfl) fun u hu => hu.stands rfl rfl)

theorem named_lays (hx : HasStars 0 [x]) :
    (named inner x).Lays c [] (x :: r) fun t w _ => t.Stands .plain c w := by
  unfold named
  refine .kindAt 1 ?_
  split
  · exact (columnReference_laid false _).weaken fun t w _ _ h => h.2 rfl
  · split
    · exact position_lays hinner hx
    · split
      · exact substring_lays hinner hx
      · exact call_lays hinner hx

theorem primary_laid : Yields (primary inner) c (Tree.Stands .plain c) := by
  intro r
  unfold primary
  refine .current (fun x r _ => ?_) fun _ => .unexpected _
  dsimp only
  split
  · next kind hkind => exact .discard (.advance (literal_laid hkind))
  · split
    · exact parenthesized_laid hinner _
    · exact caseOf_laid hinner _
    · exact cast_laid hinner _
    · exact extract_laid hinner _
    · exact existence_laid hinner _
    · next hx =>
      refine .kindAt 1 ?_
      split
      · exact call_lays hinner (.one hx rfl)
      · exact .unexpected _
    · next hx =>
      refine .kindAt 1 ?_
      split
      · exact call_lays hinner (.one hx rfl)
      · exact .unexpected _
    · split
      · next hname => exact named_lays hinner (Quiet.of_isName hname).stars
      · exact .unexpected _

theorem unary_lays (hx : HasStars 0 [x]) (power : Nat) :
    (unary inner x power).Lays c [x] r fun t w _ => t.Stands .plain c w := by
  unfold unary
  refine .call (hinner.expression power) fun operand v _ _ hoperand => ?_
  refine .stay (.opened (w := [x]) rfl hx) fun node h => ?_
  refine .stay (.altered h fun n hn => ⟨rfl, rfl, rfl, rfl, ?_⟩) fun node h => ?_
  · intro hk
    cases hn.symm.trans hk
  · exact .stay (.attach h hoperand rfl) fun node h => .finishes h fun u hu => hu.stands rfl rfl

theorem operand_laid : Yields (operand inner) c (Tree.Stands .plain c) := by
  intro r
  unfold operand
  refine .current (fun x r _ => ?_) fun _ => .unexpected _
  dsimp only
  split
  · exact primary_laid hinner _
  · next power hpower =>
    have hx : HasStars 0 [x] := .single (fun hx => by simp [hx, Power.leading?] at hpower)
      (fun hx => by simp [hx, Power.leading?] at hpower)
    refine .discard (.advance (.sees (.keyword .EXISTS) ?_))
    split
    · refine .call (existence_laid hinner) fun t v _ _ h => .stays (.amend _ _) fun u hu => ?_
      rw [hu]
      refine .amend (h.behind rfl hx.not_star) rfl fun _ => ?_
      exact ⟨rfl, rfl, rfl, Flags.has_insert_of_ne nofun, fun _ => rfl⟩
    · exact unary_lays hinner hx power

/-! ## Operators -/

theorem memberList_lays (hx : x.kind = .leftParen) :
    (memberList inner x).Lays c [x] r fun t w _ => t.Whole .exprList c w := by
  have hitems {w r : List Token} {t : Tree}
      (h : t.Rooted .grown ⟨.exprList, c, x.span.start, false⟩ w) :
      (listItems inner t).Lays c w r fun t w _ =>
        t.Rooted .growing ⟨.exprList, c, x.span.start, false⟩ w := by
    unfold listItems
    refine .sees _ ?_
    split
    · exact .pure h.growing
    · exact .attachList h (hinner.expression 0) rfl fun _ => rfl
  unfold memberList
  refine .stay (.opened (w := [x]) rfl (.one hx rfl)) fun list h => ?_
  refine (hitems h).bind fun list _ _ _ h => ?_
  exact .discard (.expect fun y _ _ hy => .finishes (h.after hy rfl) fun u hu => hu.whole rfl rfl)

theorem membership_lays {left : Tree} (h : left.Stands .plain c w) :
    (membership inner left).Lays c w r fun t w _ => t.Raised c left.start w := by
  unfold membership
  refine .stay (.nodeOver .inExpr left) fun node hnode => ?_
  refine .stay (.attachOver hnode h rfl rfl) fun node h => ?_
  refine .expect fun x _ _ hx => .stay seesQuery_peeks fun b _ => ?_
  cases b
  · refine .callFrom rfl (memberList_lays hinner hx) fun list v _ hlist => ?_
    exact .stays (.attach h (hlist.plain rfl) rfl) fun _ h => ⟨_, rfl, h⟩
  · refine .callFrom rfl (subquery_lays hinner hx (.inl rfl)) fun query v _ hquery => ?_
    exact .stays (.attach h (hquery.plain rfl) rfl) fun _ h => ⟨_, rfl, h⟩

theorem range_lays {left : Tree} (h : left.Stands .plain c w) (power : Nat) :
    (range inner left power).Lays c w r fun t w _ => t.Raised c left.start w := by
  unfold range
  refine .stay (.nodeOver .betweenExpr left) fun node hnode => ?_
  refine .call (hinner.expression power) fun low u _ _ hlow => ?_
  refine .discard (.expectKeyword fun x _ _ hx => ?_)
  refine .call (hinner.expression power) fun high v _ _ hhigh => ?_
  refine .stay (.attachOver hnode h rfl rfl) fun node h => ?_
  refine .stay (.attach h hlow rfl) fun node h => ?_
  exact .stays (.attach (h.after hx rfl) hhigh rfl) fun _ h => ⟨_, rfl, h⟩

omit hinner in
/-- An operator that is no multiplication. -/
theorem setOperator_alters (h : t.New kind c span) (op : BinaryOp) (hk : kind ≠ .binaryExpr) :
    Stays c (setOperator t op) (Tree.New kind c span) :=
  .alteredNew h fun _ hn => ⟨rfl, rfl, rfl, rfl, fun hb => absurd (hn.symm.trans hb) hk⟩

theorem likeness_lays {left : Tree} (h : left.Stands .plain c w) (op : BinaryOp) (power : Nat) :
    (likeness inner left op power).Lays c w r fun t w _ => t.Raised c left.start w := by
  unfold likeness
  refine .stay (.nodeOver .likeExpr left) fun node hnode => ?_
  refine .stay (setOperator_alters hnode op nofun) fun node hnode => ?_
  refine .call (hinner.expression power) fun pattern v _ _ hpattern => ?_
  refine .stay (.attachOver hnode h rfl rfl) fun node h => ?_
  refine .stay (.attach h hpattern rfl) fun node h => ?_
  refine .consumeKeyword (fun x _ _ hx => ?_) ?_
  · refine (Lays.attachIf _ (h.after hx rfl) (hinner.expression power) rfl).weaken ?_
    exact fun _ _ _ _ h => ⟨_, rfl, h⟩
  · refine (Lays.attachIf _ h (hinner.expression power) rfl).weaken ?_
    exact fun _ _ _ _ h => ⟨_, rfl, h⟩

theorem identity_lays {left : Tree} (h : left.Stands .plain c w) (power : Nat) :
    (identity inner left power).Lays c w r fun t w _ => t.Raised c left.start w := by
  unfold identity
  refine .stay (.nodeOver .isExpr left) fun node hnode => ?_
  refine .stay (setOperator_alters hnode _ nofun) fun node hnode => ?_
  have hright {w r : List Token} (negated : Bool) (h : left.Stands .plain c w) : Lays c w r (do
      let right ← inner.expression power
      flagIf negated .negated (← attach (← attach node left) right))
      fun t w _ => t.Raised c left.start w := by
    refine .call (hinner.expression power) fun right v _ _ hright => ?_
    refine .stay (.attachOver hnode h rfl rfl) fun node h => ?_
    refine .stay (.attach h hright rfl) fun node h => ?_
    exact .stays (.flagIf h negated rfl) fun _ h => ⟨_, rfl, h⟩
  refine .consumeKeyword (fun x _ _ hx => ?_) (hright false h)
  exact hright true (h.tokens rfl (.one hx rfl))

omit hinner in
theorem star_iff_mul {kind : TokenKind} {op : BinaryOp} (h : BinaryOp.ofToken? kind = some op) :
    (kind == .star) = (op == .mul) ∧ kind ≠ .semicolon := by
  unfold BinaryOp.ofToken? at h
  split at h <;> cases h <;> exact ⟨rfl, nofun⟩

theorem binary_lays {left : Tree} (h : left.Stands .plain c w) (power : Nat) :
    (binary inner left x power).Lays c (w ++ [x]) r fun t w _ => t.Raised c left.start w := by
  unfold binary
  refine .ask fun scope => ?_
  split
  · exact .throw _
  · split
    · exact .throw _
    · next op hop =>
      refine .call (hinner.expression power) fun right v _ _ hright => ?_
      refine .stay (.nodeOver .binaryExpr left) fun node hnode => ?_
      refine .stay (.amend _ _) fun node' hnode' => ?_
      refine .stay (.put _ _) fun parent hparent => ?_
      have hrooted : parent.Rooted .growing ⟨.binaryExpr, c, left.start, false⟩ (w ++ [x]) := by
        rw [hparent, hnode']
        exact Tree.New.operator hnode h (star_iff_mul hop).1 (star_iff_mul hop).2
      exact .stays (.attach hrooted hright rfl) fun _ h => ⟨_, rfl, h⟩

theorem application_lays {left : Tree} (h : left.Stands .plain c w) (power : Nat) :
    (application inner left x power).Lays c (w ++ [x]) r fun t w _ => t.Raised c left.start w := by
  have hafter {k : Keyword} (hx : x.kind = .keyword k) : left.Stands .plain c (w ++ [x]) :=
    h.tokens rfl (.one hx rfl)
  unfold application
  split
  · next hx => exact membership_lays hinner (hafter hx)
  · next hx => exact range_lays hinner (hafter hx) power
  · next hx => exact likeness_lays hinner (hafter hx) _ power
  · next hx => exact likeness_lays hinner (hafter hx) _ power
  · next hx => exact identity_lays hinner (hafter hx) power
  · exact binary_lays hinner h power

theorem joining_lays {left : Tree} (h : left.Stands .plain c w) (power : Nat) :
    (joining inner left x power).Lays c w (x :: r) fun t w _ => t.Stands .plain c w := by
  unfold joining
  refine .discard (.advance ?_)
  split
  · next hx =>
    refine .advance? (fun y _ _ => ?_) (.unexpected _)
    have h := h.tokens rfl (Quiet.one (eq_of_beq hx) rfl).stars
    refine (application_lays hinner h power).bind ?_
    rintro u v _ - ⟨k, hk, hu⟩
    exact .stay (.flag hu rfl) fun u hu => .finishes hu fun u hu => hu.stands hk rfl
  · refine (application_lays hinner h power).bind ?_
    rintro u v _ - ⟨k, hk, hu⟩
    exact .finishes hu fun u hu => hu.stands hk rfl

omit hinner in
theorem trailing_lays {left : Tree} (h : left.Stands .plain c w) (hx : HasStars 0 [x]) :
    (trailing left x).Lays c w (x :: r) fun t w _ => t.Stands .plain c w := by
  have h := h.tokens rfl hx
  unfold trailing
  refine .discard (.advance ?_)
  split
  · unfold signCast
    refine .ask fun scope => ?_
    dsimp only
    split
    · exact .throw _
    · refine .stay (.nodeOver .castExpr left) fun node hnode => ?_
      refine .stay (.attachOver hnode h (.inl ⟨rfl, rfl⟩) rfl) fun node h => ?_
      refine (setType_lays h).bind fun node _ _ _ h => .finishes h fun u hu => hu.stands rfl rfl
  · unfold collation
    refine .expectWord fun name _ _ hname => ?_
    refine .stay (.nodeOver .collateExpr left) fun node hnode => ?_
    refine .stay (.setTextNew hnode name) fun node hnode => ?_
    have h := h.tokens rfl (Quiet.of_isNamePart hname).stars
    refine .stay (.attachOver hnode h rfl rfl) fun node h => ?_
    exact .finishes h fun u hu => hu.stands rfl rfl

theorem grow?_lays {left : Tree} (h : left.Stands .plain c w) (power : Nat) :
    (grow? inner power left).Lays c w r fun o w _ => (o.getD left).Stands .plain c w := by
  unfold grow?
  refine .current (fun x r _ => ?_) fun _ => .pure h
  dsimp only
  split
  · next p hp =>
    have hx : HasStars 0 [x] := .single (fun hx => by simp [hx, Power.trailing?] at hp)
      (fun hx => by simp [hx, Power.trailing?] at hp)
    split
    · exact .pure h
    · exact (trailing_lays h hx).bind fun u _ _ _ hu => .pure hu
  · refine .kindAt 1 ?_
    split
    · split
      · exact .pure h
      · exact (joining_lays hinner h _).bind fun u _ _ _ hu => .pure hu
    · exact .pure h

end

end Expression

theorem expression_laid {inner : Nested} (hinner : inner.Lays) (power : Nat) :
    Yields (expression inner power) c (Tree.Stands .plain c) := by
  intro r
  unfold expression
  refine .deeper (.call (Expression.operand_laid hinner) fun left v _ _ h => ?_)
  exact .iterate (fun left w r h => Expression.grow?_lays hinner h power) h

end SqlSyntax
