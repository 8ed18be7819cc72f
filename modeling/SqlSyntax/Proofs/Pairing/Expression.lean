import SqlSyntax.Grammar.Expression
import SqlSyntax.Proofs.Pairing.Name

/-!
# Expressions in two runs

What an expression is made of are operands, which may be alike without beginning at the same place:
one run may have a node for parentheses where the other has none. So a node that begins where its
operand begins is one that floats.

An operator that may be refused is taken by both runs, or both fail right behind it.
-/

namespace SqlSyntax

open SqlSyntax.Parser SqlSyntax.Pairing

variable {W : Pairing} {self : Nested} {t t' : Token} {u u' : Tree} {k : Kind}

namespace Expression

/-! ## Clauses -/

theorem nullsOrder_alike (hW : W.Lawful) (hu : W.Made k u u') :
    W.Alike (nullsOrder u) (nullsOrder u') (W.Made k) := by
  unfold nullsOrder
  refine (Runs.consumeKeyword hW .NULLS).branch ?_ ?_
  · exact .answer hu
  · refine (Runs.consumeKeyword hW .FIRST).branch ?_ ?_
    · exact (Runs.expectKeyword hW .LAST).discard.bind fun _ _ _ => .flag hW _ nofun hu
    · exact .flag hW _ nofun hu

theorem orderByItem_alike (hW : W.Lawful) (hself : W.Serves self) :
    W.Alike (orderByItem self) (orderByItem self) (W.Made .orderByItem) := by
  unfold orderByItem
  refine (hself.expression 0).bind fun key key' hkey => ?_
  refine (Runs.nodeOver hW hkey.1 rfl (.inl rfl)).bind fun item item' hitem => ?_
  refine (Runs.attach hW hitem (hkey.fits rfl)).bind fun item item' hitem => ?_
  refine (direction_alike hW hitem).bind fun item item' hitem => ?_
  exact (nullsOrder_alike hW hitem).bind fun _ _ hitem => .finish hW hitem

theorem orderBy_alike (hW : W.Lawful) (hself : W.Serves self) :
    W.Alike (orderBy self) (orderBy self) (W.Made .orderByClause) := by
  unfold orderBy
  refine (Runs.expectKeyword hW .ORDER).bind fun t t' ht => ?_
  refine (Runs.expectKeyword hW .BY).discard.bind fun _ _ _ => ?_
  refine (Runs.nodeAt hW ht rfl).bind fun clause clause' hclause => ?_
  refine (Runs.within _ (.attachList hW (orderByItem_alike hW hself) hclause
    fun _ _ h => fits_of_tree rfl h.tree)).bind fun clause clause' hclause => ?_
  exact .finish hW hclause

theorem seesQuery_alike (hW : W.Lawful) : W.Alike seesQuery seesQuery (· = ·) :=
  Runs.seesOneOf hW _

theorem enclosedQuery_alike (hW : W.Lawful) (hself : W.Serves self) (hu : W.Made k u u') :
    W.Alike (enclosedQuery self u) (enclosedQuery self u') (W.Made k) := by
  unfold enclosedQuery
  refine (Runs.within _ hself.query).bind fun query query' hquery => ?_
  refine (Runs.attach hW hu hquery.fits).bind fun u u' hu => ?_
  exact (Runs.expect hW rfl _).discard.bind fun _ _ _ => .finish hW hu

theorem subquery_alike (hW : W.Lawful) (hself : W.Serves self) (ht : W.tok t t')
    (hk : k.isCommon) : W.Alike (subquery self k t) (subquery self k t') (W.Made k) := by
  unfold subquery
  refine (Runs.nodeAt hW ht hk).bind fun node node' hnode => ?_
  exact (Runs.flag hW .isSubquery nofun hnode).bind fun _ _ hnode =>
    enclosedQuery_alike hW hself hnode

/-! ## Parentheses -/

theorem row_alike (hW : W.Lawful) (hself : W.Serves self) (ht : W.tok t t')
    (hu : W.Operand u u') : W.Alike (row self t u) (row self t' u') (W.Made .rowValue) := by
  unfold row
  refine (Runs.nodeAt hW ht rfl).bind fun node node' hnode => ?_
  refine (Runs.attach hW hnode (hu.fits rfl)).bind fun node node' hnode => ?_
  refine (Runs.attachWhile hW (.afterComma? hW (hself.expression 0)) hnode
    fun _ _ h => h.fits rfl).bind fun node node' hnode => ?_
  exact (Runs.expect hW rfl _).discard.bind fun _ _ _ => .finish hW hnode

theorem parenthesized_alike (hW : W.Lawful) (hself : W.Serves self) :
    W.Alike (parenthesized self) (parenthesized self) W.Operand := by
  unfold parenthesized
  refine .deeper hW ?_
  refine (Runs.expect hW rfl _).bind fun opening opening' hopening => ?_
  refine (seesQuery_alike hW).branch ?_ ?_
  · refine (hself.expression 0).bind fun first first' hfirst => ?_
    refine (Runs.sees hW _).forget.branch ?_ ?_
    · exact (Runs.expect hW rfl _).discard.bind fun _ _ _ => Runs.enclosed hW hopening hfirst
    · exact (row_alike hW hself hopening hfirst).weaken fun _ _ h => h.operand rfl
  · exact (subquery_alike hW hself hopening rfl).weaken fun _ _ h => h.operand rfl

/-! ## Literals and calls -/

theorem literalKind?_spec {kind : TokenKind} (h : literalKind? kind = some k) :
    kind.isPlain ∧ k.isCommon ∧ k.isOperand := by
  unfold literalKind? at h
  split at h <;> cases h <;> exact ⟨rfl, rfl, rfl⟩

theorem literal_alike (hW : W.Lawful) (ht : W.tok t t') (hk : k.isCommon) :
    W.Alike (literal k t) (literal k t') (W.Made k) := by
  unfold literal
  refine (Runs.namedNode hW ht hk).bind fun node node' hnode => ?_
  split
  · exact .amend hW (.dataType _) hnode
  · exact .answer hnode

theorem partition?_alike (hW : W.Lawful) (hself : W.Serves self) (hu : W.Made k u u') :
    W.Alike (partition? self u) (partition? self u') (W.Made k) := by
  unfold partition?
  refine (Runs.takeKeyword? hW .PARTITION).bind fun o o' ho => ?_
  rcases ho with ⟨ht, -⟩ | _
  · refine (Runs.expectKeyword hW .BY).discard.bind fun _ _ _ => ?_
    refine (Runs.nodeAt hW ht rfl).bind fun clause clause' hclause => ?_
    refine (Runs.attachList hW (hself.expression 0) hclause fun _ _ h => h.fits rfl).bind
      fun clause clause' hclause => ?_
    exact (Runs.finish hW hclause).bind fun _ _ hclause => .attach hW hu (hclause.fits rfl)
  · exact .answer hu

theorem window_alike (hW : W.Lawful) (hself : W.Serves self) (ht : W.tok t t') :
    W.Alike (window self t) (window self t') (W.Made .windowSpec) := by
  unfold window
  refine (Runs.sees hW .leftParen).branch ?_ ?_
  · refine .seen ((Runs.expectName hW _).bind fun name name' hname => ?_)
    refine (Runs.nodeAt hW ht rfl).bind fun node node' hnode => ?_
    exact (Runs.setText hW hnode hname).bind fun _ _ hnode => .finish hW hnode
  · refine .after (fun _ h => h.1 rfl) ((Runs.takeKind hW rfl).bind fun _ _ _ => ?_)
    refine (Runs.nodeAt hW ht rfl).bind fun node node' hnode => ?_
    refine (partition?_alike hW hself hnode).bind fun node node' hnode => ?_
    refine (Runs.seesKeyword hW .ORDER).thenSame fun b => ?_
    refine (Runs.attachIf hW b (orderBy_alike hW hself) hnode fun _ _ h => h.fits rfl).bind
      fun node node' hnode => ?_
    exact (Runs.expect hW rfl _).discard.bind fun _ _ _ => .finish hW hnode

theorem over?_alike (hW : W.Lawful) (hself : W.Serves self) (hu : W.Made k u u') :
    W.Alike (over? self u) (over? self u') (W.Made k) := by
  unfold over?
  refine (Runs.takeKeyword? hW .OVER).bind fun o o' ho => ?_
  rcases ho with ⟨ht, -⟩ | _
  · exact (window_alike hW hself ht).bind fun _ _ hwindow => .attach hW hu (hwindow.fits rfl)
  · exact .answer hu

theorem arguments_alike (hW : W.Lawful) (hself : W.Serves self) (hk : k.listsRows = false)
    (hu : W.Made k u u') : W.Alike (arguments self u) (arguments self u') (W.Made k) := by
  unfold arguments
  refine (Runs.consume hW rfl).branch ?_ ?_
  · refine (Runs.sees hW _).forget.branch ?_ ?_
    · refine (Runs.consumeKeyword hW .DISTINCT).thenSame fun b => ?_
      refine (Runs.flagIf hW b .distinct nofun hu).bind fun u u' hu => ?_
      exact .within _ (.attachList hW (hself.expression 0) hu fun _ _ h => h.fits hk)
    · exact .answer hu
  · exact .flag hW _ nofun hu

/-- A call whose name was seen, with the parenthesis behind it. -/
theorem call_alike (hW : W.Lawful) (hself : W.Serves self)
    (ht : t.kind.isPlain ∨ t.kind = .quotedIdentifier) :
    W.Runs (fun ts => ts.head? = some t ∧ ts[1]?.map Token.kind = some .leftParen) (call self)
      (call self) (W.Made .functionCall) fun _ => anything := by
  unfold call
  refine .ofAdvance hW (.unexpected hW _) fun name name' hname => .inr ⟨?_, .seen ?_⟩
  · rintro ts ⟨hhead, hsecond⟩ hfine
    obtain rfl := Option.some.inj hhead
    rcases ht with hk | hk
    · exact hW.takes_plain hname hk hfine
    · exact hW.takes_call hname hk hsecond hfine
  · refine (Runs.namedNode hW hname rfl).bind fun node node' hnode => ?_
    refine (Runs.expect hW rfl _).discard.bind fun _ _ _ => ?_
    refine (arguments_alike hW hself rfl hnode).bind fun node node' hnode => ?_
    refine (Runs.expect hW rfl _).discard.bind fun _ _ _ => ?_
    exact (over?_alike hW hself hnode).bind fun _ _ hnode => .finish hW hnode

theorem setType_alike (hW : W.Lawful) (hu : W.Made .castExpr u u') :
    W.Alike (setType u) (setType u') (W.Made .castExpr) := by
  unfold setType
  refine (typeName_alike hW).bind ?_
  rintro ⟨text, dataType⟩ ⟨text', dataType'⟩ ⟨htext, htype⟩
  dsimp only at htext htype ⊢
  subst htype
  exact .amend hW (.typed rfl htext _) hu

theorem cast_alike (hW : W.Lawful) (hself : W.Serves self) :
    W.Alike (cast self) (cast self) (W.Made .castExpr) := by
  unfold cast
  refine (Runs.expectKeyword hW .CAST).bind fun t t' ht => ?_
  refine (Runs.nodeAt hW ht rfl).bind fun node node' hnode => ?_
  refine (Runs.expect hW rfl _).discard.bind fun _ _ _ => ?_
  refine (Runs.within _ (hself.expression 0)).bind fun inner inner' hinner => ?_
  refine (Runs.attach hW hnode (hinner.fits rfl)).bind fun node node' hnode => ?_
  refine (Runs.expectKeyword hW .AS).discard.bind fun _ _ _ => ?_
  refine (setType_alike hW hnode).bind fun node node' hnode => ?_
  exact (Runs.expect hW rfl _).discard.bind fun _ _ _ => .finish hW hnode

theorem extract_alike (hW : W.Lawful) (hself : W.Serves self) :
    W.Alike (extract self) (extract self) (W.Made .extractExpr) := by
  unfold extract
  refine (Runs.expectKeyword hW .EXTRACT).bind fun t t' ht => ?_
  refine (Runs.nodeAt hW ht rfl).bind fun node node' hnode => ?_
  refine (Runs.expect hW rfl _).discard.bind fun _ _ _ => ?_
  refine (Runs.expectNamePart hW _).bind fun field field' hfield => ?_
  refine (Runs.setText hW hnode hfield).bind fun node node' hnode => ?_
  refine (Runs.expectKeyword hW .FROM).discard.bind fun _ _ _ => ?_
  refine (Runs.within _ (hself.expression 0)).bind fun inner inner' hinner => ?_
  refine (Runs.attach hW hnode (hinner.fits rfl)).bind fun node node' hnode => ?_
  exact (Runs.expect hW rfl _).discard.bind fun _ _ _ => .finish hW hnode

/-! ## Cases -/

theorem whenArm?_alike (hW : W.Lawful) (hself : W.Serves self) :
    W.Alike (whenArm? self) (whenArm? self) (Option.Rel (W.Made .whenClause)) := by
  unfold whenArm?
  refine (Runs.takeKeyword? hW .WHEN).bind fun o o' ho => ?_
  rcases ho with ⟨ht, -⟩ | _
  · refine (Runs.nodeAt hW ht rfl).bind fun arm arm' harm => ?_
    refine (hself.expression 0).bind fun condition condition' hcondition => ?_
    refine (Runs.expectKeyword hW .THEN).discard.bind fun _ _ _ => ?_
    refine (hself.expression 0).bind fun result result' hresult => ?_
    refine (Runs.attach hW harm (hcondition.fits rfl)).bind fun arm arm' harm => ?_
    refine (Runs.attach hW harm (hresult.fits rfl)).bind fun arm arm' harm => ?_
    exact (Runs.finish hW harm).bind fun _ _ harm => .answer (.some harm)
  · exact .answer .none

theorem otherwise?_alike (hW : W.Lawful) (hself : W.Serves self) (hu : W.Made k u u') :
    W.Alike (otherwise? self u) (otherwise? self u') (W.Made k) := by
  unfold otherwise?
  refine (Runs.takeKeyword? hW .ELSE).bind fun o o' ho => ?_
  rcases ho with ⟨ht, -⟩ | _
  · refine (Runs.nodeAt hW ht rfl).bind fun clause clause' hclause => ?_
    refine (hself.expression 0).bind fun result result' hresult => ?_
    refine (Runs.attach hW hclause (hresult.fits rfl)).bind fun clause clause' hclause => ?_
    exact (Runs.finish hW hclause).bind fun _ _ hclause => .attach hW hu (hclause.fits rfl)
  · exact .answer hu

theorem arms_alike (hW : W.Lawful) (hself : W.Serves self) (hu : W.Made k u u') :
    W.Alike (arms self u) (arms self u') (W.Made k) := by
  unfold arms
  refine (whenArm?_alike hW hself).bind fun o o' ho => ?_
  rcases ho with harm | _
  · exact (Runs.attach hW hu (harm.fits rfl)).bind fun _ _ hu =>
      .attachWhile hW (whenArm?_alike hW hself) hu fun _ _ h => h.fits rfl
  · exact .unexpected hW _

theorem caseOf_alike (hW : W.Lawful) (hself : W.Serves self) :
    W.Alike (caseOf self) (caseOf self) (W.Made .caseExpr) := by
  unfold caseOf
  refine (Runs.expectKeyword hW .CASE).bind fun t t' ht => ?_
  refine (Runs.nodeAt hW ht rfl).bind fun node node' hnode => ?_
  refine (Runs.within _ ?_).bind fun _ _ hnode => .finish hW hnode
  refine (Runs.seesKeyword hW .WHEN).thenSame fun b => ?_
  refine (Runs.attachIf hW _ (hself.expression 0) hnode fun _ _ h => h.fits rfl).bind
    fun node node' hnode => ?_
  refine (arms_alike hW hself hnode).bind fun node node' hnode => ?_
  refine (otherwise?_alike hW hself hnode).bind fun node node' hnode => ?_
  exact (Runs.expectKeyword hW .END).discard.bind fun _ _ _ => .answer hnode

/-! ## Calls with their own syntax -/

theorem existence_alike (hW : W.Lawful) (hself : W.Serves self) :
    W.Alike (existence self) (existence self) (W.Made .existsExpr) := by
  unfold existence
  refine (Runs.expectKeyword hW .EXISTS).bind fun t t' ht => ?_
  refine (Runs.nodeAt hW ht rfl).bind fun node node' hnode => ?_
  exact (Runs.expect hW rfl _).discard.bind fun _ _ _ => enclosedQuery_alike hW hself hnode

theorem position_alike (hW : W.Lawful) (hself : W.Serves self) {kind : TokenKind}
    (hk : kind.isPlain) :
    W.Runs (fun ts => ts[0]?.map Token.kind = some kind) (position self) (position self)
      (W.Made .positionExpr) fun _ => anything := by
  unfold position
  refine .word hW hk (.unexpected hW _) fun t t' ht => ?_
  refine (Runs.nodeAt hW ht rfl).bind fun node node' hnode => ?_
  refine (Runs.expect hW rfl _).discard.bind fun _ _ _ => ?_
  refine (Runs.within _ ?_).bind fun _ _ hnode =>
    (Runs.expect hW rfl _).discard.bind fun _ _ _ => .finish hW hnode
  refine (hself.expression _).bind fun needle needle' hneedle => ?_
  refine (Runs.expectKeyword hW .IN).discard.bind fun _ _ _ => ?_
  refine (hself.expression 0).bind fun haystack haystack' hhaystack => ?_
  exact (Runs.attach hW hnode (hneedle.fits rfl)).bind fun _ _ hnode =>
    .attach hW hnode (hhaystack.fits rfl)

theorem substringArguments_alike (hW : W.Lawful) (hself : W.Serves self)
    (hk : k.listsRows = false) (hu : W.Made k u u') :
    W.Alike (substringArguments self u) (substringArguments self u') (W.Made k) := by
  unfold substringArguments
  refine (hself.expression 0).bind fun text text' htext => ?_
  refine (Runs.attach hW hu (htext.fits hk)).bind fun u u' hu => ?_
  refine (Runs.consumeKeyword hW .FROM).branch ?_ ?_
  · refine (Runs.expect hW rfl _).discard.bind fun _ _ _ => ?_
    refine (hself.expression 0).bind fun start start' hstart => ?_
    refine (Runs.attach hW hu (hstart.fits hk)).bind fun u u' hu => ?_
    refine (Runs.consume hW rfl).thenSame fun b => ?_
    exact .attachIf hW b (hself.expression 0) hu fun _ _ h => h.fits hk
  · refine (hself.expression 0).bind fun start start' hstart => ?_
    refine (Runs.attach hW hu (hstart.fits hk)).bind fun u u' hu => ?_
    refine (Runs.consumeKeyword hW .FOR).thenSame fun b => ?_
    exact .attachIf hW b (hself.expression 0) hu fun _ _ h => h.fits hk

theorem substring_alike (hW : W.Lawful) (hself : W.Serves self) {kind : TokenKind}
    (hk : kind.isPlain) :
    W.Runs (fun ts => ts[0]?.map Token.kind = some kind) (substring self) (substring self)
      (W.Made .substringExpr) fun _ => anything := by
  unfold substring
  refine .word hW hk (.unexpected hW _) fun t t' ht => ?_
  refine (Runs.nodeAt hW ht rfl).bind fun node node' hnode => ?_
  refine (Runs.expect hW rfl _).discard.bind fun _ _ _ => ?_
  refine (Runs.within _ (substringArguments_alike hW hself rfl hnode)).bind
    fun node node' hnode => ?_
  exact (Runs.expect hW rfl _).discard.bind fun _ _ _ => .finish hW hnode

theorem named_alike (hW : W.Lawful) (hself : W.Serves self) (ht : W.tok t t') (hname : t.isName) :
    W.Runs (fun ts => ts.head? = some t) (named self t) (named self t') W.Operand
      fun _ => anything := by
  unfold named
  refine (Runs.kindAt hW 1).thenSame fun o => ?_
  rw [hW.kind ht, hW.word ht, hW.word ht]
  by_cases hopen : o = some .leftParen
  · subst hopen
    rw [if_neg (by decide)]
    split_ifs with hposition hsubstring
    · have hk : t.kind.isPlain := by
        rw [hW.kind ht, eq_of_beq (Bool.and_eq_true_iff.1 hposition).1]
        rfl
      exact .after (fun _ h => Runs.kind_of_head? h.2)
        ((position_alike hW hself hk).weaken fun _ _ h => h.operand rfl)
    · have hk : t.kind.isPlain := by
        rw [hW.kind ht, eq_of_beq (Bool.and_eq_true_iff.1 hsubstring).1]
        rfl
      exact .after (fun _ h => Runs.kind_of_head? h.2)
        ((substring_alike hW hself hk).weaken fun _ _ h => h.operand rfl)
    · exact .after (fun _ h => ⟨h.2, h.1.symm⟩)
        ((call_alike hW hself (Runs.plain_of_isName hname)).weaken fun _ _ h => h.operand rfl)
  · rw [if_pos (bne_iff_ne.2 hopen)]
    refine .seen ((columnReference_alike hW false).weaken fun _ _ h => ?_)
    rcases h with h | ⟨h, -⟩
    · exact h.operand rfl
    · cases h

theorem primary_alike (hW : W.Lawful) (hself : W.Serves self) :
    W.Alike (primary self) (primary self) W.Operand := by
  unfold primary
  refine .ofCurrent (.unexpected hW _) fun t t' ht => ?_
  dsimp only
  rw [← hW.kind ht, ← Runs.isName hW ht]
  split
  · next kind hkind =>
    obtain ⟨hplain, hcommon, hoperand⟩ := literalKind?_spec hkind
    exact .takePlain hW hplain ((literal_alike hW ht hcommon).weaken fun _ _ h =>
      h.operand hoperand)
  · have hcall (hk : t.kind.isPlain) : W.Runs (fun ts => ts.head? = some t ∧ anything ts)
        (do if (← kindAt 1) == some .leftParen then call self else unexpected "expression")
        (do if (← kindAt 1) == some .leftParen then call self else unexpected "expression")
        W.Operand fun _ => anything := by
      refine (Runs.kindAt hW 1).thenSame fun o => ?_
      split
      · next ho =>
        exact .after (fun _ h => ⟨h.2.1, h.1.symm.trans (eq_of_beq ho)⟩)
          ((call_alike hW hself (.inl hk)).weaken fun _ _ h => h.operand rfl)
      · exact .unexpected hW _
    split
    · exact .seen (parenthesized_alike hW hself)
    · exact .seen ((caseOf_alike hW hself).weaken fun _ _ h => h.operand rfl)
    · exact .seen ((cast_alike hW hself).weaken fun _ _ h => h.operand rfl)
    · exact .seen ((extract_alike hW hself).weaken fun _ _ h => h.operand rfl)
    · exact .seen ((existence_alike hW hself).weaken fun _ _ h => h.operand rfl)
    · next hk => exact hcall (by rw [hk]; rfl)
    · next hk => exact hcall (by rw [hk]; rfl)
    · split
      · next hname => exact .after (fun _ h => h.1) (named_alike hW hself ht hname)
      · exact .unexpected hW _

/-! ## Operators -/

theorem unary_alike (hW : W.Lawful) (hself : W.Serves self) (ht : W.tok t t') (power : Nat) :
    W.Alike (unary self t power) (unary self t' power) (W.Made .unaryExpr) := by
  unfold unary
  rw [hW.kind ht]
  refine (hself.expression power).bind fun inner inner' hinner => ?_
  refine (Runs.nodeAt hW ht rfl).bind fun node node' hnode => ?_
  refine (Runs.amend hW (.operator _) hnode).bind fun node node' hnode => ?_
  exact (Runs.attach hW hnode (hinner.fits rfl)).bind fun _ _ hnode => .finish hW hnode

theorem plain_of_leading? {kind : TokenKind} {power : Nat}
    (h : Power.leading? kind = some power) : kind.isPlain := by
  unfold Power.leading? at h
  split at h <;> first | rfl | cases h

theorem operand_alike (hW : W.Lawful) (hself : W.Serves self) :
    W.Alike (operand self) (operand self) W.Operand := by
  unfold operand
  refine .ofCurrent (.unexpected hW _) fun t t' ht => ?_
  dsimp only
  rw [← hW.kind ht]
  split
  · exact .seen (primary_alike hW hself)
  · next power hleading =>
    have hunary : W.Alike (unary self t power) (unary self t' power) W.Operand :=
      (unary_alike hW hself ht power).weaken fun _ _ h => h.operand rfl
    refine .takePlain hW (plain_of_leading? hleading) ?_
    refine (Runs.seesKeyword hW .EXISTS).thenSame fun b => ?_
    split
    · exact (existence_alike hW hself).bind fun _ _ hnode =>
        (Runs.flag hW .negated nofun hnode).weaken fun _ _ h => h.operand rfl
    · exact hunary

theorem listItems_alike (hW : W.Lawful) (hself : W.Serves self) (hk : k.listsRows = false)
    (hu : W.Made k u u') : W.Alike (listItems self u) (listItems self u') (W.Made k) := by
  unfold listItems
  refine (Runs.sees hW _).forget.branch ?_ ?_
  · exact .attachList hW (hself.expression 0) hu fun _ _ h => h.fits hk
  · exact .answer hu

theorem memberList_alike (hW : W.Lawful) (hself : W.Serves self) (ht : W.tok t t') :
    W.Alike (memberList self t) (memberList self t') (W.Made .exprList) := by
  unfold memberList
  refine (Runs.nodeAt hW ht rfl).bind fun list list' hlist => ?_
  refine (listItems_alike hW hself rfl hlist).bind fun list list' hlist => ?_
  exact (Runs.expect hW rfl _).discard.bind fun _ _ _ => .finish hW hlist

theorem membership_alike (hW : W.Lawful) (hself : W.Serves self) (hu : W.Operand u u') :
    W.Alike (membership self u) (membership self u') (W.Made .inExpr) := by
  unfold membership
  refine (Runs.nodeOver hW hu.1 rfl (.inl rfl)).bind fun node node' hnode => ?_
  refine (Runs.attach hW hnode (hu.fits rfl)).bind fun node node' hnode => ?_
  refine (Runs.expect hW rfl _).bind fun opening opening' hopening => ?_
  refine (seesQuery_alike hW).branch ?_ ?_
  · exact (memberList_alike hW hself hopening).bind fun _ _ hlist =>
      .attach hW hnode (hlist.fits rfl)
  · exact (subquery_alike hW hself hopening rfl).bind fun _ _ hquery =>
      .attach hW hnode (hquery.fits rfl)

theorem range_alike (hW : W.Lawful) (hself : W.Serves self) (hu : W.Operand u u') (power : Nat) :
    W.Alike (range self u power) (range self u' power) (W.Made .betweenExpr) := by
  unfold range
  refine (Runs.nodeOver hW hu.1 rfl (.inl rfl)).bind fun node node' hnode => ?_
  refine (hself.expression power).bind fun low low' hlow => ?_
  refine (Runs.expectKeyword hW .AND).discard.bind fun _ _ _ => ?_
  refine (hself.expression power).bind fun high high' hhigh => ?_
  refine (Runs.attach hW hnode (hu.fits rfl)).bind fun node node' hnode => ?_
  exact (Runs.attach hW hnode (hlow.fits rfl)).bind fun _ _ hnode =>
    .attach hW hnode (hhigh.fits rfl)

theorem setOperator_alike (hW : W.Lawful) (op : BinaryOp) (hu : W.Made k u u') :
    W.Alike (setOperator u op) (setOperator u' op) (W.Made k) :=
  .amend hW (.operator _) hu

theorem likeness_alike (hW : W.Lawful) (hself : W.Serves self) (hu : W.Operand u u')
    (op : BinaryOp) (power : Nat) :
    W.Alike (likeness self u op power) (likeness self u' op power) (W.Made .likeExpr) := by
  unfold likeness
  refine (Runs.nodeOver hW hu.1 rfl (.inl rfl)).bind fun node node' hnode => ?_
  refine (setOperator_alike hW op hnode).bind fun node node' hnode => ?_
  refine (hself.expression power).bind fun pattern pattern' hpattern => ?_
  refine (Runs.attach hW hnode (hu.fits rfl)).bind fun node node' hnode => ?_
  refine (Runs.attach hW hnode (hpattern.fits rfl)).bind fun node node' hnode => ?_
  refine (Runs.consumeKeyword hW _).thenSame fun b => ?_
  exact .attachIf hW b (hself.expression power) hnode fun _ _ h => h.fits rfl

theorem identity_alike (hW : W.Lawful) (hself : W.Serves self) (hu : W.Operand u u')
    (power : Nat) : W.Alike (identity self u power) (identity self u' power) (W.Made .isExpr) := by
  unfold identity
  refine (Runs.nodeOver hW hu.1 rfl (.inl rfl)).bind fun node node' hnode => ?_
  refine (setOperator_alike hW .is hnode).bind fun node node' hnode => ?_
  refine (Runs.consumeKeyword hW _).thenSame fun negated => ?_
  refine (hself.expression power).bind fun right right' hright => ?_
  refine (Runs.attach hW hnode (hu.fits rfl)).bind fun node node' hnode => ?_
  exact (Runs.attach hW hnode (hright.fits rfl)).bind fun _ _ hnode =>
    .flagIf hW negated _ nofun hnode

theorem isMisspelled_alike (hW : W.Lawful) (ht : W.tok t t') :
    t.isMisspelled = t'.isMisspelled := by
  by_cases h : t.isMisspelled ∨ t'.isMisspelled
  · unfold Token.isMisspelled
    rw [hW.spelling ht h]
  · simp_all

theorem binary_alike (hW : W.Lawful) (hself : W.Serves self) (hu : W.Operand u u')
    (ht : W.tok t t') (power : Nat) :
    W.Alike (binary self u t power) (binary self u' t' power) (W.Made .binaryExpr) := by
  unfold binary
  refine .askIf (fun c => c.strictAnsi && t.isMisspelled) (fun c => c.strictAnsi && t'.isMisspelled)
    ?_ (fun h => ?_) fun _ => ?_
  · rw [hW.strictAnsi, isMisspelled_alike hW ht]
  · rw [hW.spelling ht (.inl (Bool.and_eq_true_iff.1 h).2)]
    exact .fail (hW.failsAt _ ht)
  · rw [← hW.kind ht]
    split
    · exact .fail (hW.failsAt _ ht)
    · next op _ =>
      refine (hself.expression power).bind fun right right' hright => ?_
      refine (Runs.nodeOver hW hu.1 rfl (.inl rfl)).bind fun node node' hnode => ?_
      refine (setOperator_alike hW op hnode).bind fun node node' hnode => ?_
      exact (Runs.attach hW hnode (hu.fits rfl)).bind fun _ _ hnode =>
        .attach hW hnode (hright.fits rfl)

/-- An operator that strict mode spells otherwise is refused. -/
theorem binary_breaks (hW : W.Lawful) (ht : W.tok t t') (hstrict : W.config.strictAnsi = true)
    (hmis : t.isMisspelled = true) (power power' : Nat) :
    W.Breaks (binary self u t power) (binary self u' t' power') := by
  have hmis' := isMisspelled_alike hW ht
  unfold binary
  refine .askIf (fun c => c.strictAnsi && t.isMisspelled) (fun c => c.strictAnsi && t'.isMisspelled)
    ?_ ?_ ?_
  · rw [hstrict, hmis]
    rfl
  · rw [← hW.strictAnsi, hstrict, ← hmis', hmis]
    rfl
  · rw [hW.spelling ht (.inl hmis)]
    exact .fail (hW.failsAt _ ht)

/-- Trees of operators between operands. -/
def Joined (W : Pairing) (t t' : Tree) : Prop := ∃ k, k.isOperand ∧ W.Made k t t'

theorem application_alike (hW : W.Lawful) (hself : W.Serves self) (hu : W.Operand u u')
    (ht : W.tok t t') (power : Nat) :
    W.Alike (application self u t power) (application self u' t' power) (Joined W) := by
  unfold application
  rw [← hW.kind ht]
  split
  · exact (membership_alike hW hself hu).weaken fun _ _ h => ⟨_, rfl, h⟩
  · exact (range_alike hW hself hu power).weaken fun _ _ h => ⟨_, rfl, h⟩
  · exact (likeness_alike hW hself hu .like power).weaken fun _ _ h => ⟨_, rfl, h⟩
  · exact (likeness_alike hW hself hu .glob power).weaken fun _ _ h => ⟨_, rfl, h⟩
  · exact (identity_alike hW hself hu power).weaken fun _ _ h => ⟨_, rfl, h⟩
  · exact (binary_alike hW hself hu ht power).weaken fun _ _ h => ⟨_, rfl, h⟩

theorem plain_of_joining? {kind : TokenKind} {next : Option TokenKind} {powers : Nat × Nat}
    (h : Power.joining? kind next = some powers) : kind.isPlain ∨ kind = .eq ∨ kind = .notEq := by
  unfold Power.joining? at h
  split at h <;> first | exact .inl rfl | exact .inr (.inl rfl) | exact .inr (.inr rfl) | cases h

theorem plain_of_negates {kind : TokenKind} (h : Power.negates (some kind)) : kind.isPlain := by
  unfold Power.negates at h
  split at h
  · next heq => rw [Option.some.inj heq]; rfl
  · next heq => rw [Option.some.inj heq]; rfl
  · next heq => rw [Option.some.inj heq]; rfl
  · next heq => rw [Option.some.inj heq]; rfl
  · cases h

theorem negates_of_joining? {next : Option TokenKind} {powers : Nat × Nat}
    (h : Power.joining? (.keyword .NOT) next = some powers) : Power.negates next := by
  by_contra hnegates
  simp [Power.joining?, hnegates] at h

theorem application_breaks (hW : W.Lawful) (ht : W.tok t t') (hk : t.kind = .eq ∨ t.kind = .notEq)
    (hstrict : W.config.strictAnsi = true) (hmis : t.isMisspelled = true) (power : Nat) :
    W.Breaks (application self u t power) (application self u' t' power) := by
  unfold application
  rw [← hW.kind ht]
  rcases hk with hk | hk
  · rw [hk]
    exact binary_breaks hW ht hstrict hmis power power
  · rw [hk]
    exact binary_breaks hW ht hstrict hmis power power

/-- The operator was seen with the token after it, which is taken too if it is negated. -/
theorem joining_alike (hW : W.Lawful) (hself : W.Serves self) (hu : W.Operand u u')
    (ht : W.tok t t') {next : Option TokenKind} {powers : Nat × Nat}
    (h : Power.joining? t.kind next = some powers) (power : Nat) :
    W.Runs (fun ts => ts.head? = some t ∧ ts[1]?.map Token.kind = next) (joining self u t power)
      (joining self u' t' power) W.Operand fun _ => anything := by
  unfold joining
  rw [← hW.kind ht]
  by_cases hnot : t.kind = .keyword .NOT
  · rw [if_pos (beq_iff_eq.2 hnot), if_pos (beq_iff_eq.2 hnot)]
    rw [hnot] at h
    have htakes : ∀ t' ts, W.tok t t' → (t :: ts)[1]?.map Token.kind = next → W.fine (t :: ts) →
        W.fine ts := fun _ _ ht _ => hW.takes_plain ht (by rw [hnot]; rfl)
    refine .takeSeen hW (.inr ⟨htakes, ?_⟩)
    refine .ofAdvance hW (.unexpected hW _) fun op op' hop => .inr ⟨?_, .seen ?_⟩
    · intro ts hnext
      refine hW.takes_plain hop (plain_of_negates ?_)
      obtain rfl := hnext
      exact negates_of_joining? h
    · refine (application_alike hW hself hu hop power).bind ?_
      rintro node node' ⟨k, hk, hnode⟩
      refine (Runs.flag hW .negated nofun hnode).bind fun node node' hnode => ?_
      exact (Runs.finish hW hnode).weaken fun _ _ h => h.operand hk
  · rw [if_neg fun heq => hnot (eq_of_beq heq), if_neg fun heq => hnot (eq_of_beq heq)]
    refine .takeSeen hW ?_
    by_cases hbad : (t.kind = .eq ∨ t.kind = .notEq) ∧ W.config.strictAnsi = true ∧
        t.isMisspelled = true
    · exact .inl (application_breaks hW ht hbad.1 hbad.2.1 hbad.2.2 power).bind
    · refine .inr ⟨fun _ ts ht _ => ?_, .seen ?_⟩
      · rcases plain_of_joining? h with hk | hk
        · exact hW.takes_plain ht hk
        · refine hW.takes_operator ht hk fun hstrict => ?_
          simpa using fun hmis => hbad ⟨hk, hstrict, hmis⟩
      · refine (application_alike hW hself hu ht power).bind ?_
        rintro node node' ⟨k, hk, hnode⟩
        exact (Runs.finish hW hnode).weaken fun _ _ h => h.operand hk

theorem signCast_alike (hW : W.Lawful) (hu : W.Operand u u') (ht : W.tok t t') :
    W.Alike (signCast u t) (signCast u' t') (W.Made .castExpr) := by
  unfold signCast
  refine .askIf (fun c => c.strictAnsi || !c.allowExtensions)
    (fun c => c.strictAnsi || !c.allowExtensions) ?_ (fun _ => .fail (hW.failsAt _ ht)) fun _ => ?_
  · rw [hW.strictAnsi, hW.allowExtensions]
  · refine (Runs.nodeOver hW hu.1 rfl (.inl rfl)).bind fun node node' hnode => ?_
    refine (Runs.attach hW hnode (hu.fits rfl)).bind fun node node' hnode => ?_
    exact (setType_alike hW hnode).bind fun _ _ hnode => .finish hW hnode

theorem signCast_breaks (hW : W.Lawful) (ht : W.tok t t')
    (h : (W.config.strictAnsi || !W.config.allowExtensions) = true) :
    W.Breaks (signCast u t) (signCast u' t') := by
  unfold signCast
  refine .askIf (fun c => c.strictAnsi || !c.allowExtensions)
    (fun c => c.strictAnsi || !c.allowExtensions) h ?_ (.fail (hW.failsAt _ ht))
  rw [← hW.strictAnsi, ← hW.allowExtensions, h]

theorem collation_alike (hW : W.Lawful) (hu : W.Operand u u') :
    W.Alike (collation u) (collation u') (W.Made .collateExpr) := by
  unfold collation
  refine (Runs.expectNamePart hW _).bind fun name name' hname => ?_
  refine (Runs.nodeOver hW hu.1 rfl (.inl rfl)).bind fun node node' hnode => ?_
  refine (Runs.setText hW hnode hname).bind fun node node' hnode => ?_
  exact (Runs.attach hW hnode (hu.fits rfl)).bind fun _ _ hnode => .finish hW hnode

theorem plain_of_trailing? {kind : TokenKind} {power : Nat}
    (h : Power.trailing? kind = some power) (hne : kind ≠ .doubleColon) : kind.isPlain := by
  unfold Power.trailing? at h
  split at h
  · rfl
  · exact absurd rfl hne
  · cases h

theorem trailing_alike (hW : W.Lawful) (hu : W.Operand u u') (ht : W.tok t t') {power : Nat}
    (h : Power.trailing? t.kind = some power) :
    W.Runs (fun ts => ts.head? = some t ∧ anything ts) (trailing u t) (trailing u' t') W.Operand
      fun _ => anything := by
  unfold trailing
  rw [← hW.kind ht]
  by_cases hcast : t.kind = .doubleColon
  · rw [if_pos (beq_iff_eq.2 hcast), if_pos (beq_iff_eq.2 hcast)]
    refine .takeSeen hW ?_
    by_cases hrefused : (W.config.strictAnsi || !W.config.allowExtensions) = true
    · exact .inl (signCast_breaks hW ht hrefused)
    · obtain ⟨hstrict, hallow⟩ : W.config.strictAnsi = false ∧ W.config.allowExtensions = true := by
        simpa using hrefused
      exact .inr ⟨fun _ _ ht _ => hW.takes_cast ht hcast hstrict hallow,
        (signCast_alike hW hu ht).seen.weaken fun _ _ h => h.operand rfl⟩
  · rw [if_neg fun heq => hcast (eq_of_beq heq), if_neg fun heq => hcast (eq_of_beq heq)]
    exact .takePlain hW (plain_of_trailing? h hcast)
      ((collation_alike hW hu).weaken fun _ _ h => h.operand rfl)

theorem grow?_alike (hW : W.Lawful) (hself : W.Serves self) (power : Nat) (hu : W.Operand u u') :
    W.Alike (grow? self power u) (grow? self power u') (Option.Rel W.Operand) := by
  unfold grow?
  refine Runs.current.bind fun o o' ho => ?_
  rcases ho with @⟨t, t', ht⟩ | _
  · dsimp only
    rw [← hW.kind ht]
    split
    · next htrailing =>
      split
      · exact .seen (.answer .none)
      · exact (trailing_alike hW hu ht htrailing).bind fun _ _ h => .answer (.some h)
    · refine (Runs.kindAt hW 1).thenSame fun next => ?_
      split
      · next l r hjoining =>
        split
        · exact .seen (.answer .none)
        · exact .after (fun _ h => ⟨h.2.1, h.1.symm⟩)
            ((joining_alike hW hself hu ht hjoining r).bind fun _ _ h => .answer (.some h))
      · exact .seen (.answer .none)
  · exact .seen (.answer .none)

end Expression

theorem expression_alike (hW : W.Lawful) (hself : W.Serves self) (power : Nat) :
    W.Alike (expression self power) (expression self power) W.Operand := by
  unfold expression
  exact .deeper hW ((Expression.operand_alike hW hself).bind fun _ _ hu =>
    .iterate (fun _ _ h => Expression.grow?_alike hW hself power h) hu)

end SqlSyntax
