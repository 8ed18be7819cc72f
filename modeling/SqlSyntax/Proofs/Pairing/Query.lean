import SqlSyntax.Grammar.Query
import SqlSyntax.Proofs.Pairing.Expression

/-!
# Queries in two runs

Queries and tables begin at the same place in both runs, and so do set operations and joins, which
begin where their first operand begins.
-/

namespace SqlSyntax

open SqlSyntax.Parser SqlSyntax.Pairing

variable {W : Pairing} {self : Nested} {t t' : Token} {u u' : Tree} {k : Kind}

namespace Query

/-! ## Tables and columns -/

/-- A result column may be an operand, which has no alias. -/
theorem resultColumn_alike (hW : W.Lawful) (hself : W.Serves self) :
    W.Alike (resultColumn self) (resultColumn self) W.tree := by
  unfold resultColumn
  refine (Runs.take? hW rfl).bind fun o o' ho => ?_
  rcases ho with ⟨ht, -⟩ | _
  · exact (Runs.nodeAt hW ht rfl).weaken fun _ _ h => h.tree
  · refine (seesQualifiedStar_alike hW).thenSame fun b => ?_
    split
    · exact (columnReference_alike hW true).weaken fun _ _ h => h.elim (·.tree) (·.2.tree)
    · refine (hself.expression 0).bind fun value value' hvalue => ?_
      refine (aliasName?_alike hW).bind fun o o' ho => ?_
      rcases ho with ht | _
      · refine (Runs.nodeOver hW hvalue.1 rfl (.inl rfl)).bind fun node node' hnode => ?_
        refine (Runs.attach hW hnode (hvalue.fits rfl)).bind fun node node' hnode => ?_
        exact (aliased_alike hW hnode ht).weaken fun _ _ h => h.tree
      · exact .answer hvalue.1

theorem resultColumns_alike (hW : W.Lawful) (hself : W.Serves self) (hk : k.isCommon)
    (hrows : k.listsRows = false) :
    W.Alike (resultColumns self k) (resultColumns self k) (W.Made k) := by
  unfold resultColumns
  refine .ofCurrent (.unexpected hW _) fun first first' hfirst => .seen ?_
  refine (Runs.nodeAt hW hfirst hk).bind fun node node' hnode => ?_
  exact (Runs.attachList hW (resultColumn_alike hW hself) hnode
    fun _ _ h => fits_of_tree hrows h).bind fun _ _ hnode => .finish hW hnode

theorem tablePrimary_alike (hW : W.Lawful) (hself : W.Serves self) :
    W.Alike (tablePrimary self) (tablePrimary self) W.Placed := by
  unfold tablePrimary
  refine .ofCurrent (.unexpected hW _) fun t t' ht => ?_
  dsimp only
  rw [← hW.kind ht]
  split
  · refine .seen ((objectName_alike hW rfl).bind fun table table' htable => ?_)
    exact (withAlias_alike hW htable).weaken fun _ _ h => h.placed rfl
  · next hopening =>
    have hk : t.kind = .leftParen := by simpa using hopening
    refine .takePlain hW (by rw [hk]; rfl) ?_
    refine (Expression.seesQuery_alike hW).branch ?_ ?_
    · refine hself.joinTree.bind fun tables tables' htables => ?_
      exact (Runs.expect hW rfl _).discard.bind fun _ _ _ => .answer htables
    · refine (Expression.subquery_alike hW hself ht rfl).bind fun table table' htable => ?_
      exact (withAlias_alike hW htable).weaken fun _ _ h => h.placed rfl

/-- A kind of joins with whether they are outer ones. -/
def JoinsAlike (x x' : Kind × Bool) : Prop :=
  x = x' ∧ x.1.isCommon = true ∧ x.1.isAnchored

theorem joinKind?_alike (hW : W.Lawful) :
    W.Alike joinKind? joinKind? (Option.Rel JoinsAlike) := by
  unfold joinKind?
  have hplain {word : Keyword} {kind : Kind} (h : kind.isCommon = true ∧ kind.isAnchored) :
      W.Runs (fun ts => ts[0]?.map Token.kind = some (.keyword word))
        (do discard advance; return some (kind, false))
        (do discard advance; return some (kind, false))
        (Option.Rel JoinsAlike) fun _ => anything :=
    (Runs.takeKind hW rfl).bind fun _ _ _ => .answer (.some ⟨rfl, h⟩)
  have hsided {word : Keyword} {kind : Kind} (h : kind.isCommon = true ∧ kind.isAnchored) :
      W.Runs (fun ts => ts[0]?.map Token.kind = some (.keyword word))
        (do discard advance; return some (kind, ← consumeKeyword .OUTER))
        (do discard advance; return some (kind, ← consumeKeyword .OUTER))
        (Option.Rel JoinsAlike) fun _ => anything := by
    refine (Runs.takeKind hW rfl).bind fun _ _ _ => ?_
    refine (Runs.consumeKeyword hW .OUTER).thenSame fun b => ?_
    exact .answer (.some ⟨rfl, h⟩)
  refine (Runs.currentKind hW).thenSame fun o => ?_
  dsimp only
  split
  · exact .seen (.answer (.some ⟨rfl, rfl, rfl⟩))
  · exact .after (fun _ h => h.1.symm) (hplain ⟨rfl, rfl⟩)
  · exact .after (fun _ h => h.1.symm) (hplain ⟨rfl, rfl⟩)
  · exact .after (fun _ h => h.1.symm) (hsided ⟨rfl, rfl⟩)
  · exact .after (fun _ h => h.1.symm) (hsided ⟨rfl, rfl⟩)
  · exact .after (fun _ h => h.1.symm) (hsided ⟨rfl, rfl⟩)
  · exact .seen (.answer .none)

theorem clause_alike (hW : W.Lawful) (hself : W.Serves self) (context : Context)
    (ht : W.tok t t') (hk : k.isCommon) (hrows : k.listsRows = false) :
    W.Alike (clause self k context t) (clause self k context t') (W.Made k) := by
  unfold clause
  refine (Runs.nodeAt hW ht hk).bind fun node node' hnode => ?_
  refine (Runs.within context (hself.expression 0)).bind fun condition condition' hcondition => ?_
  exact (Runs.attach hW hnode (hcondition.fits hrows)).bind fun _ _ hnode => .finish hW hnode

theorem usingColumns_alike (hW : W.Lawful) (ht : W.tok t t') :
    W.Alike (usingColumns t) (usingColumns t') (W.Made .usingClause) := by
  unfold usingColumns
  refine (Runs.nodeAt hW ht rfl).bind fun node node' hnode => ?_
  refine (Runs.expect hW rfl _).discard.bind fun _ _ _ => ?_
  refine (Runs.attachList hW (columnName_alike hW) hnode fun _ _ h => h.fits rfl).bind
    fun node node' hnode => ?_
  exact (Runs.expect hW rfl _).discard.bind fun _ _ _ => .finish hW hnode

theorem joinCondition?_alike (hW : W.Lawful) (hself : W.Serves self) (hu : W.Made k u u') :
    W.Alike (joinCondition? self u) (joinCondition? self u') (W.Made k) := by
  unfold joinCondition?
  refine (Runs.takeKeyword? hW .ON).bind fun o o' ho => ?_
  rcases ho with ⟨ht, -⟩ | _
  · exact (clause_alike hW hself _ ht rfl rfl).bind fun _ _ hclause =>
      .attach hW hu (hclause.fits rfl)
  · refine (Runs.takeKeyword? hW .USING).bind fun o o' ho => ?_
    rcases ho with ⟨ht, -⟩ | _
    · exact (usingColumns_alike hW ht).bind fun _ _ hcolumns => .attach hW hu (hcolumns.fits rfl)
    · exact .answer hu

theorem joined?_alike (hW : W.Lawful) (hself : W.Serves self) (hu : W.Placed u u') :
    W.Alike (joined? self u) (joined? self u') (Option.Rel W.Placed) := by
  unfold joined?
  refine (Runs.consumeKeyword hW .NATURAL).thenSame fun natural => ?_
  refine (joinKind?_alike hW).bind fun o o' ho => ?_
  rcases ho with @⟨⟨kind, outer⟩, _, rfl, hcommon, hfloats⟩ | _
  · refine (Runs.expectKeyword hW .JOIN).discard.bind fun _ _ _ => ?_
    refine (tablePrimary_alike hW hself).bind fun right right' hright => ?_
    refine (Runs.nodeOver hW hu.tree hcommon (.inr hu)).bind fun join join' hjoin => ?_
    refine (Runs.flagIf hW natural .natural nofun hjoin).bind fun join join' hjoin => ?_
    refine (Runs.flagIf hW outer .outer nofun hjoin).bind fun join join' hjoin => ?_
    refine (Runs.attach hW hjoin hu.fits).bind fun join join' hjoin => ?_
    refine (Runs.attach hW hjoin hright.fits).bind fun join join' hjoin => ?_
    refine (joinCondition?_alike hW hself hjoin).bind fun join join' hjoin => ?_
    exact (Runs.finish hW hjoin).bind fun _ _ hjoin => .answer (.some (hjoin.placed hfloats))
  · dsimp only
    split
    · exact .unexpected hW _
    · exact .answer .none

/-! ## Clauses of a query -/

theorem whereClause?_alike (hW : W.Lawful) (hself : W.Serves self) (hu : W.Made k u u') :
    W.Alike (whereClause? self u) (whereClause? self u') (W.Made k) := by
  unfold whereClause?
  refine (Runs.takeKeyword? hW .WHERE).bind fun o o' ho => ?_
  rcases ho with ⟨ht, -⟩ | _
  · exact (clause_alike hW hself _ ht rfl rfl).bind fun _ _ hclause =>
      .attach hW hu (hclause.fits rfl)
  · exact .answer hu

theorem fromClause?_alike (hW : W.Lawful) {item : Parser Tree} (hitem : W.Alike item item W.Placed)
    (hu : W.Made k u u') : W.Alike (fromClause? item u) (fromClause? item u') (W.Made k) := by
  unfold fromClause?
  refine (Runs.takeKeyword? hW .FROM).bind fun o o' ho => ?_
  rcases ho with ⟨ht, -⟩ | _
  · refine (Runs.nodeAt hW ht rfl).bind fun node node' hnode => ?_
    refine (Runs.within _ (.attachList hW hitem hnode fun _ _ h => h.fits)).bind
      fun node node' hnode => ?_
    exact (Runs.finish hW hnode).bind fun _ _ hnode => .attach hW hu (hnode.fits rfl)
  · exact .answer hu

theorem groupBy?_alike (hW : W.Lawful) (hself : W.Serves self) (hu : W.Made k u u') :
    W.Alike (groupBy? self u) (groupBy? self u') (W.Made k) := by
  unfold groupBy?
  refine (Runs.takeKeyword? hW .GROUP).bind fun o o' ho => ?_
  rcases ho with ⟨ht, -⟩ | _
  · refine (Runs.expectKeyword hW .BY).discard.bind fun _ _ _ => ?_
    refine (Runs.nodeAt hW ht rfl).bind fun node node' hnode => ?_
    refine (Runs.within _ (.attachList hW (hself.expression 0) hnode
      fun _ _ h => h.fits rfl)).bind fun node node' hnode => ?_
    exact (Runs.finish hW hnode).bind fun _ _ hnode => .attach hW hu (hnode.fits rfl)
  · exact .answer hu

theorem having?_alike (hW : W.Lawful) (hself : W.Serves self) (hu : W.Made k u u') :
    W.Alike (having? self u) (having? self u') (W.Made k) := by
  unfold having?
  refine (Runs.takeKeyword? hW .HAVING).bind fun o o' ho => ?_
  rcases ho with ⟨ht, -⟩ | _
  · exact (clause_alike hW hself _ ht rfl rfl).bind fun _ _ hclause =>
      .attach hW hu (hclause.fits rfl)
  · exact .answer hu

theorem valuesRow_alike (hW : W.Lawful) (hself : W.Serves self) :
    W.Alike (valuesRow self) (valuesRow self) (W.Made .valuesRow) := by
  unfold valuesRow
  refine (Runs.expect hW rfl _).bind fun t t' ht => ?_
  refine (Runs.nodeAt hW ht rfl).bind fun row row' hrow => ?_
  refine (Runs.attachList hW (hself.expression 0) hrow fun _ _ h => h.fits rfl).bind
    fun row row' hrow => ?_
  exact (Runs.expect hW rfl _).discard.bind fun _ _ _ => .finish hW hrow

theorem values_alike (hW : W.Lawful) (hself : W.Serves self) (hk : k.isCommon) :
    W.Alike (values self k) (values self k) (W.Made k) := by
  unfold values
  refine (Runs.expectKeyword hW .VALUES).bind fun t t' ht => ?_
  refine (Runs.nodeAt hW ht hk).bind fun node node' hnode => ?_
  exact (Runs.attachList hW (valuesRow_alike hW hself) hnode fun _ _ h => h.fits rfl).bind
    fun _ _ hnode => .finish hW hnode

theorem quantifier?_alike (hW : W.Lawful) (hu : W.Made k u u') :
    W.Alike (quantifier? u) (quantifier? u') (W.Made k) := by
  unfold quantifier?
  refine (Runs.consumeKeyword hW .DISTINCT).branch ?_ ?_
  · refine (Runs.consumeKeyword hW .ALL).branch ?_ ?_
    · exact .answer hu
    · exact .flag hW _ nofun hu
  · exact .flag hW _ nofun hu

theorem select_alike (hW : W.Lawful) (hself : W.Serves self) :
    W.Alike (select self) (select self) (W.Made .selectStmt) := by
  unfold select
  refine (Runs.expectKeyword hW .SELECT).bind fun t t' ht => ?_
  refine (Runs.nodeAt hW ht rfl).bind fun node node' hnode => ?_
  refine (quantifier?_alike hW hnode).bind fun node node' hnode => ?_
  refine (Runs.within _ (resultColumns_alike hW hself rfl rfl)).bind
    fun columns columns' hcolumns => ?_
  refine (Runs.attach hW hnode (hcolumns.fits rfl)).bind fun node node' hnode => ?_
  refine (fromClause?_alike hW hself.joinTree hnode).bind fun node node' hnode => ?_
  refine (whereClause?_alike hW hself hnode).bind fun node node' hnode => ?_
  refine (groupBy?_alike hW hself hnode).bind fun node node' hnode => ?_
  exact (having?_alike hW hself hnode).bind fun _ _ hnode => .finish hW hnode

theorem core_alike (hW : W.Lawful) (hself : W.Serves self) :
    W.Alike (core self) (core self) W.Placed := by
  unfold core
  refine (Runs.seesKeyword hW .VALUES).branch ?_ ?_
  · exact (select_alike hW hself).weaken fun _ _ h => h.placed rfl
  · exact (values_alike hW hself rfl).weaken fun _ _ h => h.placed rfl

/-! ## Whole queries -/

theorem setOperator?_alike (hW : W.Lawful) : W.Alike setOperator? setOperator?
    (Option.Rel fun x x' => W.tok x.1 x'.1 ∧ x.2 = x'.2) := by
  unfold setOperator?
  refine (Runs.takeKeyword? hW .UNION).bind fun o o' ho => ?_
  rcases ho with ⟨ht, -⟩ | _
  · refine (Runs.consumeKeyword hW .ALL).branch ?_ ?_
    · exact (Runs.consumeKeyword hW _).discard.bind fun _ _ _ => .answer (.some ⟨ht, rfl⟩)
    · exact .answer (.some ⟨ht, rfl⟩)
  · have hplain : ∀ {t : Token}, (t.kind == .keyword .INTERSECT || t.kind == .keyword .EXCEPT) =
        true → t.kind.isPlain := by
      intro t h
      rcases Bool.or_eq_true_iff.1 h with h | h <;> rw [eq_of_beq h] <;> rfl
    refine (Runs.takeWhere? hW (fun ht => ?_) fun _ => hplain).bind fun o o' ho => ?_
    · rw [hW.kind ht]
    · rcases ho with ⟨ht, -⟩ | _
      · exact .answer (.some ⟨ht, rfl⟩)
      · exact .answer .none

theorem combined?_alike (hW : W.Lawful) (hself : W.Serves self) (hu : W.Placed u u') :
    W.Alike (combined? self u) (combined? self u') (Option.Rel W.Placed) := by
  unfold combined?
  refine (setOperator?_alike hW).bind fun o o' ho => ?_
  rcases ho with @⟨⟨t, all⟩, ⟨t', all'⟩, ht, hall⟩ | _
  · dsimp only at ht hall ⊢
    subst hall
    refine (core_alike hW hself).bind fun right right' hright => ?_
    refine (Runs.nodeOver hW hu.tree rfl (.inr hu)).bind fun node node' hnode => ?_
    refine (Runs.setText hW hnode ht).bind fun node node' hnode => ?_
    refine (Runs.flagIf hW all .all nofun hnode).bind fun node node' hnode => ?_
    refine (Runs.attach hW hnode hu.fits).bind fun node node' hnode => ?_
    refine (Runs.attach hW hnode hright.fits).bind fun node node' hnode => ?_
    exact (Runs.finish hW hnode).bind fun _ _ hnode => .answer (.some (hnode.placed rfl))
  · exact .answer .none

/-- The count of a limit, and the number that is skipped if there is one. -/
def LimitsAlike (W : Pairing) (x x' : Tree × Option Tree) : Prop :=
  W.Made .limitClause x.1 x'.1 ∧ Option.Rel (W.Made .offsetClause) x.2 x'.2

theorem limitNumbers_alike (hW : W.Lawful) (hself : W.Serves self)
    (hu : W.Made .limitClause u u') {first first' : Tree} (hfirst : W.Operand first first') :
    W.Alike (limitNumbers self u first) (limitNumbers self u' first') (LimitsAlike W) := by
  unfold limitNumbers
  refine (Runs.take? hW rfl).bind fun o o' ho => ?_
  rcases ho with ⟨ht, -⟩ | _
  · refine (hself.expression 0).bind fun count count' hcount => ?_
    refine (Runs.attach hW hu (hcount.fits rfl)).bind fun limit limit' hlimit => ?_
    refine (Runs.nodeAt hW ht rfl).bind fun offset offset' hoffset => ?_
    exact (Runs.attach hW hoffset (hfirst.fits rfl)).bind fun _ _ hoffset =>
      .answer ⟨hlimit, .some hoffset⟩
  · refine (Runs.attach hW hu (hfirst.fits rfl)).bind fun limit limit' hlimit => ?_
    refine (Runs.takeKeyword? hW .OFFSET).bind fun o o' ho => ?_
    rcases ho with ⟨ht, -⟩ | _
    · refine (Runs.nodeAt hW ht rfl).bind fun offset offset' hoffset => ?_
      refine (hself.expression 0).bind fun skipped skipped' hskipped => ?_
      exact (Runs.attach hW hoffset (hskipped.fits rfl)).bind fun _ _ hoffset =>
        .answer ⟨hlimit, .some hoffset⟩
    · exact .answer ⟨hlimit, .none⟩

theorem attachOffset_alike (hW : W.Lawful) (hu : W.Made k u u') {offset offset' : Option Tree}
    (h : Option.Rel (W.Made .offsetClause) offset offset') :
    W.Alike (attachOffset u offset) (attachOffset u' offset') (W.Made k) := by
  rcases h with h | _
  · exact (Runs.finish hW h).bind fun _ _ h => .attach hW hu (h.fits rfl)
  · exact .answer hu

theorem limit?_alike (hW : W.Lawful) (hself : W.Serves self) (hu : W.Made k u u') :
    W.Alike (limit? self u) (limit? self u') (W.Made k) := by
  unfold limit?
  refine (Runs.takeKeyword? hW .LIMIT).bind fun o o' ho => ?_
  rcases ho with ⟨ht, -⟩ | _
  · refine (Runs.nodeAt hW ht rfl).bind fun limit limit' hlimit => ?_
    refine (hself.expression 0).bind fun first first' hfirst => ?_
    refine (limitNumbers_alike hW hself hlimit hfirst).bind ?_
    rintro ⟨limit, offset⟩ ⟨limit', offset'⟩ ⟨hlimit, hoffset⟩
    refine (Runs.finish hW hlimit).bind fun limit limit' hlimit => ?_
    exact (Runs.attach hW hu (hlimit.fits rfl)).bind fun _ _ hu => attachOffset_alike hW hu hoffset
  · exact .answer hu

theorem body_alike (hW : W.Lawful) (hself : W.Serves self) :
    W.Alike (body self) (body self) W.Placed := by
  unfold body
  refine (core_alike hW hself).bind fun query query' hquery => ?_
  refine (Runs.iterate (fun _ _ h => combined?_alike hW hself h) hquery).bind ?_
  rintro query query' ⟨k, hk, hquery⟩
  refine (Runs.seesKeyword hW .ORDER).thenSame fun b => ?_
  refine (Runs.attachIf hW b (Expression.orderBy_alike hW hself) hquery
    fun _ _ h => h.fits rfl).bind fun query query' hquery => ?_
  refine (limit?_alike hW hself hquery).bind fun query query' hquery => ?_
  exact (Runs.finish hW hquery).weaken fun _ _ h => h.placed hk

theorem commonTable_alike (hW : W.Lawful) (hself : W.Serves self) :
    W.Alike (commonTable self) (commonTable self) (W.Made .commonTableExpr) := by
  unfold commonTable
  refine (Runs.expectName hW _).bind fun name name' hname => ?_
  refine (Runs.namedNode hW hname rfl).bind fun node node' hnode => ?_
  refine (Runs.sees hW _).forget.thenSame fun b => ?_
  refine (Runs.attachIf hW b (columnList_alike hW) hnode fun _ _ h => h.fits rfl).bind
    fun node node' hnode => ?_
  refine (Runs.expectKeyword hW .AS).discard.bind fun _ _ _ => ?_
  refine (Runs.expect hW rfl _).discard.bind fun _ _ _ => ?_
  refine (Runs.within .subquery hself.query).bind fun query query' hquery => ?_
  refine (Runs.expect hW rfl _).discard.bind fun _ _ _ => ?_
  exact (Runs.attach hW hnode hquery.fits).bind fun _ _ hnode => .finish hW hnode

theorem withClause_alike (hW : W.Lawful) (hself : W.Serves self) :
    W.Alike (withClause self) (withClause self) (W.Made .withClause) := by
  unfold withClause
  refine (Runs.expectKeyword hW .WITH).bind fun t t' ht => ?_
  refine (Runs.nodeAt hW ht rfl).bind fun node node' hnode => ?_
  refine (Runs.consumeKeyword hW .RECURSIVE).thenSame fun b => ?_
  refine (Runs.flagIf hW b .recursive nofun hnode).bind fun node node' hnode => ?_
  exact (Runs.attachList hW (commonTable_alike hW hself) hnode fun _ _ h => h.fits rfl).bind
    fun _ _ hnode => .finish hW hnode

theorem afterWith_alike (hW : W.Lawful) (hself : W.Serves self) (hu : W.Made .withClause u u') :
    W.Alike (afterWith self u) (afterWith self u') W.Placed := by
  unfold afterWith
  refine (body_alike hW hself).bind ?_
  rintro query query' ⟨k, hk, hquery⟩
  refine (Runs.prepend hW hquery (hu.fits rfl)).bind fun query query' hquery => ?_
  exact (Runs.finish hW hquery).weaken fun _ _ h => h.placed hk

end Query

theorem query_alike (hW : W.Lawful) (hself : W.Serves self) :
    W.Alike (query self) (query self) W.Placed := by
  unfold query
  refine .deeper hW ((Runs.seesKeyword hW .WITH).branch ?_ ?_)
  · exact Query.body_alike hW hself
  · exact (Query.withClause_alike hW hself).bind fun _ _ hclause =>
      Query.afterWith_alike hW hself hclause

theorem joinTree_alike (hW : W.Lawful) (hself : W.Serves self) :
    W.Alike (joinTree self) (joinTree self) W.Placed := by
  unfold joinTree
  exact .deeper hW ((Query.tablePrimary_alike hW hself).bind fun _ _ htable =>
    .iterate (fun _ _ h => Query.joined?_alike hW hself h) htable)

end SqlSyntax
