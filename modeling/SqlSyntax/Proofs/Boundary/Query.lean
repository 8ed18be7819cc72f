import SqlSyntax.Grammar.Query
import SqlSyntax.Proofs.Boundary.Expression

/-!
# Queries inside a statement
-/

namespace SqlSyntax

open SqlSyntax.Parser SqlSyntax.Boundary

variable {B : Boundary} {d : Nat} {self : Nested}

namespace Query

/-! ## Tables and columns -/

theorem resultColumn_stays (hself : B.Serves self) : B.Stays d (resultColumn self) := by
  unfold resultColumn
  refine (Leads.take?_inner rfl).bind fun o => ?_
  rcases o with _ | star
  · refine seesQualifiedStar_stays.bind fun b => ?_
    split
    · exact columnReference_stays true
    · refine (hself.expression 0).bind fun value => ?_
      refine aliasName?_stays.bind fun o => ?_
      rcases o with _ | name
      · exact .answer value
      · refine (Leads.nodeOver .resultColumn value).bind fun node => ?_
        exact (Leads.attach node value).bind fun node => aliased_stays node name
  · exact .nodeAt .wildcard star

theorem resultColumns_stays (hself : B.Serves self) (kind : Kind) :
    B.Stays d (resultColumns self kind) := by
  unfold resultColumns
  refine .current fun first _ => .seen ?_
  refine (Leads.nodeAt kind first).bind fun node => ?_
  exact (Leads.attachList (resultColumn_stays hself) node).bind fun node => .finish node

theorem tablePrimary_stays (hself : B.Serves self) : B.Stays d (tablePrimary self) := by
  unfold tablePrimary
  refine .current fun t _ => ?_
  dsimp only
  split
  · exact .seen ((objectName_stays .tableRef).bind fun table => withAlias_stays table)
  · next hopening =>
    have hk : t.kind = .leftParen := by simpa using hopening
    rw [hk]
    refine (Leads.take .opening).discard.bind fun _ => (Leads.seesOneOf _).bind fun b => ?_
    cases b
    · refine hself.joinTree.bind fun tables => ?_
      exact (Leads.closes _).bind fun _ => .answer tables
    · refine (Expression.subquery_closes hself .derivedTable t).bind fun table => ?_
      exact withAlias_stays table

theorem joinKind?_stays : B.Stays d joinKind? := by
  unfold joinKind?
  have hsided (k : Keyword) (kind : Kind) : B.Leads (B.At d (.keyword k)) (do
      discard advance
      return some (kind, ← consumeKeyword .OUTER)) fun _ => B.Inside d :=
    (Leads.takeInner rfl).discard.bind fun _ => (Leads.consumeKeyword _).bind fun _ => .answer _
  refine .currentKind fun kind => ?_
  split
  · exact .seen (.answer _)
  · next h => cases h; exact (Leads.takeInner rfl).discard.bind fun _ => .answer _
  · next h => cases h; exact (Leads.takeInner rfl).discard.bind fun _ => .answer _
  · next h => cases h; exact hsided .LEFT _
  · next h => cases h; exact hsided .RIGHT _
  · next h => cases h; exact hsided .FULL _
  · exact .seen (.answer _)

theorem clause_stays (hself : B.Serves self) (kind : Kind) (context : Context) (t : Token) :
    B.Stays d (clause self kind context t) := by
  unfold clause
  refine (Leads.nodeAt kind t).bind fun node => ?_
  refine (Leads.within context (hself.expression 0)).bind fun condition => ?_
  exact (Leads.attach node condition).bind fun node => .finish node

theorem usingColumns_stays (t : Token) : B.Stays d (usingColumns t) := by
  unfold usingColumns
  refine (Leads.nodeAt .usingClause t).bind fun node => ?_
  refine (Leads.opens _).discard.bind fun _ => ?_
  refine (Leads.attachList columnName_stays node).bind fun node => ?_
  exact (Leads.closes _).bind fun _ => .finish node

theorem joinCondition?_stays (hself : B.Serves self) (join : Tree) :
    B.Stays d (joinCondition? self join) := by
  unfold joinCondition?
  refine (Leads.takeKeyword? .ON).bind fun o => ?_
  rcases o with _ | t
  · refine (Leads.takeKeyword? .USING).bind fun o => ?_
    rcases o with _ | t
    · exact .answer join
    · exact (usingColumns_stays t).bind fun columns => .attach join columns
  · exact (clause_stays hself _ _ t).bind fun condition => .attach join condition

theorem joined?_stays (hself : B.Serves self) (left : Tree) : B.Stays d (joined? self left) := by
  unfold joined?
  refine (Leads.consumeKeyword .NATURAL).bind fun natural => joinKind?_stays.bind fun o => ?_
  rcases o with _ | ⟨kind, outer⟩
  · dsimp only
    split
    · exact .unexpected _
    · exact .answer _
  · refine (Leads.expectKeyword .JOIN).discard.bind fun _ => ?_
    refine (tablePrimary_stays hself).bind fun right => ?_
    refine (Leads.nodeOver kind left).bind fun join => ?_
    refine (Leads.flagIf natural _ join).bind fun join => ?_
    refine (Leads.flagIf outer _ join).bind fun join => ?_
    refine (Leads.attach join left).bind fun join => ?_
    refine (Leads.attach join right).bind fun join => ?_
    refine (joinCondition?_stays hself join).bind fun join => ?_
    exact (Leads.finish join).bind fun join => .answer _

/-! ## Clauses of a query -/

theorem whereClause?_stays (hself : B.Serves self) (statement : Tree) :
    B.Stays d (whereClause? self statement) := by
  unfold whereClause?
  refine (Leads.takeKeyword? .WHERE).bind fun o => ?_
  rcases o with _ | t
  · exact .answer statement
  · exact (clause_stays hself _ _ t).bind fun clause => .attach statement clause

theorem fromClause?_stays {item : Parser Tree} (hitem : B.Stays d item) (statement : Tree) :
    B.Stays d (fromClause? item statement) := by
  unfold fromClause?
  refine (Leads.takeKeyword? .FROM).bind fun o => ?_
  rcases o with _ | t
  · exact .answer statement
  · refine (Leads.nodeAt .fromClause t).bind fun node => ?_
    refine (Leads.within _ (.attachList hitem node)).bind fun node => ?_
    exact (Leads.finish node).bind fun node => .attach statement node

theorem groupBy?_stays (hself : B.Serves self) (select : Tree) :
    B.Stays d (groupBy? self select) := by
  unfold groupBy?
  refine (Leads.takeKeyword? .GROUP).bind fun o => ?_
  rcases o with _ | t
  · exact .answer select
  · refine (Leads.expectKeyword .BY).discard.bind fun _ => ?_
    refine (Leads.nodeAt .groupByClause t).bind fun node => ?_
    refine (Leads.within _ (.attachList (hself.expression 0) node)).bind fun node => ?_
    exact (Leads.finish node).bind fun node => .attach select node

theorem having?_stays (hself : B.Serves self) (select : Tree) :
    B.Stays d (having? self select) := by
  unfold having?
  refine (Leads.takeKeyword? .HAVING).bind fun o => ?_
  rcases o with _ | t
  · exact .answer select
  · exact (clause_stays hself _ _ t).bind fun clause => .attach select clause

theorem valuesRow_stays (hself : B.Serves self) : B.Stays d (valuesRow self) := by
  unfold valuesRow
  refine (Leads.opens _).bind fun t => ?_
  refine (Leads.nodeAt .valuesRow t).bind fun row => ?_
  refine (Leads.attachList (hself.expression 0) row).bind fun row => ?_
  exact (Leads.closes _).bind fun _ => .finish row

theorem values_stays (hself : B.Serves self) (kind : Kind) : B.Stays d (values self kind) := by
  unfold values
  refine (Leads.expectKeyword .VALUES).bind fun t => ?_
  refine (Leads.nodeAt kind t).bind fun node => ?_
  exact (Leads.attachList (valuesRow_stays hself) node).bind fun node => .finish node

theorem quantifier?_stays (node : Tree) : B.Stays d (quantifier? node) := by
  unfold quantifier?
  refine (Leads.consumeKeyword .DISTINCT).bind fun b => ?_
  cases b
  · refine (Leads.consumeKeyword .ALL).bind fun b => ?_
    cases b
    · exact .answer node
    · exact .flag node _
  · exact .flag node _

theorem select_stays (hself : B.Serves self) : B.Stays d (select self) := by
  unfold select
  refine (Leads.expectKeyword .SELECT).bind fun t => ?_
  refine (Leads.nodeAt .selectStmt t).bind fun node => ?_
  refine (quantifier?_stays node).bind fun node => ?_
  refine (Leads.within _ (resultColumns_stays hself .selectList)).bind fun columns => ?_
  refine (Leads.attach node columns).bind fun node => ?_
  refine (fromClause?_stays hself.joinTree node).bind fun node => ?_
  refine (whereClause?_stays hself node).bind fun node => ?_
  refine (groupBy?_stays hself node).bind fun node => ?_
  exact (having?_stays hself node).bind fun node => .finish node

theorem core_stays (hself : B.Serves self) : B.Stays d (core self) := by
  unfold core
  refine (Leads.seesKeyword .VALUES).bind fun b => ?_
  cases b
  · exact select_stays hself
  · exact values_stays hself _

/-! ## Whole queries -/

theorem setOperator?_stays : B.Stays d setOperator? := by
  unfold setOperator?
  refine (Leads.takeKeyword? .UNION).bind fun o => ?_
  rcases o with _ | t
  · refine (Leads.takeIf? fun t _ htest => ?_).bind fun other => .answer _
    rcases Bool.or_eq_true_iff.1 htest with hk | hk
    · rw [eq_of_beq hk]
      rfl
    · rw [eq_of_beq hk]
      rfl
  · refine (Leads.consumeKeyword .ALL).bind fun b => ?_
    cases b
    · exact (Leads.consumeKeyword _).discard.bind fun _ => .answer _
    · exact .answer _

theorem combined?_stays (hself : B.Serves self) (left : Tree) :
    B.Stays d (combined? self left) := by
  unfold combined?
  refine setOperator?_stays.bind fun o => ?_
  rcases o with _ | ⟨t, all⟩
  · exact .answer _
  · refine (core_stays hself).bind fun right => ?_
    refine (Leads.nodeOver .compoundSelect left).bind fun node => ?_
    refine (Leads.setText node t).bind fun node => ?_
    refine (Leads.flagIf all _ node).bind fun node => ?_
    refine (Leads.attach node left).bind fun node => ?_
    refine (Leads.attach node right).bind fun node => ?_
    exact (Leads.finish node).bind fun node => .answer _

theorem limitNumbers_stays (hself : B.Serves self) (limit first : Tree) :
    B.Stays d (limitNumbers self limit first) := by
  unfold limitNumbers
  refine (Leads.take?_inner rfl).bind fun o => ?_
  rcases o with _ | comma
  · refine (Leads.attach limit first).bind fun limit => ?_
    refine (Leads.takeKeyword? .OFFSET).bind fun o => ?_
    rcases o with _ | word
    · exact .answer _
    · refine (Leads.nodeAt .offsetClause word).bind fun offset => ?_
      refine (hself.expression 0).bind fun skipped => ?_
      exact (Leads.attach offset skipped).bind fun offset => .answer _
  · refine (hself.expression 0).bind fun count => ?_
    refine (Leads.attach limit count).bind fun limit => ?_
    refine (Leads.nodeAt .offsetClause comma).bind fun offset => ?_
    exact (Leads.attach offset first).bind fun offset => .answer _

theorem attachOffset_stays (query : Tree) (offset : Option Tree) :
    B.Stays d (attachOffset query offset) := by
  rcases offset with _ | offset
  · exact .answer query
  · exact (Leads.finish offset).bind fun offset => .attach query offset

theorem limit?_stays (hself : B.Serves self) (query : Tree) : B.Stays d (limit? self query) := by
  unfold limit?
  refine (Leads.takeKeyword? .LIMIT).bind fun o => ?_
  rcases o with _ | t
  · exact .answer query
  · refine (Leads.nodeAt .limitClause t).bind fun limit => ?_
    refine (hself.expression 0).bind fun first => ?_
    refine (limitNumbers_stays hself limit first).bind ?_
    rintro ⟨limit, offset⟩
    refine (Leads.finish limit).bind fun limit => ?_
    exact (Leads.attach query limit).bind fun query => attachOffset_stays query offset

theorem body_stays (hself : B.Serves self) : B.Stays d (body self) := by
  unfold body
  refine (core_stays hself).bind fun query => ?_
  refine (Leads.iterate (combined?_stays hself) query).bind fun query => ?_
  refine (Leads.seesKeyword .ORDER).bind fun b => ?_
  refine (Leads.attachIf b (Expression.orderBy_stays hself) query).bind fun query => ?_
  exact (limit?_stays hself query).bind fun query => .finish query

theorem commonTable_stays (hself : B.Serves self) : B.Stays d (commonTable self) := by
  unfold commonTable
  refine (Leads.expectName _).bind fun name => ?_
  refine (Leads.namedNode .commonTableExpr name).bind fun node => ?_
  refine (Leads.sees _).bind fun b => ?_
  refine (Leads.attachIf b columnList_stays node).bind fun node => ?_
  refine (Leads.expectKeyword .AS).discard.bind fun _ => ?_
  refine (Leads.opens _).discard.bind fun _ => ?_
  refine (Leads.within .subquery hself.query).bind fun query => ?_
  refine (Leads.closes _).bind fun _ => ?_
  exact (Leads.attach node query).bind fun node => .finish node

theorem withClause_stays (hself : B.Serves self) : B.Stays d (withClause self) := by
  unfold withClause
  refine (Leads.expectKeyword .WITH).bind fun t => ?_
  refine (Leads.nodeAt .withClause t).bind fun node => ?_
  refine (Leads.consumeKeyword .RECURSIVE).bind fun b => ?_
  refine (Leads.flagIf b _ node).bind fun node => ?_
  exact (Leads.attachList (commonTable_stays hself) node).bind fun node => .finish node

theorem afterWith_stays (hself : B.Serves self) (clause : Tree) :
    B.Stays d (afterWith self clause) := by
  unfold afterWith
  refine (body_stays hself).bind fun query => ?_
  exact (Leads.prepend query clause).bind fun query => .finish query

end Query

theorem query_stays (hself : B.Serves self) : B.Stays d (query self) := by
  unfold query
  refine .deeper ((Leads.seesKeyword .WITH).bind fun b => ?_)
  cases b
  · exact Query.body_stays hself
  · exact (Query.withClause_stays hself).bind fun clause => Query.afterWith_stays hself clause

theorem joinTree_stays (hself : B.Serves self) : B.Stays d (joinTree self) := by
  unfold joinTree
  refine .deeper ((Query.tablePrimary_stays hself).bind fun table => ?_)
  exact .iterate (Query.joined?_stays hself) table

end SqlSyntax
