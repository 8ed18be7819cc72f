import SqlSyntax.Grammar.Query
import SqlSyntax.Proofs.Grammar.Expression

/-!
# The steps of queries

A `WITH` and a skipped number of a `LIMIT` are made before the trees that they are put under, so
these productions hold two trees at a time.
-/

namespace SqlSyntax

open SqlSyntax.Parser

variable {T : Terms}

namespace Query

/-! ## Result columns and tables -/

theorem resultColumn_yields : T.Yields (resultColumn T.self) := by
  unfold resultColumn
  refine (Built.take? .star).read fun o ho => ?_
  rcases o with _ | star
  · refine seesQualifiedStar_reads.read fun b _ => ?_
    cases b
    · refine (Built.expression 0).make fun value _ => aliasName?_reads.read fun o ho => ?_
      rcases o with _ | name
      · exact .keep trivial
      · refine (Built.nodeAbove .resultColumn value rfl).cover fun node hnode => ?_
        refine (Built.attachFree value hnode).join fun node hnode => ?_
        exact (aliased_grows hnode (ho name rfl)).yields
    · exact (columnReference_makes true).yields
  · exact (Built.node .wildcard (ho star rfl) rfl).yields

theorem resultColumns_makes {kind : Kind} (hk : kind.isOperator = false) :
    T.Makes (resultColumns T.self kind) := by
  unfold resultColumns
  refine Built.current.read fun o ho => ?_
  rcases o with _ | first
  · exact .unexpected _
  · refine (Built.node kind (ho first rfl) hk).make fun node hnode => ?_
    exact (Built.attachList resultColumn_yields hnode).grow fun node hnode => .finish hnode

theorem tablePrimary_yields : T.Yields (tablePrimary T.self) := by
  unfold tablePrimary
  refine Built.current.read fun o ho => ?_
  rcases o with _ | t
  · exact .unexpected _
  dsimp only
  split
  · exact (objectName_makes rfl).make fun table htable => (withAlias_grows htable).yields
  · refine Built.advance.discard.read fun _ _ => ?_
    refine Expression.seesQuery_reads.read fun b _ => ?_
    cases b
    · refine Built.joinTree.make fun tables _ => ?_
      exact (Built.expect _ _).discard.read fun _ _ => .keep trivial
    · refine (Expression.subquery_makes (ho t rfl) rfl).make fun table htable => ?_
      exact (withAlias_grows htable).yields

/-! ## Joins -/

theorem joinKind?_reads :
    T.Reads joinKind? fun o => ∀ r ∈ o, r.1.isOperator = false := by
  have hsided : ∀ kind : Kind, kind.isOperator = false → T.Reads (do
      discard advance
      return some (kind, ← consumeKeyword .OUTER)) fun o => ∀ r ∈ o, r.1.isOperator = false := by
    intro kind hk
    refine Built.advance.discard.read fun _ _ => (Built.consumeKeyword _).read fun b _ => ?_
    exact .answer (by simpa using hk)
  have hplain : ∀ kind : Kind, kind.isOperator = false → T.Reads (do
      discard advance
      return some (kind, false)) fun o => ∀ r ∈ o, r.1.isOperator = false := by
    intro kind hk
    exact Built.advance.discard.read fun _ _ => .answer (by simpa using hk)
  unfold joinKind?
  refine Built.currentKind.read fun o _ => ?_
  dsimp only
  split
  · exact .answer (by simp [Kind.isOperator])
  · exact hplain _ rfl
  · exact hplain _ rfl
  · exact hsided _ rfl
  · exact hsided _ rfl
  · exact hsided _ rfl
  · exact .answer nofun

theorem clause_makes {kind : Kind} {t : Token} (context : Context) (ht : T.known t)
    (hk : kind.isOperator = false) : T.Makes (clause T.self kind context t) := by
  unfold clause
  refine (Built.node kind ht hk).make fun node hnode => ?_
  refine (Built.within context (Built.expression 0)).make fun condition _ => ?_
  exact (Built.attachFree condition hnode).join fun node hnode => .finish hnode

theorem usingColumns_makes {t : Token} (ht : T.known t) : T.Makes (usingColumns t) := by
  unfold usingColumns
  refine (Built.node .usingClause ht rfl).make fun node hnode => ?_
  refine (Built.expect _ _).discard.read fun _ _ => ?_
  refine (Built.attachList columnName_makes.yields hnode).grow fun node hnode => ?_
  exact (Built.expect _ _).discard.read fun _ _ => .finish hnode

theorem joinCondition?_grows {join : Tree} (h : T.free join) :
    T.Grows join (joinCondition? T.self join) := by
  unfold joinCondition?
  refine (Built.takeKeyword? .ON).read fun o ho => ?_
  rcases o with _ | t
  · refine (Built.takeKeyword? .USING).read fun o ho => ?_
    rcases o with _ | t
    · exact .keep h
    · exact (usingColumns_makes (ho t rfl)).make fun columns _ => .attachFree columns h
  · exact (clause_makes _ (ho t rfl) rfl).make fun condition _ => .attachFree condition h

theorem joined?_grows (left : Tree) :
    Built T [left] (joined? T.self left) (fun o => [o.getD left]) fun _ => True := by
  unfold joined?
  refine (Built.consumeKeyword .NATURAL).read fun natural _ => ?_
  refine joinKind?_reads.read fun o ho => ?_
  rcases o with _ | ⟨kind, outer⟩
  · dsimp only
    split
    · exact .unexpected _
    · exact .done (fun o : Option Tree => [o.getD left]) none trivial
  · refine (Built.expectKeyword .JOIN).discard.read fun _ _ => ?_
    refine tablePrimary_yields.make fun right _ => .swap ?_
    refine (Built.nodeAbove kind left (ho _ rfl)).cover fun join hjoin => .swap ?_
    refine (Built.flagIf hjoin natural _).grow fun join hjoin => ?_
    refine (Built.flagIf hjoin outer _).grow fun join hjoin => .swap ?_
    refine (Built.attachFree left hjoin).join fun join hjoin => .swap ?_
    refine (Built.attachFree right hjoin).join fun join hjoin => ?_
    refine (joinCondition?_grows hjoin).grow fun join hjoin => ?_
    exact (Built.finish hjoin).grow fun join _ =>
      .done (fun o : Option Tree => [o.getD left]) (some join) trivial

/-! ## Clauses -/

theorem whereClause?_grows {statement : Tree} (h : T.free statement) :
    T.Grows statement (whereClause? T.self statement) := by
  unfold whereClause?
  refine (Built.takeKeyword? .WHERE).read fun o ho => ?_
  rcases o with _ | t
  · exact .keep h
  · exact (clause_makes _ (ho t rfl) rfl).make fun clause _ => .attachFree clause h

theorem fromClause?_grows {item : Parser Tree} (hitem : T.Yields item) {statement : Tree}
    (h : T.free statement) : T.Grows statement (fromClause? item statement) := by
  unfold fromClause?
  refine (Built.takeKeyword? .FROM).read fun o ho => ?_
  rcases o with _ | t
  · exact .keep h
  · refine (Built.node .fromClause (ho t rfl) rfl).make fun node hnode => ?_
    refine (Built.within _ (.attachList hitem hnode)).grow fun node hnode => ?_
    exact (Built.finish hnode).grow fun node _ => .attachFree node h

theorem groupBy?_grows {select : Tree} (h : T.free select) :
    T.Grows select (groupBy? T.self select) := by
  unfold groupBy?
  refine (Built.takeKeyword? .GROUP).read fun o ho => ?_
  rcases o with _ | t
  · exact .keep h
  · refine (Built.expectKeyword .BY).discard.read fun _ _ => ?_
    refine (Built.node .groupByClause (ho t rfl) rfl).make fun node hnode => ?_
    refine (Built.within _ (.attachList (Built.expression 0) hnode)).grow fun node hnode => ?_
    exact (Built.finish hnode).grow fun node _ => .attachFree node h

theorem having?_grows {select : Tree} (h : T.free select) :
    T.Grows select (having? T.self select) := by
  unfold having?
  refine (Built.takeKeyword? .HAVING).read fun o ho => ?_
  rcases o with _ | t
  · exact .keep h
  · exact (clause_makes _ (ho t rfl) rfl).make fun clause _ => .attachFree clause h

theorem valuesRow_makes : T.Makes (valuesRow T.self) := by
  unfold valuesRow
  refine (Built.expect _ _).read fun t ht => ?_
  refine (Built.node .valuesRow ht rfl).make fun row hrow => ?_
  refine (Built.attachList (Built.expression 0) hrow).grow fun row hrow => ?_
  exact (Built.expect _ _).discard.read fun _ _ => .finish hrow

theorem values_makes {kind : Kind} (hk : kind.isOperator = false) :
    T.Makes (values T.self kind) := by
  unfold values
  refine (Built.expectKeyword .VALUES).read fun t ht => ?_
  refine (Built.node kind ht hk).make fun node hnode => ?_
  exact (Built.attachList valuesRow_makes.yields hnode).grow fun node hnode => .finish hnode

theorem quantifier?_grows {node : Tree} (h : T.free node) : T.Grows node (quantifier? node) := by
  unfold quantifier?
  refine (Built.consumeKeyword .DISTINCT).read fun b _ => ?_
  cases b
  · refine (Built.consumeKeyword .ALL).read fun b _ => ?_
    cases b
    · exact .keep h
    · exact .flag h _
  · exact .flag h _

/-! ## Queries -/

theorem select_makes : T.Makes (select T.self) := by
  unfold select
  refine (Built.expectKeyword .SELECT).read fun t ht => ?_
  refine (Built.node .selectStmt ht rfl).make fun node hnode => ?_
  refine (quantifier?_grows hnode).grow fun node hnode => ?_
  refine (Built.within _ (resultColumns_makes rfl)).make fun list _ => ?_
  refine (Built.attachFree list hnode).join fun node hnode => ?_
  refine (fromClause?_grows Built.joinTree hnode).grow fun node hnode => ?_
  refine (whereClause?_grows hnode).grow fun node hnode => ?_
  refine (groupBy?_grows hnode).grow fun node hnode => ?_
  exact (having?_grows hnode).grow fun node hnode => .finish hnode

theorem core_makes : T.Makes (core T.self) := by
  unfold core
  refine (Built.seesKeyword .VALUES).read fun b _ => ?_
  cases b
  · exact select_makes
  · exact values_makes rfl

theorem setOperator?_reads : T.Reads setOperator? fun o => ∀ r ∈ o, T.known r.1 := by
  unfold setOperator?
  refine (Built.takeKeyword? .UNION).read fun o ho => ?_
  rcases o with _ | t
  · refine (Built.takeIf? _).read fun o ho => .answer ?_
    rcases o with _ | t
    · exact nofun
    · simpa using ho t rfl
  · have ht := ho t rfl
    refine (Built.consumeKeyword .ALL).read fun b _ => ?_
    cases b
    · exact (Built.consumeKeyword _).discard.read fun _ _ => .answer (by simpa using ht)
    · exact .answer (by simpa using ht)

theorem combined?_grows (left : Tree) :
    Built T [left] (combined? T.self left) (fun o => [o.getD left]) fun o => ∀ t ∈ o, T.free t := by
  unfold combined?
  refine setOperator?_reads.read fun o ho => ?_
  rcases o with _ | ⟨t, all⟩
  · exact .done (fun o : Option Tree => [o.getD left]) none nofun
  · refine core_makes.make fun right _ => .swap ?_
    refine (Built.bareAbove .compoundSelect left rfl).cover fun node hnode => .swap ?_
    refine (Built.setBare hnode (ho _ rfl)).grow fun node hnode => ?_
    refine (Built.flagIf hnode all _).grow fun node hnode => .swap ?_
    refine (Built.attachFree left hnode).join fun node hnode => .swap ?_
    refine (Built.attachFree right hnode).join fun node hnode => ?_
    exact (Built.finish hnode).grow fun node hnode =>
      .done (fun o : Option Tree => [o.getD left]) (some node) (by simpa using hnode)

/-- A limit, and the skipped number under a node of its own. -/
def numbers (r : Tree × Option Tree) : List Tree := perhaps r.2 ++ [r.1]

theorem limitNumbers_grows {limit : Tree} (h : T.free limit) (first : Tree) :
    Built T [first, limit] (limitNumbers T.self limit first) numbers fun r =>
      T.free r.1 := by
  unfold limitNumbers
  refine (Built.take? .comma).read fun o ho => ?_
  rcases o with _ | comma
  · refine (Built.attachFree first h).join fun limit h => ?_
    refine (Built.takeKeyword? .OFFSET).read fun o ho => ?_
    rcases o with _ | word
    · exact .done numbers (limit, none) h
    · refine (Built.node .offsetClause (ho word rfl) rfl).make fun offset hoffset => ?_
      refine (Built.expression 0).make fun skip _ => ?_
      refine (Built.attachFree skip hoffset).join fun offset _ => ?_
      exact .done numbers (limit, some offset) h
  · refine (Built.expression 0).make fun count _ => .swap (.rotate ?_)
    refine (Built.attachFree count h).join fun limit h => .swap ?_
    refine (Built.node .offsetClause (ho comma rfl) rfl).make fun offset hoffset => .swap ?_
    refine (Built.attachFree first hoffset).join fun offset _ => ?_
    exact .done numbers (limit, some offset) h

theorem attachOffset_grows {query : Tree} (h : T.free query) (offset : Option Tree) :
    Built T (query :: perhaps offset) (attachOffset query offset) one T.free := by
  unfold attachOffset
  rcases offset with _ | offset
  · exact .keep h
  · refine .swap ?_
    exact (Built.finishAny offset).grow fun offset _ => .attachFree offset h

theorem limit?_grows {query : Tree} (h : T.free query) : T.Grows query (limit? T.self query) := by
  unfold limit?
  refine (Built.takeKeyword? .LIMIT).read fun o ho => ?_
  rcases o with _ | t
  · exact .keep h
  · refine (Built.node .limitClause (ho t rfl) rfl).make fun limit hlimit => ?_
    refine (Built.expression 0).make fun first _ => ?_
    refine (limitNumbers_grows hlimit first).step ?_
    rintro ⟨limit, offset⟩ hlimit
    have hattach : Built T (limit :: query :: perhaps offset)
        (do attachOffset (← attach query (← finish limit)) offset) one T.free := by
      refine (Built.finish hlimit).grow fun limit _ => ?_
      exact (Built.attachFree limit h).join fun query h => attachOffset_grows h offset
    rcases offset with _ | offset
    · exact hattach
    · exact .rotate hattach

theorem body_makes : T.Makes (body T.self) := by
  unfold body
  refine core_makes.make fun query hquery => ?_
  refine Built.grow (.iterate one (fun t _ => combined?_grows t) hquery) fun query hquery => ?_
  refine (Built.seesKeyword .ORDER).read fun b _ => ?_
  refine (Built.attachIf b Expression.orderBy_makes.yields hquery).grow fun query hquery => ?_
  exact (limit?_grows hquery).grow fun query hquery => .finish hquery

theorem commonTable_makes : T.Makes (commonTable T.self) := by
  unfold commonTable
  refine (Built.expectName _).read fun name hname => ?_
  refine (Built.namedNode .commonTableExpr hname rfl).make fun node hnode => ?_
  refine (Built.sees _).read fun b _ => ?_
  refine (Built.attachIf b columnList_makes.yields hnode).grow fun node hnode => ?_
  refine (Built.expectKeyword .AS).discard.read fun _ _ => ?_
  refine (Built.expect _ _).discard.read fun _ _ => ?_
  refine (Built.within _ Built.query).make fun query _ => ?_
  refine (Built.expect _ _).discard.read fun _ _ => ?_
  exact (Built.attachFree query hnode).join fun node hnode => .finish hnode

theorem withClause_makes : T.Makes (withClause T.self) := by
  unfold withClause
  refine (Built.expectKeyword .WITH).read fun t ht => ?_
  refine (Built.node .withClause ht rfl).make fun node hnode => ?_
  refine (Built.consumeKeyword _).read fun b _ => ?_
  refine (Built.flagIf hnode b _).grow fun node hnode => ?_
  exact (Built.attachList commonTable_makes.yields hnode).grow fun node hnode => .finish hnode

theorem afterWith_grows (clause : Tree) : T.Grows clause (afterWith T.self clause) := by
  unfold afterWith
  refine body_makes.make fun query hquery => .swap ?_
  exact (Built.prependFree clause hquery).join fun query hquery => .finish hquery

end Query

theorem query_makes : T.Makes (query T.self) := by
  unfold query
  refine .deeper ((Built.seesKeyword .WITH).read fun b _ => ?_)
  cases b
  · exact Query.body_makes
  · exact Query.withClause_makes.make fun clause _ => Query.afterWith_grows clause

theorem joinTree_yields : T.Yields (joinTree T.self) := by
  unfold joinTree
  refine .deeper (Query.tablePrimary_yields.make fun t _ => ?_)
  refine .iterate one (fun t _ => ?_) trivial
  exact (Query.joined?_grows t).weaken fun _ _ _ _ => trivial

end SqlSyntax
