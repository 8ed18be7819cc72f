import SqlSyntax.Grammar.Query
import SqlSyntax.Proofs.Contents.Expression

/-!
# The places of queries

A select core, rows of values and a set operation fill the places of their own first. The order and
the limit go to the outermost node whatever its kind, and so does the `WITH` before all of them.
-/

namespace SqlSyntax

open SqlSyntax.Parser SqlSyntax.Tree

variable {inner : Nested} (hinner : inner.Fits) {t : Tree} {k : Kind} {P : Tree → Prop}

/-- A query that may get an order, a limit and a `WITH`. -/
structure Tree.Bare (k : Kind) (t : Tree) : Prop extends t.Begun k k.middle where
  query : k.isQuery

namespace Tree

/-- A query is complete with the places before it and behind it filled or empty. -/
theorem Begun.query (h : t.Begun k (.before :: (k.middle ++ Place.behind))) (hk : k.isQuery)
    {ofKind : Kind → Bool} (hof : ofKind k) : t.Fit fun t => ofKind t.kind := by
  have hasks : k.Asks t.head := by
    cases k <;> trivial
  exact h.fit hasks (Kind.places?_of_isQuery hk _) hof

theorem Bare.fit (h : t.Bare k) {ofKind : Kind → Bool} (hof : ofKind k) :
    t.Fit fun t => ofKind t.kind :=
  ((h.toBegun.skip (by simp [Place.behind, Place.optional])).skipFirst rfl).query h.query hof

theorem Begun.join (h : t.Begun k [.exactly 2 (·.kind.isTable), .condition]) (hk : k.isJoin) :
    t.Fit (·.kind.isTable) := by
  have hasks : k.Asks t.head := by
    cases k <;> trivial
  have htable : k.isTable := by rw [Kind.isTable, hk, Bool.or_true]
  exact h.fit hasks (Kind.places?_of_isJoin hk _) htable

end Tree

namespace Query

include hinner

/-! ## Result columns and tables -/

theorem resultColumn_answers : Answers (resultColumn inner) Complete := by
  unfold resultColumn
  refine .skip fun o => ?_
  rcases o with _ | star
  · refine .skip fun b => ?_
    cases b
    · refine (hinner.expression 0).bind fun value hvalue => .skip fun o => ?_
      rcases o with _ | name
      · exact .pure hvalue.complete
      · refine (Answers.nodeOver .resultColumn value).bind fun node hnode => ?_
        refine (Answers.under hnode.toOver hvalue.complete).bind fun node h => ?_
        exact (aliased_answers h name).weaken fun _ h => h.complete rfl
    · exact columnReference_complete true
  · exact (Answers.nodeAt .wildcard star).weaken fun _ h => h.toOver.complete rfl

theorem resultColumns_answers (kind : Kind) : Answers (resultColumns inner kind) (Over kind) := by
  unfold resultColumns
  refine .skip fun o => ?_
  rcases o with _ | first
  · exact .unexpected _
  · refine (Answers.nodeAt kind first).bind fun node hnode => ?_
    refine (Answers.underList hnode.toOver (resultColumn_answers hinner)).bind fun node h => ?_
    exact .finish lasting_over h

theorem tablePrimary_answers : Answers (tablePrimary inner) (Fit (·.kind.isTable)) := by
  unfold tablePrimary
  refine .skip fun o => ?_
  rcases o with _ | t
  · exact .unexpected _
  dsimp only
  split
  · refine (objectName_answers .tableRef).bind fun table h => (withAlias_answers h).weaken ?_
    exact fun u hu => ⟨hu.complete rfl, by rw [hu.kind]; rfl⟩
  · refine .skip fun _ => .skip fun b => ?_
    cases b
    · exact hinner.joinTree.bind fun tables h => .skip fun _ => .pure h
    · refine (Expression.subquery_answers hinner .derivedTable t).bind fun table h => ?_
      refine (withAlias_answers h.toOver).weaken fun u hu => ?_
      exact ⟨hu.complete rfl, by rw [hu.kind]; rfl⟩

/-! ## Joins -/

omit hinner in
theorem joinKind?_answers : Answers joinKind? fun o => ∀ r ∈ o, r.1.isJoin := by
  have hsome : ∀ {kind : Kind} {outer : Bool}, kind.isJoin →
      ∀ r ∈ some (kind, outer), r.1.isJoin := by
    rintro kind outer hk _ ⟨⟩
    exact hk
  unfold joinKind?
  refine .skip fun o => ?_
  dsimp only
  split
  · exact .pure (hsome rfl)
  · exact .skip fun _ => .pure (hsome rfl)
  · exact .skip fun _ => .pure (hsome rfl)
  · exact .skip fun _ => .skip fun _ => .pure (hsome rfl)
  · exact .skip fun _ => .skip fun _ => .pure (hsome rfl)
  · exact .skip fun _ => .skip fun _ => .pure (hsome rfl)
  · exact .pure nofun

theorem clause_answers (kind : Kind) (context : Context) (token : Token) :
    Answers (clause inner kind context token) (Over kind) := by
  unfold clause
  refine (Answers.nodeAt kind token).bind fun node hnode => ?_
  refine (Answers.within _ (hinner.expression 0)).bind fun condition hcondition => ?_
  refine (Answers.under hnode.toOver hcondition.complete).bind fun node h => ?_
  exact .finish lasting_over h

omit hinner in
theorem usingColumns_answers (token : Token) :
    Answers (usingColumns token) (Over .usingClause) := by
  unfold usingColumns
  refine (Answers.nodeAt .usingClause token).bind fun node hnode => .skip fun _ => ?_
  refine (Answers.underList hnode.toOver columnName_answers).bind fun node h => ?_
  exact .skip fun _ => .finish lasting_over h

theorem joinCondition?_answers (join : Tree) :
    Answers (joinCondition? inner join) (Gains .condition join) := by
  have hattach : ∀ {kind : Kind} {c : Tree}, kind.places? false = none →
      (kind == .onCondition || kind == .usingClause) = true → c.Over kind →
      Answers (attach join c) (Gains .condition join) := by
    intro kind c hfree hk hc
    refine (Answers.attach join ⟨hc.complete hfree, ?_⟩).weaken fun _ h => h.optional
    rwa [hc.kind]
  unfold joinCondition?
  refine .skip fun o => ?_
  rcases o with _ | t
  · refine .skip fun o => ?_
    rcases o with _ | t
    · exact .pure (.none (.refl join) rfl)
    · exact (usingColumns_answers t).bind fun _ h => hattach rfl rfl h
  · exact (clause_answers hinner _ _ t).bind fun _ h => hattach rfl rfl h

theorem joined?_answers (h : t.Fit (·.kind.isTable)) :
    Answers (joined? inner t) fun o => ∀ u ∈ o, u.Fit (·.kind.isTable) := by
  unfold joined?
  refine .skip fun natural => joinKind?_answers.bind fun o ho => ?_
  rcases o with _ | ⟨kind, outer⟩
  · dsimp only
    split
    · exact .unexpected _
    · exact .pure nofun
  have hjoin : kind.isJoin := ho _ rfl
  refine .skip fun _ => (tablePrimary_answers hinner).bind fun right hright => ?_
  refine (Answers.nodeOver kind t).bind fun node hnode => ?_
  refine .bind (.flagIf lasting_begun hnode natural nofun) fun node hnode => ?_
  refine .bind (.flagIf lasting_begun hnode outer nofun) fun node hnode => ?_
  refine (Answers.attach node h).bind fun node₁ h₁ => ?_
  refine (Answers.attach node₁ hright).bind fun node₂ h₂ => ?_
  refine (joinCondition?_answers hinner node₂).bind fun node₃ h₃ => ?_
  have hfit := (h₃.begun ((h₁.append h₂).begun hnode)).join hjoin
  refine .bind (.finish (lasting_fit fun hu ht => by rwa [hu.kind]) hfit) fun u hu => .pure ?_
  rintro _ ⟨⟩
  exact hu

/-! ## Clauses -/

theorem whereClause?_answers (statement : Tree) :
    Answers (whereClause? inner statement)
      (Gains (.optional (·.kind == .whereClause)) statement) := by
  unfold whereClause?
  refine .skip fun o => ?_
  rcases o with _ | t
  · exact .pure (.none (.refl statement) rfl)
  · refine (clause_answers hinner _ _ t).bind fun clause h => ?_
    exact (Answers.attach statement (h.fit rfl)).weaken fun _ h => h.optional

omit hinner in
theorem fromClause?_answers {item : Parser Tree} (hitem : Answers item Complete)
    (statement : Tree) :
    Answers (fromClause? item statement)
      (Gains (.optional (·.kind == .fromClause)) statement) := by
  unfold fromClause?
  refine .skip fun o => ?_
  rcases o with _ | t
  · exact .pure (.none (.refl statement) rfl)
  · refine (Answers.nodeAt .fromClause t).bind fun node hnode => ?_
    refine (Answers.within _ (.underList hnode.toOver hitem)).bind fun node h => ?_
    refine (Answers.finish lasting_over h).bind fun node h => ?_
    exact (Answers.attach statement (h.fit rfl)).weaken fun _ h => h.optional

theorem groupBy?_answers (select : Tree) :
    Answers (groupBy? inner select) (Gains (.optional (·.kind == .groupByClause)) select) := by
  unfold groupBy?
  refine .skip fun o => ?_
  rcases o with _ | t
  · exact .pure (.none (.refl select) rfl)
  · refine .skip fun _ => (Answers.nodeAt .groupByClause t).bind fun node hnode => ?_
    refine .bind (.within _ (.underList hnode.toOver (hinner.expression 0).complete)) ?_
    refine fun node h => (Answers.finish lasting_over h).bind fun node h => ?_
    exact (Answers.attach select (h.fit rfl)).weaken fun _ h => h.optional

theorem having?_answers (select : Tree) :
    Answers (having? inner select) (Gains (.optional (·.kind == .havingClause)) select) := by
  unfold having?
  refine .skip fun o => ?_
  rcases o with _ | t
  · exact .pure (.none (.refl select) rfl)
  · refine (clause_answers hinner _ _ t).bind fun clause h => ?_
    exact (Answers.attach select (h.fit rfl)).weaken fun _ h => h.optional

theorem valuesRow_answers : Answers (valuesRow inner) (Fit (·.kind == .valuesRow)) := by
  unfold valuesRow
  refine .skip fun t => (Answers.nodeAt .valuesRow t).bind fun row hrow => ?_
  refine (Answers.underList hrow.toOver (hinner.expression 0).complete).bind fun row h => ?_
  exact .skip fun _ => (Answers.finish lasting_over h).weaken fun _ h => h.fit rfl

theorem values_answers (kind : Kind) :
    Answers (values inner kind) (Begun kind [.atLeast 1 (·.kind == .valuesRow)]) := by
  unfold values
  refine .skip fun t => (Answers.nodeAt kind t).bind fun node hnode => ?_
  refine (Answers.attachList node (valuesRow_answers hinner)).bind fun u hu => ?_
  exact .finish lasting_begun (hu.begun hnode)

omit hinner in
theorem quantifier?_answers (hP : Lasting P) (h : P t) : Answers (quantifier? t) P := by
  unfold quantifier?
  exact .either (.flag hP h nofun) (.either (.flag hP h nofun) (.pure h))

/-! ## Queries -/

theorem select_answers : Answers (select inner) (Begun .selectStmt (Kind.middle .selectStmt)) := by
  unfold select
  refine .skip fun t => (Answers.nodeAt .selectStmt t).bind fun node hnode => ?_
  refine (quantifier?_answers lasting_begun hnode).bind fun node hnode => ?_
  refine (Answers.within _ (resultColumns_answers hinner .selectList)).bind fun list hlist => ?_
  refine (Answers.attach node (hlist.fit rfl)).bind fun node₁ h₁ => ?_
  refine (fromClause?_answers hinner.joinTree.complete node₁).bind fun node₂ h₂ => ?_
  refine (whereClause?_answers hinner node₂).bind fun node₃ h₃ => ?_
  refine (groupBy?_answers hinner node₃).bind fun node₄ h₄ => ?_
  refine (having?_answers hinner node₄).bind fun node₅ h₅ => ?_
  exact .finish lasting_begun (h₅.begun (h₄.begun (h₃.begun (h₂.begun (h₁.begun hnode)))))

theorem core_answers : Answers (core inner) fun t => ∃ k, k.isCore ∧ t.Bare k := by
  unfold core
  refine .either ?_ ?_
  · exact (values_answers hinner _).weaken fun _ h => ⟨_, rfl, h, rfl⟩
  · exact (select_answers hinner).weaken fun _ h => ⟨_, rfl, h, rfl⟩

theorem combined?_answers (h : t.Bare k) :
    Answers (combined? inner t) fun o => ∀ u ∈ o, ∃ k, u.Bare k := by
  unfold combined?
  refine .skip fun o => ?_
  rcases o with _ | ⟨op, all⟩
  · exact .pure nofun
  refine (core_answers hinner).bind ?_
  rintro right ⟨j, hj, hright⟩
  refine (Answers.nodeOver .compoundSelect t).bind fun node hnode => ?_
  refine (Answers.setText lasting_begun hnode op).bind fun node hnode => ?_
  refine .bind (.flagIf lasting_begun hnode all nofun) fun node hnode => ?_
  refine (Answers.attach node (h.fit h.query)).bind fun node₁ h₁ => ?_
  refine (Answers.attach node₁ (hright.fit hj)).bind fun node₂ h₂ => ?_
  refine (Answers.finish lasting_begun (h₂.begun (h₁.begun hnode))).bind fun u hu => .pure ?_
  rintro _ ⟨⟩
  exact ⟨_, hu, rfl⟩

theorem limitNumbers_answers {limit first : Tree} (hlimit : limit.Over .limitClause)
    (hfirst : first.Complete) :
    Answers (limitNumbers inner limit first) fun r =>
      r.1.Over .limitClause ∧ ∀ o ∈ r.2, o.Over .offsetClause := by
  unfold limitNumbers
  refine .skip fun o => ?_
  rcases o with _ | comma
  · refine (Answers.under hlimit hfirst).bind fun limit hlimit => .skip fun o => ?_
    rcases o with _ | word
    · exact .pure ⟨hlimit, nofun⟩
    · refine (Answers.nodeAt .offsetClause word).bind fun offset hoffset => ?_
      refine (hinner.expression 0).bind fun skipped hskipped => ?_
      refine (Answers.under hoffset.toOver hskipped.complete).bind fun offset h => .pure ?_
      exact ⟨hlimit, by simpa using h⟩
  · refine (hinner.expression 0).bind fun count hcount => ?_
    refine (Answers.under hlimit hcount.complete).bind fun limit hlimit => ?_
    refine (Answers.nodeAt .offsetClause comma).bind fun offset hoffset => ?_
    refine (Answers.under hoffset.toOver hfirst).bind fun offset h => .pure ?_
    exact ⟨hlimit, by simpa using h⟩

omit hinner in
theorem attachOffset_answers (query : Tree) {offset : Option Tree}
    (h : ∀ o ∈ offset, o.Over .offsetClause) :
    Answers (attachOffset query offset)
      (Gains (.optional (·.kind == .offsetClause)) query) := by
  unfold attachOffset
  rcases offset with _ | offset
  · exact .pure (.none (.refl query) rfl)
  · refine (Answers.finish lasting_over (h offset rfl)).bind fun offset h => ?_
    exact (Answers.attach query (h.fit rfl)).weaken fun _ h => h.optional

theorem limit?_answers {ps : List Place} (h : t.Begun k ps) :
    Answers (limit? inner t) (Begun k (ps ++ [
      .optional (·.kind == .limitClause),
      .optional (·.kind == .offsetClause)])) := by
  unfold limit?
  refine .skip fun o => ?_
  rcases o with _ | word
  · exact .pure (h.skip (by simp [Place.optional]))
  · refine (Answers.nodeAt .limitClause word).bind fun limit hlimit => ?_
    refine (hinner.expression 0).bind fun first hfirst => ?_
    refine (limitNumbers_answers hinner hlimit.toOver hfirst.complete).bind ?_
    rintro ⟨limit, offset⟩ ⟨hlimit, hoffset⟩
    refine (Answers.finish lasting_over hlimit).bind fun limit hlimit => ?_
    refine (Answers.attach t (hlimit.fit rfl)).bind fun u hu => ?_
    refine (attachOffset_answers u hoffset).weaken fun v hv => ?_
    have hboth := hv.begun (hu.optional.begun h)
    rwa [List.append_assoc] at hboth

theorem body_answers :
    Answers (body inner) fun t => ∃ k, k.isQuery ∧ t.Begun k (k.middle ++ Place.behind) := by
  unfold body
  refine (core_answers hinner).bind fun query hquery => ?_
  -- whatever stands to the left of a set operator may still get an order and a limit
  have hcombined : Answers (iterate (combined? inner) query) fun t => ∃ k, t.Bare k := by
    refine .iterate (fun t h => ?_) (hquery.imp fun _ h => h.2)
    exact combined?_answers hinner h.choose_spec
  refine hcombined.bind ?_
  rintro query ⟨k, hquery⟩
  refine .skip fun b => ?_
  refine (Answers.attachIf b query (Expression.orderBy_answers hinner)).bind fun u hu => ?_
  refine (limit?_answers hinner (hu.begun hquery.toBegun)).bind fun v hv => ?_
  rw [List.append_assoc] at hv
  exact (Answers.finish lasting_begun hv).weaken fun _ h => ⟨k, hquery.query, h⟩

theorem commonTable_answers : Answers (commonTable inner) Complete := by
  unfold commonTable
  refine .skip fun name => (Answers.namedNode .commonTableExpr name).bind fun node hnode => ?_
  refine .skip fun b => (Answers.underIf hnode.toOver columnList_answers b).bind fun node h => ?_
  refine .skip fun _ => .skip fun _ => (Answers.within _ hinner.query).bind fun query hquery => ?_
  refine .skip fun _ => (Answers.under h hquery.complete).bind fun node h => ?_
  exact .finish lasting_complete (h.complete rfl)

theorem withClause_answers : Answers (withClause inner) (Fit (·.kind == .withClause)) := by
  unfold withClause
  refine .skip fun t => (Answers.nodeAt .withClause t).bind fun node hnode => .skip fun b => ?_
  refine .bind (.flagIf lasting_over hnode.toOver b nofun) fun node h => ?_
  refine (Answers.underList h (commonTable_answers hinner)).bind fun node h => ?_
  exact (Answers.finish lasting_over h).weaken fun _ h => h.fit rfl

theorem afterWith_answers {clause : Tree} (h : clause.Fit (·.kind == .withClause)) :
    Answers (afterWith inner clause) (Fit (·.kind.isQuery)) := by
  unfold afterWith
  refine (body_answers hinner).bind ?_
  rintro query ⟨k, hk, hquery⟩
  refine (Answers.prepend query clause).bind ?_
  rintro _ rfl
  have hbefore : Place.before.Holds [clause] := .some h.admitted
  have hfit := (hquery.prepend hbefore h.complete).query hk hk
  exact .finish (lasting_fit fun hu ht => by rwa [hu.kind]) hfit

end Query

theorem query_answers (hinner : inner.Fits) : Answers (query inner) (Fit (·.kind.isQuery)) := by
  unfold query
  refine .deeper (.either ?_ ?_)
  · exact (Query.withClause_answers hinner).bind fun _ h => Query.afterWith_answers hinner h
  · refine (Query.body_answers hinner).weaken ?_
    rintro t ⟨k, hk, h⟩
    exact (h.skipFirst rfl).query hk hk

theorem joinTree_answers (hinner : inner.Fits) :
    Answers (joinTree inner) (Fit (·.kind.isTable)) := by
  unfold joinTree
  refine .deeper ((Query.tablePrimary_answers hinner).bind fun t h => ?_)
  exact .iterate (fun _ h => Query.joined?_answers hinner h) h

end SqlSyntax
