import SqlSyntax.Grammar.Query
import SqlSyntax.Proofs.Sequel.Expression

/-!
# Tokens behind queries

Behind its end, a query looks for an alias, commas and the words of further clauses, but for no
closing parenthesis.
-/

namespace SqlSyntax

open SqlSyntax.Parser SqlSyntax.Sequel

variable {Z : Sequel} {whole : Prop} {ahead : List Token → Prop} {self self' : Nested}

namespace Query

section Items

variable (hself : Z.Serves self self') (hwhole : whole → Z.Closes)

include hself hwhole

theorem resultColumn_left : Z.Stays whole (resultColumn self) (resultColumn self') := by
  unfold resultColumn
  refine (Leaves.take? (bars_of_goesOn rfl)).bind fun o => ?_
  rcases o with _ | star
  · refine seesQualifiedStar_left.bind fun b => ?_
    cases b
    · refine (hself.expression 0).leaves.bind fun value => ?_
      refine (aliasName?_left hwhole).bind fun o => ?_
      rcases o with _ | name
      · exact .answer value
      · refine (Leaves.nodeOver _ value).bind fun node => ?_
        exact (Leaves.attach node value).bind fun node => aliased_left node name
    · exact (columnReference_takes true).leaves
  · exact .nodeAt _ star

theorem resultColumns_left (kind : Kind) :
    Z.Stays whole (resultColumns self kind) (resultColumns self' kind) := by
  unfold resultColumns
  refine (Leaves.current (Takes.unexpected_ne _) fun first => ?_).leaves
  refine (Leaves.nodeAt kind first).bind fun node => ?_
  refine Leaves.bind (Leaves.seen ?_ : Z.Leaves whole _ _ _ fun _ => Law.anything) fun node =>
    .finish node
  exact .attachList (bars_of_closes hwhole nofun) (resultColumn_left hself hwhole) node

theorem tablePrimary_takes :
    Z.Takes whole ahead (tablePrimary self) (tablePrimary self') fun _ => Law.anything := by
  unfold tablePrimary
  refine Leaves.current (Takes.unexpected_ne _) fun t => ?_
  dsimp only
  split
  · exact (objectName_takes _).leaves.bind fun table => withAlias_left hwhole table
  · refine (Leaves.takeSeen (P := Law.anything) fun _ _ _ => trivial).bind fun _ => ?_
    refine Takes.leaves ((Leaves.seesOneOf _).into fun b => ?_)
    cases b
    · refine (hself.joinTree False.elim).leaves.into fun tables => ?_
      exact (Takes.expect _ _).discard.bind fun _ => .answer tables
    · exact (Expression.subquery_takes hself _ t).bind fun table => withAlias_left hwhole table

end Items

/-- The kind of the next token is seen, but no closing parenthesis of the sequel. -/
theorem joinKind?_left (hwhole : whole → Z.Closes) : Z.Stays whole joinKind? joinKind? := by
  have htaken {ahead : List Token → Prop} (hne : ¬ ahead []) (answer : Option (Kind × Bool)) :
      Z.Leaves whole ahead (do discard advance; return answer) (do discard advance; return answer)
        fun _ => Law.anything :=
    (Leaves.advance hne fun _ _ _ => trivial).discard.bind fun _ => .answer answer
  have hsided {ahead : List Token → Prop} (hne : ¬ ahead []) (kind : Kind) :
      Z.Leaves whole ahead (do discard advance; return some (kind, ← consumeKeyword .OUTER))
        (do discard advance; return some (kind, ← consumeKeyword .OUTER))
        fun _ => Law.anything := by
    refine (Leaves.advance (P := Law.anything) hne fun _ _ _ => trivial).discard.bind fun _ => ?_
    exact (Leaves.consumeKeyword (bars_of_closes hwhole nofun)).bind fun _ => .answer _
  unfold joinKind?
  dsimp only
  refine Leaves.currentKind (fun hcloses t ht => ?_) fun o => ?_
  · rw [hwhole hcloses t ht]
  · split
    · exact .pure fun _ _ => trivial
    · exact htaken (by simp) _
    · exact htaken (by simp) _
    · exact hsided (by simp) _
    · exact hsided (by simp) _
    · exact hsided (by simp) _
    · exact .pure fun _ _ => trivial

section Clauses

variable (hself : Z.Serves self self') (hwhole : whole → Z.Closes)

include hself

theorem clause_left (kind : Kind) (context : Context) (t : Token) :
    Z.Stays whole (clause self kind context t) (clause self' kind context t) := by
  unfold clause
  refine (Leaves.nodeAt kind t).bind fun node => ?_
  refine ((hself.expression 0).within _).leaves.bind fun inner => ?_
  exact (Leaves.attach node inner).bind fun node => .finish node

omit hself in
theorem usingColumns_left (t : Token) :
    Z.Stays whole (usingColumns t) (usingColumns t) := by
  unfold usingColumns
  refine (Leaves.nodeAt _ t).bind fun node => ?_
  refine (Takes.expect _ _).discard.leaves.bind fun _ => ?_
  refine Takes.leaves ((Leaves.attachList bars_false columnName_takes.leaves node).into ?_)
  exact fun node => (Takes.expect _ _).discard.bind fun _ => .finish node

include hwhole

theorem joinCondition?_left (join : Tree) :
    Z.Stays whole (joinCondition? self join) (joinCondition? self' join) := by
  unfold joinCondition?
  refine (Leaves.takeKeyword? (bars_of_closes hwhole nofun)).bind fun o => ?_
  rcases o with _ | t
  · refine (Leaves.takeKeyword? (bars_of_closes hwhole nofun)).bind fun o => ?_
    rcases o with _ | t
    · exact .answer join
    · exact (usingColumns_left t).bind fun names => .attach join names
  · exact (clause_left hself _ _ t).bind fun condition => .attach join condition

theorem joined?_left (left : Tree) (n : Nat) :
    Z.Leaves whole (·.length ≤ n) (joined? self left) (joined? self' left) fun o ts =>
      o.isSome → ts.length < n := by
  unfold joined?
  refine ((Leaves.consumeKeyword (bars_of_closes hwhole nofun)).upTo n).bind fun natural => ?_
  refine ((joinKind?_left hwhole).upTo n).bind fun o => ?_
  rcases o with _ | ⟨kind, outer⟩
  · cases natural
    · exact .pure fun _ _ => nofun
    · exact .unexpected _
  · refine (Takes.expectWhere (P := (·.length < n)) (fun _ _ h => h) _ _).discard.leaves.bind
      fun _ => ?_
    have hrest : Z.Stays whole (do
        let right ← tablePrimary self
        let join ← flagIf natural .natural (← nodeOver kind left)
        let join ← flagIf outer .outer join
        let join ← attach (← attach join left) right
        return some (← finish (← joinCondition? self join))) (do
        let right ← tablePrimary self'
        let join ← flagIf natural .natural (← nodeOver kind left)
        let join ← flagIf outer .outer join
        let join ← attach (← attach join left) right
        return some (← finish (← joinCondition? self' join))) := by
      refine (tablePrimary_takes hself hwhole).leaves.bind fun right => ?_
      refine (Leaves.nodeOver kind left).bind fun join => ?_
      refine (Leaves.flagIf natural _ join).bind fun join => ?_
      refine (Leaves.flagIf outer _ join).bind fun join => ?_
      refine (Leaves.attach join left).bind fun join => ?_
      refine (Leaves.attach join right).bind fun join => ?_
      refine (joinCondition?_left hself hwhole join).bind fun join => ?_
      exact (Leaves.finish join).bind fun join => .answer _
    exact ((hrest.short n).after fun _ h => ⟨trivial, h⟩).weaken fun _ _ h _ => h

theorem whereClause?_left (statement : Tree) :
    Z.Stays whole (whereClause? self statement) (whereClause? self' statement) := by
  unfold whereClause?
  refine (Leaves.takeKeyword? (bars_of_closes hwhole nofun)).bind fun o => ?_
  rcases o with _ | t
  · exact .answer statement
  · exact (clause_left hself _ _ t).bind fun condition => .attach statement condition

theorem fromClause?_left (statement : Tree) :
    Z.Stays whole (fromClause? self.joinTree statement) (fromClause? self'.joinTree statement) := by
  unfold fromClause?
  refine (Leaves.takeKeyword? (bars_of_closes hwhole nofun)).bind fun o => ?_
  rcases o with _ | t
  · exact .answer statement
  · refine (Leaves.nodeAt _ t).bind fun node => ?_
    have hitems : Z.Stays whole (attachList self.joinTree node) (attachList self'.joinTree node) :=
      .attachList (bars_of_closes hwhole nofun) (hself.joinTree hwhole).leaves node
    refine (hitems.within _).bind fun node => ?_
    exact (Leaves.finish node).bind fun node => .attach statement node

theorem groupBy?_left (select : Tree) :
    Z.Stays whole (groupBy? self select) (groupBy? self' select) := by
  unfold groupBy?
  refine (Leaves.takeKeyword? (bars_of_closes hwhole nofun)).bind fun o => ?_
  rcases o with _ | t
  · exact .answer select
  · refine (Takes.expectKeyword .BY).discard.leaves.bind fun _ => ?_
    refine (Leaves.nodeAt _ t).bind fun node => ?_
    have hkeys : Z.Stays whole (attachList (self.expression 0) node)
        (attachList (self'.expression 0) node) :=
      .attachList (bars_of_closes hwhole nofun) (hself.expression 0).leaves node
    refine (hkeys.within _).bind fun node => ?_
    exact (Leaves.finish node).bind fun node => .attach select node

theorem having?_left (select : Tree) :
    Z.Stays whole (having? self select) (having? self' select) := by
  unfold having?
  refine (Leaves.takeKeyword? (bars_of_closes hwhole nofun)).bind fun o => ?_
  rcases o with _ | t
  · exact .answer select
  · exact (clause_left hself _ _ t).bind fun condition => .attach select condition

end Clauses

/-! ## Cores -/

section Cores

variable (hself : Z.Serves self self') (hwhole : whole → Z.Closes)

include hself

theorem valuesRow_takes :
    Z.Takes whole ahead (valuesRow self) (valuesRow self') fun _ => Law.anything := by
  unfold valuesRow
  refine (Takes.expect _ _).bind fun t => ?_
  refine Takes.leaves ((Leaves.nodeAt _ t).into fun row => ?_)
  refine (Leaves.attachList bars_false (hself.expression 0).leaves row).into fun row => ?_
  exact (Takes.expect _ _).discard.bind fun _ => .finish row

include hwhole

theorem values_takes (kind : Kind) :
    Z.Takes whole ahead (values self kind) (values self' kind) fun _ => Law.anything := by
  unfold values
  refine (Takes.expectKeyword .VALUES).bind fun t => ?_
  refine (Leaves.nodeAt kind t).bind fun node => ?_
  refine (Leaves.attachList (bars_of_closes hwhole nofun)
    (valuesRow_takes hself).leaves node).bind fun node => ?_
  exact .finish node

omit hself in
theorem quantifier?_left (node : Tree) : Z.Stays whole (quantifier? node) (quantifier? node) := by
  unfold quantifier?
  refine (Leaves.consumeKeyword (bars_of_closes hwhole nofun)).bind fun b => ?_
  cases b
  · refine (Leaves.consumeKeyword (bars_of_closes hwhole nofun)).bind fun b => ?_
    cases b
    · exact .answer node
    · exact .flag node _
  · exact .flag node _

theorem select_takes :
    Z.Takes whole ahead (select self) (select self') fun _ => Law.anything := by
  unfold select
  refine (Takes.expectKeyword .SELECT).bind fun t => ?_
  refine (Leaves.nodeAt _ t).bind fun node => ?_
  refine (quantifier?_left hwhole node).bind fun node => ?_
  refine ((resultColumns_left hself hwhole _).within _).bind fun list => ?_
  refine (Leaves.attach node list).bind fun node => ?_
  refine (fromClause?_left hself hwhole node).bind fun node => ?_
  refine (whereClause?_left hself hwhole node).bind fun node => ?_
  refine (groupBy?_left hself hwhole node).bind fun node => ?_
  exact (having?_left hself hwhole node).bind fun node => .finish node

theorem core_takes : Z.Takes whole ahead (core self) (core self') fun _ => Law.anything := by
  unfold core
  refine (Leaves.sees bars_false).into fun b => ?_
  cases b
  · exact select_takes hself hwhole
  · exact values_takes hself hwhole _

omit hself in
theorem setOperator?_left (n : Nat) :
    Z.Leaves whole (·.length ≤ n) setOperator? setOperator? fun o ts =>
      o.isSome → ts.length < n := by
  unfold setOperator?
  refine (Leaves.take?_short (bars_of_closes hwhole (by decide)) n).bind fun o => ?_
  rcases o with _ | t
  · have hbar : whole → ∀ t ∈ Z.tokens.head?,
        (t.kind == .keyword .INTERSECT || t.kind == .keyword .EXCEPT) = false := by
      intro hcloses t ht
      rw [hwhole hcloses t ht]
      rfl
    refine ((Leaves.takeIf?_short hbar n).after fun _ h => h.1).bind fun other => .pure ?_
    rw [Option.isSome_map]
    exact fun _ h => h.2
  · have hrest : Z.Stays whole (do
        if ← consumeKeyword .ALL then return some (t, true)
        else
          discard <| consumeKeyword .DISTINCT
          return some (t, false)) (do
        if ← consumeKeyword .ALL then return some (t, true)
        else
          discard <| consumeKeyword .DISTINCT
          return some (t, false)) := by
      refine (Leaves.consumeKeyword (bars_of_closes hwhole nofun)).bind fun b => ?_
      cases b
      · exact (Leaves.consumeKeyword (bars_of_closes hwhole nofun)).discard.bind fun _ => .answer _
      · exact .answer _
    exact ((hrest.short n).after fun _ h => ⟨trivial, h.2 rfl⟩).weaken fun _ _ h _ => h

theorem combined?_left (left : Tree) (n : Nat) :
    Z.Leaves whole (·.length ≤ n) (combined? self left) (combined? self' left) fun o ts =>
      o.isSome → ts.length < n := by
  unfold combined?
  refine (setOperator?_left hwhole n).bind fun o => ?_
  rcases o with _ | ⟨t, all⟩
  · exact .pure fun _ _ => nofun
  · have hrest : Z.Stays whole (do
        let right ← core self
        let node ← setText (← nodeOver .compoundSelect left) t
        let node ← flagIf all .all node
        return some (← finish (← attach (← attach node left) right))) (do
        let right ← core self'
        let node ← setText (← nodeOver .compoundSelect left) t
        let node ← flagIf all .all node
        return some (← finish (← attach (← attach node left) right))) := by
      refine (core_takes hself hwhole).leaves.bind fun right => ?_
      refine (Leaves.nodeOver _ left).bind fun node => ?_
      refine (Leaves.setText node t).bind fun node => ?_
      refine (Leaves.flagIf all _ node).bind fun node => ?_
      refine (Leaves.attach node left).bind fun node => ?_
      refine (Leaves.attach node right).bind fun node => ?_
      exact (Leaves.finish node).bind fun node => .answer _
    exact ((hrest.short n).after fun _ h => ⟨trivial, h rfl⟩).weaken fun _ _ h _ => h

/-! ## Whole queries -/

theorem limitNumbers_left (limit first : Tree) :
    Z.Stays whole (limitNumbers self limit first) (limitNumbers self' limit first) := by
  unfold limitNumbers
  refine (Leaves.take? (bars_of_closes hwhole (by decide))).bind fun o => ?_
  rcases o with _ | comma
  · refine (Leaves.attach limit first).bind fun limit => ?_
    refine (Leaves.takeKeyword? (bars_of_closes hwhole nofun)).bind fun o => ?_
    rcases o with _ | word
    · exact .answer _
    · refine (Leaves.nodeAt _ word).bind fun offset => ?_
      refine (hself.expression 0).leaves.bind fun skip => ?_
      exact (Leaves.attach offset skip).bind fun _ => .answer _
  · refine (hself.expression 0).leaves.bind fun count => ?_
    refine (Leaves.attach limit count).bind fun limit => ?_
    refine (Leaves.nodeAt _ comma).bind fun offset => ?_
    exact (Leaves.attach offset first).bind fun _ => .answer _

omit hself hwhole in
theorem attachOffset_left (query : Tree) :
    ∀ offset, Z.Stays whole (attachOffset query offset) (attachOffset query offset)
  | none => .answer query
  | some offset => (Leaves.finish offset).bind fun offset => .attach query offset

theorem limit?_left (query : Tree) :
    Z.Stays whole (limit? self query) (limit? self' query) := by
  unfold limit?
  refine (Leaves.takeKeyword? (bars_of_closes hwhole nofun)).bind fun o => ?_
  rcases o with _ | t
  · exact .answer query
  · refine (Leaves.nodeAt _ t).bind fun limit => ?_
    refine (hself.expression 0).leaves.bind fun first => ?_
    refine (limitNumbers_left hself hwhole limit first).bind ?_
    rintro ⟨limit, offset⟩
    refine (Leaves.finish limit).bind fun limit => ?_
    exact (Leaves.attach query limit).bind fun query => attachOffset_left query offset

theorem body_takes : Z.Takes whole ahead (body self) (body self') fun _ => Law.anything := by
  unfold body
  refine (core_takes hself hwhole).bind fun first => ?_
  have hcombined :
      Z.Stays whole (iterate (combined? self) first) (iterate (combined? self') first) :=
    .iterate (fun n left => ((combined?_left hself hwhole left n).after fun _ h => h.2).weaken
      fun _ _ h => ⟨trivial, h⟩) first
  refine hcombined.bind fun query => ?_
  refine (Leaves.sees (bars_of_closes hwhole (by decide))).forget.bind fun b => ?_
  have horder : Z.Stays whole (Expression.orderBy self) (Expression.orderBy self') :=
    (Expression.orderBy_takes hself hwhole).leaves
  refine (Leaves.attachIf b horder query).bind fun query => ?_
  exact (limit?_left hself hwhole query).bind fun query => .finish query

omit hwhole in
theorem commonTable_takes :
    Z.Takes whole Law.anything (commonTable self) (commonTable self') fun _ => Law.anything := by
  unfold commonTable
  refine (Takes.expectName _).bind fun name => ?_
  refine Takes.leaves ((Leaves.namedNode _ name).into fun node => ?_)
  refine (Leaves.sees bars_false).forget.into fun b => ?_
  refine (Leaves.attachIf b columnList_takes.leaves node).into fun node => ?_
  refine (Takes.expectKeyword .AS).discard.leaves.into fun _ => ?_
  refine (Takes.expect _ _).discard.leaves.into fun _ => ?_
  refine ((hself.query False.elim).within _).leaves.into fun query => ?_
  refine (Takes.expect _ _).discard.bind fun _ => ?_
  exact (Leaves.attach node query).bind fun node => .finish node

theorem withClause_takes :
    Z.Takes whole ahead (withClause self) (withClause self') fun _ => Law.anything := by
  unfold withClause
  refine (Takes.expectKeyword .WITH).bind fun t => ?_
  refine (Leaves.nodeAt _ t).bind fun node => ?_
  refine (Leaves.consumeKeyword (bars_of_closes hwhole nofun)).bind fun b => ?_
  refine (Leaves.flagIf b _ node).bind fun node => ?_
  exact (Leaves.attachList (bars_of_closes hwhole nofun) (commonTable_takes hself).leaves node).bind
    fun node => .finish node

theorem afterWith_takes (clause : Tree) :
    Z.Takes whole Law.anything (afterWith self clause) (afterWith self' clause)
      fun _ => Law.anything := by
  unfold afterWith
  refine (body_takes hself hwhole).bind fun query => ?_
  exact (Leaves.prepend query clause).bind fun query => .finish query

end Cores

end Query

theorem query_takes (hself : Z.Serves self self') (hwhole : whole → Z.Closes) :
    Z.Takes whole Law.anything (query self) (query self') fun _ => Law.anything := by
  unfold query
  refine .deeper ((Leaves.sees bars_false).into fun b => ?_)
  cases b
  · exact Query.body_takes hself hwhole
  · exact (Query.withClause_takes hself hwhole).bind fun clause =>
      (Query.afterWith_takes hself hwhole clause).leaves

theorem joinTree_takes (hself : Z.Serves self self') (hwhole : whole → Z.Closes) :
    Z.Takes whole Law.anything (joinTree self) (joinTree self') fun _ => Law.anything := by
  unfold joinTree
  refine .deeper ((Query.tablePrimary_takes hself hwhole).bind fun t => ?_)
  refine .iterate (fun n left => ?_) t
  exact ((Query.joined?_left hself hwhole left n).after fun _ h => h.2).weaken
    fun _ _ h => ⟨trivial, h⟩

end SqlSyntax
