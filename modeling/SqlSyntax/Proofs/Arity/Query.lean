import SqlSyntax.Proofs.Arity.Expression
import SqlSyntax.Proofs.Contents.Query

/-!
# How many children the nodes of queries have

A clause has its condition, and an aliased column its value and its alias. A query, a list and a
join have any number of parts.
-/

namespace SqlSyntax

open SqlSyntax.Parser SqlSyntax.Facts

variable {Γ : Facts Phase} {σ ρ τ : Phase} {t : Tree} {self : Nested} [self.Counts]

set_option synthInstance.maxSize 1000

namespace Query

instance resultColumn_counts : Plants Γ (resultColumn self) .whole := by
  unfold resultColumn
  exact .widen

theorem resultColumns_counts {kind : Kind} (hkind : kind.arity? = none) :
    Plants Γ (resultColumns self kind) .free := by
  have hnode {Γ : Facts Phase} (token : Token) : Plants Γ (nodeAt kind token) .free :=
    Phase.nodeAt_free hkind token
  unfold resultColumns
  exact .widen

instance selectList_counts : Plants Γ (resultColumns self .selectList) .free :=
  resultColumns_counts rfl

instance returningColumns_counts : Plants Γ (resultColumns self .returningClause) .free :=
  resultColumns_counts rfl

instance tablePrimary_counts : Plants Γ (tablePrimary self) .whole := by
  unfold tablePrimary
  exact .widen

instance clause_counts (kind : Kind) (context : Context) (token : Token)
    [(Phase.wants kind.arity?).Next τ] : Plants Γ (clause self kind context token) τ := by
  unfold clause
  infer_instance

instance usingColumns_counts (token : Token) : Plants Γ (usingColumns token) .free := by
  unfold usingColumns
  infer_instance

instance joinCondition?_counts [Knows Γ t .free] : Plants Γ (joinCondition? self t) .free := by
  unfold joinCondition?
  exact .widen

instance joined?_counts [Knows Γ t .whole] : Plants Γ (joined? self t) .free := by
  unfold joined?
  refine .skip (h := fun natural => .bind_fact joinKind?_answers fun o ho => ?_)
  rcases o with _ | ⟨kind, outer⟩
  · exact .widen
  have hkind : kind.isJoin := ho _ rfl
  have harity : kind.arity? = none := by cases kind <;> first | rfl | cases hkind
  have hnode {Γ : Facts Phase} (t : Tree) : Plants Γ (nodeOver kind t) .free :=
    Phase.nodeOver_free harity t
  exact .widen

instance whereClause?_counts [Knows Γ t .free] : Plants Γ (whereClause? self t) .free := by
  unfold whereClause?
  exact .widen

instance fromClause?_counts {item : Parser Tree} [Knows Γ t .free] [∀ Γ, Plants Γ item ρ]
    [ρ.Sub .whole] : Plants Γ (fromClause? item t) .free := by
  unfold fromClause?
  exact .widen

instance groupBy?_counts [Knows Γ t .free] : Plants Γ (groupBy? self t) .free := by
  unfold groupBy?
  exact .widen

instance having?_counts [Knows Γ t .free] : Plants Γ (having? self t) .free := by
  unfold having?
  exact .widen

instance valuesRow_counts : Plants Γ (valuesRow self) .free := by
  unfold valuesRow
  infer_instance

theorem values_counts {kind : Kind} (hkind : kind.arity? = none) :
    Plants Γ (values self kind) .free := by
  have hnode {Γ : Facts Phase} (token : Token) : Plants Γ (nodeAt kind token) .free :=
    Phase.nodeAt_free hkind token
  unfold values
  infer_instance

instance valuesStmt_counts : Plants Γ (values self .valuesStmt) .free := values_counts rfl

instance valuesClause_counts : Plants Γ (values self .valuesClause) .free := values_counts rfl

instance quantifier?_counts [Knows Γ t σ] : Plants Γ (quantifier? t) σ := by
  unfold quantifier?
  exact .widen

instance select_counts : Plants Γ (select self) .free := by
  unfold select
  infer_instance

instance core_counts : Plants Γ (core self) .free := by
  unfold core
  exact .widen

instance combined?_counts [Knows Γ t .free] : Plants Γ (combined? self t) .free := by
  unfold combined?
  exact .widen

instance limitNumbers_counts {u : Tree} [Knows Γ t (.wants (some 1))] [Knows Γ u .whole] :
    Plants Γ (limitNumbers self t u) .whole := by
  unfold limitNumbers
  exact .widen

instance attachOffset_some_counts {u : Tree} [Knows Γ t .free] [Knows Γ u ρ] [ρ.Sub .whole] :
    Plants Γ (attachOffset t (some u)) .free := by
  unfold attachOffset
  infer_instance

instance attachOffset_none_counts [Knows Γ t σ] : Plants Γ (attachOffset t none) σ := by
  unfold attachOffset
  infer_instance

instance limit?_counts [Knows Γ t .free] : Plants Γ (limit? self t) .free := by
  unfold limit?
  exact .widen

instance body_counts : Plants Γ (body self) .free := by
  unfold body
  exact .widen

instance commonTable_counts : Plants Γ (commonTable self) .free := by
  unfold commonTable
  exact .widen

instance withClause_counts : Plants Γ (withClause self) .free := by
  unfold withClause
  exact .widen

instance afterWith_counts [Knows Γ t .free] : Plants Γ (afterWith self t) .free := by
  unfold afterWith
  infer_instance

end Query

instance query_counts : Plants Γ (query self) .free := by
  unfold query
  exact .widen

instance joinTree_counts : Plants Γ (joinTree self) .whole := by
  unfold joinTree
  infer_instance

end SqlSyntax
