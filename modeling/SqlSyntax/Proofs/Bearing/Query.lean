import SqlSyntax.Grammar.Query
import SqlSyntax.Proofs.Bearing.Expression
import SqlSyntax.Proofs.Contents.Query

/-!
# What queries bear

A clause that chooses or groups rows is put under the statement that it belongs to, and what else is
put under a query or its parts may stand anywhere.
-/

namespace SqlSyntax

open SqlSyntax.Parser SqlSyntax.Facts

variable {Γ : Facts Family} {σ ρ : Family} {t : Tree} {self : Nested} [self.Bears]

set_option synthInstance.maxSize 1000

namespace Query

instance resultColumn_plants : Plants Γ (resultColumn self) .plain := by
  unfold resultColumn
  exact .widen

instance resultColumns_plants (kind : Kind) [(Family.only kind).Over .plain] :
    Plants Γ (resultColumns self kind) (.only kind) := by
  unfold resultColumns
  exact .widen

instance tablePrimary_plants : Plants Γ (tablePrimary self) .plain := by
  unfold tablePrimary
  exact .widen

instance clause_plants (kind : Kind) (context : Context) (token : Token)
    [(Family.only kind).Over .plain] : Plants Γ (clause self kind context token) (.only kind) := by
  unfold clause
  infer_instance

instance usingColumns_plants (token : Token) :
    Plants Γ (usingColumns token) (.only .usingClause) := by
  unfold usingColumns
  infer_instance

instance joinCondition?_plants [Knows Γ t σ] [σ.Over (.only .onCondition)]
    [σ.Over (.only .usingClause)] : Plants Γ (joinCondition? self t) σ := by
  unfold joinCondition?
  exact .widen

instance joined?_plants [Knows Γ t .plain] : Plants Γ (joined? self t) .plain := by
  unfold joined?
  refine .skip (h := fun natural => .bind_fact joinKind?_answers fun o ho => ?_)
  rcases o with _ | ⟨kind, outer⟩
  · exact .widen
  have hkind : kind.isJoin := ho _ rfl
  cases kind <;> first | exact .widen | cases hkind

instance whereClause?_plants [Knows Γ t σ] [σ.Over (.only .whereClause)] :
    Plants Γ (whereClause? self t) σ := by
  unfold whereClause?
  exact .widen

instance fromClause?_plants {item : Parser Tree} [Knows Γ t σ] [σ.Over (.only .fromClause)]
    [∀ Γ, Plants Γ item ρ] [ρ.Sub .plain] : Plants Γ (fromClause? item t) σ := by
  unfold fromClause?
  exact .widen

instance groupBy?_plants [Knows Γ t σ] [σ.Over (.only .groupByClause)] :
    Plants Γ (groupBy? self t) σ := by
  unfold groupBy?
  exact .widen

instance having?_plants [Knows Γ t σ] [σ.Over (.only .havingClause)] :
    Plants Γ (having? self t) σ := by
  unfold having?
  exact .widen

instance valuesRow_plants : Plants Γ (valuesRow self) (.only .valuesRow) := by
  unfold valuesRow
  infer_instance

instance values_plants (kind : Kind) [(Family.only kind).Over (.only .valuesRow)] :
    Plants Γ (values self kind) (.only kind) := by
  unfold values
  infer_instance

instance quantifier?_plants [Knows Γ t σ] : Plants Γ (quantifier? t) σ := by
  unfold quantifier?
  exact .widen

instance select_plants : Plants Γ (select self) (.only .selectStmt) := by
  unfold select
  infer_instance

instance core_plants : Plants Γ (core self) .query := by
  unfold core
  exact .widen

instance combined?_plants [Knows Γ t .query] : Plants Γ (combined? self t) .query := by
  unfold combined?
  exact .widen

instance limitNumbers_plants {u : Tree} [Knows Γ t (.only .limitClause)] [Knows Γ u .plain] :
    Plants Γ (limitNumbers self t u) .plain := by
  unfold limitNumbers
  exact .widen

instance attachOffset_some {u : Tree} [Knows Γ t σ] [Knows Γ u ρ] [σ.Over ρ] :
    Plants Γ (attachOffset t (some u)) σ := by
  unfold attachOffset
  infer_instance

instance attachOffset_none [Knows Γ t σ] : Plants Γ (attachOffset t none) σ := by
  unfold attachOffset
  infer_instance

instance limit?_plants [Knows Γ t σ] [σ.Over .plain] : Plants Γ (limit? self t) σ := by
  unfold limit?
  exact .widen

instance body_plants : Plants Γ (body self) .query := by
  unfold body
  exact .widen

instance commonTable_plants : Plants Γ (commonTable self) (.only .commonTableExpr) := by
  unfold commonTable
  exact .widen

instance withClause_plants : Plants Γ (withClause self) (.only .withClause) := by
  unfold withClause
  exact .widen

instance afterWith_plants [Knows Γ t (.only .withClause)] : Plants Γ (afterWith self t) .query := by
  unfold afterWith
  infer_instance

end Query

instance query_plants : Plants Γ (query self) .query := by
  unfold query
  exact .widen

instance joinTree_plants : Plants Γ (joinTree self) .plain := by
  unfold joinTree
  infer_instance

end SqlSyntax
