import SqlSyntax.Grammar.Statement
import SqlSyntax.Proofs.Bearing.Change
import SqlSyntax.Proofs.Contents.Schema
import SqlSyntax.Proofs.Numbering

/-!
# What statements bear

Statements stand under explanations and in the bodies of triggers. So whatever statement a
production plants, its nodes stand under nodes that bear them (`statement_plants`), however deep the
productions call one another (`Nested.upTo_bears`). In every tree that a call makes, the parts of an
insertion stand in order (`Session.Builds.ordered`).
-/

namespace SqlSyntax

open SqlSyntax.Parser SqlSyntax.Facts

variable {Γ : Facts Family} {σ : Family} {t : Tree} {self : Nested}

set_option synthInstance.maxSize 1000

/-! ## Schema statements -/

namespace Schema

instance onConflict?_plants [Knows Γ t σ] [σ.Over (.only .conflictAction)] :
    Plants Γ (onConflict? t) σ := by
  unfold onConflict?
  exact .widen

instance referentialAction_plants [Knows Γ t σ] : Plants Γ (referentialAction t) σ := by
  unfold referentialAction
  exact .widen

@[instance]
theorem onChange?_plants [Knows Γ t σ] : Plants Γ (onChange? t) σ := by
  unfold onChange?
  refine .skip (h := fun b => ?_)
  split
  · refine .skip (h := fun o => ?_)
    split <;> exact .widen
  · exact .widen

instance references_plants : Plants Γ references (.only .referencesClause) := by
  unfold references
  exact .widen

@[instance]
theorem finishConstraint_plants (name : Option Token) [Knows Γ t σ] :
    Plants Γ (finishConstraint name t) σ := by
  unfold finishConstraint
  split <;> infer_instance

instance autoincrement?_plants [Knows Γ t σ] : Plants Γ (autoincrement? t) σ := by
  unfold autoincrement?
  exact .widen

instance columnType?_plants [Knows Γ t σ] [σ.Over (.only .typeName)] :
    Plants Γ (columnType? t) σ := by
  unfold columnType?
  exact .widen

instance withoutRowid?_plants [Knows Γ t σ] : Plants Γ (withoutRowid? t) σ := by
  unfold withoutRowid?
  exact .widen

instance triggerTime_plants [Knows Γ t σ] : Plants Γ (triggerTime t) σ := by
  unfold triggerTime
  exact .widen

instance eventColumns_plants (token : Token) :
    Plants Γ (eventColumns token) (.only .columnList) := by
  unfold eventColumns
  infer_instance

instance triggerEvent_plants : Plants Γ triggerEvent (.only .triggerEvent) := by
  unfold triggerEvent
  exact .widen

instance eachRow?_plants [Knows Γ t σ] : Plants Γ (eachRow? t) σ := by
  unfold eachRow?
  exact .widen

instance ifNotExists?_plants [Knows Γ t σ] : Plants Γ (ifNotExists? t) σ := by
  unfold ifNotExists?
  exact .widen

instance ifExists?_plants [Knows Γ t σ] : Plants Γ (ifExists? t) σ := by
  unfold ifExists?
  exact .widen

instance dropBehavior?_plants [Knows Γ t σ] : Plants Γ (dropBehavior? t) σ := by
  unfold dropBehavior?
  exact .widen

instance drop_plants : Plants Γ drop (.only .dropStmt) := by
  unfold drop
  exact .widen

instance renameTable_plants (token : Token) :
    Plants Γ (renameTable token) (.only .renameTable) := by
  unfold renameTable
  infer_instance

instance renameColumn_plants (token : Token) :
    Plants Γ (renameColumn token) (.only .renameColumn) := by
  unfold renameColumn
  infer_instance

instance truncate_plants : Plants Γ truncate (.only .truncateStmt) := by
  unfold truncate
  infer_instance

variable [self.Bears]

instance check_plants (start : Token) :
    Plants Γ (check self start) (.only .checkConstraint) := by
  unfold check
  infer_instance

@[instance]
theorem columnConstraintBody?_plants (start : Token) (kind : TokenKind) :
    Plants Γ (columnConstraintBody? self start kind) .plain := by
  unfold columnConstraintBody?
  split <;> exact .widen

instance columnConstraint?_plants : Plants Γ (columnConstraint? self) .plain := by
  unfold columnConstraint?
  exact .widen

instance columnDefinition_plants : Plants Γ (columnDefinition self) (.only .columnDef) := by
  unfold columnDefinition
  infer_instance

@[instance]
theorem tableConstraintBody_plants (start token : Token) :
    Plants Γ (tableConstraintBody self start token) .plain := by
  unfold tableConstraintBody
  split <;> exact .widen

instance tableConstraint_plants : Plants Γ (tableConstraint self) .plain := by
  unfold tableConstraint
  exact .widen

instance tableElement_plants : Plants Γ (tableElement self) .plain := by
  unfold tableElement
  exact .widen

instance createTable_plants [Knows Γ t (.only .createTableStmt)] :
    Plants Γ (createTable self t) (.only .createTableStmt) := by
  unfold createTable
  exact .widen

instance indexedColumn_plants : Plants Γ (indexedColumn self) (.only .indexedColumn) := by
  unfold indexedColumn
  infer_instance

instance createIndex_plants [Knows Γ t (.only .createIndexStmt)] :
    Plants Γ (createIndex self t) (.only .createIndexStmt) := by
  unfold createIndex
  infer_instance

instance createView_plants [Knows Γ t (.only .createViewStmt)] :
    Plants Γ (createView self t) (.only .createViewStmt) := by
  unfold createView
  exact .widen

instance triggerCondition?_plants [Knows Γ t σ] [σ.Over (.only .whenClause)] :
    Plants Γ (triggerCondition? self t) σ := by
  unfold triggerCondition?
  exact .widen

instance triggerStatement?_plants [Knows Γ t (.only .triggerBody)] :
    Plants Γ (triggerStatement? self t) (.only .triggerBody) := by
  unfold triggerStatement?
  exact .widen

instance triggerBody_plants : Plants Γ (triggerBody self) (.only .triggerBody) := by
  unfold triggerBody
  infer_instance

instance createTrigger_plants [Knows Γ t (.only .createTriggerStmt)] :
    Plants Γ (createTrigger self t) (.only .createTriggerStmt) := by
  unfold createTrigger
  infer_instance

theorem creationBody_plants {kind : Kind} {word : TokenKind} {temporary : Bool}
    (hkind : creationKind? word = some (kind, temporary)) [h : Knows Γ t (.only kind)] :
    Plants Γ (creationBody self t) (.only kind) where
  answers hΓ := by
    have hroot : t.kind = kind := Family.eq_of_only (h.of hΓ).kind
    unfold creationKind? at hkind
    unfold creationBody
    rw [hroot]
    split at hkind <;> cases hkind <;> exact Plants.answers hΓ

@[instance]
theorem create_plants : Plants Γ (create self) .whole := by
  unfold create
  refine .skip (h := fun start => .skip (h := fun temporary => .skip (h := fun unique => ?_)))
  refine .skip (h := fun o => ?_)
  rcases o with _ | token
  · exact .widen
  refine .bind_fact (creationKind_answers_creationKind? temporary unique token) ?_
  rintro kind ⟨b, hkind⟩
  have hbody {Γ : Facts Family} {t : Tree} [Knows Γ t (.only kind)] :
      Plants Γ (creationBody self t) (.only kind) := creationBody_plants hkind
  have hwhole : (Family.only kind).Sub .whole := by
    unfold creationKind? at hkind
    split at hkind <;> cases hkind <;> infer_instance
  exact .widen

@[instance]
theorem alteration_plants (token : Token) : Plants Γ (alteration self token) .plain := by
  unfold alteration
  split <;> exact .widen

instance alter_plants : Plants Γ (alter self) (.only .alterTableStmt) := by
  unfold alter
  exact .widen

end Schema

/-! ## Transactions, settings and maintenance -/

namespace Utility

instance transactionMode?_plants [Knows Γ t σ] : Plants Γ (transactionMode? t) σ := by
  unfold transactionMode?
  exact .widen

instance begin_plants : Plants Γ begin .whole := by
  unfold begin
  exact .widen

instance commit_plants : Plants Γ commit .whole := by
  unfold commit
  exact .widen

instance finishNamed_plants (what : String) [Knows Γ t σ] : Plants Γ (finishNamed t what) σ := by
  unfold finishNamed
  infer_instance

instance rollback_plants : Plants Γ rollback .whole := by
  unfold rollback
  exact .widen

instance savepoint_plants : Plants Γ savepoint .whole := by
  unfold savepoint
  exact .widen

instance release_plants : Plants Γ release .whole := by
  unfold release
  exact .widen

instance queryPlan?_plants [Knows Γ t σ] : Plants Γ (queryPlan? t) σ := by
  unfold queryPlan?
  exact .widen

instance detachDatabase_plants : Plants Γ detachDatabase .whole := by
  unfold detachDatabase
  exact .widen

instance upkeep_plants (kind : Kind) (k : Keyword) [(Family.only kind).Over (.only .objectName)] :
    Plants Γ (upkeep kind k) (.only kind) := by
  unfold upkeep
  exact .widen

variable [self.Bears]

instance explain_plants : Plants Γ (explain self) .whole := by
  unfold explain
  exact .widen

instance setting_plants : Plants Γ (setting self) .whole := by
  unfold setting
  exact .widen

instance pragmaValue_plants : Plants Γ (pragmaValue self) .plain := by
  unfold pragmaValue
  exact .widen

instance pragma_plants : Plants Γ (pragma self) .whole := by
  unfold pragma
  exact .widen

instance vacuum_plants : Plants Γ (vacuum self) .whole := by
  unfold vacuum
  exact .widen

instance attachDatabase_plants : Plants Γ (attachDatabase self) .whole := by
  unfold attachDatabase
  exact .widen

end Utility

/-! ## Statements -/

namespace Statement

variable [self.Bears]

/-- A `WITH` before a statement. -/
@[instance]
theorem afterWith_plants [h : Knows Γ t (.only .withClause)] :
    Plants Γ (afterWith self t) .whole := by
  -- it comes to stand before the parts of an insertion
  have hinsert : Plants Γ (do prepend (← Change.insert self) t) .whole := ⟨fun hΓ => by
    refine Change.insert_inserts.bind fun statement hstatement => ?_
    refine (Answers.prepend statement t).weaken fun _ hu => List.forall_mem_singleton.2 ?_
    have hparts := hstatement.prepend ((h.of hΓ).sub inferInstance) (.some_of_only (h.of hΓ).kind)
    exact hu ▸ hparts.of.sub inferInstance⟩
  unfold afterWith
  refine .skip (h := fun o => ?_)
  split
  · exact hinsert
  · exact hinsert
  all_goals exact .widen

@[instance]
theorem extension_plants (token : Token) (k : Keyword) :
    Plants Γ (extension self token k) .whole := by
  unfold extension
  refine .skip (h := fun scope => ?_)
  split
  · split <;> exact .widen
  · exact .widen

@[instance]
theorem ofKeyword_plants (token : Token) (k : Keyword) :
    Plants Γ (ofKeyword self token k) .whole := by
  unfold ofKeyword
  split <;> exact .widen

end Statement

@[instance]
theorem statement_plants [self.Bears] : Plants Γ (statement self) .whole := by
  unfold statement
  refine .deeper (h := .skip (h := fun o => ?_))
  rcases o with _ | token
  · exact .widen
  dsimp only
  split <;> exact .widen

theorem Nested.upTo_bears (n : Nat) : (upTo n).Bears := by
  induction n with
  | zero => exact {
      expression := fun _ _ => .of_unexpected _
      query := fun _ => .of_unexpected _
      joinTree := fun _ => .of_unexpected _
      statement := fun _ => .of_unexpected _ }
  | succ n ih => exact {
      expression := fun _ power => expression_plants power
      query := fun _ => query_plants
      joinTree := fun _ => joinTree_plants
      statement := fun _ => statement_plants }

/-! ## Order among nodes -/

theorem Nested.statement_ordered (n : Nat) :
    Answers (upTo n).statement fun t => t.Everywhere Tree.Ordered := by
  have := upTo_bears n
  have hplants : Plants ([] : Facts Family) (upTo n).statement .whole := inferInstance
  exact (hplants.answers nofun).weaken fun _ h => (List.forall_mem_singleton.1 h).ordered

theorem Session.Builds.ordered {s : Session} {source : Source} {t : Tree}
    (h : s.Builds source t) : t.Everywhere Tree.Ordered :=
  h.of_statement Nested.statement_ordered

end SqlSyntax
