import SqlSyntax.Grammar.Statement
import SqlSyntax.Proofs.Arity.Query
import SqlSyntax.Proofs.Contents.Schema

/-!
# How many children the nodes of statements have

Most statements have any number of parts. Whatever statement a production makes, all of its nodes
have as many children as their kinds tell (`statement_counts`), however deep the productions call
one another (`Nested.upTo_counts`).
-/

namespace SqlSyntax

open SqlSyntax.Parser SqlSyntax.Facts

variable {Γ : Facts Phase} {σ τ : Phase} {t : Tree} {self : Nested}

set_option synthInstance.maxSize 1000

/-! ## Changes of data -/

namespace Change

instance conflictAction_counts (start word : Token) :
    Plants Γ (conflictAction start word) .whole := by
  unfold conflictAction
  exact .widen

instance orAction?_counts [Knows Γ t .free] : Plants Γ (orAction? t) .free := by
  unfold orAction?
  exact .widen

instance insertTable_counts : Plants Γ insertTable .free := by
  unfold insertTable
  exact .widen

instance insertAction_counts (word : Token) [Knows Γ t .free] :
    Plants Γ (insertAction t word) .free := by
  unfold insertAction
  exact .widen

@[instance]
theorem insertColumns?_counts [Knows Γ t .free] : Plants Γ (insertColumns? t) .free := by
  unfold insertColumns?
  refine .skip (h := fun b => ?_)
  split
  · refine .skip (h := fun o => ?_)
    split <;> exact .widen
  · exact .widen

@[instance]
theorem assigned_counts : Plants Γ assigned .free := by
  unfold assigned
  refine .skip (h := fun o => ?_)
  rcases o with _ | token <;> exact .widen

instance target_counts : Plants Γ target .free := by
  unfold target
  infer_instance

variable [self.Counts]

instance returning?_counts [Knows Γ t .free] : Plants Γ (returning? self t) .free := by
  unfold returning?
  exact .widen

instance assignment_counts : Plants Γ (assignment self) .free := by
  unfold assignment
  infer_instance

instance setClause_counts : Plants Γ (setClause self) .free := by
  unfold setClause
  infer_instance

@[instance]
theorem insertSource_counts [Knows Γ t .free] : Plants Γ (insertSource self t) .free := by
  unfold insertSource
  refine .skip (h := fun o => ?_)
  split <;> exact .widen

instance insert_counts : Plants Γ (insert self) .free := by
  unfold insert
  exact .widen

instance update_counts : Plants Γ (update self) .free := by
  unfold update
  infer_instance

instance delete_counts : Plants Γ (delete self) .free := by
  unfold delete
  infer_instance

end Change

/-! ## Schema statements -/

namespace Schema

instance onConflict?_counts [Knows Γ t .free] : Plants Γ (onConflict? t) .free := by
  unfold onConflict?
  exact .widen

instance referentialAction_counts [Knows Γ t σ] : Plants Γ (referentialAction t) σ := by
  unfold referentialAction
  exact .widen

@[instance]
theorem onChange?_counts [Knows Γ t σ] : Plants Γ (onChange? t) σ := by
  unfold onChange?
  refine .skip (h := fun b => ?_)
  split
  · refine .skip (h := fun o => ?_)
    split <;> exact .widen
  · exact .widen

instance references_counts : Plants Γ references .free := by
  unfold references
  exact .widen

@[instance]
theorem finishConstraint_counts (name : Option Token) [Knows Γ t σ] :
    Plants Γ (finishConstraint name t) σ := by
  unfold finishConstraint
  split <;> infer_instance

instance autoincrement?_counts [Knows Γ t σ] : Plants Γ (autoincrement? t) σ := by
  unfold autoincrement?
  exact .widen

instance columnType?_counts [Knows Γ t .free] : Plants Γ (columnType? t) .free := by
  unfold columnType?
  exact .widen

instance withoutRowid?_counts [Knows Γ t σ] : Plants Γ (withoutRowid? t) σ := by
  unfold withoutRowid?
  exact .widen

instance triggerTime_counts [Knows Γ t σ] : Plants Γ (triggerTime t) σ := by
  unfold triggerTime
  exact .widen

instance eventColumns_counts (token : Token) : Plants Γ (eventColumns token) .free := by
  unfold eventColumns
  infer_instance

instance triggerEvent_counts : Plants Γ triggerEvent .free := by
  unfold triggerEvent
  exact .widen

instance eachRow?_counts [Knows Γ t σ] : Plants Γ (eachRow? t) σ := by
  unfold eachRow?
  exact .widen

instance ifNotExists?_counts [Knows Γ t σ] : Plants Γ (ifNotExists? t) σ := by
  unfold ifNotExists?
  exact .widen

instance ifExists?_counts [Knows Γ t σ] : Plants Γ (ifExists? t) σ := by
  unfold ifExists?
  exact .widen

instance dropBehavior?_counts [Knows Γ t σ] : Plants Γ (dropBehavior? t) σ := by
  unfold dropBehavior?
  exact .widen

instance drop_counts : Plants Γ drop .free := by
  unfold drop
  exact .widen

instance renameTable_counts (token : Token) : Plants Γ (renameTable token) .whole := by
  unfold renameTable
  exact .widen

instance renameColumn_counts (token : Token) : Plants Γ (renameColumn token) .whole := by
  unfold renameColumn
  exact .widen

instance truncate_counts : Plants Γ truncate .whole := by
  unfold truncate
  exact .widen

variable [self.Counts]

instance check_counts (start : Token) : Plants Γ (check self start) .whole := by
  unfold check
  exact .widen

@[instance]
theorem columnConstraintBody?_counts (start : Token) (kind : TokenKind) :
    Plants Γ (columnConstraintBody? self start kind) .whole := by
  unfold columnConstraintBody?
  split <;> exact .widen

instance columnConstraint?_counts : Plants Γ (columnConstraint? self) .whole := by
  unfold columnConstraint?
  exact .widen

instance columnDefinition_counts : Plants Γ (columnDefinition self) .free := by
  unfold columnDefinition
  infer_instance

@[instance]
theorem tableConstraintBody_counts (start token : Token) :
    Plants Γ (tableConstraintBody self start token) .whole := by
  unfold tableConstraintBody
  split <;> exact .widen

instance tableConstraint_counts : Plants Γ (tableConstraint self) .whole := by
  unfold tableConstraint
  exact .widen

instance tableElement_counts : Plants Γ (tableElement self) .whole := by
  unfold tableElement
  exact .widen

instance createTable_counts [Knows Γ t .free] : Plants Γ (createTable self t) .free := by
  unfold createTable
  exact .widen

instance indexedColumn_counts : Plants Γ (indexedColumn self) .whole := by
  unfold indexedColumn
  exact .widen

instance createIndex_counts [Knows Γ t .free] : Plants Γ (createIndex self t) .free := by
  unfold createIndex
  infer_instance

instance createView_counts [Knows Γ t .free] : Plants Γ (createView self t) .free := by
  unfold createView
  exact .widen

instance triggerCondition?_counts [Knows Γ t .free] :
    Plants Γ (triggerCondition? self t) .free := by
  unfold triggerCondition?
  exact .widen

instance triggerStatement?_counts [Knows Γ t .free] :
    Plants Γ (triggerStatement? self t) .free := by
  unfold triggerStatement?
  exact .widen

instance triggerBody_counts : Plants Γ (triggerBody self) .free := by
  unfold triggerBody
  infer_instance

instance createTrigger_counts [Knows Γ t .free] : Plants Γ (createTrigger self t) .free := by
  unfold createTrigger
  infer_instance

/-- Whatever is created, there may be any number of parts under a node that takes them. -/
@[instance]
theorem creationBody_counts [Knows Γ t .free] : Plants Γ (creationBody self t) .free := by
  unfold creationBody
  split <;> exact .widen

/-- Of what is created only a schema has a name and no more. -/
instance schemaBody_counts [h : Knows Γ t (.wants (some 1))] :
    Plants Γ (creationBody self t) (.wants (some 0)) where
  answers hΓ := by
    have hroot : t.kind.arity? = some (t.children.length + 1) := (h.of hΓ).root
    unfold creationBody
    split
    case h_5 => exact Plants.answers hΓ
    all_goals
      next hkind =>
        rw [hkind] at hroot
        cases hroot

@[instance]
theorem create_counts : Plants Γ (create self) .whole := by
  unfold create
  refine .skip (h := fun start => .skip (h := fun temporary => .skip (h := fun unique => ?_)))
  refine .skip (h := fun o => ?_)
  rcases o with _ | token
  · exact .widen
  refine .bind_fact (creationKind_answers_creationKind? temporary unique token) ?_
  rintro kind ⟨b, hkind⟩
  unfold creationKind? at hkind
  split at hkind <;> cases hkind <;> exact .widen

@[instance]
theorem alteration_counts (token : Token) : Plants Γ (alteration self token) .whole := by
  unfold alteration
  split <;> exact .widen

instance alter_counts : Plants Γ (alter self) .whole := by
  unfold alter
  exact .widen

end Schema

/-! ## Transactions, settings and maintenance -/

namespace Utility

instance transactionMode?_counts [Knows Γ t σ] : Plants Γ (transactionMode? t) σ := by
  unfold transactionMode?
  exact .widen

instance begin_counts : Plants Γ begin .whole := by
  unfold begin
  exact .widen

instance commit_counts : Plants Γ commit .whole := by
  unfold commit
  exact .widen

instance finishNamed_counts (what : String) [Knows Γ t σ] : Plants Γ (finishNamed t what) σ := by
  unfold finishNamed
  infer_instance

instance rollback_counts : Plants Γ rollback .whole := by
  unfold rollback
  exact .widen

instance savepoint_counts : Plants Γ savepoint .whole := by
  unfold savepoint
  exact .widen

instance release_counts : Plants Γ release .whole := by
  unfold release
  exact .widen

instance queryPlan?_counts [Knows Γ t σ] : Plants Γ (queryPlan? t) σ := by
  unfold queryPlan?
  exact .widen

instance detachDatabase_counts : Plants Γ detachDatabase .whole := by
  unfold detachDatabase
  exact .widen

theorem upkeep_counts {kind : Kind} (hkind : kind.arity? = none) (k : Keyword) :
    Plants Γ (upkeep kind k) .free := by
  have hnode {Γ : Facts Phase} (token : Token) : Plants Γ (nodeAt kind token) .free :=
    Phase.nodeAt_free hkind token
  unfold upkeep
  exact .widen

instance reindex_counts (k : Keyword) : Plants Γ (upkeep .reindexStmt k) .free :=
  upkeep_counts rfl k

instance analyze_counts (k : Keyword) : Plants Γ (upkeep .analyzeStmt k) .free :=
  upkeep_counts rfl k

variable [self.Counts]

instance explain_counts : Plants Γ (explain self) .whole := by
  unfold explain
  exact .widen

instance setting_counts : Plants Γ (setting self) .whole := by
  unfold setting
  exact .widen

instance pragmaValue_counts : Plants Γ (pragmaValue self) .whole := by
  unfold pragmaValue
  exact .widen

instance pragma_counts : Plants Γ (pragma self) .whole := by
  unfold pragma
  exact .widen

instance vacuum_counts : Plants Γ (vacuum self) .whole := by
  unfold vacuum
  exact .widen

instance attachDatabase_counts : Plants Γ (attachDatabase self) .whole := by
  unfold attachDatabase
  exact .widen

end Utility

/-! ## Statements -/

namespace Statement

variable [self.Counts]

@[instance]
theorem afterWith_counts [Knows Γ t .free] : Plants Γ (afterWith self t) .whole := by
  unfold afterWith
  refine .skip (h := fun o => ?_)
  split <;> exact .widen

@[instance]
theorem extension_counts (token : Token) (k : Keyword) :
    Plants Γ (extension self token k) .whole := by
  unfold extension
  refine .skip (h := fun scope => ?_)
  split
  · split <;> exact .widen
  · exact .widen

@[instance]
theorem ofKeyword_counts (token : Token) (k : Keyword) :
    Plants Γ (ofKeyword self token k) .whole := by
  unfold ofKeyword
  split <;> exact .widen

end Statement

@[instance]
theorem statement_counts [self.Counts] : Plants Γ (statement self) .whole := by
  unfold statement
  refine .deeper (h := .skip (h := fun o => ?_))
  rcases o with _ | token
  · exact .widen
  dsimp only
  split <;> exact .widen

theorem Nested.upTo_counts (n : Nat) : (upTo n).Counts := by
  induction n with
  | zero => exact {
      expression := fun _ _ => .of_unexpected _
      query := fun _ => .of_unexpected _
      joinTree := fun _ => .of_unexpected _
      statement := fun _ => .of_unexpected _ }
  | succ n ih => exact {
      expression := fun _ power => expression_counts power
      query := fun _ => query_counts
      joinTree := fun _ => joinTree_counts
      statement := fun _ => statement_counts }

end SqlSyntax
