import SqlSyntax.Grammar.Statement
import SqlSyntax.Proofs.Depth.Query

/-!
# Levels inside a statement

A statement opens a level, and if it is a query, one more before the first token is taken. All other
statements take their own word first.
-/

namespace SqlSyntax

open SqlSyntax.Parser

variable {n levels more : Nat} {self self' : Nested} [Nested.Confined n levels self self']

set_option synthInstance.maxSize 1000

namespace Schema

instance onConflict?_confined (node : Tree) :
    Confined n levels more (onConflict? node) (onConflict? node) := by
  unfold onConflict?
  infer_instance

instance expectNullOrDefault_confined :
    Confined n levels more expectNullOrDefault expectNullOrDefault := by
  unfold expectNullOrDefault
  infer_instance

instance expectSpelling_confined (word : String) :
    Confined n levels more (expectSpelling word) (expectSpelling word) := by
  unfold expectSpelling
  infer_instance

instance referentialAction_confined (node : Tree) :
    Confined n levels more (referentialAction node) (referentialAction node) := by
  unfold referentialAction
  infer_instance

instance onChange?_confined (node : Tree) :
    Confined n levels more (onChange? node) (onChange? node) := by
  unfold onChange?
  refine Confined.andThen inferInstance fun b => ?_
  split
  · refine Confined.andThen inferInstance fun o => ?_
    split <;> infer_instance
  · infer_instance

instance references_confined : Confined n levels more references references := by
  unfold references
  infer_instance

instance constraintName?_confined : Confined n levels more constraintName? constraintName? := by
  unfold constraintName?
  infer_instance

instance check_confined (start : Token) :
    Confined n levels 0 (check self start) (check self' start) := by
  unfold check
  infer_instance

instance finishConstraint_confined (name : Option Token) (node : Tree) :
    Confined n levels more (finishConstraint name node) (finishConstraint name node) := by
  unfold finishConstraint
  split <;> infer_instance

instance autoincrement?_confined (node : Tree) :
    Confined n levels more (autoincrement? node) (autoincrement? node) := by
  unfold autoincrement?
  infer_instance

instance columnConstraintBody?_confined (start : Token) (kind : TokenKind) :
    Confined n levels 0 (columnConstraintBody? self start kind)
      (columnConstraintBody? self' start kind) := by
  unfold columnConstraintBody?
  split <;> infer_instance

instance columnConstraint?_confined :
    Confined n levels 0 (columnConstraint? self) (columnConstraint? self') := by
  unfold columnConstraint?
  infer_instance

instance columnType?_confined (column : Tree) :
    Confined n levels more (columnType? column) (columnType? column) := by
  unfold columnType?
  infer_instance

instance columnDefinition_confined :
    Confined n levels 0 (columnDefinition self) (columnDefinition self') := by
  unfold columnDefinition
  infer_instance

instance tableConstraintBody_confined (start t : Token) :
    Confined n levels 0 (tableConstraintBody self start t)
      (tableConstraintBody self' start t) := by
  have hfail (what : String) : Confined n levels 0 (fail (.unexpected what t) : Parser Tree)
      (fail (.unexpected what t)) := .fail nofun
  unfold tableConstraintBody
  split <;> infer_instance

instance tableConstraint_confined :
    Confined n levels 0 (tableConstraint self) (tableConstraint self') := by
  unfold tableConstraint
  infer_instance

instance tableElement_confined : Confined n levels 0 (tableElement self) (tableElement self') := by
  unfold tableElement
  infer_instance

instance withoutRowid?_confined (statement : Tree) :
    Confined n levels more (withoutRowid? statement) (withoutRowid? statement) := by
  have hfail (t : Token) : Confined n levels more (fail (.atToken .rowidMissing t) : Parser Tree)
      (fail (.atToken .rowidMissing t)) := .fail nofun
  unfold withoutRowid?
  infer_instance

instance createTable_confined (statement : Tree) :
    Confined n levels 0 (createTable self statement) (createTable self' statement) := by
  unfold createTable
  infer_instance

instance indexedColumn_confined :
    Confined n levels 0 (indexedColumn self) (indexedColumn self') := by
  unfold indexedColumn
  infer_instance

instance createIndex_confined (statement : Tree) :
    Confined n levels 0 (createIndex self statement) (createIndex self' statement) := by
  unfold createIndex
  infer_instance

instance createView_confined (statement : Tree) :
    Confined n levels 0 (createView self statement) (createView self' statement) := by
  unfold createView
  infer_instance

instance triggerTime_confined (statement : Tree) :
    Confined n levels more (triggerTime statement) (triggerTime statement) := by
  unfold triggerTime
  infer_instance

instance eventColumns_confined (t : Token) :
    Confined n levels more (eventColumns t) (eventColumns t) := by
  unfold eventColumns
  infer_instance

instance hasEventColumns_confined (t : Token) :
    Confined n levels more (hasEventColumns t) (hasEventColumns t) := by
  unfold hasEventColumns
  infer_instance

instance triggerEvent_confined : Confined n levels more triggerEvent triggerEvent := by
  unfold triggerEvent
  infer_instance

instance eachRow?_confined (statement : Tree) :
    Confined n levels more (eachRow? statement) (eachRow? statement) := by
  unfold eachRow?
  infer_instance

instance triggerCondition?_confined (statement : Tree) :
    Confined n levels 0 (triggerCondition? self statement) (triggerCondition? self' statement) := by
  unfold triggerCondition?
  infer_instance

instance triggerStatement?_confined (body : Tree) :
    Confined n levels 0 (triggerStatement? self body) (triggerStatement? self' body) := by
  unfold triggerStatement?
  infer_instance

instance triggerBody_confined : Confined n levels 0 (triggerBody self) (triggerBody self') := by
  unfold triggerBody
  infer_instance

instance createTrigger_confined (statement : Tree) :
    Confined n levels 0 (createTrigger self statement) (createTrigger self' statement) := by
  unfold createTrigger
  infer_instance

instance creationBody_confined (statement : Tree) :
    Confined n levels 0 (creationBody self statement) (creationBody self' statement) := by
  unfold creationBody
  split <;> infer_instance

instance temporary?_confined : Confined n levels more temporary? temporary? := by
  unfold temporary?
  infer_instance

instance ifNotExists?_confined (statement : Tree) :
    Confined n levels more (ifNotExists? statement) (ifNotExists? statement) := by
  unfold ifNotExists?
  infer_instance

instance creationKind_confined (temporary unique : Bool) (t : Token) :
    Confined n levels more (creationKind temporary unique t)
      (creationKind temporary unique t) := by
  have htemporary : Confined n levels more (fail (.atToken .temporaryNotAllowed t) : Parser Kind)
      (fail (.atToken .temporaryNotAllowed t)) := .fail nofun
  have hunique : Confined n levels more (fail (.atToken .uniqueNotAllowed t) : Parser Kind)
      (fail (.atToken .uniqueNotAllowed t)) := .fail nofun
  unfold creationKind
  split <;> infer_instance

instance create_confined : Confined n levels 1 (create self) (create self') := by
  unfold create
  infer_instance

instance dropBehavior?_confined (statement : Tree) :
    Confined n levels more (dropBehavior? statement) (dropBehavior? statement) := by
  unfold dropBehavior?
  infer_instance

instance ifExists?_confined (statement : Tree) :
    Confined n levels more (ifExists? statement) (ifExists? statement) := by
  unfold ifExists?
  infer_instance

instance drop_confined : Confined n levels more drop drop := by
  unfold drop
  infer_instance

instance renameTable_confined (t : Token) :
    Confined n levels more (renameTable t) (renameTable t) := by
  unfold renameTable
  infer_instance

instance renameColumn_confined (t : Token) :
    Confined n levels more (renameColumn t) (renameColumn t) := by
  unfold renameColumn
  infer_instance

instance alteration_confined (t : Token) :
    Confined n levels 0 (alteration self t) (alteration self' t) := by
  have hfail (what : String) : Confined n levels 0 (fail (.unexpected what t) : Parser Tree)
      (fail (.unexpected what t)) := .fail nofun
  unfold alteration
  split <;> infer_instance

instance alter_confined : Confined n levels 1 (alter self) (alter self') := by
  unfold alter
  infer_instance

instance truncate_confined : Confined n levels more truncate truncate := by
  unfold truncate
  infer_instance

end Schema

namespace Utility

instance transactionMode?_confined (statement : Tree) :
    Confined n levels more (transactionMode? statement) (transactionMode? statement) := by
  unfold transactionMode?
  infer_instance

instance begin_confined : Confined n levels more begin begin := by
  unfold begin
  infer_instance

instance commit_confined : Confined n levels more commit commit := by
  unfold commit
  infer_instance

instance finishNamed_confined (statement : Tree) (what : String) :
    Confined n levels more (finishNamed statement what) (finishNamed statement what) := by
  unfold finishNamed
  infer_instance

instance rollback_confined : Confined n levels more rollback rollback := by
  unfold rollback
  infer_instance

instance savepoint_confined : Confined n levels more savepoint savepoint := by
  unfold savepoint
  infer_instance

instance release_confined : Confined n levels more release release := by
  unfold release
  infer_instance

instance queryPlan?_confined (statement : Tree) :
    Confined n levels more (queryPlan? statement) (queryPlan? statement) := by
  unfold queryPlan?
  infer_instance

instance explain_confined : Confined n levels 1 (explain self) (explain self') := by
  unfold explain
  infer_instance

instance setting_confined : Confined n levels 1 (setting self) (setting self') := by
  unfold setting
  infer_instance

instance pragmaValue_confined : Confined n levels 0 (pragmaValue self) (pragmaValue self') := by
  unfold pragmaValue
  infer_instance

instance pragma_confined : Confined n levels 1 (pragma self) (pragma self') := by
  unfold pragma
  infer_instance

instance seesName_confined : Confined n levels more seesName seesName := by
  unfold seesName
  infer_instance

instance vacuum_confined : Confined n levels 1 (vacuum self) (vacuum self') := by
  unfold vacuum
  infer_instance

instance attachDatabase_confined :
    Confined n levels 1 (attachDatabase self) (attachDatabase self') := by
  unfold attachDatabase
  infer_instance

instance detachDatabase_confined : Confined n levels more detachDatabase detachDatabase := by
  unfold detachDatabase
  infer_instance

instance upkeep_confined (kind : Kind) (k : Keyword) :
    Confined n levels more (upkeep kind k) (upkeep kind k) := by
  unfold upkeep
  infer_instance

end Utility

namespace Statement

instance afterWith_confined (clause : Tree) :
    Confined n levels 1 (afterWith self clause) (afterWith self' clause) := by
  unfold afterWith
  refine Confined.andThen inferInstance fun o => ?_
  split <;> infer_instance

instance extension_confined (t : Token) (k : Keyword) :
    Confined n levels 1 (extension self t k) (extension self' t k) := by
  have hfail : Confined n levels 1 (fail (.atToken (.extensionDisabled k) t) : Parser Tree)
      (fail (.atToken (.extensionDisabled k) t)) := .fail nofun
  unfold extension
  refine Confined.andThen inferInstance fun scope => ?_
  split
  · split <;> infer_instance
  · infer_instance

/-- Only a query opens a level where nothing was taken. -/
instance ofKeyword_confined (t : Token) (k : Keyword) :
    Confined n (levels + 1) 1 (ofKeyword self t k) (ofKeyword self' t k) := by
  unfold ofKeyword
  split
  · infer_instance
  · infer_instance
  all_goals exact Confined.deepen inferInstance (Nat.le_succ levels)

end Statement

@[instance]
theorem statement_confined : Confined n (levels + 2) 1 (statement self) (statement self') := by
  unfold statement
  refine Confined.deeper (h := Confined.andThen inferInstance fun o => ?_)
  rcases o with _ | t
  · exact .unexpected _
  · dsimp only
    split <;> infer_instance

end SqlSyntax
