import SqlSyntax.Grammar.Utility
import SqlSyntax.Proofs.Boundary.Query

/-!
# Changes of data and short statements

Some statements take their first word unseen: their caller has seen that it is a keyword.
-/

namespace SqlSyntax

open SqlSyntax.Parser SqlSyntax.Boundary

variable {B : Boundary} {d : Nat} {self : Nested}

/-- A keyword out of some is an inner token. -/
theorem isInner_of_any {t : Token} {test : Keyword → Bool} (h : t.keyword?.any test) :
    t.kind.isInner :=
  isInner_of_keyword? (Option.isSome_of_any h)

namespace Change

theorem conflictWord_stays : B.Stays d conflictWord := by
  unfold conflictWord
  refine (Leads.takeIf? fun t _ => isInner_of_any).bind fun o => ?_
  rcases o with _ | t
  · exact .unexpected _
  · exact .answer t

theorem conflictAction_stays (start word : Token) : B.Stays d (conflictAction start word) := by
  unfold conflictAction
  refine (Leads.nodeAt .conflictAction start).bind fun node => ?_
  exact (Leads.setText node word).bind fun node => .finish node

theorem orAction?_stays (statement : Tree) : B.Stays d (orAction? statement) := by
  unfold orAction?
  refine (Leads.takeKeyword? .OR).bind fun o => ?_
  rcases o with _ | t
  · exact .answer statement
  · refine conflictWord_stays.bind fun word => ?_
    refine (conflictAction_stays t word).bind fun action => ?_
    exact (Leads.attach statement action).bind fun statement => .flagIf _ _ statement

theorem returning?_stays (hself : B.Serves self) (statement : Tree) :
    B.Stays d (returning? self statement) := by
  unfold returning?
  refine (Leads.consumeKeyword .RETURNING).bind fun b => ?_
  cases b
  · exact .answer statement
  · refine (Leads.within _ (Query.resultColumns_stays hself _)).bind fun columns => ?_
    exact .attach statement columns

theorem assigned_stays : B.Stays d assigned := by
  unfold assigned
  refine .current fun t _ => .seen ?_
  dsimp only
  split
  · refine (Leads.nodeAt .assignment t).bind fun node => ?_
    exact columnList_stays.bind fun columns => .attach node columns
  · exact (Leads.expectName _).bind fun name => .namedNode .assignment name

theorem assignmentSign_stays : B.Stays d assignmentSign := by
  unfold assignmentSign
  refine (Leads.consume_inner rfl).bind fun b => ?_
  cases b
  · refine (Leads.consumeKeyword .TO).bind fun b => ?_
    cases b
    · exact .unexpected _
    · exact .answer ()
  · exact .answer ()

theorem assignment_stays (hself : B.Serves self) : B.Stays d (assignment self) := by
  unfold assignment
  refine assigned_stays.bind fun node => assignmentSign_stays.bind fun _ => ?_
  refine (hself.expression 0).bind fun value => ?_
  exact (Leads.attach node value).bind fun node => .finish node

theorem insertColumns?_stays (statement : Tree) : B.Stays d (insertColumns? statement) := by
  unfold insertColumns?
  refine (Leads.sees _).bind fun b => ?_
  cases b
  · exact .answer statement
  · refine (Leads.kindAt 1).bind fun o => ?_
    split
    · exact .answer statement
    · exact .answer statement
    · exact .answer statement
    · exact columnList_stays.bind fun columns => .attach statement columns

theorem insertSource_stays (hself : B.Serves self) (statement : Tree) :
    B.Stays d (insertSource self statement) := by
  unfold insertSource
  refine .currentKind fun kind => ?_
  split
  · exact .seen ((Query.values_stays hself _).bind fun values => .attach statement values)
  · next h =>
    cases h
    refine (Leads.takeInner rfl).discard.bind fun _ => ?_
    exact (Leads.expectKeyword _).discard.bind fun _ => .flag statement _
  · exact .seen (hself.query.bind fun query => .attach statement query)
  · exact .seen (hself.query.bind fun query => .attach statement query)
  · next h =>
    cases h
    refine (Leads.take .opening).discard.bind fun _ => ?_
    refine (Leads.within .subquery hself.query).bind fun query => ?_
    exact (Leads.closes _).bind fun _ => .attach statement query
  · exact .unexpected _

theorem insertTable_stays : B.Stays d insertTable := by
  unfold insertTable
  refine (objectName_stays .tableRef).bind fun table => ?_
  refine (Leads.seesKeyword .AS).bind fun b => ?_
  cases b
  · exact .answer table
  · exact withAlias_stays table

theorem insertAction_stays (statement : Tree) (word : Token) :
    B.Stays d (insertAction statement word) := by
  unfold insertAction
  split
  · exact .flag statement _
  · exact orAction?_stays statement

theorem insert_leads (hself : B.Serves self) (k : Keyword) :
    B.Leads (B.At d (.keyword k)) (insert self) fun _ => B.Inside d := by
  unfold insert
  refine (Leads.takeInner rfl).bind fun o => ?_
  rcases o with _ | t
  · exact .unexpected _
  · refine (Leads.nodeAt .insertStmt t).bind fun statement => ?_
    refine (insertAction_stays statement t).bind fun statement => ?_
    refine (Leads.expectKeyword .INTO).discard.bind fun _ => ?_
    refine insertTable_stays.bind fun table => ?_
    refine (Leads.attach statement table).bind fun statement => ?_
    refine (insertColumns?_stays statement).bind fun statement => ?_
    refine (insertSource_stays hself statement).bind fun statement => ?_
    exact (returning?_stays hself statement).bind fun statement => .finish statement

theorem target_stays : B.Stays d target :=
  (objectName_stays .tableRef).bind fun table => withAlias_stays table

theorem setClause_stays (hself : B.Serves self) : B.Stays d (setClause self) := by
  unfold setClause
  refine (Leads.expectKeyword .SET).bind fun t => ?_
  refine (Leads.nodeAt .setClause t).bind fun clause => ?_
  exact (Leads.attachList (assignment_stays hself) clause).bind fun clause => .finish clause

theorem update_stays (hself : B.Serves self) : B.Stays d (update self) := by
  unfold update
  refine (Leads.expectKeyword .UPDATE).bind fun t => ?_
  refine (Leads.nodeAt .updateStmt t).bind fun statement => ?_
  refine (orAction?_stays statement).bind fun statement => ?_
  refine target_stays.bind fun table => ?_
  refine (Leads.attach statement table).bind fun statement => ?_
  refine (setClause_stays hself).bind fun clause => ?_
  refine (Leads.attach statement clause).bind fun statement => ?_
  refine (Query.fromClause?_stays target_stays statement).bind fun statement => ?_
  refine (Query.whereClause?_stays hself statement).bind fun statement => ?_
  exact (returning?_stays hself statement).bind fun statement => .finish statement

theorem delete_stays (hself : B.Serves self) : B.Stays d (delete self) := by
  unfold delete
  refine (Leads.expectKeyword .DELETE).bind fun t => ?_
  refine (Leads.nodeAt .deleteStmt t).bind fun statement => ?_
  refine (Leads.expectKeyword .FROM).discard.bind fun _ => ?_
  refine target_stays.bind fun table => ?_
  refine (Leads.attach statement table).bind fun statement => ?_
  refine (Query.whereClause?_stays hself statement).bind fun statement => ?_
  exact (returning?_stays hself statement).bind fun statement => .finish statement

end Change

namespace Utility

theorem transactionMode?_stays (statement : Tree) : B.Stays d (transactionMode? statement) := by
  unfold transactionMode?
  refine (Leads.takeIf? fun t _ => isInner_of_any).bind fun o => ?_
  rcases o with _ | mode
  · exact .answer statement
  · exact .setText statement mode

theorem begin_leads (k : Keyword) :
    B.Leads (B.At d (.keyword k)) begin fun _ => B.Inside d := by
  unfold begin
  refine (Leads.takeInner rfl).bind fun o => ?_
  rcases o with _ | t
  · exact .unexpected _
  · refine (Leads.nodeAt .beginStmt t).bind fun statement => ?_
    split
    · exact (Leads.expectKeyword _).discard.bind fun _ => .finish statement
    · refine (transactionMode?_stays statement).bind fun statement => ?_
      exact (Leads.consumeKeyword _).discard.bind fun _ => .finish statement

theorem commit_leads (k : Keyword) :
    B.Leads (B.At d (.keyword k)) commit fun _ => B.Inside d := by
  unfold commit
  refine (Leads.takeInner rfl).bind fun o => ?_
  rcases o with _ | t
  · exact .unexpected _
  · refine (Leads.nodeAt .commitStmt t).bind fun statement => ?_
    exact (Leads.consumeKeyword _).discard.bind fun _ => .finish statement

theorem finishNamed_stays (statement : Tree) (what : String) :
    B.Stays d (finishNamed statement what) := by
  unfold finishNamed
  refine (Leads.expectName what).bind fun name => ?_
  exact (Leads.setText statement name).bind fun statement => .finish statement

theorem rollback_stays : B.Stays d rollback := by
  unfold rollback
  refine (Leads.expectKeyword .ROLLBACK).bind fun t => ?_
  refine (Leads.nodeAt .rollbackStmt t).bind fun statement => ?_
  refine (Leads.consumeKeyword _).discard.bind fun _ => ?_
  refine (Leads.consumeKeyword .TO).bind fun b => ?_
  cases b
  · exact .finish statement
  · exact (Leads.consumeKeyword _).discard.bind fun _ => finishNamed_stays statement _

theorem savepoint_stays : B.Stays d savepoint := by
  unfold savepoint
  refine (Leads.expectKeyword .SAVEPOINT).bind fun t => ?_
  exact (Leads.nodeAt .savepointStmt t).bind fun statement => finishNamed_stays statement _

theorem release_stays : B.Stays d release := by
  unfold release
  refine (Leads.expectKeyword .RELEASE).bind fun t => ?_
  refine (Leads.nodeAt .releaseStmt t).bind fun statement => ?_
  exact (Leads.consumeKeyword _).discard.bind fun _ => finishNamed_stays statement _

theorem queryPlan?_stays (statement : Tree) : B.Stays d (queryPlan? statement) := by
  unfold queryPlan?
  refine (Leads.consumeKeyword .QUERY).bind fun b => ?_
  cases b
  · exact .answer statement
  · exact (Leads.expectKeyword .PLAN).discard.bind fun _ => .flag statement _

theorem explain_stays (hself : B.Serves self) : B.Stays d (explain self) := by
  unfold explain
  refine (Leads.expectKeyword .EXPLAIN).bind fun t => ?_
  refine (Leads.nodeAt .explainStmt t).bind fun statement => ?_
  refine (queryPlan?_stays statement).bind fun statement => ?_
  refine hself.statement.bind fun explained => ?_
  exact (Leads.attach statement explained).bind fun statement => .finish statement

theorem setting_stays (hself : B.Serves self) : B.Stays d (setting self) := by
  unfold setting
  refine (Leads.expectKeyword .SET).bind fun t => ?_
  refine (Leads.nodeAt .setStmt t).bind fun statement => ?_
  exact (Leads.attachList (Change.assignment_stays hself) statement).bind fun node => .finish node

theorem pragmaValue_stays (hself : B.Serves self) : B.Stays d (pragmaValue self) := by
  unfold pragmaValue
  refine (Leads.takeIf? fun t _ htest => ?_).bind fun o => ?_
  · rcases Bool.or_eq_true_iff.1 htest with hk | hk
    · rw [eq_of_beq hk]
      rfl
    · exact isInner_of_keyword? hk
  · rcases o with _ | word
    · exact hself.expression 0
    · exact .namedNode .identifier word

theorem pragma_stays (hself : B.Serves self) : B.Stays d (pragma self) := by
  unfold pragma
  refine (Leads.expectKeyword .PRAGMA).bind fun t => ?_
  refine (Leads.nodeAt .pragmaStmt t).bind fun statement => ?_
  refine (objectName_stays .objectName).bind fun name => ?_
  refine (Leads.attach statement name).bind fun statement => ?_
  refine (Leads.consume_inner rfl).bind fun b => ?_
  cases b
  · refine (Leads.consume .opening).bind fun b => ?_
    cases b
    · exact .finish statement
    · refine (pragmaValue_stays hself).bind fun value => ?_
      refine (Leads.closes _).bind fun _ => ?_
      exact (Leads.attach statement value).bind fun statement => .finish statement
  · refine (pragmaValue_stays hself).bind fun value => ?_
    exact (Leads.attach statement value).bind fun statement => .finish statement

theorem seesName_stays : B.Stays d seesName :=
  .current fun _ _ => .seen (.answer _)

theorem vacuum_stays (hself : B.Serves self) : B.Stays d (vacuum self) := by
  unfold vacuum
  refine (Leads.expectKeyword .VACUUM).bind fun t => ?_
  refine (Leads.nodeAt .vacuumStmt t).bind fun statement => ?_
  refine seesName_stays.bind fun b => ?_
  refine (Leads.attachIf b (objectName_stays .objectName) statement).bind fun statement => ?_
  refine (Leads.consumeKeyword .INTO).bind fun b => ?_
  exact (Leads.attachIf b (hself.expression 0) statement).bind fun statement => .finish statement

theorem attachDatabase_stays (hself : B.Serves self) : B.Stays d (attachDatabase self) := by
  unfold attachDatabase
  refine (Leads.expectKeyword .ATTACH).bind fun t => ?_
  refine (Leads.nodeAt .attachStmt t).bind fun statement => ?_
  refine (Leads.consumeKeyword _).discard.bind fun _ => ?_
  refine (hself.expression 0).bind fun file => ?_
  refine (Leads.attach statement file).bind fun statement => ?_
  exact (Leads.expectKeyword .AS).discard.bind fun _ => finishNamed_stays statement _

theorem detachDatabase_stays : B.Stays d detachDatabase := by
  unfold detachDatabase
  refine (Leads.expectKeyword .DETACH).bind fun t => ?_
  refine (Leads.nodeAt .detachStmt t).bind fun statement => ?_
  exact (Leads.consumeKeyword _).discard.bind fun _ => finishNamed_stays statement _

theorem upkeep_stays (kind : Kind) (k : Keyword) : B.Stays d (upkeep kind k) := by
  unfold upkeep
  refine (Leads.expectKeyword k).bind fun t => ?_
  refine (Leads.nodeAt kind t).bind fun statement => seesName_stays.bind fun b => ?_
  refine (Leads.attachIf b (objectName_stays .objectName) statement).bind fun statement => ?_
  exact .finish statement

end Utility

end SqlSyntax
