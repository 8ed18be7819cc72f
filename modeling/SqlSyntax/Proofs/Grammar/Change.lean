import SqlSyntax.Grammar.Utility
import SqlSyntax.Proofs.Grammar.Query

/-!
# The steps of changes of data and of short statements
-/

namespace SqlSyntax

open SqlSyntax.Parser

variable {T : Terms} {statement : Tree}

namespace Change

theorem conflictWord_reads : T.Reads conflictWord T.known := by
  unfold conflictWord
  refine (Built.takeIf? _).read fun o ho => ?_
  rcases o with _ | t
  · exact .unexpected _
  · exact .answer (ho t rfl)

theorem conflictAction_makes {start word : Token} (hs : T.known start) (hw : T.known word) :
    T.Makes (conflictAction start word) := by
  unfold conflictAction
  refine (Built.bareNode .conflictAction hs rfl).make fun node hnode => ?_
  exact (Built.setBare hnode hw).grow fun node hnode => .finish hnode

theorem orAction?_grows (h : T.free statement) : T.Grows statement (orAction? statement) := by
  unfold orAction?
  refine (Built.takeKeyword? .OR).read fun o ho => ?_
  rcases o with _ | t
  · exact .keep h
  · refine conflictWord_reads.read fun word hw => ?_
    refine (conflictAction_makes (ho t rfl) hw).make fun action _ => ?_
    exact (Built.attachFree action h).join fun statement h => .flagIf h _ _

theorem returning?_grows (h : T.free statement) :
    T.Grows statement (returning? T.self statement) := by
  unfold returning?
  refine (Built.consumeKeyword _).read fun b _ => ?_
  cases b
  · exact .keep h
  · refine (Built.within _ (Query.resultColumns_makes rfl)).make fun columns _ => ?_
    exact .attachFree columns h

theorem assigned_makes : T.Makes assigned := by
  unfold assigned
  refine Built.current.read fun o ho => ?_
  rcases o with _ | t
  · exact .unexpected _
  dsimp only
  split
  · refine (Built.node .assignment (ho t rfl) rfl).make fun node hnode => ?_
    exact columnList_makes.make fun columns _ => .attachFree columns hnode
  · exact (Built.expectName _).read fun name hname => .namedNode .assignment hname rfl

theorem assignmentSign_reads : T.Reads assignmentSign fun _ => True := by
  unfold assignmentSign
  refine (Built.consume .eq).read fun b _ => ?_
  cases b
  · refine (Built.consumeKeyword .TO).read fun b _ => ?_
    cases b
    · exact .unexpected _
    · exact .answer trivial
  · exact .answer trivial

theorem assignment_makes : T.Makes (assignment T.self) := by
  unfold assignment
  refine assigned_makes.make fun node hnode => assignmentSign_reads.read fun _ _ => ?_
  refine (Built.expression 0).make fun value _ => ?_
  exact (Built.attachFree value hnode).join fun node hnode => .finish hnode

theorem insertColumns?_grows (h : T.free statement) :
    T.Grows statement (insertColumns? statement) := by
  unfold insertColumns?
  refine (Built.sees _).read fun b _ => ?_
  cases b
  · exact .keep h
  · refine (Built.kindAt 1).read fun o _ => ?_
    split
    · exact .keep h
    · exact .keep h
    · exact .keep h
    · exact columnList_makes.make fun columns _ => .attachFree columns h

theorem insertSource_grows (h : T.free statement) :
    T.Grows statement (insertSource T.self statement) := by
  unfold insertSource
  refine Built.currentKind.read fun o _ => ?_
  split
  · exact (Query.values_makes rfl).make fun values _ => .attachFree values h
  · refine Built.advance.discard.read fun _ _ => ?_
    exact (Built.expectKeyword _).discard.read fun _ _ => .flag h _
  · exact Built.query.make fun query _ => .attachFree query h
  · exact Built.query.make fun query _ => .attachFree query h
  · refine Built.advance.discard.read fun _ _ => ?_
    refine (Built.within _ Built.query).make fun query _ => ?_
    exact (Built.expect _ _).discard.read fun _ _ => .attachFree query h
  · exact .unexpected _

theorem insertTable_makes : T.Makes insertTable := by
  unfold insertTable
  refine (objectName_makes rfl).make fun table htable => ?_
  refine (Built.seesKeyword _).read fun b _ => ?_
  cases b
  · exact .keep htable
  · exact withAlias_grows htable

theorem insertAction_grows (h : T.free statement) (word : Token) :
    T.Grows statement (insertAction statement word) := by
  unfold insertAction
  split
  · exact .flag h _
  · exact orAction?_grows h

theorem insert_makes : T.Makes (insert T.self) := by
  unfold insert
  refine Built.advance.read fun o ho => ?_
  rcases o with _ | t
  · exact .unexpected _
  · refine (Built.node .insertStmt (ho t rfl) rfl).make fun statement h => ?_
    refine (insertAction_grows h t).grow fun statement h => ?_
    refine (Built.expectKeyword _).discard.read fun _ _ => ?_
    refine insertTable_makes.make fun table _ => ?_
    refine (Built.attachFree table h).join fun statement h => ?_
    refine (insertColumns?_grows h).grow fun statement h => ?_
    refine (insertSource_grows h).grow fun statement h => ?_
    exact (returning?_grows h).grow fun statement h => .finish h

theorem target_makes : T.Makes target :=
  (objectName_makes rfl).make fun _ htable => withAlias_grows htable

theorem setClause_makes : T.Makes (setClause T.self) := by
  unfold setClause
  refine (Built.expectKeyword _).read fun t ht => ?_
  refine (Built.node .setClause ht rfl).make fun clause hclause => ?_
  refine (Built.attachList assignment_makes.yields hclause).grow fun clause hclause => ?_
  exact .finish hclause

theorem update_makes : T.Makes (update T.self) := by
  unfold update
  refine (Built.expectKeyword _).read fun t ht => ?_
  refine (Built.node .updateStmt ht rfl).make fun statement h => ?_
  refine (orAction?_grows h).grow fun statement h => ?_
  refine target_makes.make fun table _ => ?_
  refine (Built.attachFree table h).join fun statement h => ?_
  refine setClause_makes.make fun clause _ => ?_
  refine (Built.attachFree clause h).join fun statement h => ?_
  refine (Query.fromClause?_grows target_makes.yields h).grow fun statement h => ?_
  refine (Query.whereClause?_grows h).grow fun statement h => ?_
  exact (returning?_grows h).grow fun statement h => .finish h

theorem delete_makes : T.Makes (delete T.self) := by
  unfold delete
  refine (Built.expectKeyword _).read fun t ht => ?_
  refine (Built.node .deleteStmt ht rfl).make fun statement h => ?_
  refine (Built.expectKeyword _).discard.read fun _ _ => ?_
  refine target_makes.make fun table _ => ?_
  refine (Built.attachFree table h).join fun statement h => ?_
  refine (Query.whereClause?_grows h).grow fun statement h => ?_
  exact (returning?_grows h).grow fun statement h => .finish h

end Change

namespace Utility

theorem transactionMode?_grows (h : T.bare statement) :
    T.Grows statement (transactionMode? statement) := by
  unfold transactionMode?
  refine (Built.takeIf? _).read fun o ho => ?_
  rcases o with _ | mode
  · exact .keep h.1
  · exact .setBare h (ho mode rfl)

theorem begin_makes : T.Makes begin := by
  unfold begin
  refine Built.advance.read fun o ho => ?_
  rcases o with _ | t
  · exact .unexpected _
  · refine (Built.bareNode .beginStmt (ho t rfl) rfl).make fun statement h => ?_
    split
    · exact (Built.expectKeyword _).discard.read fun _ _ => .finish h.1
    · refine (transactionMode?_grows h).grow fun statement h => ?_
      exact (Built.consumeKeyword _).discard.read fun _ _ => .finish h

theorem commit_makes : T.Makes commit := by
  unfold commit
  refine Built.advance.read fun o ho => ?_
  rcases o with _ | t
  · exact .unexpected _
  · refine (Built.node .commitStmt (ho t rfl) rfl).make fun statement h => ?_
    exact (Built.consumeKeyword _).discard.read fun _ _ => .finish h

theorem finishNamed_grows (h : T.bare statement) (what : String) :
    T.Grows statement (finishNamed statement what) := by
  unfold finishNamed
  refine (Built.expectName what).read fun name hname => ?_
  exact (Built.setBare h hname).grow fun statement h => .finish h

theorem rollback_makes : T.Makes rollback := by
  unfold rollback
  refine (Built.expectKeyword _).read fun t ht => ?_
  refine (Built.bareNode .rollbackStmt ht rfl).make fun statement h => ?_
  refine (Built.consumeKeyword _).discard.read fun _ _ => ?_
  refine (Built.consumeKeyword _).read fun b _ => ?_
  cases b
  · exact .finish h.1
  · exact (Built.consumeKeyword _).discard.read fun _ _ => finishNamed_grows h _

theorem savepoint_makes : T.Makes savepoint := by
  unfold savepoint
  refine (Built.expectKeyword _).read fun t ht => ?_
  exact (Built.bareNode .savepointStmt ht rfl).make fun statement h => finishNamed_grows h _

theorem release_makes : T.Makes release := by
  unfold release
  refine (Built.expectKeyword _).read fun t ht => ?_
  refine (Built.bareNode .releaseStmt ht rfl).make fun statement h => ?_
  exact (Built.consumeKeyword _).discard.read fun _ _ => finishNamed_grows h _

theorem queryPlan?_grows (h : T.free statement) : T.Grows statement (queryPlan? statement) := by
  unfold queryPlan?
  refine (Built.consumeKeyword _).read fun b _ => ?_
  cases b
  · exact .keep h
  · exact (Built.expectKeyword _).discard.read fun _ _ => .flag h _

theorem explain_makes : T.Makes (explain T.self) := by
  unfold explain
  refine (Built.expectKeyword _).read fun t ht => ?_
  refine (Built.node .explainStmt ht rfl).make fun statement h => ?_
  refine (queryPlan?_grows h).grow fun statement h => ?_
  refine Built.statement.make fun explained _ => ?_
  exact (Built.attachFree explained h).join fun statement h => .finish h

theorem setting_makes : T.Makes (setting T.self) := by
  unfold setting
  refine (Built.expectKeyword _).read fun t ht => ?_
  refine (Built.node .setStmt ht rfl).make fun statement h => ?_
  refine (Built.attachList Change.assignment_makes.yields h).grow fun statement h => ?_
  exact .finish h

theorem pragmaValue_yields : T.Yields (pragmaValue T.self) := by
  unfold pragmaValue
  refine (Built.takeIf? _).read fun o ho => ?_
  rcases o with _ | word
  · exact .expression 0
  · exact (Built.namedNode .identifier (ho word rfl) rfl).yields

theorem pragma_makes : T.Makes (pragma T.self) := by
  unfold pragma
  refine (Built.expectKeyword _).read fun t ht => ?_
  refine (Built.node .pragmaStmt ht rfl).make fun statement h => ?_
  refine (objectName_makes rfl).make fun name _ => ?_
  refine (Built.attachFree name h).join fun statement h => ?_
  refine (Built.consume .eq).read fun b _ => ?_
  cases b
  · refine (Built.consume .leftParen).read fun b _ => ?_
    cases b
    · exact .finish h
    · refine pragmaValue_yields.make fun value _ => ?_
      refine (Built.expect _ _).discard.read fun _ _ => ?_
      exact (Built.attachFree value h).join fun statement h => .finish h
  · refine pragmaValue_yields.make fun value _ => ?_
    exact (Built.attachFree value h).join fun statement h => .finish h

theorem seesName_reads : T.Reads seesName fun _ => True :=
  Built.current.read fun _ _ => .answer trivial

theorem vacuum_makes : T.Makes (vacuum T.self) := by
  unfold vacuum
  refine (Built.expectKeyword _).read fun t ht => ?_
  refine (Built.node .vacuumStmt ht rfl).make fun statement h => ?_
  refine seesName_reads.read fun b _ => ?_
  refine (Built.attachIf b (objectName_makes rfl).yields h).grow fun statement h => ?_
  refine (Built.consumeKeyword _).read fun b _ => ?_
  exact (Built.attachIf b (Built.expression 0) h).grow fun statement h => .finish h

theorem attachDatabase_makes : T.Makes (attachDatabase T.self) := by
  unfold attachDatabase
  refine (Built.expectKeyword _).read fun t ht => ?_
  refine (Built.bareNode .attachStmt ht rfl).make fun statement h => ?_
  refine (Built.consumeKeyword _).discard.read fun _ _ => ?_
  refine (Built.expression 0).make fun file _ => ?_
  refine (Built.attachAny file h.1).join fun statement hkept => ?_
  refine (Built.expectKeyword _).discard.read fun _ _ => ?_
  exact finishNamed_grows (Built.bare_of_kept h hkept) _

theorem detachDatabase_makes : T.Makes detachDatabase := by
  unfold detachDatabase
  refine (Built.expectKeyword _).read fun t ht => ?_
  refine (Built.bareNode .detachStmt ht rfl).make fun statement h => ?_
  exact (Built.consumeKeyword _).discard.read fun _ _ => finishNamed_grows h _

theorem upkeep_makes {kind : Kind} (hk : kind.isOperator = false) (k : Keyword) :
    T.Makes (upkeep kind k) := by
  unfold upkeep
  refine (Built.expectKeyword _).read fun t ht => ?_
  refine (Built.node kind ht hk).make fun statement h => seesName_reads.read fun b _ => ?_
  refine (Built.attachIf b (objectName_makes rfl).yields h).grow fun statement h => ?_
  exact .finish h

end Utility

end SqlSyntax
