import SqlSyntax.Grammar.Schema
import SqlSyntax.Proofs.Contents.Query

/-!
# Complete changes of data and schema statements

The kinds of these statements and of their parts do not tell their children, so all that matters
here is that complete trees are put under them, in whatever order.
-/

namespace SqlSyntax

open SqlSyntax.Parser SqlSyntax.Tree

variable {inner : Nested} (hinner : inner.Fits) {t : Tree} {k : Kind} {P : Tree → Prop}

/-! ## Changes of data -/

namespace Change

theorem conflictAction_answers (start word : Token) :
    Answers (conflictAction start word) Complete := by
  unfold conflictAction
  refine (Answers.nodeAt .conflictAction start).bind fun node hnode => ?_
  refine (Answers.setText lasting_over hnode.toOver word).bind fun node h => ?_
  exact .finish lasting_complete (h.complete rfl)

theorem orAction?_answers (h : t.Over k) : Answers (orAction? t) (Over k) := by
  unfold orAction?
  refine .skip fun o => ?_
  rcases o with _ | word
  · exact .pure h
  · refine .skip fun action => (conflictAction_answers word action).bind fun c hc => ?_
    exact (Answers.under h hc).bind fun statement h => .flagIf lasting_over h _ nofun

theorem insertColumns?_answers (h : t.Over k) : Answers (insertColumns? t) (Over k) := by
  unfold insertColumns?
  refine .skip fun b => ?_
  cases b
  · exact .pure h
  · refine .skip fun o => ?_
    split
    · exact .pure h
    · exact .pure h
    · exact .pure h
    · exact columnList_answers.bind fun columns hcolumns => .under h hcolumns

theorem assigned_answers : Answers assigned (Over .assignment) := by
  unfold assigned
  refine .skip fun o => ?_
  rcases o with _ | t
  · exact .unexpected _
  dsimp only
  split
  · refine (Answers.nodeAt .assignment t).bind fun node hnode => ?_
    exact columnList_answers.bind fun columns hcolumns => .under hnode.toOver hcolumns
  · exact .skip fun name => (Answers.namedNode .assignment name).weaken fun _ h => h.toOver

theorem insertTable_answers : Answers insertTable Complete := by
  unfold insertTable
  refine (objectName_answers .tableRef).bind fun table h => ?_
  exact .either ((withAlias_answers h).weaken fun _ h => h.complete rfl) (.pure (h.complete rfl))

theorem insertAction_answers (h : t.Over k) (word : Token) :
    Answers (insertAction t word) (Over k) := by
  unfold insertAction
  split
  · exact .flag lasting_over h nofun
  · exact orAction?_answers h

theorem target_answers : Answers target Complete :=
  (objectName_answers .tableRef).bind fun _ h =>
    (withAlias_answers h).weaken fun _ h => h.complete rfl

include hinner

theorem returning?_answers (h : t.Over k) : Answers (returning? inner t) (Over k) := by
  unfold returning?
  refine .either ?_ (.pure h)
  refine (Answers.within _ (Query.resultColumns_answers hinner .returningClause)).bind ?_
  exact fun clause hclause => .under h (hclause.complete rfl)

theorem assignment_answers : Answers (assignment inner) Complete := by
  unfold assignment
  refine assigned_answers.bind fun node h => .skip fun _ => ?_
  refine (hinner.expression 0).bind fun value hvalue => ?_
  refine (Answers.under h hvalue.complete).bind fun node h => ?_
  exact .finish lasting_complete (h.complete rfl)

theorem insertSource_answers (h : t.Over k) : Answers (insertSource inner t) (Over k) := by
  unfold insertSource
  refine .skip fun o => ?_
  split
  · refine (Query.values_answers hinner .valuesClause).bind fun rows hrows => ?_
    exact .under h (hrows.toOver.complete rfl)
  · exact .skip fun _ => .skip fun _ => .flag lasting_over h nofun
  · exact hinner.query.bind fun query hquery => .under h hquery.complete
  · exact hinner.query.bind fun query hquery => .under h hquery.complete
  · refine .skip fun _ => (Answers.within _ hinner.query).bind fun query hquery => ?_
    exact .skip fun _ => .under h hquery.complete
  · exact .unexpected _

theorem insert_answers : Answers (insert inner) (Over .insertStmt) := by
  unfold insert
  refine .skip fun o => ?_
  rcases o with _ | t
  · exact .unexpected _
  refine (Answers.nodeAt .insertStmt t).bind fun statement hnode => ?_
  refine (insertAction_answers hnode.toOver t).bind fun statement h => .skip fun _ => ?_
  refine insertTable_answers.bind fun table htable => (Answers.under h htable).bind ?_
  refine fun statement h => (insertColumns?_answers h).bind fun statement h => ?_
  refine (insertSource_answers hinner h).bind fun statement h => ?_
  exact (returning?_answers hinner h).bind fun statement h => .finish lasting_over h

theorem setClause_answers : Answers (setClause inner) Complete := by
  unfold setClause
  refine .skip fun t => (Answers.nodeAt .setClause t).bind fun clause hclause => ?_
  refine (Answers.underList hclause.toOver (assignment_answers hinner)).bind fun clause h => ?_
  exact .finish lasting_complete (h.complete rfl)

theorem update_answers : Answers (update inner) (Over .updateStmt) := by
  unfold update
  refine .skip fun t => (Answers.nodeAt .updateStmt t).bind fun statement hnode => ?_
  refine (orAction?_answers hnode.toOver).bind fun statement h => ?_
  refine target_answers.bind fun table htable => (Answers.under h htable).bind ?_
  refine fun statement h => (setClause_answers hinner).bind fun clause hclause => ?_
  refine (Answers.under h hclause).bind fun statement h => ?_
  refine (Query.fromClause?_answers target_answers statement).bind fun statement hfrom => ?_
  refine (Query.whereClause?_answers hinner statement).bind fun statement hwhere => ?_
  refine (returning?_answers hinner (hwhere.over (hfrom.over h))).bind fun statement h => ?_
  exact .finish lasting_over h

theorem delete_answers : Answers (delete inner) (Over .deleteStmt) := by
  unfold delete
  refine .skip fun t => (Answers.nodeAt .deleteStmt t).bind fun statement hnode => ?_
  refine .skip fun _ => target_answers.bind fun table htable => ?_
  refine (Answers.under hnode.toOver htable).bind fun statement h => ?_
  refine (Query.whereClause?_answers hinner statement).bind fun statement hwhere => ?_
  refine (returning?_answers hinner (hwhere.over h)).bind fun statement h => ?_
  exact .finish lasting_over h

end Change

/-! ## Schema statements -/

namespace Schema

theorem onConflict?_answers (h : t.Over k) : Answers (onConflict? t) (Over k) := by
  unfold onConflict?
  refine .skip fun b => .skip fun next => ?_
  split
  · refine .skip fun on => .skip fun _ => .skip fun word => ?_
    exact (Change.conflictAction_answers on word).bind fun action haction => .under h haction
  · exact .pure h

theorem referentialAction_answers (hP : Lasting P) (h : P t) :
    Answers (referentialAction t) P := by
  unfold referentialAction
  refine .skip fun o => ?_
  rcases o with _ | word
  · exact .unexpected _
  dsimp only
  split
  · exact .skip fun _ => .flag hP h nofun
  split
  · exact .skip fun _ => .flag hP h nofun
  split
  · exact .skip fun _ => .skip fun _ => .pure h
  split
  · exact .skip fun _ => .skip fun _ => .pure h
  · exact .unexpected _

theorem onChange?_answers (hP : Lasting P) (h : P t) :
    Answers (onChange? t) fun o => ∀ u ∈ o, P u := by
  unfold onChange?
  refine .skip fun b => ?_
  cases b
  · exact .pure nofun
  · refine .skip fun o => ?_
    split
    · exact .skip fun _ => .skip fun _ => (referentialAction_answers hP h).found
    · exact .skip fun _ => .skip fun _ => (referentialAction_answers hP h).found
    · exact .pure nofun

theorem references_answers : Answers references Complete := by
  unfold references
  refine .skip fun _ => (objectName_answers .referencesClause).bind fun node h => ?_
  refine .skip fun b => (Answers.underIf h columnList_answers b).bind fun node h => ?_
  refine .bind (.iterate (fun _ => onChange?_answers lasting_complete) (h.complete rfl)) ?_
  exact fun node h => .finish lasting_complete h

theorem finishConstraint_answers (name : Option Token) (h : t.Complete) :
    Answers (finishConstraint name t) Complete := by
  unfold finishConstraint
  split
  · exact .bind (.setText lasting_complete h _) fun _ h => .finish lasting_complete h
  · exact .finish lasting_complete h

theorem autoincrement?_answers (hP : Lasting P) (h : P t) : Answers (autoincrement? t) P :=
  .skip fun b => .flagIf hP h b nofun

theorem columnType?_answers (h : t.Over .columnDef) :
    Answers (columnType? t) (Over .columnDef) := by
  unfold columnType?
  refine .skip fun o => ?_
  rcases o with _ | start
  · exact .pure h
  dsimp only
  split
  · refine .skip fun r => (Answers.nodeAt .typeName start).bind fun type htype => ?_
    refine .bind (.amendOver htype.toOver fun _ => rfl) fun type htype => ?_
    refine (Answers.finish lasting_over htype).bind fun type htype => ?_
    refine (Answers.under h (htype.complete rfl)).bind fun column h => ?_
    exact .amendOver h fun _ => rfl
  · exact .pure h

theorem withoutRowid?_answers (hP : Lasting P) (h : P t) : Answers (withoutRowid? t) P := by
  unfold withoutRowid?
  refine .skip fun o => ?_
  rcases o with _ | word
  · exact .pure h
  · refine .skip fun o => ?_
    rcases o with _ | rowid
    · exact .throw _
    · exact .flag hP h nofun

theorem triggerTime_answers (hP : Lasting P) (h : P t) : Answers (triggerTime t) P := by
  unfold triggerTime
  refine .either (.flag hP h nofun) (.either (.flag hP h nofun) ?_)
  exact .either (.skip fun _ => .flag hP h nofun) (.pure h)

theorem eventColumns_answers (start : Token) : Answers (eventColumns start) Complete := by
  unfold eventColumns
  refine (Answers.nodeAt .columnList start).bind fun list hlist => ?_
  refine (Answers.underList hlist.toOver columnName_answers).bind fun list h => ?_
  exact .finish lasting_complete (h.complete rfl)

theorem triggerEvent_answers : Answers triggerEvent Complete := by
  unfold triggerEvent
  refine .skip fun o => ?_
  rcases o with _ | word
  · exact .unexpected _
  · refine (Answers.namedNode .triggerEvent word).bind fun event hevent => .skip fun b => ?_
    refine (Answers.underIf hevent.toOver (eventColumns_answers word) b).bind fun event h => ?_
    exact .finish lasting_complete (h.complete rfl)

theorem eachRow?_answers (hP : Lasting P) (h : P t) : Answers (eachRow? t) P := by
  unfold eachRow?
  exact .either (.skip fun _ => .skip fun _ => .flag hP h nofun) (.pure h)

theorem ifNotExists?_answers (hP : Lasting P) (h : P t) : Answers (ifNotExists? t) P := by
  unfold ifNotExists?
  exact .either (.skip fun _ => .skip fun _ => .flag hP h nofun) (.pure h)

theorem ifExists?_answers (hP : Lasting P) (h : P t) : Answers (ifExists? t) P := by
  unfold ifExists?
  exact .either (.skip fun _ => .flag hP h nofun) (.pure h)

theorem dropBehavior?_answers (hP : Lasting P) (h : P t) : Answers (dropBehavior? t) P := by
  unfold dropBehavior?
  exact .either (.flag hP h nofun) (.either (.flag hP h nofun) (.pure h))

/-- The kind that is created is one that the words before its name tell. -/
theorem creationKind_answers_creationKind? (temporary unique : Bool) (word : Token) :
    Answers (creationKind temporary unique word) fun kind =>
      ∃ b, creationKind? word.kind = some (kind, b) := by
  unfold creationKind
  split
  · exact .unexpected _
  · next kind b hkind =>
    split
    · exact .throw _
    split
    · exact .throw _
    · exact .pure ⟨b, hkind⟩

theorem creationKind_answers (temporary unique : Bool) (word : Token) :
    Answers (creationKind temporary unique word) fun kind => kind.places? false = none := by
  refine (creationKind_answers_creationKind? temporary unique word).weaken fun kind h => ?_
  obtain ⟨b, h⟩ := h
  unfold creationKind? at h
  split at h <;> cases h <;> rfl

theorem drop_answers : Answers drop Complete := by
  unfold drop
  refine .skip fun start => .skip fun o => ?_
  rcases o with _ | word
  · exact .unexpected _
  · refine (Answers.nodeAt .dropStmt start).bind fun statement hnode => ?_
    refine (Answers.setText lasting_over hnode.toOver word).bind fun statement h => ?_
    refine (ifExists?_answers lasting_over h).bind fun statement h => ?_
    have hname := (objectName_answers .objectName).weaken fun _ h => h.complete rfl
    refine (Answers.underList h hname).bind fun statement h => ?_
    refine (dropBehavior?_answers lasting_over h).bind fun statement h => ?_
    exact .finish lasting_complete (h.complete rfl)

theorem renameTable_answers (start : Token) : Answers (renameTable start) Complete := by
  unfold renameTable
  refine .skip fun name => (Answers.nodeAt .renameTable start).bind fun node hnode => ?_
  exact .setText lasting_complete (hnode.toOver.complete rfl) name

theorem renameColumn_answers (start : Token) : Answers (renameColumn start) Complete := by
  have hname : ∀ name : Token, Answers (namedNode .identifier name) Complete := fun name =>
    (Answers.namedNode .identifier name).weaken fun _ h => h.toOver.complete rfl
  unfold renameColumn
  refine .skip fun _ => .skip fun before => .skip fun _ => .skip fun after => ?_
  refine (Answers.nodeAt .renameColumn start).bind fun node hnode => ?_
  refine (hname before).bind fun before hbefore => (hname after).bind fun after hafter => ?_
  refine (Answers.under hnode.toOver hbefore).bind fun node h => ?_
  exact (Answers.under h hafter).weaken fun _ h => h.complete rfl

theorem truncate_answers : Answers truncate Complete := by
  unfold truncate
  refine .skip fun start => .skip fun _ => ?_
  refine (Answers.nodeAt .truncateStmt start).bind fun statement hnode => ?_
  refine (objectName_answers .tableRef).bind fun table htable => ?_
  refine (Answers.under hnode.toOver (htable.complete rfl)).bind fun statement h => ?_
  exact .finish lasting_complete (h.complete rfl)

include hinner

theorem check_answers (start : Token) : Answers (check inner start) Complete := by
  unfold check
  refine (Answers.nodeAt .checkConstraint start).bind fun node hnode => .skip fun _ => ?_
  refine (hinner.expression 0).bind fun condition hcondition => .skip fun _ => ?_
  exact (Answers.under hnode.toOver hcondition.complete).weaken fun _ h => h.complete rfl

theorem columnConstraintBody?_answers (start : Token) (kind : TokenKind) :
    Answers (columnConstraintBody? inner start kind) fun o => ∀ u ∈ o, u.Complete := by
  have hconflict : ∀ {k : Kind} {node : Tree}, k.places? false = none → node.Over k →
      Answers (onConflict? node) Complete := fun hk h =>
    (onConflict?_answers h).weaken fun _ h => h.complete hk
  unfold columnConstraintBody?
  split
  · refine .skip fun _ => .skip fun _ => ?_
    refine (Answers.nodeAt .primaryKeyConstraint start).bind fun node hnode => ?_
    refine (direction_answers lasting_over hnode.toOver).bind fun node h => ?_
    refine (hconflict rfl h).bind fun node h => ?_
    exact (autoincrement?_answers lasting_complete h).found
  · refine .skip fun _ => .skip fun _ => ?_
    refine (Answers.nodeAt .notNullConstraint start).bind fun node hnode => ?_
    exact (hconflict rfl hnode.toOver).found
  · refine .skip fun _ => Answers.found ?_
    exact (Answers.nodeAt .nullConstraint start).weaken fun _ h => h.toOver.complete rfl
  · refine .skip fun _ => (Answers.nodeAt .uniqueConstraint start).bind fun node hnode => ?_
    exact (hconflict rfl hnode.toOver).found
  · exact .skip fun _ => (check_answers hinner start).found
  · refine .skip fun _ => (Answers.nodeAt .defaultConstraint start).bind fun node hnode => ?_
    refine (hinner.expression _).bind fun value hvalue => Answers.found ?_
    exact (Answers.under hnode.toOver hvalue.complete).weaken fun _ h => h.complete rfl
  · refine .skip fun _ => .skip fun collation => ?_
    refine (Answers.nodeAt .collateConstraint start).bind fun node hnode => Answers.found ?_
    exact .setText lasting_complete (hnode.toOver.complete rfl) collation
  · refine references_answers.bind fun target htarget => ?_
    refine (Answers.nodeAt .foreignKeyConstraint start).bind fun node hnode => Answers.found ?_
    exact (Answers.under hnode.toOver htarget).weaken fun _ h => h.complete rfl
  · exact .pure nofun

theorem columnConstraint?_answers :
    Answers (columnConstraint? inner) fun o => ∀ u ∈ o, u.Complete := by
  unfold columnConstraint?
  refine .skip fun o => ?_
  rcases o with _ | start
  · exact .pure nofun
  refine .skip fun name => .skip fun o => ?_
  rcases o with _ | t
  · exact .unexpected _
  refine (columnConstraintBody?_answers hinner start t.kind).bind fun o ho => ?_
  rcases o with _ | node
  · dsimp only
    split
    · exact .unexpected _
    · exact .pure nofun
  · exact (finishConstraint_answers name (ho node rfl)).found

theorem columnDefinition_answers : Answers (columnDefinition inner) Complete := by
  unfold columnDefinition
  refine .skip fun name => (Answers.namedNode .columnDef name).bind fun column hcolumn => ?_
  refine (columnType?_answers hcolumn.toOver).bind fun column h => ?_
  refine (Answers.underWhile h (columnConstraint?_answers hinner)).bind fun column h => ?_
  exact .finish lasting_complete (h.complete rfl)

theorem tableConstraintBody_answers (start t : Token) :
    Answers (tableConstraintBody inner start t) Complete := by
  have hcolumns : ∀ {k : Kind} {node : Tree}, k.places? false = none → node.Over k →
      Answers (do onConflict? (← attach node (← columnList))) Complete := by
    refine fun hk h => columnList_answers.bind fun columns hcolumns => ?_
    refine (Answers.under h hcolumns).bind fun node h => ?_
    exact (onConflict?_answers h).weaken fun _ h => h.complete hk
  unfold tableConstraintBody
  split
  · refine .skip fun _ => (Answers.nodeAt .primaryKeyConstraint start).bind fun node hnode => ?_
    exact hcolumns rfl hnode.toOver
  · refine (Answers.nodeAt .uniqueConstraint start).bind fun node hnode => ?_
    exact hcolumns rfl hnode.toOver
  · exact check_answers hinner start
  · refine .skip fun _ => (Answers.nodeAt .foreignKeyConstraint start).bind fun node hnode => ?_
    refine columnList_answers.bind fun columns hcolumns => ?_
    refine (Answers.under hnode.toOver hcolumns).bind fun node h => ?_
    refine references_answers.bind fun target htarget => ?_
    exact (Answers.under h htarget).weaken fun _ h => h.complete rfl
  · exact .throw _

theorem tableElement_answers : Answers (tableElement inner) Complete := by
  unfold tableElement
  refine .skip fun b => ?_
  cases b
  · exact columnDefinition_answers hinner
  · unfold tableConstraint
    refine .skip fun o => ?_
    rcases o with _ | start
    · exact .unexpected _
    refine .skip fun name => .skip fun o => ?_
    rcases o with _ | t
    · exact .unexpected _
    exact (tableConstraintBody_answers hinner start t).bind fun _ h =>
      finishConstraint_answers name h

theorem createTable_answers (h : t.Over k) : Answers (createTable inner t) (Over k) := by
  unfold createTable
  refine (objectName_answers .tableRef).bind fun table htable => ?_
  refine (Answers.under h (htable.complete rfl)).bind fun statement h => .either ?_ ?_
  · exact hinner.query.bind fun query hquery => .under h hquery.complete
  · refine .skip fun _ => (Answers.underList h (tableElement_answers hinner)).bind ?_
    exact fun statement h => .skip fun _ => withoutRowid?_answers lasting_over h

theorem indexedColumn_answers : Answers (indexedColumn inner) Complete := by
  unfold indexedColumn
  refine (hinner.expression 0).bind fun key hkey => ?_
  refine (Answers.nodeOver .indexedColumn key).bind fun column hcolumn => ?_
  refine (Answers.under hcolumn.toOver hkey.complete).bind fun column h => ?_
  refine (direction_answers lasting_over h).bind fun column h => ?_
  exact .finish lasting_complete (h.complete rfl)

theorem createIndex_answers (h : t.Over k) : Answers (createIndex inner t) (Over k) := by
  unfold createIndex
  refine (objectName_answers .objectName).bind fun name hname => ?_
  refine (Answers.under h (hname.complete rfl)).bind fun statement h => .skip fun _ => ?_
  refine (objectName_answers .tableRef).bind fun table htable => ?_
  refine (Answers.under h (htable.complete rfl)).bind fun statement h => .skip fun _ => ?_
  refine (Answers.underList h (indexedColumn_answers hinner)).bind fun statement h => ?_
  exact .skip fun _ => (Query.whereClause?_answers hinner statement).weaken fun _ hu => hu.over h

theorem createView_answers (h : t.Over k) : Answers (createView inner t) (Over k) := by
  unfold createView
  refine (objectName_answers .objectName).bind fun name hname => ?_
  refine (Answers.under h (hname.complete rfl)).bind fun statement h => .skip fun b => ?_
  refine (Answers.underIf h columnList_answers b).bind fun statement h => .skip fun _ => ?_
  exact hinner.query.bind fun query hquery => .under h hquery.complete

theorem triggerCondition?_answers (h : t.Over k) :
    Answers (triggerCondition? inner t) (Over k) := by
  unfold triggerCondition?
  refine .skip fun o => ?_
  rcases o with _ | word
  · exact .pure h
  · refine (Answers.nodeAt .whenClause word).bind fun clause hclause => ?_
    refine (hinner.expression 0).bind fun condition hcondition => ?_
    refine (Answers.under hclause.toOver hcondition.complete).bind fun clause hclause => ?_
    refine (Answers.finish lasting_over hclause).bind fun clause hclause => ?_
    exact .under h (hclause.complete rfl)

theorem triggerStatement?_answers (h : t.Over k) :
    Answers (triggerStatement? inner t) fun o => ∀ u ∈ o, u.Over k := by
  unfold triggerStatement?
  refine .skip fun b => ?_
  split
  · exact .pure nofun
  refine .skip fun b => ?_
  split
  · exact .unexpected _
  · refine hinner.statement.bind fun statement hstatement => ?_
    refine (Answers.under h hstatement).bind fun body h => .skip fun _ => .pure ?_
    rintro _ ⟨⟩
    exact h

theorem triggerBody_answers : Answers (triggerBody inner) Complete := by
  unfold triggerBody
  refine .skip fun t => (Answers.nodeAt .triggerBody t).bind fun body hbody => ?_
  refine .bind (.iterate (fun _ => triggerStatement?_answers hinner) hbody.toOver) ?_
  exact fun body h => .skip fun _ => .finish lasting_complete (h.complete rfl)

theorem createTrigger_answers (h : t.Over k) : Answers (createTrigger inner t) (Over k) := by
  unfold createTrigger
  refine (objectName_answers .objectName).bind fun name hname => ?_
  refine (Answers.under h (hname.complete rfl)).bind fun statement h => ?_
  refine (triggerTime_answers lasting_over h).bind fun statement h => ?_
  refine triggerEvent_answers.bind fun event hevent => ?_
  refine (Answers.under h hevent).bind fun statement h => .skip fun _ => ?_
  refine (objectName_answers .tableRef).bind fun table htable => ?_
  refine (Answers.under h (htable.complete rfl)).bind fun statement h => ?_
  refine (eachRow?_answers lasting_over h).bind fun statement h => ?_
  refine (triggerCondition?_answers hinner h).bind fun statement h => ?_
  exact (triggerBody_answers hinner).bind fun body hbody => .under h hbody

theorem creationBody_answers (h : t.Over k) : Answers (creationBody inner t) (Over k) := by
  unfold creationBody
  split
  · exact createTable_answers hinner h
  · exact createIndex_answers hinner h
  · exact createView_answers hinner h
  · exact createTrigger_answers hinner h
  · exact (objectName_answers .objectName).bind fun name hname => .under h (hname.complete rfl)

theorem create_answers : Answers (create inner) Complete := by
  unfold create
  refine .skip fun start => .skip fun temporary => .skip fun unique => .skip fun o => ?_
  rcases o with _ | t
  · exact .unexpected _
  refine (creationKind_answers temporary unique t).bind fun kind hkind => .skip fun _ => ?_
  refine (Answers.nodeAt kind start).bind fun statement hnode => ?_
  refine .bind (.flagIf lasting_over hnode.toOver temporary nofun) fun statement h => ?_
  refine .bind (.flagIf lasting_over h unique nofun) fun statement h => ?_
  refine (ifNotExists?_answers lasting_over h).bind fun statement h => ?_
  refine (creationBody_answers hinner h).bind fun statement h => ?_
  exact .finish lasting_complete (h.complete hkind)

theorem alteration_answers (word : Token) : Answers (alteration inner word) Complete := by
  unfold alteration
  split
  · exact .either (renameTable_answers word) (renameColumn_answers word)
  · refine .skip fun _ => (Answers.nodeAt .addColumn word).bind fun node hnode => ?_
    refine (columnDefinition_answers hinner).bind fun column hcolumn => ?_
    exact (Answers.under hnode.toOver hcolumn).weaken fun _ h => h.complete rfl
  · refine .skip fun _ => .skip fun name => ?_
    refine (Answers.nodeAt .dropColumn word).bind fun node hnode => ?_
    exact .setText lasting_complete (hnode.toOver.complete rfl) name
  · exact .throw _

theorem alter_answers : Answers (alter inner) Complete := by
  unfold alter
  refine .skip fun start => .skip fun _ => ?_
  refine (Answers.nodeAt .alterTableStmt start).bind fun statement hnode => ?_
  refine (objectName_answers .tableRef).bind fun table htable => ?_
  refine (Answers.under hnode.toOver (htable.complete rfl)).bind fun statement h => ?_
  refine .skip fun o => ?_
  rcases o with _ | t
  · exact .unexpected _
  refine (alteration_answers hinner t).bind fun action haction => ?_
  refine (Answers.finish lasting_complete haction).bind fun action haction => ?_
  refine (Answers.under h haction).bind fun statement h => ?_
  exact .finish lasting_complete (h.complete rfl)

end Schema

end SqlSyntax
