import SqlSyntax.Grammar.Utility
import SqlSyntax.Proofs.Pairing.Query

/-!
# Changes of data and short statements in two runs

The sign of an assignment may be spelled in any way, and so may the one of a setting: no production
looks at how it is spelled. Such a sign is taken only after the word that begins the assignments.
-/

namespace SqlSyntax

open SqlSyntax.Parser SqlSyntax.Pairing

variable {W : Pairing} {self : Nested} {t t' : Token} {u u' : Tree} {k : Kind}

/-- A keyword of a list is taken. -/
theorem oneOf_alike (hW : W.Lawful) (ks : List Keyword) :
    W.Alike (takeIf? (·.keyword?.any ks.contains)) (takeIf? (·.keyword?.any ks.contains))
      (Option.Rel fun t t' => W.tok t t' ∧ t.keyword?.any ks.contains) := by
  refine Runs.takeWhere? hW (fun ht => ?_) fun {t _} _ h => ?_
  · rw [Runs.keyword? hW ht]
  · refine Runs.plain_of_keyword? ?_
    rcases hk : t.keyword? with _ | k
    · rw [hk] at h
      cases h
    · rfl

namespace Change

theorem conflictWord_alike (hW : W.Lawful) : W.Alike conflictWord conflictWord W.tok := by
  unfold conflictWord
  refine (oneOf_alike hW _).bind fun o o' ho => ?_
  rcases ho with ⟨ht, -⟩ | _
  · exact .answer ht
  · exact .unexpected hW _

theorem conflictAction_alike (hW : W.Lawful) (ht : W.tok t t') {word word' : Token}
    (hword : W.tok word word') : W.Alike (conflictAction t word) (conflictAction t' word')
      (W.Made .conflictAction) := by
  unfold conflictAction
  refine (Runs.nodeAt hW ht rfl).bind fun node node' hnode => ?_
  exact (Runs.setText hW hnode hword).bind fun _ _ hnode => .finish hW hnode

theorem orAction?_alike (hW : W.Lawful) (hu : W.Made k u u') :
    W.Alike (orAction? u) (orAction? u') (W.Made k) := by
  unfold orAction?
  refine (Runs.takeKeyword? hW .OR).bind fun o o' ho => ?_
  rcases ho with ⟨ht, -⟩ | _
  · refine (conflictWord_alike hW).bind fun word word' hword => ?_
    refine (conflictAction_alike hW ht hword).bind fun action action' haction => ?_
    rw [hW.kind hword]
    exact (Runs.attach hW hu (haction.fits rfl)).bind fun _ _ hu => .flagIf hW _ _ nofun hu
  · exact .answer hu

theorem returning?_alike (hW : W.Lawful) (hself : W.Serves self) (hu : W.Made k u u') :
    W.Alike (returning? self u) (returning? self u') (W.Made k) := by
  unfold returning?
  refine (Runs.consumeKeyword hW .RETURNING).branch ?_ ?_
  · exact .answer hu
  · exact (Runs.within _ (Query.resultColumns_alike hW hself rfl rfl)).bind
      fun _ _ hcolumns => .attach hW hu (hcolumns.fits rfl)

theorem assigned_alike (hW : W.Lawful) : W.Alike assigned assigned (W.Made .assignment) := by
  unfold assigned
  refine .ofCurrent (.unexpected hW _) fun t t' ht => .seen ?_
  dsimp only
  rw [← hW.kind ht]
  split
  · refine (Runs.nodeAt hW ht rfl).bind fun node node' hnode => ?_
    exact (columnList_alike hW).bind fun _ _ hlist => .attach hW hnode (hlist.fits rfl)
  · exact (Runs.expectName hW _).bind fun _ _ hname => .namedNode hW hname rfl

theorem assignmentSign_alike (hW : W.Lawful) (hsets : W.sets) :
    W.Alike assignmentSign assignmentSign fun _ _ => True := by
  unfold assignmentSign
  refine (Runs.consumeSign hW hsets).branch ?_ ?_
  · refine (Runs.consumeKeyword hW .TO).branch ?_ ?_
    · exact .unexpected hW _
    · exact .answer trivial
  · exact .answer trivial

theorem assignment_alike (hW : W.Lawful) (hself : W.Serves self) (hsets : W.sets) :
    W.Alike (assignment self) (assignment self) (W.Made .assignment) := by
  unfold assignment
  refine (assigned_alike hW).bind fun node node' hnode => ?_
  refine (assignmentSign_alike hW hsets).bind fun _ _ _ => ?_
  refine (hself.expression 0).bind fun value value' hvalue => ?_
  exact (Runs.attach hW hnode (hvalue.fits rfl)).bind fun _ _ hnode => .finish hW hnode

theorem insertColumns?_alike (hW : W.Lawful) (hu : W.Made k u u') :
    W.Alike (insertColumns? u) (insertColumns? u') (W.Made k) := by
  unfold insertColumns?
  refine (Runs.sees hW _).forget.branch ?_ ?_
  · exact .answer hu
  · refine (Runs.kindAt hW 1).forget.thenSame fun o => ?_
    split
    · exact .answer hu
    · exact .answer hu
    · exact .answer hu
    · exact (columnList_alike hW).bind fun _ _ hlist => .attach hW hu (hlist.fits rfl)

theorem insertSource_alike (hW : W.Lawful) (hself : W.Serves self) (hu : W.Made k u u') :
    W.Alike (insertSource self u) (insertSource self u') (W.Made k) := by
  have hquery : W.Alike (do attach u (← self.query)) (do attach u' (← self.query)) (W.Made k) :=
    hself.query.bind fun _ _ hquery => .attach hW hu hquery.fits
  unfold insertSource
  refine (Runs.currentKind hW).thenSame fun o => ?_
  split
  · exact .seen ((Query.values_alike hW hself rfl).bind fun _ _ hvalues =>
      .attach hW hu (hvalues.fits rfl))
  · refine .after (fun _ h => h.1.symm) ((Runs.takeKind hW rfl).bind fun _ _ _ => ?_)
    exact (Runs.expectKeyword hW .VALUES).discard.bind fun _ _ _ => .flag hW _ nofun hu
  · exact .seen hquery
  · exact .seen hquery
  · refine .after (fun _ h => h.1.symm) ((Runs.takeKind hW rfl).bind fun _ _ _ => ?_)
    refine (Runs.within .subquery hself.query).bind fun query query' hquery => ?_
    exact (Runs.expect hW rfl _).discard.bind fun _ _ _ => .attach hW hu hquery.fits
  · exact .unexpected hW _

theorem insertTable_alike (hW : W.Lawful) :
    W.Alike insertTable insertTable (W.Made .tableRef) := by
  unfold insertTable
  refine (objectName_alike hW rfl).bind fun table table' htable => ?_
  refine (Runs.seesKeyword hW .AS).branch ?_ ?_
  · exact .answer htable
  · exact withAlias_alike hW htable

theorem insertAction_alike (hW : W.Lawful) (hu : W.Made k u u') (ht : W.tok t t') :
    W.Alike (insertAction u t) (insertAction u' t') (W.Made k) := by
  unfold insertAction
  rw [hW.kind ht]
  split
  · exact .flag hW _ nofun hu
  · exact orAction?_alike hW hu

/-- The statement whose first word was seen. -/
theorem insert_alike (hW : W.Lawful) (hself : W.Serves self) {kind : TokenKind}
    (hk : kind.isPlain) : W.Runs (fun ts => ts[0]?.map Token.kind = some kind) (insert self)
      (insert self) (W.Made .insertStmt) fun _ => anything := by
  unfold insert
  refine .word hW hk (.unexpected hW _) fun t t' ht => ?_
  refine (Runs.nodeAt hW ht rfl).bind fun statement statement' hstatement => ?_
  refine (insertAction_alike hW hstatement ht).bind fun statement statement' hstatement => ?_
  refine (Runs.expectKeyword hW .INTO).discard.bind fun _ _ _ => ?_
  refine (insertTable_alike hW).bind fun table table' htable => ?_
  refine (Runs.attach hW hstatement (htable.fits rfl)).bind
    fun statement statement' hstatement => ?_
  refine (insertColumns?_alike hW hstatement).bind fun statement statement' hstatement => ?_
  refine (insertSource_alike hW hself hstatement).bind fun statement statement' hstatement => ?_
  exact (returning?_alike hW hself hstatement).bind fun _ _ h => .finish hW h

theorem target_alike (hW : W.Lawful) : W.Alike target target (W.Made .tableRef) :=
  (objectName_alike hW rfl).bind fun _ _ htable => withAlias_alike hW htable

theorem setClause_alike (hW : W.Lawful) (hself : W.Serves self) :
    W.Alike (setClause self) (setClause self) (W.Made .setClause) := by
  unfold setClause
  refine (Runs.expectSets hW (.inl rfl)).bind fun t t' ⟨ht, hsets⟩ => ?_
  refine (Runs.nodeAt hW ht rfl).bind fun clause clause' hclause => ?_
  exact (Runs.attachList hW (assignment_alike hW hself hsets) hclause fun _ _ h => h.fits rfl).bind
    fun _ _ hclause => .finish hW hclause

theorem update_alike (hW : W.Lawful) (hself : W.Serves self) :
    W.Alike (update self) (update self) (W.Made .updateStmt) := by
  unfold update
  refine (Runs.expectKeyword hW .UPDATE).bind fun t t' ht => ?_
  refine (Runs.nodeAt hW ht rfl).bind fun statement statement' hstatement => ?_
  refine (orAction?_alike hW hstatement).bind fun statement statement' hstatement => ?_
  refine (target_alike hW).bind fun table table' htable => ?_
  refine (Runs.attach hW hstatement (htable.fits rfl)).bind
    fun statement statement' hstatement => ?_
  refine (setClause_alike hW hself).bind fun clause clause' hclause => ?_
  refine (Runs.attach hW hstatement (hclause.fits rfl)).bind
    fun statement statement' hstatement => ?_
  have htarget : W.Alike target target W.Placed :=
    (target_alike hW).weaken fun _ _ h => h.placed rfl
  refine (Query.fromClause?_alike hW htarget hstatement).bind fun statement statement' h => ?_
  refine (Query.whereClause?_alike hW hself h).bind fun statement statement' h => ?_
  exact (returning?_alike hW hself h).bind fun _ _ h => .finish hW h

theorem delete_alike (hW : W.Lawful) (hself : W.Serves self) :
    W.Alike (delete self) (delete self) (W.Made .deleteStmt) := by
  unfold delete
  refine (Runs.expectKeyword hW .DELETE).bind fun t t' ht => ?_
  refine (Runs.nodeAt hW ht rfl).bind fun statement statement' hstatement => ?_
  refine (Runs.expectKeyword hW .FROM).discard.bind fun _ _ _ => ?_
  refine (target_alike hW).bind fun table table' htable => ?_
  refine (Runs.attach hW hstatement (htable.fits rfl)).bind fun statement statement' h => ?_
  refine (Query.whereClause?_alike hW hself h).bind fun statement statement' h => ?_
  exact (returning?_alike hW hself h).bind fun _ _ h => .finish hW h

end Change

namespace Utility

/-! ## Transactions -/

theorem transactionMode?_alike (hW : W.Lawful) (hu : W.Made k u u') :
    W.Alike (transactionMode? u) (transactionMode? u') (W.Made k) := by
  unfold transactionMode?
  refine (oneOf_alike hW _).bind fun o o' ho => ?_
  rcases ho with ⟨ht, -⟩ | _
  · exact .setText hW hu ht
  · exact .answer hu

theorem begin_alike (hW : W.Lawful) {kind : TokenKind} (hk : kind.isPlain) :
    W.Runs (fun ts => ts[0]?.map Token.kind = some kind) begin begin (W.Made .beginStmt)
      fun _ => anything := by
  unfold begin
  refine .word hW hk (.unexpected hW _) fun t t' ht => ?_
  refine (Runs.nodeAt hW ht rfl).bind fun statement statement' hstatement => ?_
  rw [hW.kind ht]
  split
  · exact (Runs.expectKeyword hW _).discard.bind fun _ _ _ => .finish hW hstatement
  · refine (transactionMode?_alike hW hstatement).bind fun statement statement' hstatement => ?_
    exact (Runs.consumeKeyword hW _).discard.bind fun _ _ _ => .finish hW hstatement

theorem commit_alike (hW : W.Lawful) {kind : TokenKind} (hk : kind.isPlain) :
    W.Runs (fun ts => ts[0]?.map Token.kind = some kind) commit commit (W.Made .commitStmt)
      fun _ => anything := by
  unfold commit
  refine .word hW hk (.unexpected hW _) fun t t' ht => ?_
  refine (Runs.nodeAt hW ht rfl).bind fun statement statement' hstatement => ?_
  exact (Runs.consumeKeyword hW _).discard.bind fun _ _ _ => .finish hW hstatement

theorem finishNamed_alike (hW : W.Lawful) (what : String) (hu : W.Made k u u') :
    W.Alike (finishNamed u what) (finishNamed u' what) (W.Made k) := by
  unfold finishNamed
  refine (Runs.expectName hW what).bind fun name name' hname => ?_
  exact (Runs.setText hW hu hname).bind fun _ _ hu => .finish hW hu

theorem rollback_alike (hW : W.Lawful) : W.Alike rollback rollback (W.Made .rollbackStmt) := by
  unfold rollback
  refine (Runs.expectKeyword hW .ROLLBACK).bind fun t t' ht => ?_
  refine (Runs.nodeAt hW ht rfl).bind fun statement statement' hstatement => ?_
  refine (Runs.consumeKeyword hW _).discard.bind fun _ _ _ => ?_
  refine (Runs.consumeKeyword hW .TO).branch ?_ ?_
  · exact .finish hW hstatement
  · exact (Runs.consumeKeyword hW _).discard.bind fun _ _ _ => finishNamed_alike hW _ hstatement

theorem savepoint_alike (hW : W.Lawful) :
    W.Alike savepoint savepoint (W.Made .savepointStmt) := by
  unfold savepoint
  refine (Runs.expectKeyword hW .SAVEPOINT).bind fun t t' ht => ?_
  exact (Runs.nodeAt hW ht rfl).bind fun _ _ hstatement => finishNamed_alike hW _ hstatement

theorem release_alike (hW : W.Lawful) : W.Alike release release (W.Made .releaseStmt) := by
  unfold release
  refine (Runs.expectKeyword hW .RELEASE).bind fun t t' ht => ?_
  refine (Runs.nodeAt hW ht rfl).bind fun statement statement' hstatement => ?_
  exact (Runs.consumeKeyword hW _).discard.bind fun _ _ _ => finishNamed_alike hW _ hstatement

/-! ## Statements about statements -/

theorem queryPlan?_alike (hW : W.Lawful) (hu : W.Made k u u') :
    W.Alike (queryPlan? u) (queryPlan? u') (W.Made k) := by
  unfold queryPlan?
  refine (Runs.consumeKeyword hW .QUERY).branch ?_ ?_
  · exact .answer hu
  · exact (Runs.expectKeyword hW .PLAN).discard.bind fun _ _ _ => .flag hW _ nofun hu

theorem explain_alike (hW : W.Lawful) (hself : W.Serves self) :
    W.Alike (explain self) (explain self) (W.Made .explainStmt) := by
  unfold explain
  refine (Runs.expectKeyword hW .EXPLAIN).bind fun t t' ht => ?_
  refine (Runs.nodeAt hW ht rfl).bind fun statement statement' hstatement => ?_
  refine (queryPlan?_alike hW hstatement).bind fun statement statement' hstatement => ?_
  refine hself.statement.bind fun inner inner' hinner => ?_
  exact (Runs.attach hW hstatement hinner.fits).bind fun _ _ h => .finish hW h

/-! ## Settings and maintenance -/

theorem setting_alike (hW : W.Lawful) (hself : W.Serves self) :
    W.Alike (setting self) (setting self) (W.Made .setStmt) := by
  unfold setting
  refine (Runs.expectSets hW (.inl rfl)).bind fun t t' ⟨ht, hsets⟩ => ?_
  refine (Runs.nodeAt hW ht rfl).bind fun statement statement' hstatement => ?_
  exact (Runs.attachList hW (Change.assignment_alike hW hself hsets) hstatement
    fun _ _ h => h.fits rfl).bind fun _ _ h => .finish hW h

/-- A value of a pragma may be an operand. -/
theorem pragmaValue_alike (hW : W.Lawful) (hself : W.Serves self) :
    W.Alike (pragmaValue self) (pragmaValue self) W.tree := by
  unfold pragmaValue
  refine (Runs.takeWhere? hW (fun ht => ?_) fun {t _} _ h => ?_).bind fun o o' ho => ?_
  · rw [hW.kind ht, Runs.keyword? hW ht]
  · rcases Bool.or_eq_true_iff.1 h with h | h
    · rw [eq_of_beq h]
      rfl
    · exact Runs.plain_of_keyword? h
  · rcases ho with ⟨ht, -⟩ | _
    · exact (Runs.namedNode hW ht rfl).weaken fun _ _ h => h.tree
    · exact (hself.expression 0).weaken fun _ _ h => h.1

theorem pragma_alike (hW : W.Lawful) (hself : W.Serves self)
    (hallow : W.config.allowExtensions = true) :
    W.Alike (pragma self) (pragma self) (W.Made .pragmaStmt) := by
  unfold pragma
  refine (Runs.expectSets hW (.inr rfl)).bind fun t t' ⟨ht, hsets⟩ => ?_
  refine (Runs.nodeOf hW ht rfl fun _ => hallow).bind fun statement statement' hstatement => ?_
  refine (objectName_alike hW rfl).bind fun name name' hname => ?_
  refine (Runs.attach hW hstatement (hname.fits rfl)).bind fun statement statement' hstatement => ?_
  refine (Runs.consumeSign hW hsets).branch ?_ ?_
  · refine (Runs.consume hW rfl).branch ?_ ?_
    · exact .finish hW hstatement
    · refine (pragmaValue_alike hW hself).bind fun value value' hvalue => ?_
      refine (Runs.expect hW rfl _).discard.bind fun _ _ _ => ?_
      exact (Runs.attach hW hstatement (fits_of_tree rfl hvalue)).bind fun _ _ h => .finish hW h
  · refine (pragmaValue_alike hW hself).bind fun value value' hvalue => ?_
    exact (Runs.attach hW hstatement (fits_of_tree rfl hvalue)).bind fun _ _ h => .finish hW h

theorem seesName_alike (hW : W.Lawful) : W.Alike seesName seesName (· = ·) := by
  refine Runs.current.bind fun o o' ho => .seen (.answer ?_)
  rcases ho with ht | _
  · exact Runs.isName hW ht
  · rfl

theorem vacuum_alike (hW : W.Lawful) (hself : W.Serves self)
    (hallow : W.config.allowExtensions = true) :
    W.Alike (vacuum self) (vacuum self) (W.Made .vacuumStmt) := by
  unfold vacuum
  refine (Runs.expectKeyword hW .VACUUM).bind fun t t' ht => ?_
  refine (Runs.nodeOf hW ht rfl fun _ => hallow).bind fun statement statement' hstatement => ?_
  refine (seesName_alike hW).thenSame fun b => ?_
  refine (Runs.attachIf hW b (objectName_alike hW rfl) hstatement fun _ _ h => h.fits rfl).bind
    fun statement statement' hstatement => ?_
  refine (Runs.consumeKeyword hW .INTO).thenSame fun b => ?_
  exact (Runs.attachIf hW b (hself.expression 0) hstatement fun _ _ h => h.fits rfl).bind
    fun _ _ h => .finish hW h

theorem attachDatabase_alike (hW : W.Lawful) (hself : W.Serves self)
    (hallow : W.config.allowExtensions = true) :
    W.Alike (attachDatabase self) (attachDatabase self) (W.Made .attachStmt) := by
  unfold attachDatabase
  refine (Runs.expectKeyword hW .ATTACH).bind fun t t' ht => ?_
  refine (Runs.nodeOf hW ht rfl fun _ => hallow).bind fun statement statement' hstatement => ?_
  refine (Runs.consumeKeyword hW _).discard.bind fun _ _ _ => ?_
  refine (hself.expression 0).bind fun file file' hfile => ?_
  refine (Runs.attach hW hstatement (hfile.fits rfl)).bind fun statement statement' h => ?_
  exact (Runs.expectKeyword hW .AS).discard.bind fun _ _ _ => finishNamed_alike hW _ h

theorem detachDatabase_alike (hW : W.Lawful) (hallow : W.config.allowExtensions = true) :
    W.Alike detachDatabase detachDatabase (W.Made .detachStmt) := by
  unfold detachDatabase
  refine (Runs.expectKeyword hW .DETACH).bind fun t t' ht => ?_
  refine (Runs.nodeOf hW ht rfl fun _ => hallow).bind fun statement statement' hstatement => ?_
  exact (Runs.consumeKeyword hW _).discard.bind fun _ _ _ => finishNamed_alike hW _ hstatement

theorem upkeep_alike (hW : W.Lawful) (word : Keyword) (hparen : k != .parenExpr)
    (hk : k.isExtension = true → W.config.allowExtensions = true) :
    W.Alike (upkeep k word) (upkeep k word) (W.Made k) := by
  unfold upkeep
  refine (Runs.expectKeyword hW word).bind fun t t' ht => ?_
  refine (Runs.nodeOf hW ht hparen hk).bind fun statement statement' hstatement => ?_
  refine (seesName_alike hW).thenSame fun b => ?_
  exact (Runs.attachIf hW b (objectName_alike hW rfl) hstatement fun _ _ h => h.fits rfl).bind
    fun _ _ h => .finish hW h

end Utility

end SqlSyntax
