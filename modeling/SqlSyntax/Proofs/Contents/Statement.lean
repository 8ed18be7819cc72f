import SqlSyntax.Grammar.Statement
import SqlSyntax.Proofs.Contents.Schema

/-!
# Complete statements

Whatever statement a production reads, its tree is complete (`statement_answers`), and so is what
any production answers, however deep the productions call one another (`Nested.upTo_fits`).
-/

namespace SqlSyntax

open SqlSyntax.Parser SqlSyntax.Tree

variable {inner : Nested} (hinner : inner.Fits) {t : Tree} {k : Kind} {P : Tree → Prop}

/-! ## Transactions, settings and maintenance -/

namespace Utility

theorem finishNamed_answers (h : t.Complete) (what : String) :
    Answers (finishNamed t what) Complete :=
  .skip fun name => .bind (.setText lasting_complete h name) fun _ h => .finish lasting_complete h

theorem transactionMode?_answers (hP : Lasting P) (h : P t) :
    Answers (transactionMode? t) P := by
  unfold transactionMode?
  refine .skip fun o => ?_
  rcases o with _ | mode
  · exact .pure h
  · exact .setText hP h mode

theorem begin_answers : Answers «begin» Complete := by
  unfold «begin»
  refine .skip fun o => ?_
  rcases o with _ | t
  · exact .unexpected _
  refine (Answers.nodeAt .beginStmt t).bind fun statement hnode => ?_
  have h := hnode.toOver.complete rfl
  split
  · exact .skip fun _ => .finish lasting_complete h
  · refine (transactionMode?_answers lasting_complete h).bind fun statement h => ?_
    exact .skip fun _ => .finish lasting_complete h

theorem commit_answers : Answers commit Complete := by
  unfold commit
  refine .skip fun o => ?_
  rcases o with _ | t
  · exact .unexpected _
  refine (Answers.nodeAt .commitStmt t).bind fun statement hnode => .skip fun _ => ?_
  exact .finish lasting_complete (hnode.toOver.complete rfl)

theorem rollback_answers : Answers rollback Complete := by
  unfold rollback
  refine .skip fun t => (Answers.nodeAt .rollbackStmt t).bind fun statement hnode => ?_
  have h := hnode.toOver.complete rfl
  refine .skip fun _ => .either (.skip fun _ => ?_) (.finish lasting_complete h)
  exact finishNamed_answers h _

theorem savepoint_answers : Answers savepoint Complete :=
  .skip fun t => (Answers.nodeAt .savepointStmt t).bind fun _ hnode =>
    finishNamed_answers (hnode.toOver.complete rfl) _

theorem release_answers : Answers release Complete :=
  .skip fun t => (Answers.nodeAt .releaseStmt t).bind fun _ hnode => .skip fun _ =>
    finishNamed_answers (hnode.toOver.complete rfl) _

theorem detachDatabase_answers : Answers detachDatabase Complete :=
  .skip fun t => (Answers.nodeAt .detachStmt t).bind fun _ hnode => .skip fun _ =>
    finishNamed_answers (hnode.toOver.complete rfl) _

theorem queryPlan?_answers (hP : Lasting P) (h : P t) : Answers (queryPlan? t) P := by
  unfold queryPlan?
  exact .either (.skip fun _ => .flag hP h nofun) (.pure h)

/-- A name of an object that may follow a statement. -/
theorem attachName_answers (h : t.Over k) (condition : Bool) :
    Answers (attachIf condition (objectName .objectName) t) (Over k) :=
  .underIf h ((objectName_answers .objectName).weaken fun _ h => h.complete rfl) condition

theorem upkeep_answers {kind : Kind} (hk : kind.places? false = none) (word : Keyword) :
    Answers (upkeep kind word) Complete := by
  unfold upkeep
  refine .skip fun t => (Answers.nodeAt kind t).bind fun statement hnode => .skip fun b => ?_
  refine (attachName_answers hnode.toOver b).bind fun statement h => ?_
  exact .finish lasting_complete (h.complete hk)

include hinner

theorem explain_answers : Answers (explain inner) Complete := by
  unfold explain
  refine .skip fun t => (Answers.nodeAt .explainStmt t).bind fun statement hnode => ?_
  refine (queryPlan?_answers lasting_over hnode.toOver).bind fun statement h => ?_
  refine hinner.statement.bind fun explained hexplained => ?_
  refine (Answers.under h hexplained).bind fun statement h => ?_
  exact .finish lasting_complete (h.complete rfl)

theorem setting_answers : Answers (setting inner) Complete := by
  unfold setting
  refine .skip fun t => (Answers.nodeAt .setStmt t).bind fun statement hnode => ?_
  refine (Answers.underList hnode.toOver (Change.assignment_answers hinner)).bind ?_
  exact fun statement h => .finish lasting_complete (h.complete rfl)

theorem pragmaValue_answers : Answers (pragmaValue inner) Complete := by
  unfold pragmaValue
  refine .skip fun o => ?_
  rcases o with _ | word
  · exact (hinner.expression 0).complete
  · exact (Answers.namedNode .identifier word).weaken fun _ h => h.toOver.complete rfl

theorem pragma_answers : Answers (pragma inner) Complete := by
  have hvalue : ∀ {statement value : Tree}, statement.Over .pragmaStmt → value.Complete →
      Answers (do finish (← attach statement value)) Complete := fun h hvalue =>
    (Answers.under h hvalue).bind fun _ h => .finish lasting_complete (h.complete rfl)
  unfold pragma
  refine .skip fun t => (Answers.nodeAt .pragmaStmt t).bind fun statement hnode => ?_
  refine (objectName_answers .objectName).bind fun name hname => ?_
  refine (Answers.under hnode.toOver (hname.complete rfl)).bind fun statement h => ?_
  refine .either ((pragmaValue_answers hinner).bind fun value => hvalue h) ?_
  refine .either ?_ (.finish lasting_complete (h.complete rfl))
  exact (pragmaValue_answers hinner).bind fun value hv => .skip fun _ => hvalue h hv

theorem vacuum_answers : Answers (vacuum inner) Complete := by
  unfold vacuum
  refine .skip fun t => (Answers.nodeAt .vacuumStmt t).bind fun statement hnode => ?_
  refine .skip fun b => (attachName_answers hnode.toOver b).bind fun statement h => ?_
  refine .skip fun b => (Answers.underIf h (hinner.expression 0).complete b).bind ?_
  exact fun statement h => .finish lasting_complete (h.complete rfl)

theorem attachDatabase_answers : Answers (attachDatabase inner) Complete := by
  unfold attachDatabase
  refine .skip fun t => (Answers.nodeAt .attachStmt t).bind fun statement hnode => ?_
  refine .skip fun _ => (hinner.expression 0).bind fun file hfile => ?_
  refine (Answers.under hnode.toOver hfile.complete).bind fun statement h => ?_
  exact .skip fun _ => finishNamed_answers (h.complete rfl) _

end Utility

/-! ## Statements -/

namespace Statement

include hinner

theorem afterWith_answers {clause : Tree} (h : clause.Fit (·.kind == .withClause)) :
    Answers (afterWith inner clause) Complete := by
  have hprepend : ∀ {p : Parser Tree} {kind : Kind}, kind.places? false = none →
      Answers p (Over kind) → Answers (do prepend (← p) clause) Complete := by
    refine fun hk hp => hp.bind fun statement hstatement => ?_
    refine (Answers.prepend statement clause).weaken ?_
    rintro _ rfl
    exact (hstatement.prepend h.complete).complete hk
  unfold afterWith
  refine .skip fun o => ?_
  split
  · exact hprepend rfl (Change.insert_answers hinner)
  · exact hprepend rfl (Change.insert_answers hinner)
  · exact hprepend rfl (Change.update_answers hinner)
  · exact hprepend rfl (Change.delete_answers hinner)
  · exact (Query.afterWith_answers hinner h).complete

theorem extension_answers (t : Token) (word : Keyword) :
    Answers (extension inner t word) Complete := by
  unfold extension
  refine .skip fun scope => ?_
  split
  · split
    · exact Utility.pragma_answers hinner
    · exact Utility.vacuum_answers hinner
    · exact Utility.attachDatabase_answers hinner
    · exact Utility.detachDatabase_answers
    · exact Utility.upkeep_answers rfl _
  · exact .throw _

theorem ofKeyword_answers (t : Token) (word : Keyword) :
    Answers (ofKeyword inner t word) Complete := by
  unfold ofKeyword
  split
  · exact (query_answers hinner).complete
  · exact (query_answers hinner).complete
  · exact (Query.withClause_answers hinner).bind fun _ h => afterWith_answers hinner h
  · exact (Change.insert_answers hinner).weaken fun _ h => h.complete rfl
  · exact (Change.insert_answers hinner).weaken fun _ h => h.complete rfl
  · exact (Change.update_answers hinner).weaken fun _ h => h.complete rfl
  · exact (Change.delete_answers hinner).weaken fun _ h => h.complete rfl
  · exact Schema.create_answers hinner
  · exact Schema.drop_answers
  · exact Schema.alter_answers hinner
  · exact Schema.truncate_answers
  · exact Utility.begin_answers
  · exact Utility.begin_answers
  · exact Utility.commit_answers
  · exact Utility.commit_answers
  · exact Utility.rollback_answers
  · exact Utility.savepoint_answers
  · exact Utility.release_answers
  · exact Utility.explain_answers hinner
  · exact Utility.setting_answers hinner
  · exact extension_answers hinner t _
  · exact extension_answers hinner t _
  · exact extension_answers hinner t _
  · exact extension_answers hinner t _
  · exact extension_answers hinner t _
  · exact Utility.upkeep_answers rfl _
  · exact .unexpected _

end Statement

theorem statement_answers (hinner : inner.Fits) : Answers (statement inner) Complete := by
  unfold statement
  refine .deeper (.skip fun o => ?_)
  rcases o with _ | t
  · exact .unexpected _
  dsimp only
  split
  · exact Statement.ofKeyword_answers hinner t _
  · exact .unexpected _

/-- However deep the productions call one another, what they answer is complete. -/
theorem Nested.upTo_fits : ∀ n, (Nested.upTo n).Fits
  | 0 => ⟨fun _ => .unexpected _, .unexpected _, .unexpected _, .unexpected _⟩
  | n + 1 => by
    have ih := upTo_fits n
    rw [upTo_succ]
    exact {
      expression := expression_answers ih
      query := query_answers ih
      joinTree := joinTree_answers ih
      statement := statement_answers ih }

end SqlSyntax
