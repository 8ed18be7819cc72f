import SqlSyntax.Grammar.Statement
import SqlSyntax.Proofs.Boundary.Change

/-!
# Schema statements and statements as such

The constraint of a table takes a token before it looks at it, but it stands in the parentheses of
its table, so the token is not the semicolon. Statements that have semicolons inside, or that may
take one, begin with words that are not there. So no production takes the semicolon, however deep
the productions call one another (`Boundary.serves`).
-/

namespace SqlSyntax

open SqlSyntax.Parser SqlSyntax.Boundary

variable {B : Boundary} {d : Nat} {self : Nested}

namespace Schema

/-! ## Constraints -/

theorem onConflict?_stays (node : Tree) : B.Stays d (onConflict? node) := by
  unfold onConflict?
  refine (Leads.seesKeyword .ON).bind fun b => ?_
  refine (Leads.look fun ts => ts[1]?.map Token.kind).bind fun second => ?_
  split
  · next hsecond =>
    obtain rfl := eq_of_beq (Bool.and_eq_true_iff.1 hsecond).2
    refine .after (fun ts h => (⟨h.2, h.1.symm⟩ :
      B.Inside d ts ∧ ts[1]?.map Token.kind = some (.keyword .CONFLICT))) ?_
    refine (Leads.expectFirst rfl _).bind fun on => ?_
    refine (Leads.takeInner rfl).discard.bind fun _ => ?_
    refine Change.conflictWord_stays.bind fun word => ?_
    exact (Change.conflictAction_stays on word).bind fun action => .attach node action
  · exact .after (fun ts h => h.2) (.answer node)

theorem expectNullOrDefault_stays : B.Stays d expectNullOrDefault := by
  unfold expectNullOrDefault
  refine (Leads.consumeKeyword .NULL).bind fun b => ?_
  cases b
  · refine (Leads.consumeKeyword .DEFAULT).bind fun b => ?_
    cases b
    · exact .unexpected _
    · exact .answer ()
  · exact .answer ()

theorem expectSpelling_stays {word : String}
    (hword : ∀ mark ∈ outerMarks, sameWord mark word = false) :
    B.Stays d (expectSpelling word) := by
  unfold expectSpelling
  refine (Leads.takeIf? fun t ht => isInner_of_sameWord ht hword).bind fun o => ?_
  rcases o with _ | t
  · exact .unexpected _
  · exact .answer t

theorem referentialAction_stays (node : Tree) : B.Stays d (referentialAction node) := by
  unfold referentialAction
  refine .current fun t ht => ?_
  have htake (hk : t.kind.isInner) : B.Leads (B.At d t.kind) (discard advance)
      fun _ => B.Inside d := (Leads.takeInner hk).discard
  have hkeyword {k : Keyword} (hk : t.kind == .keyword k) : t.kind.isInner := by
    rw [eq_of_beq hk]
    rfl
  dsimp only
  split_ifs with hcascade hrestrict hset hno
  · exact (htake (hkeyword hcascade)).bind fun _ => .flag node _
  · exact (htake (hkeyword hrestrict)).bind fun _ => .flag node _
  · refine (htake (hkeyword hset)).bind fun _ => ?_
    exact expectNullOrDefault_stays.bind fun _ => .answer node
  · refine (htake (isInner_of_sameWord ht (by decide +kernel) hno)).bind fun _ => ?_
    exact (expectSpelling_stays (by decide +kernel)).discard.bind fun _ => .answer node
  · exact .unexpected _

theorem onChange?_stays (node : Tree) : B.Stays d (onChange? node) := by
  have hchange (k : Keyword) : B.Leads
      (fun ts => B.At d (.keyword .ON) ts ∧ ts[1]?.map Token.kind = some (.keyword k)) (do
        discard advance
        discard advance
        return some (← referentialAction node)) fun _ => B.Inside d := by
    refine (Leads.takeFirst rfl).discard.bind fun _ => ?_
    refine (Leads.takeInner rfl).discard.bind fun _ => ?_
    exact (referentialAction_stays node).bind fun _ => .answer _
  unfold onChange?
  refine .ifSees (.keyword .ON) ?_ (.answer _)
  refine (Leads.look fun ts => ts[1]?.map Token.kind).bind fun second => ?_
  refine .after (fun ts h => (⟨h.2, h.1.symm⟩ :
    B.At d (.keyword .ON) ts ∧ ts[1]?.map Token.kind = second)) ?_
  split
  · exact hchange .DELETE
  · exact hchange .UPDATE
  · exact .pure fun ts h => h.1.1

theorem references_stays : B.Stays d references := by
  unfold references
  refine (Leads.expectKeyword _).discard.bind fun _ => ?_
  refine (objectName_stays _).bind fun node => (Leads.sees _).bind fun b => ?_
  refine (Leads.attachIf b columnList_stays node).bind fun node => ?_
  exact (Leads.iterate onChange?_stays node).bind fun node => .finish node

theorem constraintName?_stays : B.Stays d constraintName? := by
  unfold constraintName?
  refine (Leads.consumeKeyword .CONSTRAINT).bind fun b => ?_
  cases b
  · exact .answer _
  · exact (Leads.expectName _).bind fun _ => .answer _

theorem check_stays (hself : B.Serves self) (start : Token) : B.Stays d (check self start) := by
  unfold check
  refine (Leads.nodeAt .checkConstraint start).bind fun node => ?_
  refine (Leads.opens _).discard.bind fun _ => ?_
  refine (hself.expression 0).bind fun condition => ?_
  exact (Leads.closes _).bind fun _ => .attach node condition

theorem finishConstraint_stays (name : Option Token) (node : Tree) :
    B.Stays d (finishConstraint name node) := by
  rcases name with _ | t
  · exact .finish node
  · exact (Leads.setText node t).bind fun node => .finish node

theorem autoincrement?_stays (node : Tree) : B.Stays d (autoincrement? node) :=
  (Leads.consumeKeyword _).bind fun b => .flagIf b _ node

theorem columnConstraintBody?_leads (hself : B.Serves self) (start : Token) (kind : TokenKind) :
    B.Leads (B.At d kind) (columnConstraintBody? self start kind) fun _ => B.Inside d := by
  have htake (k : Keyword) : B.Leads (B.At d (.keyword k)) (discard advance) fun _ => B.Inside d :=
    (Leads.takeInner rfl).discard
  unfold columnConstraintBody?
  split
  · refine (htake _).bind fun _ => (Leads.expectKeyword _).discard.bind fun _ => ?_
    refine (Leads.nodeAt .primaryKeyConstraint start).bind fun node => ?_
    refine (direction_stays node).bind fun node => ?_
    refine (onConflict?_stays node).bind fun node => ?_
    exact (autoincrement?_stays node).bind fun _ => .answer _
  · refine (htake _).bind fun _ => (Leads.expectKeyword _).discard.bind fun _ => ?_
    refine (Leads.nodeAt .notNullConstraint start).bind fun node => ?_
    exact (onConflict?_stays node).bind fun _ => .answer _
  · refine (htake _).bind fun _ => ?_
    exact (Leads.nodeAt .nullConstraint start).bind fun _ => .answer _
  · refine (htake _).bind fun _ => ?_
    refine (Leads.nodeAt .uniqueConstraint start).bind fun node => ?_
    exact (onConflict?_stays node).bind fun _ => .answer _
  · refine (htake _).bind fun _ => ?_
    exact (check_stays hself start).bind fun _ => .answer _
  · refine (htake _).bind fun _ => ?_
    refine (Leads.nodeAt .defaultConstraint start).bind fun node => ?_
    refine (hself.expression _).bind fun value => ?_
    exact (Leads.attach node value).bind fun _ => .answer _
  · refine (htake _).bind fun _ => ?_
    refine (Leads.expectNamePart _).bind fun collation => ?_
    refine (Leads.nodeAt .collateConstraint start).bind fun node => ?_
    exact (Leads.setText node collation).bind fun _ => .answer _
  · refine .seen (references_stays.bind fun target => ?_)
    refine (Leads.nodeAt .foreignKeyConstraint start).bind fun node => ?_
    exact (Leads.attach node target).bind fun _ => .answer _
  · exact .seen (.answer _)

theorem columnConstraint?_stays (hself : B.Serves self) : B.Stays d (columnConstraint? self) := by
  unfold columnConstraint?
  refine .current fun start _ => .seen ?_
  refine constraintName?_stays.bind fun name => .current fun t _ => ?_
  refine (columnConstraintBody?_leads hself start t.kind).bind fun o => ?_
  rcases o with _ | node
  · dsimp only
    split
    · exact .unexpected _
    · exact .answer _
  · exact (finishConstraint_stays name node).bind fun _ => .answer _

/-! ## Columns and tables -/

theorem columnType?_stays (column : Tree) : B.Stays d (columnType? column) := by
  unfold columnType?
  refine .current fun start _ => .seen ?_
  dsimp only
  split
  · refine typeName_stays.bind ?_
    rintro ⟨text, dataType⟩
    refine (Leads.nodeAt .typeName start).bind fun type => ?_
    refine (Leads.amend type _).bind fun type => ?_
    refine (Leads.finish type).bind fun type => ?_
    exact (Leads.attach column type).bind fun column => .amend column _
  · exact .answer column

theorem columnDefinition_stays (hself : B.Serves self) : B.Stays d (columnDefinition self) := by
  unfold columnDefinition
  refine (Leads.expectName _).bind fun name => ?_
  refine (Leads.namedNode .columnDef name).bind fun column => ?_
  refine (columnType?_stays column).bind fun column => ?_
  refine (Leads.attachWhile (columnConstraint?_stays hself) column).bind fun column => ?_
  exact .finish column

/-- Unless its first token is a keyword for one, the constraint fails. -/
theorem tableConstraintBody_leads (hself : B.Serves self) (start t : Token) :
    B.Leads (fun ts => t.kind.isInner → B.Inside d ts) (tableConstraintBody self start t)
      fun _ => B.Inside d := by
  have hkeyword {k : Keyword} {p : Parser Tree} (hk : t.kind = .keyword k) (hp : B.Stays d p) :
      B.Leads (fun ts => t.kind.isInner → B.Inside d ts) p fun _ => B.Inside d :=
    .after (fun ts h => h (by rw [hk]; rfl)) hp
  unfold tableConstraintBody
  split
  · next hk =>
    refine hkeyword hk ((Leads.expectKeyword _).discard.bind fun _ => ?_)
    refine (Leads.nodeAt .primaryKeyConstraint start).bind fun node => ?_
    refine columnList_stays.bind fun columns => ?_
    exact (Leads.attach node columns).bind fun node => onConflict?_stays node
  · next hk =>
    refine hkeyword hk ((Leads.nodeAt .uniqueConstraint start).bind fun node => ?_)
    refine columnList_stays.bind fun columns => ?_
    exact (Leads.attach node columns).bind fun node => onConflict?_stays node
  · next hk => exact hkeyword hk (check_stays hself start)
  · next hk =>
    refine hkeyword hk ((Leads.expectKeyword _).discard.bind fun _ => ?_)
    refine (Leads.nodeAt .foreignKeyConstraint start).bind fun node => ?_
    refine columnList_stays.bind fun columns => ?_
    refine (Leads.attach node columns).bind fun node => ?_
    exact references_stays.bind fun target => .attach node target
  · exact .fail _

/-- A parenthesis is open, so the token that is taken unseen stands before the semicolon. -/
theorem tableConstraint_stays (hself : B.Serves self) :
    B.Stays (d + 1) (tableConstraint self) := by
  unfold tableConstraint
  refine .current fun start _ => .seen ?_
  refine constraintName?_stays.bind fun name => ?_
  have hadvance : B.Leads (B.Inside (d + 1)) advance fun o ts =>
      ∀ t ∈ o, t.kind.isInner → B.Inside (d + 1) ts := by
    refine .advance fun t ts hinside => ⟨hinside.tail (.inl (Nat.succ_pos d)), ?_⟩
    rintro _ ⟨⟩ hk
    exact hinside.next (.inner hk)
  refine hadvance.bind fun o => ?_
  rcases o with _ | t
  · exact .unexpected _
  · refine .after (fun ts h => h t rfl) ?_
    refine (tableConstraintBody_leads hself start t).bind fun node => ?_
    exact finishConstraint_stays name node

theorem tableElement_stays (hself : B.Serves self) : B.Stays (d + 1) (tableElement self) := by
  unfold tableElement
  refine (Leads.seesOneOf _).bind fun b => ?_
  cases b
  · exact columnDefinition_stays hself
  · exact tableConstraint_stays hself

theorem withoutRowid?_stays (statement : Tree) : B.Stays d (withoutRowid? statement) := by
  unfold withoutRowid?
  refine (Leads.takeKeyword? .WITHOUT).bind fun o => ?_
  rcases o with _ | t
  · exact .answer statement
  · have htake : B.Stays d (takeIf? (sameWord ·.text "ROWID")) :=
      .takeIf? fun t ht => isInner_of_sameWord ht (by decide +kernel)
    refine htake.bind fun o => ?_
    rcases o with _ | _
    · exact .fail _
    · exact .flag statement _

theorem createTable_stays (hself : B.Serves self) (statement : Tree) :
    B.Stays d (createTable self statement) := by
  unfold createTable
  refine (objectName_stays _).bind fun name => ?_
  refine (Leads.attach statement name).bind fun statement => ?_
  refine (Leads.consumeKeyword .AS).bind fun b => ?_
  cases b
  · refine (Leads.opens _).discard.bind fun _ => ?_
    refine (Leads.attachList (tableElement_stays hself) statement).bind fun statement => ?_
    exact (Leads.closes _).bind fun _ => withoutRowid?_stays statement
  · exact hself.query.bind fun query => .attach statement query

/-! ## Indexes and views -/

theorem indexedColumn_stays (hself : B.Serves self) : B.Stays d (indexedColumn self) := by
  unfold indexedColumn
  refine (hself.expression 0).bind fun key => ?_
  refine (Leads.nodeOver .indexedColumn key).bind fun column => ?_
  refine (Leads.attach column key).bind fun column => ?_
  exact (direction_stays column).bind fun column => .finish column

theorem createIndex_stays (hself : B.Serves self) (statement : Tree) :
    B.Stays d (createIndex self statement) := by
  unfold createIndex
  refine (objectName_stays _).bind fun name => ?_
  refine (Leads.attach statement name).bind fun statement => ?_
  refine (Leads.expectKeyword .ON).discard.bind fun _ => ?_
  refine (objectName_stays _).bind fun table => ?_
  refine (Leads.attach statement table).bind fun statement => ?_
  refine (Leads.opens _).discard.bind fun _ => ?_
  refine (Leads.attachList (indexedColumn_stays hself) statement).bind fun statement => ?_
  exact (Leads.closes _).bind fun _ => Query.whereClause?_stays hself statement

theorem createView_stays (hself : B.Serves self) (statement : Tree) :
    B.Stays d (createView self statement) := by
  unfold createView
  refine (objectName_stays _).bind fun name => ?_
  refine (Leads.attach statement name).bind fun statement => (Leads.sees _).bind fun b => ?_
  refine (Leads.attachIf b columnList_stays statement).bind fun statement => ?_
  refine (Leads.expectKeyword .AS).discard.bind fun _ => ?_
  exact hself.query.bind fun query => .attach statement query

/-! ## What is made and dropped -/

theorem isInner_of_creationKind? {kind : TokenKind} {made : Kind × Bool}
    (h : creationKind? kind = some made) : kind.isInner := by
  unfold creationKind? at h
  split at h <;> first | rfl | cases h

theorem eq_trigger_of_creationKind? {kind : TokenKind} {b : Bool}
    (h : creationKind? kind = some (.createTriggerStmt, b)) : kind = .keyword .TRIGGER := by
  unfold creationKind? at h
  split at h <;> first | rfl | cases h

theorem creationBody_stays (hself : B.Serves self) {statement : Tree}
    (h : statement.kind ≠ .createTriggerStmt) : B.Stays d (creationBody self statement) := by
  unfold creationBody
  split
  · exact createTable_stays hself statement
  · exact createIndex_stays hself statement
  · exact createView_stays hself statement
  · contradiction
  · exact (objectName_stays _).bind fun name => .attach statement name

theorem temporary?_stays : B.Stays d temporary? := by
  unfold temporary?
  refine (Leads.consumeKeyword .TEMP).bind fun b => ?_
  cases b
  · exact .consumeKeyword _
  · exact .answer true

/-- The node of the statement is of the kind that it was. -/
theorem ifNotExists?_leads (statement : Tree) :
    B.Leads (B.Inside d) (ifNotExists? statement) fun t ts =>
      t.kind = statement.kind ∧ B.Inside d ts := by
  unfold ifNotExists?
  refine (Leads.consumeKeyword .IF).bind fun b => ?_
  cases b
  · exact .pure fun ts h => ⟨rfl, h⟩
  · refine (Leads.expectKeyword _).discard.bind fun _ => ?_
    exact (Leads.expectKeyword _).discard.bind fun _ => .flagKind statement _

/-- What the token names is no trigger. -/
theorem creationKind_leads (temporary unique : Bool) (t : Token) :
    B.Leads (B.At d t.kind) (creationKind temporary unique t) fun kind ts =>
      (t.kind.isInner ∧ kind ≠ .createTriggerStmt) ∧ B.At d t.kind ts := by
  refine .given (fun ts h => ⟨h.ne_trigger, h⟩) fun htrigger => ?_
  unfold creationKind
  split
  · exact .unexpected _
  · next kind mayBeTemporary hmade =>
    split_ifs
    · exact .fail _
    · exact .fail _
    · refine .pure fun ts h => ⟨⟨isInner_of_creationKind? hmade, ?_⟩, h⟩
      rintro rfl
      exact htrigger (eq_trigger_of_creationKind? hmade)

theorem create_stays (hself : B.Serves self) : B.Stays d (create self) := by
  unfold create
  refine (Leads.expectKeyword .CREATE).bind fun start => temporary?_stays.bind fun temporary => ?_
  refine (Leads.consumeKeyword .UNIQUE).bind fun unique => .current fun t _ => ?_
  refine (creationKind_leads temporary unique t).bind fun kind => ?_
  refine .given (fun ts h => h) fun ⟨hinner, hkind⟩ => ?_
  refine (Leads.takeInner hinner).discard.bind fun _ => ?_
  refine (Leads.kindedNode kind start).bind fun statement => .given (fun ts h => h) fun hnode => ?_
  refine (Leads.flagIfKind _ _ statement).bind fun u => .given (fun ts h => h) fun hu => ?_
  refine (Leads.flagIfKind _ _ u).bind fun v => .given (fun ts h => h) fun hv => ?_
  refine (ifNotExists?_leads v).bind fun w => .given (fun ts h => h) fun hw => ?_
  have hmade : w.kind ≠ .createTriggerStmt := by rwa [hw, hv, hu, hnode]
  exact (creationBody_stays hself hmade).bind fun statement => .finish statement

theorem dropBehavior?_stays (statement : Tree) : B.Stays d (dropBehavior? statement) := by
  unfold dropBehavior?
  refine (Leads.consumeKeyword .CASCADE).bind fun b => ?_
  cases b
  · refine (Leads.consumeKeyword .RESTRICT).bind fun b => ?_
    cases b
    · exact .answer statement
    · exact .flag statement _
  · exact .flag statement _

theorem ifExists?_stays (statement : Tree) : B.Stays d (ifExists? statement) := by
  unfold ifExists?
  refine (Leads.consumeKeyword .IF).bind fun b => ?_
  cases b
  · exact .answer statement
  · exact (Leads.expectKeyword _).discard.bind fun _ => .flag statement _

theorem drop_stays : B.Stays d drop := by
  have htake : B.Stays d (takeIf? fun t => (creationKind? t.kind).isSome) := by
    refine .takeIf? fun t _ htest => ?_
    obtain ⟨made, hmade⟩ := Option.isSome_iff_exists.1 htest
    exact isInner_of_creationKind? hmade
  unfold drop
  refine (Leads.expectKeyword .DROP).bind fun start => htake.bind fun o => ?_
  rcases o with _ | t
  · exact .unexpected _
  · refine (Leads.nodeAt .dropStmt start).bind fun statement => ?_
    refine (Leads.setText statement t).bind fun statement => ?_
    refine (ifExists?_stays statement).bind fun statement => ?_
    refine (Leads.attachList (objectName_stays _) statement).bind fun statement => ?_
    exact (dropBehavior?_stays statement).bind fun statement => .finish statement

theorem truncate_stays : B.Stays d truncate := by
  unfold truncate
  refine (Leads.expectKeyword .TRUNCATE).bind fun start => ?_
  refine (Leads.consumeKeyword _).discard.bind fun _ => ?_
  refine (Leads.nodeAt .truncateStmt start).bind fun statement => ?_
  refine (objectName_stays _).bind fun table => ?_
  exact (Leads.attach statement table).bind fun statement => .finish statement

end Schema

namespace Statement

theorem afterWith_stays (hself : B.Serves self) (clause : Tree) :
    B.Stays d (afterWith self clause) := by
  unfold afterWith
  refine .currentKind fun kind => ?_
  split
  · next h => cases h; exact (Change.insert_leads hself _).bind fun node => .prepend node clause
  · next h => cases h; exact (Change.insert_leads hself _).bind fun node => .prepend node clause
  · exact .seen ((Change.update_stays hself).bind fun node => .prepend node clause)
  · exact .seen ((Change.delete_stays hself).bind fun node => .prepend node clause)
  · exact .seen (Query.afterWith_stays hself clause)

theorem extension_stays (hself : B.Serves self) (t : Token) (k : Keyword) :
    B.Stays d (extension self t k) := by
  unfold extension
  refine .askIf (c := Config.allowExtensions) ?_ (.fail _)
  split
  · exact Utility.pragma_stays hself
  · exact Utility.vacuum_stays hself
  · exact Utility.attachDatabase_stays hself
  · exact Utility.detachDatabase_stays
  · exact Utility.upkeep_stays _ _

theorem ofKeyword_leads (hself : B.Serves self) (t : Token) (k : Keyword) :
    B.Leads (B.At d (.keyword k)) (ofKeyword self t k) fun _ => B.Inside d := by
  refine .given (fun ts h => ⟨h.ne_alter, h⟩) fun halter => ?_
  unfold ofKeyword
  split
  · exact .seen (query_stays hself)
  · exact .seen (query_stays hself)
  · exact .seen ((Query.withClause_stays hself).bind fun clause => afterWith_stays hself clause)
  · exact Change.insert_leads hself _
  · exact Change.insert_leads hself _
  · exact .seen (Change.update_stays hself)
  · exact .seen (Change.delete_stays hself)
  · exact .seen (Schema.create_stays hself)
  · exact .seen Schema.drop_stays
  · contradiction
  · exact .seen Schema.truncate_stays
  · exact Utility.begin_leads _
  · exact Utility.begin_leads _
  · exact Utility.commit_leads _
  · exact Utility.commit_leads _
  · exact .seen Utility.rollback_stays
  · exact .seen Utility.savepoint_stays
  · exact .seen Utility.release_stays
  · exact .seen (Utility.explain_stays hself)
  · exact .seen (Utility.setting_stays hself)
  · exact .seen (extension_stays hself t _)
  · exact .seen (extension_stays hself t _)
  · exact .seen (extension_stays hself t _)
  · exact .seen (extension_stays hself t _)
  · exact .seen (extension_stays hself t _)
  · exact .seen (Utility.upkeep_stays _ _)
  · exact .unexpected _

end Statement

theorem kind_of_keyword? {t : Token} {k : Keyword} (h : t.keyword? = some k) :
    t.kind = .keyword k := by
  unfold Token.keyword? at h
  split at h
  · next hk => rw [hk, Option.some.inj h]
  · cases h

theorem statement_stays (hself : B.Serves self) : B.Stays d (statement self) := by
  unfold statement
  refine .deeper (.current fun t _ => ?_)
  dsimp only
  split
  · next k hk =>
    rw [kind_of_keyword? hk]
    exact Statement.ofKeyword_leads hself t k
  · exact .unexpected _

/-- No production takes the semicolon, and each leaves as many parentheses open as it finds. -/
theorem Boundary.serves (B : Boundary) : ∀ n, B.Serves (Nested.upTo n)
  | 0 => ⟨fun _ => .unexpected _, .unexpected _, .unexpected _, .unexpected _⟩
  | n + 1 => by
    have ih := B.serves n
    rw [Nested.upTo_succ]
    exact ⟨fun power => expression_stays ih power, query_stays ih, joinTree_stays ih,
      statement_stays ih⟩

end SqlSyntax
