import SqlSyntax.Grammar.Statement
import SqlSyntax.Proofs.Pairing.Change

/-!
# Statements in two runs

Schema statements, and the whole grammar. A few words are told by their spelling, which is alike in
both runs, and a few tokens are taken before it is clear that they may be there: the run then fails
at once.
-/

namespace SqlSyntax

open SqlSyntax.Parser SqlSyntax.Pairing

variable {W : Pairing} {self : Nested} {t t' : Token} {u u' : Tree} {k : Kind}

namespace Schema

theorem onConflict?_alike (hW : W.Lawful) (hu : W.Made k u u') :
    W.Alike (onConflict? u) (onConflict? u') (W.Made k) := by
  unfold onConflict?
  refine (Runs.seesKeyword hW .ON).thenSame fun b => ?_
  refine (Runs.kindAt hW 1).thenSame fun second => ?_
  split
  · next h =>
    obtain rfl := eq_of_beq (Bool.and_eq_true_iff.1 h).2
    refine .after (fun _ h => h.1.symm) ((Runs.expectBefore hW rfl _).bind fun on on' hon => ?_)
    have hconflict : ∀ ts, (on :: ts)[1]?.map Token.kind = some (.keyword .CONFLICT) →
        ts[0]?.map Token.kind = some (.keyword .CONFLICT) := fun _ h => h
    refine .after hconflict ((Runs.takeKind hW rfl).bind fun _ _ _ => ?_)
    refine (Change.conflictWord_alike hW).bind fun word word' hword => ?_
    exact (Change.conflictAction_alike hW hon hword).bind fun _ _ haction =>
      .attach hW hu (haction.fits rfl)
  · exact .seen (.answer hu)

theorem expectNullOrDefault_alike (hW : W.Lawful) :
    W.Alike expectNullOrDefault expectNullOrDefault fun _ _ => True := by
  unfold expectNullOrDefault
  refine (Runs.consumeKeyword hW .NULL).branch ?_ ?_
  · refine (Runs.consumeKeyword hW .DEFAULT).branch ?_ ?_
    · exact .unexpected hW _
    · exact .answer trivial
  · exact .answer trivial

theorem expectSpelling_alike (hW : W.Lawful) {word : String}
    (hword : word ∈ ["ROWID", "NO", "ACTION"]) :
    W.Alike (expectSpelling word) (expectSpelling word) W.tok := by
  unfold expectSpelling
  refine (Runs.takeWhere? hW (fun ht => hW.word ht word) fun ht h =>
    hW.plain_word ht hword h).bind fun o o' ho => ?_
  rcases ho with ⟨ht, -⟩ | _
  · exact .answer ht
  · exact .unexpected hW _

theorem referentialAction_alike (hW : W.Lawful) (hu : W.Made k u u') :
    W.Alike (referentialAction u) (referentialAction u') (W.Made k) := by
  unfold referentialAction
  refine .ofCurrent (.unexpected hW _) fun t t' ht => ?_
  dsimp only
  rw [← hW.kind ht, ← hW.word ht]
  have hplain {k : Keyword} (h : (t.kind == .keyword k) = true) : t.kind.isPlain := by
    rw [eq_of_beq h]
    rfl
  split_ifs with hcascade hrestrict hset hno
  · exact .takePlain hW (hplain hcascade) (.flag hW _ nofun hu)
  · exact .takePlain hW (hplain hrestrict) (.flag hW _ nofun hu)
  · exact .takePlain hW (hplain hset) ((expectNullOrDefault_alike hW).bind fun _ _ _ => .answer hu)
  · refine .takePlain hW (hW.plain_word ht (by decide) hno) ?_
    exact (expectSpelling_alike hW (by decide)).discard.bind fun _ _ _ => .answer hu
  · exact .unexpected hW _

theorem onChange?_alike (hW : W.Lawful) (hu : W.Made k u u') :
    W.Alike (onChange? u) (onChange? u') (Option.Rel (W.Made k)) := by
  have hchange {word : Keyword} : W.Runs (fun ts => ts[0]?.map Token.kind = some (.keyword .ON) ∧
        ts[1]?.map Token.kind = some (.keyword word))
      (do discard advance; discard advance; return some (← referentialAction u))
      (do discard advance; discard advance; return some (← referentialAction u'))
      (Option.Rel (W.Made k)) fun _ => anything := by
    have hsecond : ∀ ts, (∃ t : Token, (t :: ts)[1]?.map Token.kind = some (.keyword word)) →
        ts[0]?.map Token.kind = some (.keyword word) := fun ts ⟨_, h⟩ => h
    refine (Runs.takeFirst hW rfl).bind fun _ _ _ => ?_
    refine .after hsecond ((Runs.takeKind hW rfl).bind fun _ _ _ => ?_)
    exact (referentialAction_alike hW hu).bind fun _ _ hu => .answer (.some hu)
  unfold onChange?
  refine (Runs.sees hW _).branch ?_ ?_
  · exact .seen (.answer .none)
  · refine (Runs.kindAt hW 1).thenSame fun o => ?_
    split
    · exact .after (fun _ h => ⟨h.2.1 rfl, h.1.symm⟩) hchange
    · exact .after (fun _ h => ⟨h.2.1 rfl, h.1.symm⟩) hchange
    · exact .seen (.answer .none)

theorem references_alike (hW : W.Lawful) :
    W.Alike references references (W.Made .referencesClause) := by
  unfold references
  refine (Runs.expectKeyword hW _).discard.bind fun _ _ _ => ?_
  refine (objectName_alike hW rfl).bind fun node node' hnode => ?_
  refine (Runs.sees hW _).forget.thenSame fun b => ?_
  refine (Runs.attachIf hW b (columnList_alike hW) hnode fun _ _ h => h.fits rfl).bind
    fun node node' hnode => ?_
  exact (Runs.iterate (fun _ _ h => onChange?_alike hW h) hnode).bind fun _ _ h => .finish hW h

/-! ## Constraints -/

theorem constraintName?_alike (hW : W.Lawful) :
    W.Alike constraintName? constraintName? (Option.Rel W.tok) := by
  unfold constraintName?
  refine (Runs.consumeKeyword hW .CONSTRAINT).branch ?_ ?_
  · exact .answer .none
  · exact (Runs.expectName hW _).bind fun _ _ ht => .answer (.some ht)

theorem check_alike (hW : W.Lawful) (hself : W.Serves self) (ht : W.tok t t') :
    W.Alike (check self t) (check self t') (W.Made .checkConstraint) := by
  unfold check
  refine (Runs.nodeAt hW ht rfl).bind fun node node' hnode => ?_
  refine (Runs.expect hW rfl _).discard.bind fun _ _ _ => ?_
  refine (hself.expression 0).bind fun condition condition' hcondition => ?_
  exact (Runs.expect hW rfl _).discard.bind fun _ _ _ => .attach hW hnode (hcondition.fits rfl)

/-- Trees whose roots belong together, of whatever kind. -/
def Rooted (W : Pairing) (t t' : Tree) : Prop := ∃ k, W.Made k t t'

theorem Rooted.fits {t t' : Tree} (hk : k.listsRows = false) : Rooted W t t' → W.Fits k t t'
  | ⟨_, h⟩ => fits_of_tree hk h.tree

theorem finishConstraint_alike (hW : W.Lawful) {name name' : Option Token}
    (hname : Option.Rel W.tok name name') (hu : Rooted W u u') :
    W.Alike (finishConstraint name u) (finishConstraint name' u') (Rooted W) := by
  obtain ⟨k, hu⟩ := hu
  rcases hname with ht | _
  · refine (Runs.setText hW hu ht).bind fun u u' hu => ?_
    exact (Runs.finish hW hu).weaken fun _ _ h => ⟨k, h⟩
  · exact (Runs.finish hW hu).weaken fun _ _ h => ⟨k, h⟩

theorem autoincrement?_alike (hW : W.Lawful) (hu : W.Made k u u') :
    W.Alike (autoincrement? u) (autoincrement? u') (W.Made k) := by
  unfold autoincrement?
  refine (Runs.consumeKeyword hW _).thenSame fun b => ?_
  exact .flagIf hW b _ nofun hu

/-- The keyword `t` that the constraint begins with was seen. -/
theorem columnConstraintBody?_alike (hW : W.Lawful) (hself : W.Serves self)
    {start start' : Token} (hstart : W.tok start start') :
    W.Runs (fun ts => ts.head? = some t ∧ anything ts) (columnConstraintBody? self start t.kind)
      (columnConstraintBody? self start' t.kind) (Option.Rel (Rooted W)) fun _ => anything := by
  unfold columnConstraintBody?
  split
  · next hk =>
    refine .takePlain hW (by rw [hk]; rfl) ?_
    refine (Runs.expectKeyword hW _).discard.bind fun _ _ _ => ?_
    refine (Runs.nodeAt hW hstart rfl).bind fun node node' hnode => ?_
    refine (direction_alike hW hnode).bind fun node node' hnode => ?_
    refine (onConflict?_alike hW hnode).bind fun node node' hnode => ?_
    exact (autoincrement?_alike hW hnode).bind fun _ _ h => .answer (.some ⟨_, h⟩)
  · next hk =>
    refine .takePlain hW (by rw [hk]; rfl) ?_
    refine (Runs.expectKeyword hW _).discard.bind fun _ _ _ => ?_
    refine (Runs.nodeAt hW hstart rfl).bind fun node node' hnode => ?_
    exact (onConflict?_alike hW hnode).bind fun _ _ h => .answer (.some ⟨_, h⟩)
  · next hk =>
    refine .takePlain hW (by rw [hk]; rfl) ?_
    exact (Runs.nodeAt hW hstart rfl).bind fun _ _ h => .answer (.some ⟨_, h⟩)
  · next hk =>
    refine .takePlain hW (by rw [hk]; rfl) ?_
    refine (Runs.nodeAt hW hstart rfl).bind fun node node' hnode => ?_
    exact (onConflict?_alike hW hnode).bind fun _ _ h => .answer (.some ⟨_, h⟩)
  · next hk =>
    refine .takePlain hW (by rw [hk]; rfl) ?_
    exact (check_alike hW hself hstart).bind fun _ _ h => .answer (.some ⟨_, h⟩)
  · next hk =>
    refine .takePlain hW (by rw [hk]; rfl) ?_
    refine (Runs.nodeAt hW hstart rfl).bind fun node node' hnode => ?_
    refine (hself.expression _).bind fun value value' hvalue => ?_
    exact (Runs.attach hW hnode (hvalue.fits rfl)).bind fun _ _ h => .answer (.some ⟨_, h⟩)
  · next hk =>
    refine .takePlain hW (by rw [hk]; rfl) ?_
    refine (Runs.expectNamePart hW _).bind fun collation collation' hcollation => ?_
    refine (Runs.nodeAt hW hstart rfl).bind fun node node' hnode => ?_
    exact (Runs.setText hW hnode hcollation).bind fun _ _ h => .answer (.some ⟨_, h⟩)
  · refine .seen ((references_alike hW).bind fun target target' htarget => ?_)
    refine (Runs.nodeAt hW hstart rfl).bind fun node node' hnode => ?_
    exact (Runs.attach hW hnode (htarget.fits rfl)).bind fun _ _ h => .answer (.some ⟨_, h⟩)
  · exact .seen (.answer .none)

theorem columnConstraint?_alike (hW : W.Lawful) (hself : W.Serves self) :
    W.Alike (columnConstraint? self) (columnConstraint? self) (Option.Rel (Rooted W)) := by
  unfold columnConstraint?
  refine Runs.current.bind fun o o' ho => ?_
  rcases ho with @⟨start, start', hstart⟩ | _
  · refine .seen ((constraintName?_alike hW).bind fun name name' hname => ?_)
    refine .ofCurrent (.unexpected hW _) fun t t' ht => ?_
    dsimp only
    rw [← hW.kind ht]
    refine (columnConstraintBody?_alike hW hself hstart).bind fun o o' ho => ?_
    rcases ho with hnode | _
    · exact (finishConstraint_alike hW hname hnode).bind fun _ _ h => .answer (.some h)
    · rw [Runs.isSome_rel hname]
      dsimp only
      split
      · exact .unexpected hW _
      · exact .answer .none
  · exact .seen (.answer .none)

theorem columnType?_alike (hW : W.Lawful) (hu : W.Made .columnDef u u') :
    W.Alike (columnType? u) (columnType? u') (W.Made .columnDef) := by
  unfold columnType?
  refine Runs.current.bind fun o o' ho => ?_
  rcases ho with @⟨start, start', hstart⟩ | _
  · refine .seen ?_
    dsimp only
    rw [isTypeWord_alike hW hstart]
    split
    · refine (typeName_alike hW).bind ?_
      rintro ⟨text, dataType⟩ ⟨text', dataType'⟩ ⟨htext, htype⟩
      dsimp only at htext htype ⊢
      subst htype
      refine (Runs.nodeAt hW hstart rfl).bind fun type type' htype => ?_
      refine (Runs.amend hW (.typed rfl htext _) htype).bind fun type type' htype => ?_
      refine (Runs.finish hW htype).bind fun type type' htype => ?_
      exact (Runs.attach hW hu (fits_of_tree rfl htype.tree)).bind fun _ _ hu =>
        .amend hW (.dataType _) hu
    · exact .answer hu
  · exact .seen (.answer hu)

theorem columnDefinition_alike (hW : W.Lawful) (hself : W.Serves self) :
    W.Alike (columnDefinition self) (columnDefinition self) (W.Made .columnDef) := by
  unfold columnDefinition
  refine (Runs.expectName hW _).bind fun name name' hname => ?_
  refine (Runs.namedNode hW hname rfl).bind fun column column' hcolumn => ?_
  refine (columnType?_alike hW hcolumn).bind fun column column' hcolumn => ?_
  exact (Runs.attachWhile hW (columnConstraint?_alike hW hself) hcolumn
    fun _ _ h => h.fits rfl).bind fun _ _ h => .finish hW h

theorem tableConstraintBody_alike (hW : W.Lawful) (hself : W.Serves self)
    {start start' : Token} (hstart : W.tok start start') (ht : W.tok t t') :
    W.Alike (tableConstraintBody self start t) (tableConstraintBody self start' t')
      (Rooted W) := by
  unfold tableConstraintBody
  rw [← hW.kind ht]
  split
  · refine (Runs.expectKeyword hW _).discard.bind fun _ _ _ => ?_
    refine (Runs.nodeAt hW hstart rfl).bind fun node node' hnode => ?_
    refine (columnList_alike hW).bind fun list list' hlist => ?_
    refine (Runs.attach hW hnode (hlist.fits rfl)).bind fun node node' hnode => ?_
    exact (onConflict?_alike hW hnode).weaken fun _ _ h => ⟨_, h⟩
  · refine (Runs.nodeAt hW hstart rfl).bind fun node node' hnode => ?_
    refine (columnList_alike hW).bind fun list list' hlist => ?_
    refine (Runs.attach hW hnode (hlist.fits rfl)).bind fun node node' hnode => ?_
    exact (onConflict?_alike hW hnode).weaken fun _ _ h => ⟨_, h⟩
  · exact (check_alike hW hself hstart).weaken fun _ _ h => ⟨_, h⟩
  · refine (Runs.expectKeyword hW _).discard.bind fun _ _ _ => ?_
    refine (Runs.nodeAt hW hstart rfl).bind fun node node' hnode => ?_
    refine (columnList_alike hW).bind fun list list' hlist => ?_
    refine (Runs.attach hW hnode (hlist.fits rfl)).bind fun node node' hnode => ?_
    refine (references_alike hW).bind fun target target' htarget => ?_
    exact (Runs.attach hW hnode (htarget.fits rfl)).weaken fun _ _ h => ⟨_, h⟩
  · exact .fail (hW.failsUnexpected _ ht)

/-- A token that begins no constraint of a table is refused. -/
theorem tableConstraintBody_breaks (hW : W.Lawful) {start start' : Token} (ht : W.tok t t')
    (h : t.kind.isPlain = false) :
    W.Breaks (tableConstraintBody self start t) (tableConstraintBody self start' t') := by
  unfold tableConstraintBody
  rw [← hW.kind ht]
  split
  · next hk => rw [hk] at h; cases h
  · next hk => rw [hk] at h; cases h
  · next hk => rw [hk] at h; cases h
  · next hk => rw [hk] at h; cases h
  · exact .fail (hW.failsUnexpected _ ht)

theorem tableConstraint_alike (hW : W.Lawful) (hself : W.Serves self) :
    W.Alike (tableConstraint self) (tableConstraint self) (Rooted W) := by
  unfold tableConstraint
  refine .ofCurrent (.unexpected hW _) fun start start' hstart => .seen ?_
  refine (constraintName?_alike hW).bind fun name name' hname => ?_
  refine .ofAdvance hW (.unexpected hW _) fun t t' ht => ?_
  rcases hk : t.kind.isPlain with _ | _
  · exact .inl (tableConstraintBody_breaks hW ht hk).bind
  · exact .inr ⟨fun _ _ => hW.takes_plain ht hk, .seen
      ((tableConstraintBody_alike hW hself hstart ht).bind fun _ _ hnode =>
        finishConstraint_alike hW hname hnode)⟩

/-! ## Creations -/

theorem tableElement_alike (hW : W.Lawful) (hself : W.Serves self) :
    W.Alike (tableElement self) (tableElement self) (Rooted W) := by
  unfold tableElement
  refine (Runs.seesOneOf hW _).branch ?_ ?_
  · exact (columnDefinition_alike hW hself).weaken fun _ _ h => ⟨_, h⟩
  · exact tableConstraint_alike hW hself

theorem withoutRowid?_alike (hW : W.Lawful) (hu : W.Made k u u') :
    W.Alike (withoutRowid? u) (withoutRowid? u') (W.Made k) := by
  unfold withoutRowid?
  refine (Runs.takeKeyword? hW .WITHOUT).bind fun o o' ho => ?_
  rcases ho with ⟨ht, -⟩ | _
  · refine (Runs.takeWhere? hW (fun ht => hW.word ht "ROWID") fun ht h =>
      hW.plain_word ht (by decide) h).bind fun o o' ho => ?_
    rcases ho with _ | _
    · exact .flag hW _ nofun hu
    · exact .fail (hW.failsAt _ ht)
  · exact .answer hu

theorem createTable_alike (hW : W.Lawful) (hself : W.Serves self) (hu : W.Made k u u')
    (hrows : k.listsRows = false) :
    W.Alike (createTable self u) (createTable self u') (W.Made k) := by
  unfold createTable
  refine (objectName_alike hW rfl).bind fun table table' htable => ?_
  refine (Runs.attach hW hu (htable.fits rfl)).bind fun u u' hu => ?_
  refine (Runs.consumeKeyword hW .AS).branch ?_ ?_
  · refine (Runs.expect hW rfl _).discard.bind fun _ _ _ => ?_
    refine (Runs.attachList hW (tableElement_alike hW hself) hu fun _ _ h => h.fits hrows).bind
      fun u u' hu => ?_
    exact (Runs.expect hW rfl _).discard.bind fun _ _ _ => withoutRowid?_alike hW hu
  · exact hself.query.bind fun _ _ hquery => .attach hW hu hquery.fits

theorem indexedColumn_alike (hW : W.Lawful) (hself : W.Serves self) :
    W.Alike (indexedColumn self) (indexedColumn self) (W.Made .indexedColumn) := by
  unfold indexedColumn
  refine (hself.expression 0).bind fun key key' hkey => ?_
  refine (Runs.nodeOver hW hkey.1 rfl (.inl rfl)).bind fun column column' hcolumn => ?_
  refine (Runs.attach hW hcolumn (hkey.fits rfl)).bind fun column column' hcolumn => ?_
  exact (direction_alike hW hcolumn).bind fun _ _ h => .finish hW h

theorem createIndex_alike (hW : W.Lawful) (hself : W.Serves self) (hu : W.Made k u u')
    (hrows : k.listsRows = false) :
    W.Alike (createIndex self u) (createIndex self u') (W.Made k) := by
  unfold createIndex
  refine (objectName_alike hW rfl).bind fun name name' hname => ?_
  refine (Runs.attach hW hu (hname.fits rfl)).bind fun u u' hu => ?_
  refine (Runs.expectKeyword hW .ON).discard.bind fun _ _ _ => ?_
  refine (objectName_alike hW rfl).bind fun table table' htable => ?_
  refine (Runs.attach hW hu (htable.fits rfl)).bind fun u u' hu => ?_
  refine (Runs.expect hW rfl _).discard.bind fun _ _ _ => ?_
  refine (Runs.attachList hW (indexedColumn_alike hW hself) hu
    fun _ _ h => fits_of_tree hrows h.tree).bind fun u u' hu => ?_
  exact (Runs.expect hW rfl _).discard.bind fun _ _ _ => Query.whereClause?_alike hW hself hu

theorem createView_alike (hW : W.Lawful) (hself : W.Serves self) (hu : W.Made k u u') :
    W.Alike (createView self u) (createView self u') (W.Made k) := by
  unfold createView
  refine (objectName_alike hW rfl).bind fun name name' hname => ?_
  refine (Runs.attach hW hu (hname.fits rfl)).bind fun u u' hu => ?_
  refine (Runs.sees hW _).forget.thenSame fun b => ?_
  refine (Runs.attachIf hW b (columnList_alike hW) hu fun _ _ h => h.fits rfl).bind
    fun u u' hu => ?_
  refine (Runs.expectKeyword hW .AS).discard.bind fun _ _ _ => ?_
  exact hself.query.bind fun _ _ hquery => .attach hW hu hquery.fits

/-! ## Triggers -/

theorem triggerTime_alike (hW : W.Lawful) (hu : W.Made k u u') :
    W.Alike (triggerTime u) (triggerTime u') (W.Made k) := by
  unfold triggerTime
  refine (Runs.consumeKeyword hW .BEFORE).branch ?_ ?_
  · refine (Runs.consumeKeyword hW .AFTER).branch ?_ ?_
    · refine (Runs.consumeKeyword hW .INSTEAD).branch ?_ ?_
      · exact .answer hu
      · exact (Runs.expectKeyword hW .OF).discard.bind fun _ _ _ => .flag hW _ nofun hu
    · exact .flag hW _ nofun hu
  · exact .flag hW _ nofun hu

theorem eventColumns_alike (hW : W.Lawful) (ht : W.tok t t') :
    W.Alike (eventColumns t) (eventColumns t') (W.Made .columnList) := by
  unfold eventColumns
  refine (Runs.nodeAt hW ht rfl).bind fun list list' hlist => ?_
  exact (Runs.attachList hW (columnName_alike hW) hlist fun _ _ h => h.fits rfl).bind
    fun _ _ h => .finish hW h

theorem hasEventColumns_alike (hW : W.Lawful) (ht : W.tok t t') :
    W.Alike (hasEventColumns t) (hasEventColumns t') (· = ·) := by
  unfold hasEventColumns
  rw [hW.kind ht]
  split
  · exact .consumeKeyword hW _
  · exact .answer rfl

theorem triggerEvent_alike (hW : W.Lawful) :
    W.Alike triggerEvent triggerEvent (W.Made .triggerEvent) := by
  unfold triggerEvent
  refine (oneOf_alike hW _).bind fun o o' ho => ?_
  rcases ho with ⟨ht, -⟩ | _
  · refine (Runs.namedNode hW ht rfl).bind fun event event' hevent => ?_
    refine (hasEventColumns_alike hW ht).thenSame fun b => ?_
    exact (Runs.attachIf hW b (eventColumns_alike hW ht) hevent fun _ _ h => h.fits rfl).bind
      fun _ _ h => .finish hW h
  · exact .unexpected hW _

theorem eachRow?_alike (hW : W.Lawful) (hu : W.Made k u u') :
    W.Alike (eachRow? u) (eachRow? u') (W.Made k) := by
  unfold eachRow?
  refine (Runs.consumeKeyword hW .FOR).branch ?_ ?_
  · exact .answer hu
  · refine (Runs.expectKeyword hW .EACH).discard.bind fun _ _ _ => ?_
    exact (Runs.expectKeyword hW .ROW).discard.bind fun _ _ _ => .flag hW _ nofun hu

theorem triggerCondition?_alike (hW : W.Lawful) (hself : W.Serves self) (hu : W.Made k u u') :
    W.Alike (triggerCondition? self u) (triggerCondition? self u') (W.Made k) := by
  unfold triggerCondition?
  refine (Runs.takeKeyword? hW .WHEN).bind fun o o' ho => ?_
  rcases ho with ⟨ht, -⟩ | _
  · refine (Runs.nodeAt hW ht rfl).bind fun clause clause' hclause => ?_
    refine (hself.expression 0).bind fun condition condition' hcondition => ?_
    refine (Runs.attach hW hclause (hcondition.fits rfl)).bind fun clause clause' hclause => ?_
    exact (Runs.finish hW hclause).bind fun _ _ hclause => .attach hW hu (hclause.fits rfl)
  · exact .answer hu

/-- Each statement of a body takes its semicolon at least, and where there is no more of them the
body ends. -/
theorem triggerStatement?_alike (hW : W.Lawful) (hself : W.Serves self) (hu : W.Made k u u')
    (n : Nat) : W.Runs (·.length ≤ n) (triggerStatement? self u) (triggerStatement? self u')
      (Option.Rel (W.Made k)) fun o ts =>
        if o.isSome then ts.length < n else ts[0]?.map Token.kind = some (.keyword .END) := by
  unfold triggerStatement?
  refine (Runs.sees hW _).branch ?_ ?_
  · refine Runs.atEnd.branch ?_ ?_
    · refine .after (fun _ h => h.2.2) ((Runs.short hself.statement n).bind fun _ _ hinner => ?_)
      refine (Runs.attach hW hu hinner.fits).bind fun u u' hu => ?_
      have hsemicolon : W.Runs (·.length ≤ n) (discard <| expect .semicolon "';'")
          (discard <| expect .semicolon "';'") (fun _ _ => True) fun _ ts => ts.length < n :=
        .discardTo (.expectBefore hW rfl _) fun _ _ h => h
      exact hsemicolon.bind fun _ _ _ => .pure (.some hu) fun _ h => h
    · exact .unexpected hW _
  · exact .pure .none fun _ h => h.1 rfl

theorem triggerBody_alike (hW : W.Lawful) (hself : W.Serves self) :
    W.Alike (triggerBody self) (triggerBody self) (W.Made .triggerBody) := by
  unfold triggerBody
  refine (Runs.expectKeyword hW .BEGIN).bind fun t t' ht => ?_
  refine (Runs.nodeAt hW ht rfl).bind fun body body' hbody => ?_
  refine (Runs.iterateUntil (fun n _ _ h => triggerStatement?_alike hW hself h n) hbody).bind
    fun body body' hbody => ?_
  exact (Runs.takeKind hW rfl).bind fun _ _ _ => .finish hW hbody

theorem createTrigger_alike (hW : W.Lawful) (hself : W.Serves self) (hu : W.Made k u u') :
    W.Alike (createTrigger self u) (createTrigger self u') (W.Made k) := by
  unfold createTrigger
  refine (objectName_alike hW rfl).bind fun name name' hname => ?_
  refine (Runs.attach hW hu (hname.fits rfl)).bind fun u u' hu => ?_
  refine (triggerTime_alike hW hu).bind fun u u' hu => ?_
  refine (triggerEvent_alike hW).bind fun event event' hevent => ?_
  refine (Runs.attach hW hu (hevent.fits rfl)).bind fun u u' hu => ?_
  refine (Runs.expectKeyword hW .ON).discard.bind fun _ _ _ => ?_
  refine (objectName_alike hW rfl).bind fun table table' htable => ?_
  refine (Runs.attach hW hu (htable.fits rfl)).bind fun u u' hu => ?_
  refine (eachRow?_alike hW hu).bind fun u u' hu => ?_
  refine (triggerCondition?_alike hW hself hu).bind fun u u' hu => ?_
  exact (triggerBody_alike hW hself).bind fun _ _ hbody => .attach hW hu (hbody.fits rfl)

theorem creationBody_alike (hW : W.Lawful) (hself : W.Serves self) (hu : W.Made k u u') :
    W.Alike (creationBody self u) (creationBody self u') (W.Made k) := by
  unfold creationBody
  rw [hu.kind, hu.kind']
  split
  · exact createTable_alike hW hself hu rfl
  · exact createIndex_alike hW hself hu rfl
  · exact createView_alike hW hself hu
  · exact createTrigger_alike hW hself hu
  · exact (objectName_alike hW rfl).bind fun _ _ hname => .attach hW hu (hname.fits rfl)

theorem temporary?_alike (hW : W.Lawful) : W.Alike temporary? temporary? (· = ·) := by
  unfold temporary?
  refine (Runs.consumeKeyword hW .TEMP).branch ?_ ?_
  · exact .consumeKeyword hW .TEMPORARY
  · exact .answer rfl

theorem ifNotExists?_alike (hW : W.Lawful) (hu : W.Made k u u') :
    W.Alike (ifNotExists? u) (ifNotExists? u') (W.Made k) := by
  unfold ifNotExists?
  refine (Runs.consumeKeyword hW .IF).branch ?_ ?_
  · exact .answer hu
  · refine (Runs.expectKeyword hW .NOT).discard.bind fun _ _ _ => ?_
    exact (Runs.expectKeyword hW .EXISTS).discard.bind fun _ _ _ => .flag hW _ nofun hu

theorem creationKind?_spec {kind : TokenKind} {b : Bool} (h : creationKind? kind = some (k, b)) :
    kind.isPlain ∧ k.isCommon ∧ k.isAnchored := by
  unfold creationKind? at h
  split at h <;> cases h <;> exact ⟨rfl, rfl, rfl⟩

theorem creationKind_alike (hW : W.Lawful) (temporary unique : Bool) (ht : W.tok t t')
    {ahead : List Token → Prop} :
    W.Runs ahead (creationKind temporary unique t) (creationKind temporary unique t')
      (fun k k' => k = k' ∧ t.kind.isPlain ∧ k.isCommon ∧ k.isAnchored) fun _ => ahead := by
  unfold creationKind
  rw [← hW.kind ht]
  split
  · exact .unexpected hW _
  · next hkind =>
    split
    · exact .fail (hW.failsAt _ ht)
    · split
      · exact .fail (hW.failsAt _ ht)
      · exact .answer ⟨rfl, creationKind?_spec hkind⟩

theorem create_alike (hW : W.Lawful) (hself : W.Serves self) :
    W.Alike (create self) (create self) W.Placed := by
  unfold create
  refine (Runs.expectKeyword hW .CREATE).bind fun start start' hstart => ?_
  refine (temporary?_alike hW).thenSame fun temporary => ?_
  refine (Runs.consumeKeyword hW .UNIQUE).thenSame fun unique => ?_
  refine .ofCurrent (.unexpected hW _) fun t t' ht => ?_
  refine (creationKind_alike hW temporary unique ht).bind ?_
  rintro k _ ⟨rfl, hplain, hcommon, hfloats⟩
  refine .takePlain hW hplain ?_
  refine (Runs.nodeAt hW hstart hcommon).bind fun statement statement' h => ?_
  refine (Runs.flagIf hW temporary .temporary nofun h).bind fun statement statement' h => ?_
  refine (Runs.flagIf hW unique .unique nofun h).bind fun statement statement' h => ?_
  refine (ifNotExists?_alike hW h).bind fun statement statement' h => ?_
  refine (creationBody_alike hW hself h).bind fun statement statement' h => ?_
  exact (Runs.finish hW h).weaken fun _ _ h => h.placed hfloats

/-! ## Other schema statements -/

theorem dropBehavior?_alike (hW : W.Lawful) (hu : W.Made k u u') :
    W.Alike (dropBehavior? u) (dropBehavior? u') (W.Made k) := by
  unfold dropBehavior?
  refine (Runs.consumeKeyword hW .CASCADE).branch ?_ ?_
  · refine (Runs.consumeKeyword hW .RESTRICT).branch ?_ ?_
    · exact .answer hu
    · exact .flag hW _ nofun hu
  · exact .flag hW _ nofun hu

theorem ifExists?_alike (hW : W.Lawful) (hu : W.Made k u u') :
    W.Alike (ifExists? u) (ifExists? u') (W.Made k) := by
  unfold ifExists?
  refine (Runs.consumeKeyword hW .IF).branch ?_ ?_
  · exact .answer hu
  · exact (Runs.expectKeyword hW .EXISTS).discard.bind fun _ _ _ => .flag hW _ nofun hu

theorem drop_alike (hW : W.Lawful) : W.Alike drop drop (W.Made .dropStmt) := by
  unfold drop
  refine (Runs.expectKeyword hW .DROP).bind fun start start' hstart => ?_
  refine (Runs.takeWhere? hW (fun ht => ?_) fun {t _} _ h => ?_).bind fun o o' ho => ?_
  · rw [hW.kind ht]
  · obtain ⟨⟨k, b⟩, hkind⟩ := Option.isSome_iff_exists.1 h
    exact (creationKind?_spec hkind).1
  · rcases ho with ⟨ht, -⟩ | _
    · refine (Runs.nodeAt hW hstart rfl).bind fun statement statement' h => ?_
      refine (Runs.setText hW h ht).bind fun statement statement' h => ?_
      refine (ifExists?_alike hW h).bind fun statement statement' h => ?_
      refine (Runs.attachList hW (objectName_alike hW rfl) h fun _ _ h => h.fits rfl).bind
        fun statement statement' h => ?_
      exact (dropBehavior?_alike hW h).bind fun _ _ h => .finish hW h
    · exact .unexpected hW _

theorem renameTable_alike (hW : W.Lawful) (ht : W.tok t t') :
    W.Alike (renameTable t) (renameTable t') (W.Made .renameTable) := by
  unfold renameTable
  refine (Runs.expectName hW _).bind fun name name' hname => ?_
  exact (Runs.nodeAt hW ht rfl).bind fun _ _ hnode => .setText hW hnode hname

theorem renameColumn_alike (hW : W.Lawful) (ht : W.tok t t') :
    W.Alike (renameColumn t) (renameColumn t') (W.Made .renameColumn) := by
  unfold renameColumn
  refine (Runs.consumeKeyword hW _).discard.bind fun _ _ _ => ?_
  refine (Runs.expectName hW _).bind fun before before' hbefore => ?_
  refine (Runs.expectKeyword hW .TO).discard.bind fun _ _ _ => ?_
  refine (Runs.expectName hW _).bind fun after after' hafter => ?_
  refine (Runs.nodeAt hW ht rfl).bind fun node node' hnode => ?_
  refine (Runs.namedNode hW hbefore rfl).bind fun before before' hbefore => ?_
  refine (Runs.namedNode hW hafter rfl).bind fun after after' hafter => ?_
  exact (Runs.attach hW hnode (hbefore.fits rfl)).bind fun _ _ hnode =>
    .attach hW hnode (hafter.fits rfl)

theorem alteration_alike (hW : W.Lawful) (hself : W.Serves self) (ht : W.tok t t') :
    W.Alike (alteration self t) (alteration self t') (Rooted W) := by
  unfold alteration
  rw [← hW.kind ht]
  split
  · refine (Runs.consumeKeyword hW .TO).branch ?_ ?_
    · exact (renameColumn_alike hW ht).weaken fun _ _ h => ⟨_, h⟩
    · exact (renameTable_alike hW ht).weaken fun _ _ h => ⟨_, h⟩
  · refine (Runs.consumeKeyword hW _).discard.bind fun _ _ _ => ?_
    refine (Runs.nodeAt hW ht rfl).bind fun node node' hnode => ?_
    refine (columnDefinition_alike hW hself).bind fun column column' hcolumn => ?_
    exact (Runs.attach hW hnode (hcolumn.fits rfl)).weaken fun _ _ h => ⟨_, h⟩
  · refine (Runs.consumeKeyword hW _).discard.bind fun _ _ _ => ?_
    refine (Runs.expectName hW _).bind fun name name' hname => ?_
    refine (Runs.nodeAt hW ht rfl).bind fun node node' hnode => ?_
    exact (Runs.setText hW hnode hname).weaken fun _ _ h => ⟨_, h⟩
  · exact .fail (hW.failsUnexpected _ ht)

/-- A token that begins no alteration is refused. -/
theorem alteration_breaks (hW : W.Lawful) (ht : W.tok t t') (h : t.kind.isPlain = false) :
    W.Breaks (alteration self t) (alteration self t') := by
  unfold alteration
  rw [← hW.kind ht]
  split
  · next hk => rw [hk] at h; cases h
  · next hk => rw [hk] at h; cases h
  · next hk => rw [hk] at h; cases h
  · exact .fail (hW.failsUnexpected _ ht)

theorem alter_alike (hW : W.Lawful) (hself : W.Serves self) :
    W.Alike (alter self) (alter self) (W.Made .alterTableStmt) := by
  unfold alter
  refine (Runs.expectKeyword hW .ALTER).bind fun start start' hstart => ?_
  refine (Runs.expectKeyword hW .TABLE).discard.bind fun _ _ _ => ?_
  refine (Runs.nodeAt hW hstart rfl).bind fun statement statement' hstatement => ?_
  refine (objectName_alike hW rfl).bind fun table table' htable => ?_
  refine (Runs.attach hW hstatement (htable.fits rfl)).bind
    fun statement statement' hstatement => ?_
  refine .ofAdvance hW (.unexpected hW _) fun t t' ht => ?_
  rcases hk : t.kind.isPlain with _ | _
  · exact .inl (alteration_breaks hW ht hk).bind
  · refine .inr ⟨fun _ _ => hW.takes_plain ht hk, .seen ?_⟩
    refine (alteration_alike hW hself ht).bind ?_
    rintro node node' ⟨k, hnode⟩
    refine (Runs.finish hW hnode).bind fun node node' hnode => ?_
    exact (Runs.attach hW hstatement (fits_of_tree rfl hnode.tree)).bind fun _ _ h => .finish hW h

theorem truncate_alike (hW : W.Lawful) : W.Alike truncate truncate (W.Made .truncateStmt) := by
  unfold truncate
  refine (Runs.expectKeyword hW .TRUNCATE).bind fun start start' hstart => ?_
  refine (Runs.consumeKeyword hW _).discard.bind fun _ _ _ => ?_
  refine (Runs.nodeAt hW hstart rfl).bind fun statement statement' hstatement => ?_
  refine (objectName_alike hW rfl).bind fun table table' htable => ?_
  exact (Runs.attach hW hstatement (htable.fits rfl)).bind fun _ _ h => .finish hW h

end Schema

/-! ## Statements -/

namespace Statement

theorem afterWith_alike (hW : W.Lawful) (hself : W.Serves self) (hu : W.Made .withClause u u') :
    W.Alike (afterWith self u) (afterWith self u') W.Placed := by
  have hprepend {k : Kind} {v v' : Tree} (hk : k.isAnchored) (hv : W.Made k v v') :
      W.Alike (prepend v u) (prepend v' u') W.Placed :=
    (Runs.prepend hW hv (hu.fits rfl)).weaken fun _ _ h => h.placed hk
  unfold afterWith
  refine (Runs.currentKind hW).thenSame fun o => ?_
  split
  · exact .after (fun _ h => h.1.symm) ((Change.insert_alike hW hself rfl).bind
      fun _ _ h => hprepend rfl h)
  · exact .after (fun _ h => h.1.symm) ((Change.insert_alike hW hself rfl).bind
      fun _ _ h => hprepend rfl h)
  · exact .seen ((Change.update_alike hW hself).bind fun _ _ h => hprepend rfl h)
  · exact .seen ((Change.delete_alike hW hself).bind fun _ _ h => hprepend rfl h)
  · exact .seen (Query.afterWith_alike hW hself hu)

theorem extension_alike (hW : W.Lawful) (hself : W.Serves self) (ht : W.tok t t')
    (word : Keyword) :
    W.Alike (extension self t word) (extension self t' word) W.Placed := by
  unfold extension
  refine .askIf (·.allowExtensions) (·.allowExtensions) hW.allowExtensions (fun hallow => ?_)
    fun _ => .fail (hW.failsAt _ ht)
  split
  · exact (Utility.pragma_alike hW hself hallow).weaken fun _ _ h => h.placed rfl
  · exact (Utility.vacuum_alike hW hself hallow).weaken fun _ _ h => h.placed rfl
  · exact (Utility.attachDatabase_alike hW hself hallow).weaken fun _ _ h => h.placed rfl
  · exact (Utility.detachDatabase_alike hW hallow).weaken fun _ _ h => h.placed rfl
  · exact (Utility.upkeep_alike hW _ rfl fun _ => hallow).weaken fun _ _ h => h.placed rfl

theorem ofKeyword_alike (hW : W.Lawful) (hself : W.Serves self) (ht : W.tok t t')
    {word : Keyword} (hword : t.kind = .keyword word) :
    W.Runs (fun ts => ts.head? = some t ∧ anything ts) (ofKeyword self t word)
      (ofKeyword self t' word) W.Placed fun _ => anything := by
  have hfirst : ∀ ts, ts.head? = some t ∧ anything ts →
      ts[0]?.map Token.kind = some (.keyword word) := fun ts h =>
    (Runs.kind_of_head? h.1).trans (congrArg _ hword)
  unfold ofKeyword
  split
  · exact .seen (query_alike hW hself)
  · exact .seen (query_alike hW hself)
  · exact .seen ((Query.withClause_alike hW hself).bind fun _ _ h => afterWith_alike hW hself h)
  · exact .after hfirst ((Change.insert_alike hW hself rfl).weaken fun _ _ h => h.placed rfl)
  · exact .after hfirst ((Change.insert_alike hW hself rfl).weaken fun _ _ h => h.placed rfl)
  · exact .seen ((Change.update_alike hW hself).weaken fun _ _ h => h.placed rfl)
  · exact .seen ((Change.delete_alike hW hself).weaken fun _ _ h => h.placed rfl)
  · exact .seen (Schema.create_alike hW hself)
  · exact .seen ((Schema.drop_alike hW).weaken fun _ _ h => h.placed rfl)
  · exact .seen ((Schema.alter_alike hW hself).weaken fun _ _ h => h.placed rfl)
  · exact .seen ((Schema.truncate_alike hW).weaken fun _ _ h => h.placed rfl)
  · exact .after hfirst ((Utility.begin_alike hW rfl).weaken fun _ _ h => h.placed rfl)
  · exact .after hfirst ((Utility.begin_alike hW rfl).weaken fun _ _ h => h.placed rfl)
  · exact .after hfirst ((Utility.commit_alike hW rfl).weaken fun _ _ h => h.placed rfl)
  · exact .after hfirst ((Utility.commit_alike hW rfl).weaken fun _ _ h => h.placed rfl)
  · exact .seen ((Utility.rollback_alike hW).weaken fun _ _ h => h.placed rfl)
  · exact .seen ((Utility.savepoint_alike hW).weaken fun _ _ h => h.placed rfl)
  · exact .seen ((Utility.release_alike hW).weaken fun _ _ h => h.placed rfl)
  · exact .seen ((Utility.explain_alike hW hself).weaken fun _ _ h => h.placed rfl)
  · exact .seen ((Utility.setting_alike hW hself).weaken fun _ _ h => h.placed rfl)
  · exact .seen (extension_alike hW hself ht _)
  · exact .seen (extension_alike hW hself ht _)
  · exact .seen (extension_alike hW hself ht _)
  · exact .seen (extension_alike hW hself ht _)
  · exact .seen (extension_alike hW hself ht _)
  · exact .seen ((Utility.upkeep_alike (k := .analyzeStmt) hW _ rfl nofun).weaken
      fun _ _ h => h.placed rfl)
  · exact .unexpected hW _

end Statement

theorem statement_alike (hW : W.Lawful) (hself : W.Serves self) :
    W.Alike (statement self) (statement self) W.Placed := by
  unfold statement
  refine .deeper hW (.ofCurrent (.unexpected hW _) fun t t' ht => ?_)
  dsimp only
  rw [← Runs.keyword? hW ht]
  split
  · next word hword =>
    refine Statement.ofKeyword_alike hW hself ht ?_
    unfold Token.keyword? at hword
    split at hword
    · next hk =>
      rw [hk, Option.some.inj hword]
    · cases hword
  · exact .unexpected hW _

namespace Pairing

theorem serves (hW : W.Lawful) : ∀ n, W.Serves (Nested.upTo n)
  | 0 => {
    expression := fun _ => .unexpected hW _
    query := .unexpected hW _
    joinTree := .unexpected hW _
    statement := .unexpected hW _ }
  | n + 1 => {
    expression := fun power => expression_alike hW (serves hW n) power
    query := query_alike hW (serves hW n)
    joinTree := joinTree_alike hW (serves hW n)
    statement := statement_alike hW (serves hW n) }

end Pairing

/-! ## Whole sources -/

namespace Script

theorem skipSemicolons_alike (hW : W.Lawful) :
    W.Alike skipSemicolons skipSemicolons fun _ _ => True :=
  (Runs.many (.take? hW rfl)).discard

theorem nextStatement_alike (hW : W.Lawful) :
    W.Alike nextStatement nextStatement W.Placed := by
  intro scope scope' s s' hscope hs
  show W.fine s.rest → anything s.rest → W.Outcome s.rest.length W.Placed _
    ((Nested.forTokens s.rest.length).statement scope s)
    ((Nested.forTokens s'.rest.length).statement scope' s')
  rw [← hs.length_eq]
  exact (Pairing.serves hW _).statement scope scope' s s' hscope hs

/-- One statement with nothing but semicolons around it takes all tokens. -/
theorem single_alike (hW : W.Lawful) :
    W.Runs anything single single W.Placed fun _ ts => ts = [] := by
  unfold single
  refine (skipSemicolons_alike hW).bind fun _ _ _ => Runs.atEnd.branch ?_ ?_
  · refine .seen ((nextStatement_alike hW).bind fun root root' hroot => ?_)
    refine (skipSemicolons_alike hW).bind fun _ _ _ => Runs.atEnd.branch ?_ ?_
    · exact .unexpected hW _
    · exact .pure hroot fun ts h => List.isEmpty_iff.1 h.1.symm
  · exact .unexpected hW _

/-- Where no statement is found, no token is left. -/
theorem next?_alike (hW : W.Lawful) :
    W.Runs anything next? next? (Option.Rel W.Placed) fun o ts => o = none → ts = [] := by
  unfold next?
  refine (skipSemicolons_alike hW).bind fun _ _ _ => Runs.atEnd.branch ?_ ?_
  · refine .seen ((nextStatement_alike hW).bind fun root root' hroot => Runs.atEnd.branch ?_ ?_)
    · refine .seen ((Runs.consume hW rfl).branch ?_ ?_)
      · exact .unexpected hW _
      · exact .pure (.some hroot) fun _ _ => nofun
    · exact .pure (.some hroot) fun _ _ => nofun
  · exact .pure .none fun ts h _ => List.isEmpty_iff.1 h.1.symm

/-- A script takes all tokens: each statement takes one, so the attempts do not run out. -/
theorem all_alike (hW : W.Lawful) :
    W.Runs anything all all (List.Forall₂ W.Placed) fun _ ts => ts = [] := by
  have hnext (n : Nat) : W.Runs (·.length ≤ n) next? next? (Option.Rel W.Placed)
      fun o ts => if o.isSome then ts.length < n else ts = [] := by
    intro scope scope' s s' hscope hs hfine hn
    have h := next?_alike hW scope scope' s s' hscope hs hfine trivial
    rcases hrun : next? scope s with ⟨_ | root, r⟩ | ⟨f, r⟩ <;>
      rcases hrun' : next? scope' s' with ⟨o', r'⟩ | ⟨f', r'⟩ <;> rw [hrun, hrun'] at h
    · exact ⟨h.1, h.2.1 rfl, h.2.2⟩
    · exact h.elim
    · exact ⟨h.1, Nat.lt_of_lt_of_le (next?_takes hrun) hn, h.2.2⟩
    · exact h.elim
    · exact h.elim
    · exact h
  have hloop : W.Runs anything (iterate (fun items => do return (← next?).map (· :: items)) [])
      (iterate (fun items => do return (← next?).map (· :: items)) []) (List.Forall₂ W.Placed)
      fun _ ts => ts = [] := by
    refine Runs.iterateUntil (fun n items items' hitems => (hnext n).bind fun o o' ho => ?_) .nil
    rcases ho with hroot | _
    · exact .pure (.some (.cons hroot hitems)) fun _ h => h
    · exact .pure .none fun _ h => h
  exact hloop.bind fun items items' hitems => .answer (List.forall₂_reverse_iff.2 hitems)

end Script

end SqlSyntax
