import SqlSyntax.Grammar.Schema
import SqlSyntax.Proofs.Layout.Change

/-!
# Schema statements over their tokens

A constraint starts at its name's `CONSTRAINT`, or at its own keyword, which may be the one that
its first child begins with. Words that are no keywords are told by their spelling, which no star
has.
-/

namespace SqlSyntax

open SqlSyntax.Parser

variable {c : Option Context} {w r v : List Token} {stage : Stage} {l : Label} {t : Tree}
  {x y start : Token} {kind : Kind}

theorem Token.Honest.hasStars {word : String} (h : x.Honest) (hx : sameWord x.text word = true)
    (hword : ∀ mark ∈ ["*", ";"], sameWord mark word = false := by decide +kernel) :
    HasStars 0 [x] := by
  refine .single (fun hkind => ?_) fun hkind => ?_
  · rw [h.star hkind, hword _ (by simp)] at hx
    cases hx
  · rw [h.semicolon hkind, hword _ (by simp)] at hx
    cases hx

theorem consumeKeyword_laid (k : Keyword) : Yields (consumeKeyword k) c fun _ v => Quiet v := by
  intro r
  rw [← bind_pure (consumeKeyword k)]
  exact .consumeKeyword (fun x _ _ hx => .pure (Quiet.one hx rfl)) (.pure .nil)

theorem plainName_laid (kind : Kind) (hk : kind.isOrdinary = true)
    (hw : kind.isWildcard = false) :
    Yields (objectName kind) c (Tree.Stands .plain c) :=
  fun r => (objectName_laid kind hw r).weaken fun _ _ _ _ h => h.1.stands hk

namespace Schema

/-! ## Constraints -/

theorem onConflict?_lays (h : t.Rooted stage l w) (hl : ∀ w, l.Takes w .plain c) :
    (onConflict? t).Lays c w r fun t w _ => t.Rooted .growing l w := by
  unfold onConflict?
  refine .sees _ (.kindAt 1 ?_)
  split
  · next hwords =>
    rcases r with _ | ⟨x, _ | ⟨y, r⟩⟩
    · cases hwords
    · simp at hwords
    · have hkinds : x.kind = .keyword .ON ∧ y.kind = .keyword .CONFLICT := by simpa using hwords
      obtain ⟨hx, hy⟩ := hkinds
      refine .expectKeyword fun x' r' hr _ => ?_
      obtain ⟨rfl, rfl⟩ := List.cons.inj hr
      refine .discard (.advance (.call Change.conflictWord_laid fun word v _ _ hword => ?_))
      obtain ⟨rfl, hquiet⟩ := hword
      have hwords : Quiet ([x] ++ [y] ++ [word]) :=
        ((Quiet.one hx rfl).append (.one hy rfl)).append hquiet
      refine .callFrom (w := w) (u := [x] ++ [y] ++ [word]) (by simp)
        (Change.conflictAction_lays rfl hwords word) ?_
      intro action v _ haction
      exact .stays (.attach h (haction.stands rfl) (hl w)) fun _ h => h
  · exact .pure h.growing

theorem expectNullOrDefault_laid : Yields expectNullOrDefault c fun _ v => Quiet v := by
  intro r
  unfold expectNullOrDefault
  refine .consumeKeyword (fun x _ _ hx => .pure (.one hx rfl)) ?_
  exact .consumeKeyword (fun x _ _ hx => .pure (.one hx rfl)) (.unexpected _)

theorem referentialAction_lays (h : t.Rooted stage l w) :
    (referentialAction t).Lays c w r fun t w _ => t.Rooted stage l w := by
  unfold referentialAction
  refine .honest fun hhonest => .current (fun x r hr => ?_) fun _ => .unexpected _
  subst hr
  dsimp only
  split
  · next hx =>
    refine .discard (.advance (.stays (.flag (h.after (eq_of_beq hx) rfl) rfl) fun _ h => h))
  · split
    · next hx =>
      refine .discard (.advance (.stays (.flag (h.after (eq_of_beq hx) rfl) rfl) fun _ h => h))
    · split
      · next hx =>
        refine .discard (.advance (.call expectNullOrDefault_laid fun _ v _ _ hv => .pure ?_))
        exact (h.after (eq_of_beq hx) rfl).tokens hv.stars
      · split
        · next hx =>
          have hstars := (hhonest x (by simp)).hasStars hx
          refine .discard (.advance (.discard ?_))
          unfold expectSpelling
          rw [bind_assoc]
          refine .takeIf? (fun y r' hr hy => ?_) (.unexpected_bind _)
          have hstars' := (hhonest y (by simp [hr])).hasStars hy
          show Lays c _ r' (Pure.pure y >>= fun _ => Pure.pure t) _
          rw [pure_bind]
          exact .pure ((h.tokens hstars).tokens hstars')
        · exact .unexpected _

theorem onChange?_lays (h : t.Rooted stage l w) :
    (onChange? t).Lays c w r fun o w _ => (o.getD t).Rooted stage l w := by
  -- both words are known by their kinds
  have hwords {x y : Token} {r : List Token} (hx : x.kind = .keyword .ON) {k : Keyword}
      (hy : y.kind = .keyword k) : Lays c w (x :: y :: r) (do
        discard advance
        discard advance
        return some (← referentialAction t)) fun o w _ => (o.getD t).Rooted stage l w := by
    refine .discard (.advance (.discard (.advance ?_)))
    exact (referentialAction_lays ((h.after hx rfl).after hy rfl)).bind fun _ _ _ _ h => .pure h
  unfold onChange?
  refine .sees _ ?_
  split
  · next hon =>
    refine .kindAt 1 ?_
    rcases r with _ | ⟨x, _ | ⟨y, r⟩⟩
    · cases hon
    · exact .pure h
    · have hx : x.kind = .keyword .ON := by simpa using hon
      simp only [List.getElem?_cons_succ, List.getElem?_cons_zero, Option.map_some]
      split
      · next hy => exact hwords hx (Option.some.inj hy)
      · next hy => exact hwords hx (Option.some.inj hy)
      · exact .pure h
  · exact .pure h

theorem references_laid : Yields references c (Tree.Stands .plain c) := by
  intro r
  unfold references
  refine .discard (.expectKeyword fun x _ _ hx => ?_)
  refine .call (objectName_laid .referencesClause rfl) fun node v r _ h => ?_
  -- the node starts behind the keyword
  refine .callsFrom rfl ?_ fun t v _ (h : t.Stands .plain c v) => h.behind rfl ?_
  · refine .sees _ ((Lays.attachIf _ h.1.toRooted (columnList_laid.plain rfl) rfl).bind ?_)
    intro node _ _ _ h
    refine (Lays.iterate (fun _ _ _ h => onChange?_lays h) h).bind fun node _ _ _ h => ?_
    exact .finishes h fun u hu => hu.stands rfl rfl
  · rw [hx]
    nofun

theorem constraintName?_laid :
    Yields constraintName? c fun o v => Quiet v ∧ (o = none → v = []) := by
  intro r
  unfold constraintName?
  refine .consumeKeyword (fun x _ _ hx => ?_) (.pure ⟨.nil, fun _ => rfl⟩)
  exact .expectWord fun y _ _ hy => .pure ⟨(Quiet.one hx rfl).append (.of_isName hy), nofun⟩

theorem finishConstraint_lays (name : Option Token) (h : t.Rooted stage l w) :
    (finishConstraint name t).Lays c w r fun t w _ => t.Finished l w := by
  unfold finishConstraint
  split
  · exact .stay (.setText h _) fun t h => .finishes h fun _ h => h
  · exact .finishes h fun _ h => h

theorem autoincrement?_lays (h : t.Rooted stage l w) :
    (autoincrement? t).Lays c w r fun t w _ => t.Rooted stage l w := by
  unfold autoincrement?
  refine .call (consumeKeyword_laid _) fun b v _ _ hv => ?_
  exact .stays (.flagIf (h.tokens hv.stars) b rfl) fun _ h => h

section

variable {inner : Nested} (hinner : inner.Lays)
include hinner

theorem check_lays (hv : v.head? = some start) (hquiet : Quiet v) :
    (check inner start).Lays c v r fun t w _ =>
      t.Rooted .growing ⟨.checkConstraint, c, start.span.start, false⟩ w := by
  unfold check
  refine .stay (.opened hv hquiet.stars) fun node h => ?_
  refine .discard (.expect fun x _ _ hx => .call (hinner.expression 0) fun condition u _ _ hu => ?_)
  refine .discard (.expect fun y _ _ hy => ?_)
  exact .stays (.attach (h.after hx rfl) hu rfl) fun _ h => h.after hy rfl

omit hinner in
/-- A constraint starts with its name, if it has one, and else with its own keyword. -/
theorem opened_constraint {k : Keyword} (hquiet : Quiet v) (hstart : (v ++ [x]).head? = some start)
    (hx : x.kind = .keyword k) (hk : kind.isWildcard = false) :
    Stays c (nodeAt kind start)
      (Tree.Rooted .grown ⟨kind, c, start.span.start, false⟩ · (v ++ [x])) :=
  .opened hstart ((hquiet.append (.one hx rfl)).stars.kind hk)

omit hinner in
theorem head?_concat {u u' : List Token} (h : start :: u = v ++ x :: u') :
    (v ++ [x]).head? = some start := by
  rcases v with _ | ⟨z, v⟩
  · rw [(List.cons.inj h).1]
    rfl
  · rw [(List.cons.inj h).1]
    rfl

/-- The constraint has read what stands before its own keyword. -/
theorem columnConstraintBody?_lays (hquiet : Quiet v) (hstart : (v ++ [x]).head? = some start) :
    (columnConstraintBody? inner start x.kind).Lays c v (x :: r) fun o w _ =>
      match o with
      | none => w = v
      | some t => t.Raised c start.span.start w := by
  unfold columnConstraintBody?
  split
  · next hx =>
    refine .discard (.advance (.discard (.expectKeyword fun y _ _ hy => ?_)))
    refine .stay (opened_constraint hquiet hstart hx rfl) fun node h => ?_
    refine (direction_lays (h.after hy rfl)).bind fun node _ _ _ h => ?_
    refine (onConflict?_lays h fun _ => rfl).bind fun node _ _ _ h => ?_
    exact (autoincrement?_lays h).bind fun node _ _ _ h => .pure ⟨_, rfl, h⟩
  · next hx =>
    refine .discard (.advance (.discard (.expectKeyword fun y _ _ hy => ?_)))
    refine .stay (opened_constraint hquiet hstart hx rfl) fun node h => ?_
    refine (onConflict?_lays (h.after hy rfl) fun _ => rfl).bind fun node _ _ _ h => ?_
    exact .pure ⟨_, rfl, h⟩
  · next hx =>
    refine .discard (.advance (.stay (opened_constraint hquiet hstart hx rfl) fun node h => ?_))
    exact .pure ⟨_, rfl, h.reopen⟩
  · next hx =>
    refine .discard (.advance (.stay (opened_constraint hquiet hstart hx rfl) fun node h => ?_))
    exact (onConflict?_lays h fun _ => rfl).bind fun node _ _ _ h => .pure ⟨_, rfl, h⟩
  · next hx =>
    have hwords := hquiet.append (Quiet.one hx rfl)
    refine .discard (.advance ((check_lays hinner hstart hwords).bind fun node _ _ _ h => ?_))
    exact .pure ⟨_, rfl, h⟩
  · next hx =>
    refine .discard (.advance (.stay (opened_constraint hquiet hstart hx rfl) fun node h => ?_))
    exact .under h (hinner.expression _) rfl fun node _ _ _ h => .pure ⟨_, rfl, h⟩
  · next hx =>
    refine .discard (.advance (.expectWord fun y _ _ hy => ?_))
    refine .stay (opened_constraint hquiet hstart hx rfl) fun node h => ?_
    refine .stay (.setText (h.tokens (Quiet.of_isNamePart hy).stars) y) fun node h => .pure ?_
    exact ⟨_, rfl, h.reopen⟩
  · refine .call references_laid fun target u r' hr htarget => ?_
    rcases v with _ | ⟨z, v⟩
    · -- the node starts with the keyword that its child begins with
      obtain rfl : x = start := Option.some.inj hstart
      have hhead : u.head?.map Token.span = some x.span :=
        congrArg (Option.map Token.span) (head?_of_append htarget.laid.ne_nil hr)
      refine .stay (.nodeAt .foreignKeyConstraint x) fun node hnode => .stay (.put _ _) ?_
      rintro _ rfl
      exact .pure ⟨_, rfl, hnode.ahead htarget hhead rfl nofun rfl⟩
    · obtain rfl : z = start := Option.some.inj hstart
      refine .stay (.opened (w := z :: v) rfl hquiet.stars) fun node h => ?_
      exact .stay (.attach h htarget rfl) fun node h => .pure ⟨.foreignKeyConstraint, rfl, h⟩
  · exact .pure rfl

theorem columnConstraint?_laid :
    Yields (columnConstraint? inner) c (Lays.Found (Tree.Stands .plain c)) := by
  intro r
  unfold columnConstraint?
  refine .current (fun start r hr => ?_) fun _ => .pure rfl
  refine .call constraintName?_laid fun name v r' hr' hname => ?_
  refine .current (fun x r' hx => ?_) fun _ => .unexpected _
  subst hx
  refine (columnConstraintBody?_lays hinner hname.1 (head?_concat hr')).bind fun o u _ _ ho => ?_
  rcases o with _ | node
  · obtain rfl : u = [] := List.append_right_eq_self.1 ho
    dsimp only
    rcases name with _ | name
    · rw [List.append_nil, hname.2 rfl]
      exact .pure rfl
    · exact .unexpected _
  · obtain ⟨k, hk, h⟩ := ho
    refine (finishConstraint_lays name h).bind fun node _ _ _ h => .pure ?_
    exact h.stands hk rfl

/-! ## Columns -/

omit hinner in
theorem columnType?_lays (h : t.Rooted .grown l w) (hl : ∀ w, l.Takes w .plain c) :
    (columnType? t).Lays c w r fun t w _ => t.Rooted .growing l w := by
  unfold columnType?
  refine .current (fun start r _ => ?_) fun _ => .pure h.reopen
  dsimp only
  split
  · refine .call typeName_laid ?_
    rintro ⟨text, dataType⟩ v r' hr hv
    refine .stay (.opened (head?_of_append hv.2 hr) hv.1) fun type htype => ?_
    refine .stay (.altered htype fun _ _ => ⟨rfl, rfl, rfl, rfl, fun _ => rfl⟩) fun type htype => ?_
    refine .finishPart htype fun type htype => ?_
    refine .stay (.attach h (htype.stands rfl rfl) (hl w)) fun t h => ?_
    exact .stays (.altered h fun _ _ => ⟨rfl, rfl, rfl, rfl, fun _ => rfl⟩) fun _ h => h
  · exact .pure h.reopen

theorem columnDefinition_laid : Yields (columnDefinition inner) c (Tree.Stands .plain c) := by
  intro r
  unfold columnDefinition
  refine .expectWord fun x _ _ hx => ?_
  refine .stay (.named (w := [x]) rfl (Quiet.of_isName hx).stars) fun column h => ?_
  refine (columnType?_lays h fun _ => rfl).bind fun column _ _ _ h => ?_
  refine (Lays.attachWhile h (columnConstraint?_laid hinner) fun _ => rfl).bind ?_
  exact fun column _ _ _ h => .finishes h fun u hu => hu.stands rfl rfl

/-! ## Tables -/

theorem tableConstraintBody_lays (hquiet : Quiet v) (hstart : (v ++ [x]).head? = some start) :
    (tableConstraintBody inner start x).Lays c (v ++ [x]) r fun t w _ =>
      t.Raised c start.span.start w := by
  unfold tableConstraintBody
  split
  · next hx =>
    refine .discard (.expectKeyword fun y _ _ hy => ?_)
    refine .stay (opened_constraint hquiet hstart hx rfl) fun node h => ?_
    refine .under (h.after hy rfl) (columnList_laid.plain rfl) rfl fun node _ _ _ h => ?_
    exact (onConflict?_lays h fun _ => rfl).weaken fun node _ _ _ h => ⟨_, rfl, h⟩
  · next hx =>
    refine .stay (opened_constraint hquiet hstart hx rfl) fun node h => ?_
    refine .under h (columnList_laid.plain rfl) rfl fun node _ _ _ h => ?_
    exact (onConflict?_lays h fun _ => rfl).weaken fun node _ _ _ h => ⟨_, rfl, h⟩
  · next hx =>
    have hwords := hquiet.append (Quiet.one hx rfl)
    exact (check_lays hinner hstart hwords).weaken fun node _ _ _ h => ⟨_, rfl, h⟩
  · next hx =>
    refine .discard (.expectKeyword fun y _ _ hy => ?_)
    refine .stay (opened_constraint hquiet hstart hx rfl) fun node h => ?_
    refine .under (h.after hy rfl) (columnList_laid.plain rfl) rfl fun node _ _ _ h => ?_
    exact .unders h references_laid rfl fun node _ _ _ h => ⟨_, rfl, h⟩
  · exact .throw _

theorem tableConstraint_laid : Yields (tableConstraint inner) c (Tree.Stands .plain c) := by
  intro r
  unfold tableConstraint
  refine .current (fun start r hr => ?_) fun _ => .unexpected _
  refine .call constraintName?_laid fun name v r' hr' hname => ?_
  refine .advance? (fun x r'' hx => ?_) (.unexpected _)
  subst hx
  refine (tableConstraintBody_lays hinner hname.1 (head?_concat hr')).bind fun node _ _ _ h => ?_
  obtain ⟨k, hk, h⟩ := h
  exact (finishConstraint_lays name h).weaken fun node _ _ _ h => h.stands hk rfl

theorem tableElement_laid : Yields (tableElement inner) c (Tree.Stands .plain c) := by
  intro r
  unfold tableElement seesOneOf
  rw [bind_assoc]
  refine .current (fun x r _ => ?_) fun _ => ?_
  · show Lays c [] (x :: r) (Pure.pure _ >>= _) _
    rw [pure_bind]
    split
    · exact tableConstraint_laid hinner _
    · exact columnDefinition_laid hinner _
  · rw [pure_bind]
    exact columnDefinition_laid hinner _

omit hinner in
theorem withoutRowid?_lays (h : t.Rooted .growing l w) :
    (withoutRowid? t).Lays c w r fun t w _ => t.Rooted .growing l w := by
  unfold withoutRowid?
  refine .honest fun hhonest => .takeKeyword? (fun x r' hr hx => ?_) (.pure h)
  refine .takeIf? (fun y r'' hr' hy => ?_) (.throw _)
  have hstars := (hhonest y (by simp [hr, hr'])).hasStars hy
  exact .stays (.flag ((h.after hx rfl).tokens hstars) rfl) fun _ h => h

variable {offset : Nat}

theorem createTable_lays (h : t.Rooted stage ⟨.createTableStmt, c, offset, false⟩ w) :
    (createTable inner t).Lays c w r fun t w _ =>
      t.Rooted .growing ⟨.createTableStmt, c, offset, false⟩ w := by
  unfold createTable
  refine .under h (plainName_laid .tableRef rfl rfl) rfl fun t _ _ _ h => ?_
  refine .consumeKeyword (fun x _ _ hx => ?_) (.discard (.expect fun x _ _ hx => ?_))
  · exact .unders (h.after hx rfl) hinner.query rfl fun _ _ _ _ h => h
  · refine (Lays.attachList (h.after hx rfl) (tableElement_laid hinner) rfl fun _ => rfl).bind ?_
    intro t _ _ _ h
    exact .discard (.expect fun y _ _ hy => withoutRowid?_lays (h.after hy rfl))

/-! ## Indexes and views -/

theorem indexedColumn_laid : Yields (indexedColumn inner) c (Tree.Stands .plain c) := by
  intro r
  unfold indexedColumn
  refine .call (hinner.expression 0) fun key v _ _ hkey => ?_
  refine .stay (.nodeOver .indexedColumn key) fun column hcolumn => ?_
  refine .stay (.attachOver hcolumn hkey rfl rfl) fun column h => ?_
  refine (direction_lays h).bind fun column _ _ _ h => ?_
  exact .finishes h fun u hu => hu.stands rfl rfl

theorem createIndex_lays (h : t.Rooted stage l w) (hl : ∀ w, l.Takes w .plain c) :
    (createIndex inner t).Lays c w r fun t w _ => t.Rooted .growing l w := by
  unfold createIndex
  refine .under h (plainName_laid .objectName rfl rfl) (hl _) fun t _ _ _ h => ?_
  refine .discard (.expectKeyword fun x _ _ hx => ?_)
  refine .under (h.after hx rfl) (plainName_laid .tableRef rfl rfl) (hl _) fun t _ _ _ h => ?_
  refine .discard (.expect fun y _ _ hy => ?_)
  refine (Lays.attachList (h.after hy rfl) (indexedColumn_laid hinner) rfl hl).bind ?_
  intro t _ _ _ h
  refine .discard (.expect fun z _ _ hz => ?_)
  exact Query.whereClause?_lays hinner (h.after hz rfl) hl

theorem createView_lays (h : t.Rooted stage ⟨.createViewStmt, c, offset, false⟩ w) :
    (createView inner t).Lays c w r fun t w _ =>
      t.Rooted .growing ⟨.createViewStmt, c, offset, false⟩ w := by
  unfold createView
  refine .under h (plainName_laid .objectName rfl rfl) rfl fun t _ _ _ h => ?_
  refine .sees _ ((Lays.attachIf _ h (columnList_laid.plain rfl) rfl).bind fun t _ _ _ h => ?_)
  refine .discard (.expectKeyword fun x _ _ hx => ?_)
  exact .unders (h.after hx rfl) hinner.query rfl fun _ _ _ _ h => h

/-! ## Triggers -/

omit hinner in
theorem triggerTime_lays (h : t.Rooted stage l w) :
    (triggerTime t).Lays c w r fun t w _ => t.Rooted stage l w := by
  unfold triggerTime
  refine .consumeKeyword (fun x _ _ hx => .stays (.flag (h.after hx rfl) rfl) fun _ h => h) ?_
  refine .consumeKeyword (fun x _ _ hx => .stays (.flag (h.after hx rfl) rfl) fun _ h => h) ?_
  refine .consumeKeyword (fun x _ _ hx => .discard (.expectKeyword fun y _ _ hy => ?_)) (.pure h)
  exact .stays (.flag ((h.after hx rfl).after hy rfl) rfl) fun _ h => h

omit hinner in
/-- The columns start at the event, as the event itself does. -/
theorem eventColumns_lays (hv : v.head? = some x) (hquiet : Quiet v) :
    (eventColumns x).Lays c v r fun t w _ => t.Stands .plain c w ∧ w.head? = some x := by
  have hname : Yields columnName c (Tree.Stands .plain c) := fun r =>
    (columnName_laid r).weaken fun _ _ _ _ ⟨_, h⟩ => h.stands rfl rfl
  unfold eventColumns
  refine .stay (.opened hv hquiet.stars) fun list h => ?_
  refine (Lays.attachList h hname rfl fun _ => rfl).bind fun list u _ _ h => ?_
  exact .finishes h fun list h => ⟨h.stands rfl rfl, by simp [hv]⟩

omit hinner in
theorem hasEventColumns_laid : Yields (hasEventColumns x) c fun _ v => Quiet v := by
  intro r
  unfold hasEventColumns
  split
  · exact consumeKeyword_laid _ _
  · exact .pure .nil

omit hinner in
theorem triggerEvent_laid : Yields triggerEvent c (Tree.Stands .plain c) := by
  intro r
  unfold triggerEvent
  refine .takeIf? (fun x _ _ hx => ?_) (.unexpected _)
  refine .stay (.namedNode .triggerEvent x) fun event hevent => ?_
  refine .call hasEventColumns_laid fun b v _ _ hv => ?_
  have hwords : Quiet ([x] ++ v) := (Quiet.of_keyword hx).append hv
  cases b
  · have h := hevent.rooted (w := [x] ++ v) rfl hwords.stars
    exact .finishes h fun u hu => hu.stands rfl rfl
  · unfold attachIf
    rw [if_pos rfl, bind_assoc]
    refine .callFrom (w := []) rfl (eventColumns_lays rfl hwords) fun columns u _ hcolumns => ?_
    refine .stay (.put _ _) ?_
    rintro _ rfl
    have hhead : u.head?.map Token.span = some x.span := congrArg (Option.map Token.span) hcolumns.2
    have h := hevent.ahead hcolumns.1 hhead rfl nofun rfl
    exact .finishes h fun u hu => hu.stands rfl rfl

omit hinner in
theorem eachRow?_lays (h : t.Rooted stage l w) :
    (eachRow? t).Lays c w r fun t w _ => t.Rooted stage l w := by
  unfold eachRow?
  refine .consumeKeyword (fun x _ _ hx => .discard (.expectKeyword fun y _ _ hy => ?_)) (.pure h)
  refine .discard (.expectKeyword fun z _ _ hz => ?_)
  exact .stays (.flag (((h.after hx rfl).after hy rfl).after hz rfl) rfl) fun _ h => h

theorem triggerCondition?_lays (h : t.Rooted stage l w) (hl : ∀ w, l.Takes w .plain c) :
    (triggerCondition? inner t).Lays c w r fun t w _ => t.Rooted .growing l w := by
  unfold triggerCondition?
  refine .takeKeyword? (fun x _ _ hx => ?_) (.pure h.growing)
  refine .stay (.opened (w := [x]) rfl (.one hx rfl)) fun clause hclause => ?_
  refine .call (hinner.expression 0) fun condition v _ _ hcondition => ?_
  refine .stay (.attach hclause hcondition rfl) fun clause hclause => ?_
  rw [List.append_assoc]
  refine .finishPart hclause fun clause hclause => ?_
  exact .stays (.attach h (hclause.stands rfl rfl) (hl w)) fun _ h => h

/-- The body ends at an `END`. -/
theorem triggerBody_laid : Yields (triggerBody inner) c (Tree.Stands .plain c) := by
  intro r
  unfold triggerBody
  refine .expectKeyword fun x _ _ hx => ?_
  refine .stay (.opened (w := [x]) rfl (.one hx rfl)) fun body h => ?_
  refine (Lays.iterateUntil (I := Tree.Based .growing ⟨.triggerBody, c, x.span.start, false⟩)
    (Q := fun r => r[0]?.map Token.kind = some (.keyword .END)) (fun body w r h => ?_)
    h.reopen.toBased).bind ?_
  · unfold triggerStatement?
    refine .sees _ ?_
    split
    · next hend => exact .pure ⟨h, eq_of_beq hend⟩
    · refine .look (fun r => r.isEmpty) ?_
      split
      · exact .unexpected _
      · refine .call hinner.statement fun statement v r' hr hstatement => ?_
        refine .stay (.put _ _) ?_
        rintro _ rfl
        have h := h.child hstatement rfl
        refine .discard (.expect fun y r'' hr' hy => .pure ⟨h.token (by rw [hy]; nofun), ?_⟩)
        show r''.length < r.length
        rw [hr, hr']
        simp only [List.length_append, List.length_cons]
        omega
  · rintro body v r - ⟨h, hend⟩
    rcases r with _ | ⟨y, r⟩
    · cases hend
    · have hend : y.kind = .keyword .END := Option.some.inj hend
      refine .discard (.advance (.finishes (h.tokens (.one hend rfl) (by simp)) fun u hu => ?_))
      exact hu.stands rfl rfl

theorem createTrigger_lays (h : t.Rooted stage l w) (hl : ∀ w, l.Takes w .plain c) :
    (createTrigger inner t).Lays c w r fun t w _ => t.Rooted .growing l w := by
  unfold createTrigger
  refine .under h (plainName_laid .objectName rfl rfl) (hl _) fun t _ _ _ h => ?_
  refine (triggerTime_lays h).bind fun t _ _ _ h => ?_
  refine .under h triggerEvent_laid (hl _) fun t _ _ _ h => ?_
  refine .discard (.expectKeyword fun x _ _ hx => ?_)
  refine .under (h.after hx rfl) (plainName_laid .tableRef rfl rfl) (hl _) fun t _ _ _ h => ?_
  refine (eachRow?_lays h).bind fun t _ _ _ h => ?_
  refine (triggerCondition?_lays hinner h hl).bind fun t _ _ _ h => ?_
  exact .unders h (triggerBody_laid hinner) (hl _) fun _ _ _ _ h => h

/-! ## `CREATE` -/

theorem creationBody_lays (h : t.Rooted stage ⟨kind, c, offset, false⟩ w)
    (hl : ∀ w, (⟨kind, c, offset, false⟩ : Label).Takes w .plain c) :
    (creationBody inner t).Lays c w r fun t w _ =>
      t.Rooted .growing ⟨kind, c, offset, false⟩ w := by
  unfold creationBody
  rw [h.kind]
  dsimp only
  split
  · exact createTable_lays hinner h
  · exact createIndex_lays hinner h hl
  · exact createView_lays hinner h
  · exact createTrigger_lays hinner h hl
  · exact .unders h (plainName_laid .objectName rfl rfl) (hl _) fun _ _ _ _ h => h

omit hinner in
theorem temporary?_laid : Yields temporary? c fun _ v => Quiet v := by
  intro r
  unfold temporary?
  refine .consumeKeyword (fun x _ _ hx => .pure (.one hx rfl)) ?_
  exact consumeKeyword_laid _ _

omit hinner in
theorem ifNotExists?_lays (h : t.Rooted stage l w) :
    (ifNotExists? t).Lays c w r fun t w _ => t.Rooted stage l w := by
  unfold ifNotExists?
  refine .consumeKeyword (fun x _ _ hx => .discard (.expectKeyword fun y _ _ hy => ?_)) (.pure h)
  refine .discard (.expectKeyword fun z _ _ hz => ?_)
  exact .stays (.flag (((h.after hx rfl).after hy rfl).after hz rfl) rfl) fun _ h => h

omit hinner in
theorem creationKind_laid (temporary unique : Bool) : Yields (creationKind temporary unique x) c
    fun k v => v = [] ∧ (creationKind? x.kind).map (·.1) = some k := by
  intro r
  unfold creationKind
  split
  · exact .unexpected _
  · next hkind =>
    split
    · exact .throw _
    · split
      · exact .throw _
      · exact .pure ⟨rfl, by rw [hkind]; rfl⟩

omit hinner in
theorem creationKind?_eq_some {k : Kind} (h : (creationKind? x.kind).map (·.1) = some k) :
    Quiet [x] ∧ k.isOrdinary = true ∧ k.isWildcard = false ∧
      ∀ start w, (⟨k, c, start, false⟩ : Label).Takes w .plain c := by
  unfold creationKind? at h
  split at h <;> cases h <;> exact ⟨.one ‹_› rfl, rfl, rfl, fun _ _ => rfl⟩

theorem create_laid : Yields (create inner) c (Tree.Stands .statement c) := by
  intro r
  unfold create
  refine .expectKeyword fun x _ _ hx => ?_
  refine .call temporary?_laid fun temporary v _ _ hv => ?_
  refine .call (consumeKeyword_laid .UNIQUE) fun unique u _ _ hu => ?_
  refine .current (fun y r hy => ?_) fun _ => .unexpected _
  refine .call (creationKind_laid temporary unique) fun k v' r' hr hk => ?_
  obtain ⟨rfl, hk⟩ := hk
  obtain ⟨hquiet, hordinary, hwild, htakes⟩ := creationKind?_eq_some (c := c) hk
  obtain rfl : y :: r = r' := hr
  rw [List.append_nil]
  have hwords := (((Quiet.one hx rfl).append hv).append hu).append hquiet
  refine .discard (.advance (.stay (.opened (w := [x] ++ v ++ u ++ [y]) rfl ?_) fun t h => ?_))
  · exact hwords.stars.kind hwild
  refine .stay (.flagIf h temporary rfl) fun t h => .stay (.flagIf h unique rfl) fun t h => ?_
  refine (ifNotExists?_lays h).bind fun t _ _ _ h => ?_
  refine (creationBody_lays hinner h (htakes _)).bind fun t _ _ _ h => ?_
  refine .finishes h fun t h => (h.whole rfl rfl).stands ?_
  rw [Role.admits, hordinary]
  rfl

/-! ## Other statements -/

omit hinner in
theorem dropBehavior?_lays (h : t.Rooted stage l w) :
    (dropBehavior? t).Lays c w r fun t w _ => t.Rooted stage l w := by
  unfold dropBehavior?
  refine .consumeKeyword (fun x _ _ hx => .stays (.flag (h.after hx rfl) rfl) fun _ h => h) ?_
  exact .consumeKeyword (fun x _ _ hx => .stays (.flag (h.after hx rfl) rfl) fun _ h => h) (.pure h)

omit hinner in
theorem ifExists?_lays (h : t.Rooted stage l w) :
    (ifExists? t).Lays c w r fun t w _ => t.Rooted stage l w := by
  unfold ifExists?
  refine .consumeKeyword (fun x _ _ hx => .discard (.expectKeyword fun y _ _ hy => ?_)) (.pure h)
  exact .stays (.flag ((h.after hx rfl).after hy rfl) rfl) fun _ h => h

omit hinner in
theorem drop_laid : Yields drop c (Tree.Whole .dropStmt c) := by
  intro r
  unfold drop
  refine .expectKeyword fun x _ _ hx => .takeIf? (fun y _ _ hy => ?_) (.unexpected _)
  obtain ⟨⟨k, _⟩, hk⟩ := Option.isSome_iff_exists.1 hy
  have hquiet := (creationKind?_eq_some (c := c) (by rw [hk]; rfl)).1
  refine .stay (.opened (w := [x]) rfl (.one hx rfl)) fun t h => ?_
  refine .stay (.setText (h.tokens hquiet.stars) y) fun t h => ?_
  refine (ifExists?_lays h).bind fun t _ _ _ h => ?_
  refine (Lays.attachList h (plainName_laid .objectName rfl rfl) rfl fun _ => rfl).bind ?_
  intro t _ _ _ h
  refine (dropBehavior?_lays h).bind fun t _ _ _ h => ?_
  exact .finishes h fun t h => h.whole rfl rfl

omit hinner in
theorem renameTable_lays (hv : v.head? = some x) (hquiet : Quiet v) :
    (renameTable x).Lays c v r fun t w _ => t.Raised c x.span.start w := by
  unfold renameTable
  refine .expectWord fun y _ _ hy => .stay (.opened hv hquiet.stars) fun t h => ?_
  refine .stays (.setText (h.tokens (Quiet.of_isName hy).stars) y) fun t h => ?_
  exact ⟨_, rfl, h.reopen⟩

omit hinner in
theorem renameColumn_lays (hv : v.head? = some x) (hquiet : Quiet v) :
    (renameColumn x).Lays c v r fun t w _ => t.Raised c x.span.start w := by
  unfold renameColumn
  refine .discard (.call (consumeKeyword_laid _) fun _ u _ _ hu => ?_)
  refine .expectWord fun y _ _ hy => .discard (.expectKeyword fun z _ _ hz => ?_)
  refine .expectWord fun y' _ _ hy' => ?_
  refine .stay (.opened hv hquiet.stars) fun t h => ?_
  refine .stay (.named (w := [y]) rfl (Quiet.of_isName hy).stars) fun before hbefore => ?_
  refine .stay (.named (w := [y']) rfl (Quiet.of_isName hy').stars) fun after hafter => ?_
  refine .stay (.attach (h.tokens hu.stars) (hbefore.plain rfl) rfl) fun t h => ?_
  refine .stays (.attach (h.after hz rfl) (hafter.plain rfl) rfl) fun t h => ?_
  exact ⟨_, rfl, h⟩

theorem alteration_lays :
    (alteration inner x).Lays c [x] r fun t w _ => t.Raised c x.span.start w := by
  unfold alteration
  split
  · next hx =>
    refine .consumeKeyword (fun y _ _ hy => ?_) (renameColumn_lays rfl (.one hx rfl))
    exact renameTable_lays rfl ((Quiet.one hx rfl).append (.one hy rfl))
  · next hx =>
    refine .discard (.call (consumeKeyword_laid _) fun _ u _ _ hu => ?_)
    refine .stay (.opened (w := [x]) rfl (.one hx rfl)) fun t h => ?_
    refine .unders (h.tokens hu.stars) (columnDefinition_laid hinner) rfl fun t _ _ _ h => ?_
    exact ⟨_, rfl, h⟩
  · next hx =>
    refine .discard (.call (consumeKeyword_laid _) fun _ u _ _ hu => .expectWord fun y _ _ hy => ?_)
    refine .stay (.opened (w := [x]) rfl (.one hx rfl)) fun t h => ?_
    refine .stays (.setText ((h.tokens hu.stars).tokens (Quiet.of_isName hy).stars) y) fun t h => ?_
    exact ⟨_, rfl, h.reopen⟩
  · exact .throw _

theorem alter_laid : Yields (alter inner) c (Tree.Whole .alterTableStmt c) := by
  intro r
  unfold alter
  refine .expectKeyword fun x _ _ hx => .discard (.expectKeyword fun y _ _ hy => ?_)
  refine .stay (.opened (w := [x]) rfl (.one hx rfl)) fun t h => ?_
  refine .under (h.after hy rfl) (plainName_laid .tableRef rfl rfl) rfl fun t _ _ _ h => ?_
  refine .advance? (fun z _ _ => ?_) (.unexpected _)
  refine .callFrom rfl (alteration_lays hinner) fun part v _ hpart => ?_
  obtain ⟨k, hk, hpart⟩ := hpart
  refine .finishPart hpart fun part hpart => ?_
  refine .stay (.attach h (hpart.plain hk) rfl) fun t h => ?_
  exact .finishes h fun t h => h.whole rfl rfl

omit hinner in
theorem truncate_laid : Yields truncate c (Tree.Whole .truncateStmt c) := by
  intro r
  unfold truncate
  refine .expectKeyword fun x _ _ hx => ?_
  refine .discard (.call (consumeKeyword_laid _) fun _ u _ _ hu => ?_)
  refine .stay (.opened (w := [x]) rfl (.one hx rfl)) fun t h => ?_
  refine .under (h.tokens hu.stars) (plainName_laid .tableRef rfl rfl) rfl fun t _ _ _ h => ?_
  exact .finishes h fun t h => h.whole rfl rfl

end

end Schema

end SqlSyntax
