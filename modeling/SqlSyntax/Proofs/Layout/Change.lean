import SqlSyntax.Grammar.Change
import SqlSyntax.Proofs.Layout.Query

/-!
# Changes over their tokens

An insertion tells a query in parentheses of its own from one without them. What stands before its
source leaves no parenthesis open: a name, an alias, or a list of columns in parentheses.
-/

namespace SqlSyntax

open SqlSyntax.Parser

variable {c : Option Context} {w r v : List Token} {stage : Stage} {l : Label} {t : Tree}
  {x : Token}

namespace Change

/-! ## Conflicts -/

theorem conflictWord_laid : Yields conflictWord c fun word v => v = [word] ∧ Quiet v := by
  intro r
  unfold conflictWord
  exact .takeIf? (fun x _ _ hx => .pure ⟨rfl, .of_keyword hx⟩) (.unexpected _)

theorem conflictAction_lays {start : Token} (hv : v.head? = some start) (hquiet : Quiet v)
    (word : Token) :
    (conflictAction start word).Lays c v r fun t w _ => t.Whole .conflictAction c w := by
  unfold conflictAction
  refine .stay (.opened hv hquiet.stars) fun node h => .stay (.setText h word) fun node h => ?_
  exact .finishes h fun u hu => hu.whole (by simp [startOf, hv]) rfl

theorem orAction?_lays (h : t.Rooted stage l w) (hl : ∀ w, l.Takes w .plain c) :
    (orAction? t).Lays c w r fun t w _ => t.Rooted .growing l w := by
  unfold orAction?
  refine .takeKeyword? (fun x _ _ hx => ?_) (.pure h.growing)
  refine .call conflictWord_laid fun word v _ _ hword => ?_
  obtain ⟨rfl, hquiet⟩ := hword
  have hwords : Quiet ([x] ++ [word]) := (Quiet.one hx rfl).append hquiet
  refine .callFrom (List.append_assoc _ _ _) (conflictAction_lays rfl hwords word) ?_
  intro action v _ haction
  refine .stay (.attach h (haction.stands rfl) (hl w)) fun t h => ?_
  exact .stays (.flagIf h _ rfl) fun _ h => h

/-! ## Assignments -/

theorem assigned_laid :
    Yields assigned c fun t w => ∃ start, t.Rooted .growing ⟨.assignment, c, start, false⟩ w := by
  intro r
  unfold assigned
  refine .current (fun x r _ => ?_) fun _ => .unexpected _
  dsimp only
  split
  · refine .stay (.nodeAt .assignment x) fun node hnode => ?_
    refine .call columnList_laid fun columns v r' hr hcolumns => .stays (.put _ _) ?_
    rintro _ rfl
    have hhead : v.head?.map Token.span = some x.span :=
      congrArg (Option.map Token.span) (head?_of_append hcolumns.laid.ne_nil hr)
    exact ⟨_, hnode.ahead (hcolumns.plain rfl) hhead rfl nofun rfl⟩
  · refine .expectWord fun y _ _ hy => ?_
    exact .stays (.named rfl (Quiet.of_isName hy).stars) fun node h => ⟨_, h.growing⟩

theorem assignmentSign_laid : Yields assignmentSign c fun _ v => Quiet v := by
  intro r
  unfold assignmentSign
  refine .consume (fun x _ _ hx => .pure (.one hx rfl)) ?_
  exact .consumeKeyword (fun x _ _ hx => .pure (.one hx rfl)) (.unexpected _)

section

variable {inner : Nested} (hinner : inner.Lays)
include hinner

theorem returning?_lays (h : t.Rooted stage l w) (hl : l.kind.takesWith = true) :
    (returning? inner t).Lays c w r fun t w _ => t.Rooted .growing l w := by
  unfold returning?
  refine .consumeKeyword (fun x _ _ hx => ?_) (.pure h.growing)
  exact .unders (h.after hx rfl) (Query.selected_laid hinner (.inr rfl)) ⟨hl, rfl⟩
    fun _ _ _ _ h => h

theorem assignment_laid : Yields (assignment inner) c (Tree.Stands .plain c) := by
  intro r
  unfold assignment
  refine .call assigned_laid fun node v _ _ ⟨start, h⟩ => ?_
  refine .call assignmentSign_laid fun _ u _ _ hu => ?_
  refine .under (h.tokens hu.stars) (hinner.expression 0) rfl fun node _ _ _ h => ?_
  exact .finishes h fun u hu => hu.stands rfl rfl

/-! ## Insertions -/

variable {start : Nat}

omit hinner in
theorem insertColumns?_lays (h : t.Rooted stage ⟨.insertStmt, c, start, false⟩ w)
    (hw : ¬ EndsWith .leftParen w) :
    (insertColumns? t).Lays c w r fun t w _ =>
      t.Rooted .growing ⟨.insertStmt, c, start, false⟩ w ∧ ¬ EndsWith .leftParen w := by
  have hcolumns : Lays c w r (do attach t (← columnList)) fun t w _ =>
      t.Rooted .growing ⟨.insertStmt, c, start, false⟩ w ∧ ¬ EndsWith .leftParen w := by
    refine .call columnList_closed fun columns v _ _ hcolumns => ?_
    refine .stays (.attach h (hcolumns.1.plain rfl) rfl) fun t h => ⟨h, ?_⟩
    exact not_endsWith_append hcolumns.1.laid.ne_nil hcolumns.2
  unfold insertColumns?
  refine .sees _ ?_
  split
  · refine .kindAt 1 ?_
    split
    · exact .pure ⟨h.growing, hw⟩
    · exact .pure ⟨h.growing, hw⟩
    · exact .pure ⟨h.growing, hw⟩
    · exact hcolumns
  · exact .pure ⟨h.growing, hw⟩

theorem insertSource_lays (h : t.Rooted stage ⟨.insertStmt, c, start, false⟩ w)
    (hw : ¬ EndsWith .leftParen w) :
    (insertSource inner t).Lays c w r fun t w _ =>
      t.Rooted .growing ⟨.insertStmt, c, start, false⟩ w := by
  -- a query that no parenthesis stands before is no subquery
  have hquery {r : List Token} : Lays c w r (do attach t (← inner.query)) fun t w _ =>
      t.Rooted .growing ⟨.insertStmt, c, start, false⟩ w :=
    .unders h hinner.query ⟨h.laid.ne_nil, (if_neg hw).symm⟩ fun _ _ _ _ h => h
  unfold insertSource
  rcases r with _ | ⟨x, r⟩
  · exact .currentKind (.unexpected _)
  · refine .currentKind ?_
    simp only [List.getElem?_cons_zero, Option.map_some]
    split
    · exact .unders h ((Query.values_laid hinner (.inr rfl)).plain rfl) rfl fun _ _ _ _ h => h
    · next hx =>
      refine .discard (.advance (.discard (.expectKeyword fun y _ _ hy => ?_)))
      have h := (h.after (Option.some.inj hx) rfl).after hy rfl
      exact .stays (.flag h rfl) fun _ h => h.growing
    · exact hquery
    · exact hquery
    · next hx =>
      have hx : x.kind = .leftParen := Option.some.inj hx
      have hopens : EndsWith .leftParen (w ++ [x]) := by simp [EndsWith, hx]
      refine .discard (.advance (.call hinner.query.within fun query v _ _ hquery => ?_))
      refine .discard (.expect fun y _ _ hy => ?_)
      have h := h.after hx rfl
      refine .stays (.attach h hquery ⟨h.laid.ne_nil, (if_pos hopens).symm⟩) fun _ h => ?_
      exact h.after hy rfl
    · exact .unexpected _

omit hinner in
theorem insertTable_laid :
    Yields insertTable c fun t w => t.Stands .plain c w ∧ ¬ EndsWith .leftParen w := by
  intro r
  unfold insertTable
  refine .call (objectName_laid .tableRef rfl) fun table v _ _ h => .sees _ ?_
  have hv : ¬ EndsWith .leftParen v := h.2.not_opens
  split
  · refine (withAlias_lays h.1 fun _ => rfl).weaken fun table _ _ _ h => ?_
    exact ⟨h.1.stands rfl rfl, h.2 hv⟩
  · exact .pure ⟨h.1.stands rfl, hv⟩

omit hinner in
theorem insertAction_lays (h : t.Rooted stage ⟨.insertStmt, c, start, false⟩ w) (word : Token) :
    (insertAction t word).Lays c w r fun t w _ =>
      t.Rooted .growing ⟨.insertStmt, c, start, false⟩ w := by
  unfold insertAction
  split
  · exact .stays (.flag h rfl) fun _ h => h.growing
  · exact orAction?_lays h fun _ => rfl

theorem insert_lays (hx : HasStars 0 [x]) :
    (insert inner).Lays c [] (x :: r) fun t w _ => t.Whole .insertStmt c w := by
  unfold insert
  refine .advance (.stay (.opened (w := [x]) rfl hx) fun statement h => ?_)
  refine (insertAction_lays h x).bind fun statement _ _ _ h => ?_
  refine .discard (.expectKeyword fun y _ _ hy => ?_)
  refine .call insertTable_laid fun table v _ _ htable => ?_
  refine .stay (.attach (h.after hy rfl) htable.1 rfl) fun statement h => ?_
  have hclosed (w : List Token) : ¬ EndsWith .leftParen (w ++ v) :=
    not_endsWith_append htable.1.laid.ne_nil htable.2
  refine (insertColumns?_lays h (hclosed _)).bind fun statement _ _ _ h => ?_
  refine (insertSource_lays hinner h.1 h.2).bind fun statement _ _ _ h => ?_
  refine (returning?_lays hinner h rfl).bind fun statement _ _ _ h => ?_
  exact .finishes h fun u hu => hu.whole rfl rfl

/-! ## Updates and deletions -/

omit hinner in
theorem target_laid : Yields target c (Tree.Stands .plain c) := by
  intro r
  unfold target
  refine .call (objectName_laid .tableRef rfl) fun table v _ _ h => ?_
  exact (withAlias_lays h.1 fun _ => rfl).weaken fun table _ _ _ h => h.1.stands rfl rfl

theorem setClause_laid : Yields (setClause inner) c (Tree.Stands .plain c) := by
  intro r
  unfold setClause
  refine .expectKeyword fun x _ _ hx => ?_
  refine .stay (.opened (w := [x]) rfl (.one hx rfl)) fun clause h => ?_
  refine (Lays.attachList h (assignment_laid hinner) rfl fun _ => rfl).bind fun clause _ _ _ h => ?_
  exact .finishes h fun u hu => hu.stands rfl rfl

theorem update_laid : Yields (update inner) c (Tree.Whole .updateStmt c) := by
  intro r
  unfold update
  refine .expectKeyword fun x _ _ hx => ?_
  refine .stay (.opened (w := [x]) rfl (.one hx rfl)) fun statement h => ?_
  refine (orAction?_lays h fun _ => rfl).bind fun statement _ _ _ h => ?_
  refine .under h target_laid rfl fun statement _ _ _ h => ?_
  refine .under h (setClause_laid hinner) rfl fun statement _ _ _ h => ?_
  refine (Query.fromClause?_lays target_laid h fun _ => rfl).bind fun statement _ _ _ h => ?_
  refine (Query.whereClause?_lays hinner h fun _ => rfl).bind fun statement _ _ _ h => ?_
  refine (returning?_lays hinner h rfl).bind fun statement _ _ _ h => ?_
  exact .finishes h fun u hu => hu.whole rfl rfl

theorem delete_laid : Yields (delete inner) c (Tree.Whole .deleteStmt c) := by
  intro r
  unfold delete
  refine .expectKeyword fun x _ _ hx => ?_
  refine .stay (.opened (w := [x]) rfl (.one hx rfl)) fun statement h => ?_
  refine .discard (.expectKeyword fun y _ _ hy => ?_)
  refine .under (h.after hy rfl) target_laid rfl fun statement _ _ _ h => ?_
  refine (Query.whereClause?_lays hinner h fun _ => rfl).bind fun statement _ _ _ h => ?_
  refine (returning?_lays hinner h rfl).bind fun statement _ _ _ h => ?_
  exact .finishes h fun u hu => hu.whole rfl rfl

end

end Change

end SqlSyntax
