import SqlSyntax.Grammar.Query
import SqlSyntax.Proofs.Layout.Expression

/-!
# Queries over their tokens

A select list starts at the token that its first column begins with, a join and a set operation
start with what stands on their left, and a `WITH` is put in front of the query that was read
behind it. Both numbers of a limit are read before its node is carried on, so it reaches as far as
the node of the rows that are skipped.
-/

namespace SqlSyntax

open SqlSyntax.Parser

variable {c : Option Context} {w r v : List Token} {stage : Stage} {l : Label} {t : Tree}
  {x y : Token} {kind : Kind}

/-- The tree is a whole query without a `WITH`. -/
def Tree.WholeQuery (c : Option Context) (t : Tree) (w : List Token) : Prop :=
  ∃ k, k.isQuery = true ∧ t.Whole k c w

theorem head?_of_append {r' : List Token} (hv : v ≠ []) (h : x :: r = v ++ r') :
    v.head? = some x := by
  obtain ⟨y, v, rfl⟩ := List.exists_cons_of_ne_nil hv
  rw [(List.cons.inj h).1]
  rfl

namespace Query

variable {inner : Nested} (hinner : inner.Lays)
include hinner

/-! ## Select lists -/

theorem resultColumn_laid : Yields (resultColumn inner) c (Tree.Stands .column c) := by
  have hcolumn {t : Tree} {w : List Token} (h : t.Stands .plain c w) : t.Stands .column c w := by
    have hk : t.kind.isOrdinary = true := h.admits
    exact ⟨h.laid, by simp [Role.admits, hk], h.context, nofun, h.ended⟩
  intro r
  unfold resultColumn
  refine .take? (fun x _ _ hx => ?_) (.stay (.peek _) fun b _ => ?_)
  · have hstar : HasStars Kind.wildcard.isWildcard.toNat [x] := .star hx
    exact .stays (.opened (w := [x]) rfl hstar) fun node h => h.stands rfl rfl
  · cases b
    · refine .call (hinner.expression 0) fun value u _ _ hvalue => ?_
      refine .call aliasName?_laid fun o v _ _ ho => ?_
      rcases o with _ | name
      · obtain rfl : v = [] := ho
        rw [List.append_nil]
        exact .pure (hcolumn hvalue)
      · obtain ⟨own, rfl, hown, hname⟩ := ho
        refine .stay (.nodeOver .resultColumn value) fun node hnode => ?_
        refine .stay (.attachOver hnode hvalue rfl rfl) fun node h => ?_
        rw [← List.append_assoc]
        refine (aliased_lays (h.tokens hown.stars) hname fun _ => rfl).weaken fun t v _ _ h => ?_
        exact hcolumn (h.2.stands rfl rfl)
    · exact (columnReference_laid true _).weaken fun t w _ _ h => h.1

theorem resultColumns_laid (hk : kind = .selectList ∨ kind = .returningClause) :
    Yields (resultColumns inner kind) c (Tree.Whole kind c) := by
  have hlists : kind.listsColumns = true ∧ kind.isWildcard = false ∧ kind ≠ .castExpr := by
    rcases hk with rfl | rfl <;> exact ⟨rfl, rfl, nofun⟩
  obtain ⟨hlists, hwild, hcast⟩ := hlists
  have htakes {start : Nat} (w : List Token) :
      (⟨kind, c, start, false⟩ : Label).Takes w .column c := ⟨hlists, rfl⟩
  intro r
  unfold resultColumns
  refine .current (fun x r _ => ?_) fun _ => .unexpected _
  refine .stay (.nodeAt kind x) fun list hlist => ?_
  have hitems : Lays c [] (x :: r) (attachList (resultColumn inner) list) fun t w _ =>
      w.head? = some x ∧ t.Rooted .growing ⟨kind, c, x.span.start, false⟩ w := by
    refine .call (resultColumn_laid hinner) fun column v r' hr hcolumn => .stay (.put _ _) ?_
    rintro _ rfl
    have hhead := head?_of_append hcolumn.laid.ne_nil hr
    have h := Tree.New.ahead hlist hcolumn (by rw [hhead]; rfl) hwild hcast (htakes [])
    refine (Lays.attachWhile h (Lays.afterComma? (resultColumn_laid hinner) rfl) htakes).weaken ?_
    intro t u _ _ ht
    exact ⟨by simp [List.head?_append, hhead], ht⟩
  refine hitems.bind fun list v _ _ h => .finishes h.2 fun u hu => hu.whole ?_ rfl
  have hhead : v.head? = some x := h.1
  simp [startOf, hhead]

theorem selected_laid (hk : kind = .selectList ∨ kind = .returningClause) :
    Yields (within .selectList (resultColumns inner kind)) c
      (Tree.Stands .columns (some .selectList)) := by
  refine Yields.within fun r => (resultColumns_laid hinner hk r).weaken fun t w _ _ h => h.stands ?_
  rcases hk with rfl | rfl <;> rfl

/-! ## Tables -/

theorem tablePrimary_laid : Yields (tablePrimary inner) c (Tree.Stands .plain c) := by
  intro r
  unfold tablePrimary
  refine .current (fun x r _ => ?_) fun _ => .unexpected _
  dsimp only
  split
  · refine .call (objectName_laid .tableRef rfl) fun t v _ _ h => ?_
    exact (withAlias_lays h.1 fun _ => rfl).weaken fun t _ _ _ h => h.1.stands rfl rfl
  · next hx =>
    have hx : x.kind = .leftParen := by simpa using hx
    refine .discard (.advance (.stay Expression.seesQuery_peeks fun b _ => ?_))
    cases b
    · refine .call hinner.joinTree fun tables v _ _ h => ?_
      refine .discard (.expect fun y _ _ hy => .pure ?_)
      exact (h.behind rfl (by rw [hx]; nofun)).tokens rfl (Quiet.one hy rfl).stars
    · refine .callFrom rfl (Expression.subquery_lays hinner hx (.inr rfl)) fun t v _ h => ?_
      exact (withAlias_lays h fun _ => rfl).weaken fun t _ _ _ h => h.1.stands rfl rfl

/-- The words of a join, if some come next. -/
def IsJoin (o : Option (Kind × Bool)) (v : List Token) : Prop :=
  match o with
  | none => v = []
  | some (k, _) => Quiet v ∧ k.isJoin = true

omit hinner in
theorem joinKind?_laid : Yields joinKind? c IsJoin := by
  intro r
  have hsided {x : Token} {word : Keyword} {r : List Token} {k : Kind}
      (hx : x.kind = .keyword word) (hk : k.isJoin = true) : Lays c [] (x :: r) (do
        discard advance
        return some (k, ← consumeKeyword .OUTER)) fun o v _ => IsJoin o v := by
    refine .discard (.advance (.consumeKeyword (fun y _ _ hy => .pure ?_) (.pure ?_)))
    · exact ⟨(Quiet.one hx rfl).append (.one hy rfl), hk⟩
    · exact ⟨.one hx rfl, hk⟩
  unfold joinKind?
  rcases r with _ | ⟨x, r⟩
  · exact .currentKind (.pure rfl)
  · refine .currentKind ?_
    simp only [List.getElem?_cons_zero, Option.map_some]
    split
    · exact .pure ⟨.nil, rfl⟩
    · next hx => exact .discard (.advance (.pure ⟨.one (Option.some.inj hx) rfl, rfl⟩))
    · next hx => exact .discard (.advance (.pure ⟨.one (Option.some.inj hx) rfl, rfl⟩))
    · next hx => exact hsided (Option.some.inj hx) rfl
    · next hx => exact hsided (Option.some.inj hx) rfl
    · next hx => exact hsided (Option.some.inj hx) rfl
    · exact .pure rfl

/-- A clause with one expression after its keyword. -/
theorem clause_lays {k : Keyword} {context : Context} (hx : x.kind = .keyword k)
    (hk : kind.isWildcard = false)
    (hl : ∀ w, (⟨kind, c, x.span.start, false⟩ : Label).Takes w .plain (some context)) :
    (clause inner kind context x).Lays c [x] r fun t w _ => t.Whole kind c w := by
  unfold clause
  refine .stay (.opened (w := [x]) rfl ((HasStars.one hx rfl).kind hk)) fun node h => ?_
  refine .under h (hinner.expression 0).within (hl _) fun node v _ _ h => ?_
  exact .finishes h fun u hu => hu.whole rfl rfl

omit hinner in
theorem usingColumns_lays (hx : x.kind = .keyword .USING) :
    (usingColumns x).Lays c [x] r fun t w _ => t.Whole .usingClause c w := by
  have hname : Yields columnName c (Tree.Stands .plain c) := fun r =>
    (columnName_laid r).weaken fun _ _ _ _ ⟨_, h⟩ => h.stands rfl rfl
  unfold usingColumns
  refine .stay (.opened (w := [x]) rfl (.one hx rfl)) fun node h => ?_
  refine .discard (.expect fun y _ _ hy => ?_)
  refine (Lays.attachList (h.after hy rfl) hname rfl fun _ => rfl).bind fun node v _ _ h => ?_
  exact .discard (.expect fun z _ _ hz => .finishes (h.after hz rfl) fun u hu => hu.whole rfl rfl)

theorem joinCondition?_lays (h : t.Rooted stage l w) (hl : ∀ w, l.Takes w .plain c) :
    (joinCondition? inner t).Lays c w r fun t w _ => t.Rooted .growing l w := by
  unfold joinCondition?
  refine .takeKeyword? (fun x _ _ hx => ?_) (.takeKeyword? (fun x _ _ hx => ?_) (.pure h.growing))
  · refine .callFrom rfl (clause_lays hinner hx rfl fun _ => rfl) fun u v _ hu => ?_
    exact .stays (.attach h (hu.stands rfl) (hl w)) fun _ h => h
  · refine .callFrom rfl (usingColumns_lays hx) fun u v _ hu => ?_
    exact .stays (.attach h (hu.stands rfl) (hl w)) fun _ h => h

theorem joined?_lays {left : Tree} (h : left.Stands .plain c w) :
    (joined? inner left).Lays c w r fun o w _ => (o.getD left).Stands .plain c w := by
  -- the words of the join stand behind the tables on the left
  have hjoin {w r : List Token} (natural : Bool) (h : left.Stands .plain c w) : Lays c w r (do
      match ← joinKind? with
      | none => if natural then unexpected "JOIN" else return none
      | some (kind, outer) =>
        discard <| expectKeyword .JOIN
        let right ← tablePrimary inner
        let join ← flagIf natural .natural (← nodeOver kind left)
        let join ← flagIf outer .outer join
        let join ← attach (← attach join left) right
        return some (← finish (← joinCondition? inner join)))
      fun o w _ => (o.getD left).Stands .plain c w := by
    refine .call joinKind?_laid fun o v _ _ ho => ?_
    rcases o with _ | ⟨kind, outer⟩
    · obtain rfl : v = [] := ho
      rw [List.append_nil]
      cases natural
      · exact .pure h
      · exact .unexpected _
    · obtain ⟨hv, hkind⟩ := ho
      have hk : kind.isOrdinary = true ∧ kind.isWildcard = false ∧
          ∀ start w, (⟨kind, c, start, false⟩ : Label).Takes w .plain c := by
        unfold Kind.isJoin at hkind
        split at hkind <;> first | exact ⟨rfl, rfl, fun _ _ => rfl⟩ | cases hkind
      obtain ⟨hordinary, hwild, htakes⟩ := hk
      have h := h.tokens rfl hv.stars
      refine .discard (.expectKeyword fun x _ _ hx => ?_)
      have h := h.tokens rfl (.one hx rfl)
      refine .call (tablePrimary_laid hinner) fun right u _ _ hright => ?_
      refine .stay (.nodeOver kind left) fun join hjoin => ?_
      refine .stay (.flagIfNew hjoin natural rfl) fun join hjoin => ?_
      refine .stay (.flagIfNew hjoin outer rfl) fun join hjoin => ?_
      refine .stay (.attachOver hjoin h (htakes _ _) hwild) fun join h => ?_
      refine .stay (.attach h hright (htakes _ _)) fun join h => ?_
      refine (joinCondition?_lays hinner h (htakes _)).bind fun join _ _ _ h => ?_
      exact .finish h fun join h => .pure (h.stands hordinary rfl)
  unfold joined?
  refine .consumeKeyword (fun x _ _ hx => ?_) (hjoin false h)
  exact hjoin true (h.tokens rfl (.one hx rfl))

/-! ## Clauses -/

theorem whereClause?_lays (h : t.Rooted stage l w) (hl : ∀ w, l.Takes w .plain c) :
    (whereClause? inner t).Lays c w r fun t w _ => t.Rooted .growing l w := by
  unfold whereClause?
  refine .takeKeyword? (fun x _ _ hx => ?_) (.pure h.growing)
  refine .callFrom rfl (clause_lays hinner hx rfl fun _ => rfl) fun u v _ hu => ?_
  exact .stays (.attach h (hu.stands rfl) (hl w)) fun _ h => h

omit hinner in
theorem fromClause?_lays {item : Parser Tree}
    (hitem : Yields item (some .fromClause) (Tree.Stands .plain (some .fromClause)))
    (h : t.Rooted stage l w) (hl : ∀ w, l.Takes w .plain c) :
    (fromClause? item t).Lays c w r fun t w _ => t.Rooted .growing l w := by
  unfold fromClause?
  refine .takeKeyword? (fun x _ _ hx => ?_) (.pure h.growing)
  refine .stay (.opened (w := [x]) rfl (.one hx rfl)) fun clause hclause => ?_
  refine .callFrom rfl (.within _ (.attachList hclause hitem rfl fun _ => rfl)) ?_
  intro clause v _ h'
  refine .finishPart h' fun clause h' => ?_
  exact .stays (.attach h (h'.stands rfl rfl) (hl w)) fun _ h => h

theorem groupBy?_lays (h : t.Rooted stage l w) (hl : ∀ w, l.Takes w .plain c) :
    (groupBy? inner t).Lays c w r fun t w _ => t.Rooted .growing l w := by
  unfold groupBy?
  refine .takeKeyword? (fun x _ _ hx => ?_) (.pure h.growing)
  refine .discard (.expectKeyword fun y _ _ hy => ?_)
  refine .stay (.opened (w := [x]) rfl (.one hx rfl)) fun clause hclause => ?_
  refine .callFrom (List.append_assoc _ _ _)
    (.within _ (.attachList (hclause.after hy rfl) (hinner.expression 0) rfl fun _ => rfl)) ?_
  intro clause v _ hclause
  refine .finishPart hclause fun clause hclause => ?_
  exact .stays (.attach h (hclause.stands rfl rfl) (hl w)) fun _ h => h

theorem having?_lays (h : t.Rooted stage l w) (hl : ∀ w, l.Takes w .plain c) :
    (having? inner t).Lays c w r fun t w _ => t.Rooted .growing l w := by
  unfold having?
  refine .takeKeyword? (fun x _ _ hx => ?_) (.pure h.growing)
  refine .callFrom rfl (clause_lays hinner hx rfl fun _ => rfl) fun u v _ hu => ?_
  exact .stays (.attach h (hu.stands rfl) (hl w)) fun _ h => h

/-! ## Cores -/

theorem valuesRow_laid : Yields (valuesRow inner) c (Tree.Stands .plain c) := by
  intro r
  unfold valuesRow
  refine .expect fun x _ _ hx => ?_
  refine .stay (.opened (w := [x]) rfl (.one hx rfl)) fun row h => ?_
  refine (Lays.attachList h (hinner.expression 0) rfl fun _ => rfl).bind fun row v _ _ h => ?_
  exact .discard (.expect fun y _ _ hy => .finishes (h.after hy rfl) fun u hu => hu.stands rfl rfl)

theorem values_laid (hk : kind = .valuesStmt ∨ kind = .valuesClause) :
    Yields (values inner kind) c (Tree.Whole kind c) := by
  have hkind : kind.isWildcard = false ∧
      ∀ start w, (⟨kind, c, start, false⟩ : Label).Takes w .plain c := by
    rcases hk with rfl | rfl <;> exact ⟨rfl, fun _ _ => rfl⟩
  intro r
  unfold values
  refine .expectKeyword fun x _ _ hx => ?_
  refine .stay (.opened (w := [x]) rfl ((HasStars.one hx rfl).kind hkind.1)) fun node h => ?_
  refine (Lays.attachList h (valuesRow_laid hinner) rfl (hkind.2 _)).bind fun node v _ _ h => ?_
  exact .finishes h fun u hu => hu.whole rfl rfl

omit hinner in
theorem quantifier?_lays (h : t.Rooted stage l w) :
    (quantifier? t).Lays c w r fun t w _ => t.Rooted stage l w := by
  unfold quantifier?
  refine .consumeKeyword (fun x _ _ hx => .stays (.flag (h.after hx rfl) rfl) fun _ h => h) ?_
  exact .consumeKeyword (fun x _ _ hx => .stays (.flag (h.after hx rfl) rfl) fun _ h => h) (.pure h)

theorem select_laid : Yields (select inner) c (Tree.Whole .selectStmt c) := by
  intro r
  unfold select
  refine .expectKeyword fun x _ _ hx => ?_
  refine .stay (.opened (w := [x]) rfl (.one hx rfl)) fun node h => ?_
  refine (quantifier?_lays h).bind fun node _ _ _ h => ?_
  refine .under h (selected_laid hinner (.inl rfl)) ⟨rfl, rfl⟩ fun node _ _ _ h => ?_
  refine (fromClause?_lays hinner.joinTree h fun _ => rfl).bind fun node _ _ _ h => ?_
  refine (whereClause?_lays hinner h fun _ => rfl).bind fun node _ _ _ h => ?_
  refine (groupBy?_lays hinner h fun _ => rfl).bind fun node _ _ _ h => ?_
  refine (having?_lays hinner h fun _ => rfl).bind fun node _ _ _ h => ?_
  exact .finishes h fun u hu => hu.whole rfl rfl

theorem core_laid : Yields (core inner) c (Tree.WholeQuery c) := by
  intro r
  unfold core
  refine .sees _ ?_
  split
  · exact (values_laid hinner (.inl rfl) _).weaken fun _ _ _ _ h => ⟨_, rfl, h⟩
  · exact (select_laid hinner _).weaken fun _ _ _ _ h => ⟨_, rfl, h⟩

omit hinner in
theorem setOperator?_laid : Yields setOperator? c (Lays.Found fun _ v => Quiet v) := by
  intro r
  unfold setOperator?
  refine .takeKeyword? (fun x _ _ hx => ?_) ?_
  · refine .consumeKeyword (fun y _ _ hy => .pure ((Quiet.one hx rfl).append (.one hy rfl))) ?_
    refine .discard (.consumeKeyword (fun y _ _ hy => .pure ?_) (.pure (.one hx rfl)))
    exact (Quiet.one hx rfl).append (.one hy rfl)
  · refine .takeIf? (fun x _ _ hx => .pure ?_) (.pure rfl)
    rcases Bool.or_eq_true_iff.1 hx with hx | hx
    · exact .one (eq_of_beq hx) rfl
    · exact .one (eq_of_beq hx) rfl

theorem combined?_lays {left : Tree} (h : left.WholeQuery c w) :
    (combined? inner left).Lays c w r fun o w _ => (o.getD left).WholeQuery c w := by
  unfold combined?
  refine .call setOperator?_laid fun o v _ _ ho => ?_
  rcases o with _ | ⟨x, all⟩
  · obtain rfl : v = [] := ho
    rw [List.append_nil]
    exact .pure h
  · have hv : Quiet v := ho
    obtain ⟨k, hk, h⟩ := h
    refine .call (core_laid hinner) fun right u _ _ hright => ?_
    obtain ⟨k', hk', hright⟩ := hright
    refine .stay (.nodeOver .compoundSelect left) fun node hnode => ?_
    refine .stay (.setTextNew hnode x) fun node hnode => ?_
    refine .stay (.flagIfNew hnode all rfl) fun node hnode => ?_
    have hleft : left.Stands .query c w := h.stands hk
    have hright : right.Stands .query c u := hright.stands hk'
    refine .stay (.attachOver hnode hleft rfl rfl) fun node hnode => ?_
    refine .stay (.attach (hnode.tokens hv.stars) hright rfl) fun node hnode => ?_
    refine .finish hnode fun u hu => .pure ⟨_, rfl, hu.whole ?_ rfl⟩
    rw [List.append_assoc, startOf_append h.laid.ne_nil]
    exact h.start

/-! ## Limits -/

/-- What was read of a limit whose first number was read from the tokens `u`. -/
def Limits (c : Option Context) (before u : List Token) (limit first : Tree)
    (p : Tree × Option Tree) (w : List Token) : Prop :=
  match p.2 with
  | none => w = before ++ u ∧ p.1 = limit.append [first]
  | some offset => ∃ (mark : Token) (v : List Token) (second skip counted skipped : Tree),
      w = before ++ u ++ [mark] ++ v ∧ second.Stands .plain c v ∧
      skip.New .offsetClause c mark.span ∧
      (mark.kind = .comma ∧ counted = second ∧ skipped = first ∨
        mark.kind = .keyword .OFFSET ∧ counted = first ∧ skipped = second) ∧
      p.1 = limit.append [counted] ∧ offset = skip.append [skipped]

theorem limitNumbers_lays {u : List Token} (limit first : Tree) :
    (limitNumbers inner limit first).Lays c (w ++ u) r fun p w' _ =>
      Limits c w u limit first p w' := by
  unfold limitNumbers
  refine .take? (fun x _ _ hx => ?_) ?_
  · refine .call (hinner.expression 0) fun second v _ _ hsecond => ?_
    refine .stay (.put _ _) fun limit' hlimit => ?_
    refine .stay (.nodeAt .offsetClause x) fun skip hskip => ?_
    refine .stay (.put _ _) fun offset hoffset => .pure ?_
    exact ⟨x, v, second, skip, second, first, rfl, hsecond, hskip, .inl ⟨hx, rfl, rfl⟩, hlimit,
      hoffset⟩
  · refine .stay (.put _ _) fun limit' hlimit => ?_
    refine .takeKeyword? (fun x _ _ hx => ?_) (.pure ⟨rfl, hlimit⟩)
    refine .stay (.nodeAt .offsetClause x) fun skip hskip => ?_
    refine .call (hinner.expression 0) fun second v _ _ hsecond => ?_
    refine .stay (.put _ _) fun offset hoffset => .pure ?_
    exact ⟨x, v, second, skip, first, second, rfl, hsecond, hskip, .inr ⟨hx, rfl, rfl⟩, hlimit,
      hoffset⟩

theorem limit?_lays (h : t.Rooted stage l w) (hk : l.kind.isQuery = true) (hc : l.context = c)
    (hl : ∀ w, l.Takes w .plain c) :
    (limit? inner t).Lays c w r fun t w _ => t.Rooted .growing l w := by
  unfold limit?
  refine .takeKeyword? (fun x _ _ hx => ?_) (.pure h.growing)
  refine .stay (.nodeAt .limitClause x) fun limit hlimit => ?_
  refine .call (hinner.expression 0) fun first u _ _ hfirst => ?_
  refine (limitNumbers_lays hinner limit first).bind ?_
  rintro ⟨limit', offset⟩ v _ - hnumbers
  rcases offset with _ | offset
  · obtain ⟨hw, rfl⟩ := hnumbers
    have hclause := (hlimit.rooted (w := [x]) rfl (.one hx rfl)).child hfirst rfl
    rw [hw, List.append_assoc]
    refine .finishPart hclause fun clause hclause => ?_
    refine .stay (.attach h (hclause.stands rfl rfl) (hl w)) fun t h => .pure ?_
    exact h
  · obtain ⟨mark, v', second, skip, counted, skipped, hw, hsecond, hskip, horder, rfl, rfl⟩ :=
      hnumbers
    have hv' := hsecond.laid.ne_nil
    rw [hw]
    refine .carry (List.append_ne_nil_of_right_ne_nil _ hv') ?_
    refine .stay (.put _ _) ?_
    rintro _ rfl
    refine .carry (List.append_ne_nil_of_right_ne_nil _ hv') ?_
    refine .stays (.put _ _) ?_
    rintro _ rfl
    rw [stopOf_append _ hv']
    subst hc
    exact h.limit hk (by rw [hx]; nofun) hlimit hskip hfirst hsecond horder

theorem body_laid : Yields (body inner) c (Tree.WholeQuery c) := by
  intro r
  unfold body
  refine .call (core_laid hinner) fun query v _ _ h => ?_
  refine (Lays.iterate (fun _ _ _ h => combined?_lays hinner h) h).bind fun query u _ _ h => ?_
  obtain ⟨k, hk, h⟩ := h
  have htakes : ∀ start w, (⟨k, c, start, false⟩ : Label).Takes w .plain c := by
    unfold Kind.isQuery at hk
    split at hk <;> first | exact fun _ _ => rfl | cases hk
  have horder := (Expression.orderBy_laid (c := c) hinner).plain rfl
  refine .sees _ ((Lays.attachIf _ h.toRooted horder (htakes _ _)).bind ?_)
  intro query _ _ _ hquery
  refine (limit?_lays hinner hquery hk rfl (htakes _)).bind fun query _ _ _ hquery => ?_
  refine .finishes hquery fun u hu => ⟨k, hk, hu.whole ?_ rfl⟩
  rw [List.append_assoc, startOf_append h.laid.ne_nil]

/-! ## Common tables -/

theorem commonTable_laid : Yields (commonTable inner) c (Tree.Stands .plain c) := by
  intro r
  unfold commonTable
  refine .expectWord fun x _ _ hx => ?_
  refine .stay (.named (w := [x]) rfl (Quiet.of_isName hx).stars) fun node h => ?_
  refine .sees _ ((Lays.attachIf _ h (columnList_laid.plain rfl) rfl).bind fun node _ _ _ h => ?_)
  refine .discard (.expectKeyword fun y _ _ hy => .discard (.expect fun z _ _ hz => ?_))
  refine .call hinner.query.within fun query v _ _ hquery => ?_
  refine .discard (.expect fun z' _ _ hz' => ?_)
  refine .stay (.attach ((h.after hy rfl).after hz rfl) hquery rfl) fun node h => ?_
  exact .finishes (h.after hz' rfl) fun u hu => hu.stands rfl rfl

theorem withClause_laid : Yields (withClause inner) c (Tree.Whole .withClause c) := by
  intro r
  unfold withClause
  refine .expectKeyword fun x _ _ hx => ?_
  refine .stay (.opened (w := [x]) rfl (.one hx rfl)) fun node h => ?_
  have htables {w r : List Token} {node : Tree} (recursive : Bool)
      (h : node.Rooted .grown ⟨.withClause, c, x.span.start, false⟩ w)
      (hstart : x.span.start = startOf w) (hw : w ≠ []) : Lays c w r (do
        let node ← flagIf recursive .recursive node
        finish (← attachList (commonTable inner) node)) fun t w _ => t.Whole .withClause c w := by
    refine .stay (.flagIf h recursive rfl) fun node h => ?_
    refine (Lays.attachList h (commonTable_laid hinner) rfl fun _ => rfl).bind ?_
    intro node v _ _ h
    exact .finishes h fun u hu => hu.whole (by rw [startOf_append hw]; exact hstart) rfl
  refine .consumeKeyword (fun y _ _ hy => ?_) ?_
  · exact htables true (h.after hy rfl) rfl (by simp)
  · exact htables false h rfl (by simp)

theorem afterWith_lays {clause : Tree} (hclause : clause.Whole .withClause c v) :
    (afterWith inner clause).Lays c v r fun t w _ => t.Stands .query c w := by
  unfold afterWith
  refine .call (body_laid hinner) fun query u _ _ hquery => .stay (.prepend _ _) ?_
  obtain ⟨k, hk, hquery⟩ := hquery
  rintro _ rfl
  have h : (query.prepend clause).Stands .query c (v ++ u) :=
    hclause.with hquery (Kind.takesWith_of_isQuery hk) hk
  rw [← bind_pure (finish _)]
  exact .carry h.laid.ne_nil (.pure h.finish)

end Query

theorem query_laid {inner : Nested} (hinner : inner.Lays) :
    Yields (query inner) c (Tree.Stands .query c) := by
  intro r
  unfold query
  refine .deeper (.sees _ ?_)
  split
  · exact .call (Query.withClause_laid hinner) fun clause v _ _ h => Query.afterWith_lays hinner h
  · refine (Query.body_laid hinner _).weaken fun t w _ _ h => ?_
    obtain ⟨k, hk, h⟩ := h
    exact h.stands hk

theorem joinTree_laid {inner : Nested} (hinner : inner.Lays) :
    Yields (joinTree inner) c (Tree.Stands .plain c) := by
  intro r
  unfold joinTree
  refine .deeper (.call (Query.tablePrimary_laid hinner) fun left v _ _ h => ?_)
  exact .iterate (fun _ _ _ h => Query.joined?_lays hinner h) h

end SqlSyntax
