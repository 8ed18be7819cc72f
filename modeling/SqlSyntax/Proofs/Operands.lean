import SqlSyntax.Proofs.Ranks

/-!
# Operators take operands of their levels

Each operator finds a tree that may stand to its left and takes the rest of its operands with a
greater power. What it makes may stand to the left of the next operator, and so on, as long as
there are tokens.
-/

namespace SqlSyntax

open SqlSyntax.Parser SqlSyntax.Expression

theorem Node.level?_binary {n : Node} (h : n.kind = .binaryExpr) (op : BinaryOp) :
    Node.level? { n with operator := some (.binary op) } = some op.level := by
  simp only [level?, h]

namespace Law

variable {source : Source} {config : Config} {inner : Nested} {left : Tree} {l r : Nat}

/-- What operators between operands make of the left one. -/
abbrev Joins (source : Source) (config : Config) (left : Tree) (l : Nat) (p : Parser Tree) :
    Prop :=
  (ranks source config).Keeps anything [left] p one fun u ts => u.AtLeast l ∧ u.Fits ts

theorem operator_allows (source : Source) (config : Config) (inner : Nested) :
    (ranks source config).Allows (barring config inner Kind.isOperator fun _ h => h) :=
  ranks_allows Kind.ranked_of_isOperator

/-- `IN` is no operator that is bound by its level. -/
theorem membership_joins (hself : (ranks source config).Serves Tree.Ends inner) (left : Tree) :
    Joins source config left Power.words (membership inner left) := by
  have hbars : ∀ k : Kind, k.isOperator = false → k.ranked = false := Kind.ranked_of_isOperator
  have hL : (ranks source config).Allows (barring config inner Kind.ranked hbars) :=
    ranks_allows fun _ h => h
  have hkeeps := (membership_grows (T := barring config inner Kind.ranked hbars) rfl left).keeps
    hL hself
  refine hkeeps.weaken fun u ts hu => ?_
  have hfree : u.kind.ranked = false := hu
  refine ⟨fun hj => ?_, Tree.fits_of_kind hfree ts⟩
  have hin : u.head.kind = .inExpr := by
    show u.kind = .inExpr
    revert hfree hj
    cases u.kind <;> simp [Kind.ranked, Kind.chains, Kind.joins]
  exact ⟨Power.words, by simp [Tree.level?, Node.level?, hin], Nat.le_refl _⟩

section Operators

variable (hself : (ranks source config).Serves Tree.Ends inner)

include hself

theorem binary_joins {t : Token} {next : Option TokenKind}
    (hj : Power.joining? t.kind next = some (l, r)) (hleft : left.LeftOf l) :
    Joins source config left l (binary inner left t r) := by
  have hL := operator_allows source config inner
  unfold binary
  refine .askIf (c := fun c => c.strictAnsi && (t.text == "==" || t.text == "!="))
    (hL.fail rfl trivial) ?_
  split
  · exact hL.fail rfl trivial
  next op hop =>
  obtain rfl := Power.level_of_joining? hj hop
  obtain rfl := Power.right_of_joining? hj
  refine .make (hself.expression _) fun right => .given (fun _ h => h) fun hright => swap_ranked ?_
  refine .cover (nodeOver_ranked .binaryExpr left) fun node => .given (fun _ h => h) ?_
  rintro ⟨n, hn, rfl⟩
  have hopen : Kind.chains n.kind = true := by
    rw [hn]
    rfl
  refine swap_ranked (.grow (setOperator_open hopen (Node.level?_binary hn op)) fun node => ?_)
  refine .given (fun _ h => h) fun hnode => swap_ranked ?_
  refine .join (attach_left hnode hleft) fun node => .given (fun _ h => h) fun hnode => ?_
  refine swap_ranked (.weaken (attach_right hnode hright) fun u ts hu => ?_)
  exact ⟨hu.1.atLeast, hu.1.fits hu.2⟩

theorem range_joins (hleft : left.LeftOf Power.words) :
    Joins source config left Power.words (range inner left (Power.words + 1)) := by
  have hL := operator_allows source config inner
  unfold range
  refine .cover (nodeOver_ranked .betweenExpr left) fun node => .given (fun _ h => h) ?_
  rintro ⟨n, hn, rfl⟩
  have hopen : (Tree.leaf n).Open Power.words :=
    ⟨congrArg Kind.chains hn, by simp [Tree.level?, Node.level?, Tree.leaf, Tree.head, hn], rfl⟩
  refine .make (hself.expression _) fun low => .given (fun _ h => ⟨h.1, trivial⟩) fun hlow => ?_
  refine .read ((Built.expectKeyword .AND).discard.keeps hL hself) fun _ => ?_
  refine .make (hself.expression _) fun high => .given (fun _ h => h) fun hhigh => ?_
  refine reorder_ranked ?_ (List.perm_append_comm : ([high, low] ++ [left, .leaf n]).Perm _)
  refine .join (attach_left hopen hleft) fun node => .given (fun _ h => h) fun hnode => ?_
  refine rotate_ranked (rotate_ranked (.join (attach_right hnode hlow) fun node => ?_))
  refine .given (fun _ h => h) fun hnode => ?_
  refine swap_ranked (.weaken (attach_right hnode hhigh) fun u ts hu => ?_)
  exact ⟨hu.1.atLeast, hu.1.fits hu.2⟩

theorem likeness_joins (op : BinaryOp) (hleft : left.LeftOf Power.words) :
    Joins source config left Power.words (likeness inner left op (Power.words + 1)) := by
  have hL := operator_allows source config inner
  unfold likeness
  refine .cover (nodeOver_ranked .likeExpr left) fun node => .given (fun _ h => h) ?_
  rintro ⟨n, hn, rfl⟩
  have hlevel : Node.level? { n with operator := some (.binary op) } = some Power.words := by
    simp [Node.level?, hn]
  refine swap_ranked (.grow (setOperator_open (congrArg Kind.chains hn) hlevel) fun node => ?_)
  refine .given (fun _ h => h) fun hnode => ?_
  refine .make (hself.expression _) fun pattern => .given (fun _ h => h) fun hpattern => ?_
  refine rotate_ranked (swap_ranked (.join (attach_left hnode hleft) fun node => ?_))
  refine .given (fun _ h => h) fun hnode => swap_ranked ?_
  refine .join (attach_right hnode hpattern) fun node => .given (fun _ h => h) fun hnode => ?_
  refine .read (consume_ranked _) fun b => ?_
  unfold attachIf
  cases b
  · exact .pure one fun ts hts => ⟨hnode.atLeast, hnode.fits (hts rfl)⟩
  · refine .make (.given (fun _ _ => ⟨trivial, trivial⟩) fun _ => hself.expression _)
      fun escape => ?_
    refine .given (fun _ h => h) fun hescape => ?_
    refine .weaken (attach_right hnode hescape) fun u ts hu => ?_
    exact ⟨hu.1.atLeast, hu.1.fits hu.2⟩

theorem identity_joins (hleft : left.LeftOf Power.words) :
    Joins source config left Power.words (identity inner left (Power.words + 1)) := by
  have hL := operator_allows source config inner
  unfold identity
  refine .cover (nodeOver_ranked .isExpr left) fun node => .given (fun _ h => h) ?_
  rintro ⟨n, hn, rfl⟩
  have hlevel : Node.level? { n with operator := some (.binary .is) } = some Power.words := by
    simp [Node.level?, hn]
  refine swap_ranked (.grow (setOperator_open (congrArg Kind.chains hn) hlevel) fun node => ?_)
  refine .given (fun _ h => h) fun hnode => ?_
  refine .read ((Built.consumeKeyword _).keeps hL hself) fun negated => ?_
  refine .make (hself.expression _) fun right => .given (fun _ h => h) fun hright => ?_
  refine rotate_ranked (swap_ranked (.join (attach_left hnode hleft) fun node => ?_))
  refine .given (fun _ h => h) fun hnode => swap_ranked ?_
  refine .join (attach_right hnode hright) fun node => .given (fun _ h => h) fun hnode => ?_
  unfold flagIf
  cases negated
  · exact .pure one fun ts hts => ⟨hnode.atLeast, hnode.fits hts⟩
  · refine (flag_sameRank node _).weaken fun u ts hu => ?_
    exact ⟨hu.1.atLeast hnode.atLeast, hu.1.fits (hnode.fits hu.2)⟩

theorem application_joins {op : Token} {next : Option TokenKind}
    (hj : Power.joining? op.kind next = some (l, r)) (hleft : left.LeftOf l) :
    Joins source config left l (application inner left op r) := by
  have hwords : ∀ {k : Keyword}, op.kind = .keyword k → k ≠ .OR → k ≠ .AND →
      l = Power.words ∧ r = Power.words + 1 := by
    intro k hk hor hand
    rw [Power.right_of_joining? hj]
    rw [hk] at hj
    have hl := Power.words_of_joining? hj hor hand
    exact ⟨hl, by rw [hl]⟩
  unfold application
  split
  · next hk =>
    obtain ⟨rfl, rfl⟩ := hwords hk (by decide) (by decide)
    exact membership_joins hself left
  · next hk =>
    obtain ⟨rfl, rfl⟩ := hwords hk (by decide) (by decide)
    exact range_joins hself hleft
  · next hk =>
    obtain ⟨rfl, rfl⟩ := hwords hk (by decide) (by decide)
    exact likeness_joins hself .like hleft
  · next hk =>
    obtain ⟨rfl, rfl⟩ := hwords hk (by decide) (by decide)
    exact likeness_joins hself .glob hleft
  · next hk =>
    obtain ⟨rfl, rfl⟩ := hwords hk (by decide) (by decide)
    exact identity_joins hself hleft
  · exact binary_joins hself hj hleft

/-- `NOT` and the operator after it. -/
theorem negated_joins (hleft : left.LeftOf l) :
    (ranks source config).Keeps
      (fun ts => Power.joining? (.keyword .NOT) (ts[0]?.map Token.kind) = some (l, r)) [left] (do
        let some op ← advance | unexpected "IN, LIKE, GLOB or BETWEEN"
        finish (← flag (← application inner left op r) .negated)) one fun u ts =>
      u.AtLeast l ∧ u.Fits ts := by
  have hL := operator_allows source config inner
  have hop : ∀ ts : List Token,
      Power.joining? (.keyword .NOT) (ts[0]?.map Token.kind) = some (l, r) →
      ∃ op rest, ts = op :: rest ∧ Power.joining? op.kind none = some (l, r) := by
    intro ts hts
    obtain ⟨k, hk, -, hj⟩ := Power.joining?_not hts
    rcases ts with _ | ⟨op, rest⟩
    · cases hk
    · have hkind : op.kind = .keyword k := by simpa using hk
      exact ⟨op, rest, rfl, hkind ▸ hj none⟩
  refine .relax hL.perm ?_ hop (.refl _) (fun _ _ _ => .refl _) fun _ _ h => h
  refine .whichever fun op => .read hL.take fun o => .given (fun _ h => h) ?_
  rintro rfl
  refine .given (fun _ h => ⟨h, trivial⟩) fun hj => ?_
  refine .grow (application_joins hself hj hleft) fun u => ?_
  refine .given (fun _ h => h) fun hu => ?_
  refine .grow (flag_sameRank u _) fun v => .given (fun _ h => h) fun hv => ?_
  refine (finish_sameRank v).weaken fun w ts hw => ?_
  exact ⟨hw.1.atLeast (hv.atLeast hu), hw.1.fits (hv.fits hw.2)⟩

/-- An operator that comes next, maybe after a `NOT`, with what stands to its right. -/
theorem joining_joins (hleft : left.LeftOf l) (t : Token) :
    (ranks source config).Keeps (fun ts => ∃ rest, ts = t :: rest ∧
        Power.joining? t.kind (rest[0]?.map Token.kind) = some (l, r))
      [left] (joining inner left t r) one fun u ts => u.AtLeast l ∧ u.Fits ts := by
  have hL := operator_allows source config inner
  unfold joining
  refine .read (hL.take.discard fun _ _ h => h.2) fun _ => ?_
  split
  · next hnot =>
    rw [eq_of_beq hnot]
    exact negated_joins hself hleft
  · next hnot =>
    have hkind : t.kind ≠ .keyword .NOT := fun h => hnot (h ▸ beq_self_eq_true _)
    refine .given (fun ts h => ⟨Power.joining?_next hkind _ none ▸ h, trivial⟩) fun hj => ?_
    refine .grow (application_joins hself hj hleft) fun u => .given (fun _ h => h) fun hu => ?_
    refine (finish_sameRank u).weaken fun v ts hv => ?_
    exact ⟨hv.1.atLeast hu, hv.1.fits hv.2⟩

theorem grow?_ranked (power : Nat) (left : Tree) :
    (ranks source config).Keeps left.Fits [left] (grow? inner power left) (fun o => [o.getD left])
      fun o ts => ∀ u ∈ o, u.AtLeast power ∧ u.Fits ts := by
  have hL := operator_allows source config inner
  have hsome : ∀ {p : Parser Tree} {ahead : List Token → Prop},
      (ranks source config).Keeps ahead [left] p one (fun u ts => u.AtLeast power ∧ u.Fits ts) →
      (ranks source config).Keeps ahead [left] (do return some (← p)) (fun o => [o.getD left])
        fun o ts => ∀ u ∈ o, u.AtLeast power ∧ u.Fits ts := by
    intro p ahead hp
    refine hp.bind fun u scope others s _ _ hu hs => ⟨?_, hs⟩
    rintro _ ⟨⟩
    exact hu
  intro scope others s hsource hconfig hfits hs
  rcases grow?_cases inner power left scope s with
    ⟨-, hrun⟩ | ⟨t, rest, hrest, -, hrun⟩ | ⟨t, rest, l, r, hrest, hj, hle, hahead, hrun⟩
  · rw [hrun]
    exact ⟨nofun, hs⟩
  · rw [hrun]
    have htrailing : (ranks source config).Keeps anything [left] (trailing left t) one
        fun u ts => u.AtLeast power ∧ u.Fits ts :=
      ((trailing_grows left trivial).keeps hL hself).weaken fun u ts hu =>
        ⟨.of_isOperator hu power, Tree.fits_of_kind (Kind.ranked_of_isOperator _ hu) ts⟩
    exact hsome htrailing scope others s hsource hconfig trivial hs
  · rw [hrun]
    have hjoining := (joining_joins (r := r) hself (hfits.leftOf hahead) t).weaken
      fun u ts (hu : u.AtLeast l ∧ u.Fits ts) => And.intro (hu.1.mono hle) hu.2
    exact hsome hjoining scope others s hsource hconfig ⟨rest, hrest, hj⟩ hs

/-- An operator before its operand. -/
theorem unary_ranked {t : Token} {power : Nat} (h : Power.leading? t.kind = some power) :
    (ranks source config).Keeps anything [] (unary inner t power) one fun u ts =>
      u.kind.joins = false ∧ u.Fits ts := by
  obtain ⟨op, hop, rfl⟩ := Power.operator_of_leading? h
  unfold unary
  refine .make (hself.expression _) fun v => .given (fun _ h => h) fun hv => ?_
  refine .make (nodeAt_ranked .unaryExpr t) fun node => .given (fun _ h => h) ?_
  rintro ⟨n, hn, rfl⟩
  refine .grow (amend_leaf n _) fun node => .given (fun _ h => h) ?_
  rintro rfl
  have hoperator : (UnaryOp.ofToken? t.kind).map Operator.unary = some (.unary op) := by
    rw [hop]
    rfl
  refine swap_ranked (.join (attach_ranked (Tree.ranked_signed hn hoperator hv)) fun node => ?_)
  refine .given (fun _ h => h) ?_
  rintro rfl
  refine (finish_sameRank _).weaken fun u ts hu => ?_
  refine ⟨?_, hu.1.fits (Tree.fits_signed hn hoperator hu.2)⟩
  rw [hu.1.kind]
  exact congrArg Kind.joins hn

theorem operand_ranked (hcompact : config.compactTree = false) :
    (ranks source config).Keeps anything [] (operand inner) one fun u ts =>
      u.kind.joins = false ∧ u.Fits ts := by
  have hL := operator_allows source config inner
  have hfree : ∀ {p : Parser Tree}, Built (barring config inner Kind.isOperator fun _ h => h) [] p
      one (fun u => u.kind.isOperator = false) →
      (ranks source config).Keeps anything [] p one fun u ts => u.kind.joins = false ∧ u.Fits ts :=
    fun hp => (hp.keeps hL hself).weaken fun u ts hu =>
      ⟨Kind.joins_of_isOperator _ hu, Tree.fits_of_kind (Kind.ranked_of_isOperator _ hu) ts⟩
  unfold operand
  refine .read (Built.current.keeps hL hself) fun o => ?_
  rcases o with _ | t
  · exact hL.unexpected _
  dsimp only
  split
  · exact .given (fun _ h => ⟨h, trivial⟩) fun _ =>
      hfree (primary_closed.weaken fun u hu => hu hcompact)
  · next power hpower =>
    refine .given (fun _ h => ⟨h, trivial⟩) fun _ => ?_
    refine .read (Built.advance.discard.keeps hL hself) fun _ => ?_
    refine .read ((Built.seesKeyword .EXISTS).keeps hL hself) fun b => ?_
    split
    · exact hfree (existence_makes.make fun node h => Built.flag h _)
    · exact unary_ranked hself hpower

end Operators

/-- With a round for each token, an expression grows until the tokens ahead stop it. -/
theorem iterateOver_ranked {k power : Nat}
    (hself : (ranks source config).Serves Tree.Ends (Nested.upTo k)) (rounds : List Token)
    (left : Tree) {scope : Scope} {others : List Tree} {s : Progress} (hleft : left.AtLeast power)
    (hfits : left.Fits s.rest) (hlength : s.rest.length ≤ rounds.length)
    (hsource : scope.source = source) (hconfig : scope.config = config)
    (hs : (ranks source config).Holds (left :: others) s) :
    (ranks source config).Outcome one (Tree.Ends power) others
      (iterateOver (grow? (Nested.upTo k) power) rounds left scope s) := by
  induction h : s.rest.length using Nat.strongRecOn generalizing rounds left s with
  | ind n ih =>
    have hstep := grow?_ranked hself power left scope others s hsource hconfig hfits hs
    rcases hrun : grow? (Nested.upTo k) power left scope s with ⟨_ | u, s'⟩ | ⟨f, s'⟩
    · obtain ⟨rfl, hstops⟩ := stops_of_grow? hrun
      rw [iterateOver_none hrun]
      exact ⟨⟨hleft, hstops⟩, hs⟩
    · have htakes := grow?_takes hrun
      rw [hrun] at hstep
      obtain ⟨hu, hfits'⟩ := hstep.1 u rfl
      rcases rounds with _ | ⟨t, rounds⟩
      · rw [List.length_nil] at hlength
        omega
      · rw [List.length_cons] at hlength
        rw [iterateOver_some hrun]
        exact ih _ (h ▸ htakes) rounds u hu hfits' (by omega) hstep.2 rfl
    · rw [hrun] at hstep
      rw [iterateOver_error hrun]
      exact hstep

theorem expression_ranked (hcompact : config.compactTree = false) {k : Nat}
    (hself : (ranks source config).Serves Tree.Ends (Nested.upTo k)) (power : Nat) :
    (ranks source config).Keeps anything [] (expression (Nested.upTo k) power) one
      (Tree.Ends power) := by
  unfold expression
  refine (operator_allows source config (Nested.upTo k)).deeper ?_
  refine .make (operand_ranked hself hcompact) fun left => .given (fun _ h => h) fun hleft => ?_
  intro scope others s hsource hconfig hfits hs
  have hatLeast : left.AtLeast power := fun hk => by simp [hleft] at hk
  exact iterateOver_ranked hself s.rest left hatLeast hfits (Nat.le_refl _) hsource hconfig hs

theorem ranks_serves (source : Source) (hcompact : config.compactTree = false) :
    ∀ k, (ranks source config).Serves Tree.Ends (Nested.upTo k) :=
  Allows.serves (operator_allows source config) fun _ hself power =>
    expression_ranked hcompact hself power

end Law

/-- Where no parentheses are dropped, every operator of a tree that a call answers with takes
operands as its level tells. -/
theorem Session.parse_ranks_operators (s : Session) (source : Source) (t : Tree)
    (hcompact : s.config.compactTree = false) (h : (s.parse source).1 = .ok t) :
    ∀ u ∈ t.preorder, u.Ranked := by
  obtain ⟨a, ha, hcheck⟩ := exists_of_finish h
  obtain rfl := checked_eq hcheck
  obtain ⟨s', hrun⟩ := exists_of_answer ha
  have hkeeps := Law.single_keeps (Law.operator_allows source s.config)
    (Law.ranks_serves source hcompact)
  have hout := hkeeps (s.scope .one source) [] (s.start (tokenize source)) rfl rfl trivial
    (List.forall_mem_nil _)
  rw [hrun] at hout
  exact hout.2 t List.mem_cons_self

/-- Operators of many levels, a `NOT` to the right of one and a sign before an operand. -/
theorem Session.parse_ranks_operators_mixed :
    ∃ t, (({} : Session).parse "SELECT a + b * c LIKE d OR NOT e = - f".toList).1 = .ok t ∧
      ∀ u ∈ t.preorder, u.Ranked := by
  have hok : (({} : Session).parse "SELECT a + b * c LIKE d OR NOT e = - f".toList).1.isOk := by
    decide +kernel
  rcases h : (({} : Session).parse "SELECT a + b * c LIKE d OR NOT e = - f".toList).1 with f | t
  · rw [h] at hok
    cases hok
  · exact ⟨t, rfl, parse_ranks_operators _ _ t rfl h⟩

end SqlSyntax
