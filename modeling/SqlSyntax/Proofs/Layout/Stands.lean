import SqlSyntax.Proofs.Layout.Laid

/-!
# Trees that are being made

What is known of a tree while its production runs (`Tree.Rooted`), once it is carried on to the last
token (`Tree.Finished`), and when it is put under another (`Tree.Stands`). Each step of a production
leads from one to the other: a token that is read, a child, a change of the root.
-/

namespace SqlSyntax

/-! ## Layouts -/

theorem Tree.Laid.ne_nil {stage : Stage} {w : List Token} {t : Tree} (h : t.Laid stage w) :
    w ≠ [] := by
  induction h with
  | leaf span => rintro rfl; cases span
  | above _ _ _ _ ih => simp [ih]
  | ahead _ _ _ _ _ ih => exact ih
  | reopen _ ih => exact ih
  | token => simp
  | behind => simp
  | child _ _ _ ih => simp [ih]
  | amend _ _ ih => exact ih
  | finish _ ih => exact ih
  | «with» _ _ _ _ _ ih => simp [ih]
  | limit => simp

/-- Neither a star nor a semicolon. -/
def TokenKind.isInert : TokenKind → Bool
  | .star | .semicolon => false
  | _ => true

/-- So many of the tokens are stars, and none is a semicolon. -/
structure HasStars (n : Nat) (w : List Token) : Prop where
  count : starsOf w = n
  unparted : ∀ x ∈ w, x.kind ≠ .semicolon

namespace HasStars

variable {m n : Nat} {v w : List Token} {x : Token}

theorem nil : HasStars 0 [] := ⟨rfl, List.forall_mem_nil _⟩

theorem single (hstar : x.kind ≠ .star) (hsemicolon : x.kind ≠ .semicolon) : HasStars 0 [x] :=
  ⟨by simp [hstar], by simpa using hsemicolon⟩

theorem one {kind : TokenKind} (hx : x.kind = kind) (hk : kind.isInert = true) :
    HasStars 0 [x] := by
  subst hx
  refine single (fun hstar => ?_) fun hsemicolon => ?_
  · rw [hstar] at hk
    cases hk
  · rw [hsemicolon] at hk
    cases hk

theorem star (hx : x.kind = .star) : HasStars 1 [x] :=
  ⟨by simp [hx], by simp [hx]⟩

theorem append (h : HasStars m v) (h' : HasStars n w) : HasStars (m + n) (v ++ w) where
  count := by rw [starsOf_append, h.count, h'.count]
  unparted := List.forall_mem_append.2 ⟨h.unparted, h'.unparted⟩

/-- The tokens of a node that is no wildcard. -/
theorem kind {kind : Kind} (h : HasStars 0 w) (hk : kind.isWildcard = false) :
    HasStars kind.isWildcard.toNat w := by
  rw [hk]
  exact h

theorem not_star (h : HasStars 0 [x]) : x.kind ≠ .star := by
  intro hx
  simpa [hx] using h.count

theorem ended (h : HasStars n w) : ¬ EndsWith .semicolon w := by
  intro hends
  obtain ⟨x, hx, hkind⟩ := Option.map_eq_some_iff.1 hends
  exact h.unparted x (List.mem_of_getLast? hx) hkind

/-- No semicolon is at the end where there was none before. -/
theorem ended_append (h : HasStars n v) (hw : ¬ EndsWith .semicolon w) :
    ¬ EndsWith .semicolon (w ++ v) := by
  rcases eq_or_ne v [] with rfl | hv
  · rwa [List.append_nil]
  · exact not_endsWith_append hv h.ended

end HasStars

theorem Tree.Laid.tokens {stage : Stage} {w v : List Token} {t : Tree} (h : t.Laid stage w)
    (hv : HasStars 0 v) : t.Laid stage (w ++ v) := by
  have hstars := hv.count
  clear hv
  induction v generalizing w with
  | nil => rwa [List.append_nil]
  | cons x v ih =>
    rw [starsOf_cons] at hstars
    have hx : x.kind ≠ .star := fun hx => by simp [hx] at hstars
    rw [List.append_cons]
    exact ih (h.token hx) (by omega)

/-! ## Roots -/

/-- The node is new. -/
structure Node.Begins (kind : Kind) (c : Option Context) (span : Span) (n : Node) : Prop where
  kind : n.kind = kind
  context : n.context = c
  span : n.span = span
  starArgs : n.has .starArgs = false
  product : n.isProduct = false

theorem Node.Begins.label {kind : Kind} {c : Option Context} {span : Span} {n : Node}
    (h : n.Begins kind c span) : n.label = ⟨kind, c, span.start, false⟩ := by
  simp [Node.label, h.kind, h.context, h.span, h.starArgs]

theorem Node.Begins.stars {kind : Kind} {c : Option Context} {span : Span} {n : Node}
    (h : n.Begins kind c span) : n.stars = kind.isWildcard.toNat := by
  simp only [Node.stars, h.product, Node.isStarCall, h.kind, h.starArgs]
  cases kind <;> rfl

theorem Node.Begins.amend {kind : Kind} {c : Option Context} {span : Span} {m n : Node}
    (h : n.Begins kind c span) (hm : m.Matches n) : m.Begins kind c span where
  kind := hm.kind.trans h.kind
  context := hm.context.trans h.context
  span := hm.span.trans h.span
  starArgs := hm.starArgs.trans h.starArgs
  product := hm.isProduct.trans h.product

/-- Roles in which it matters where a tree starts and ends. -/
def Role.isFramed : Role → Bool
  | .query | .statement => true
  | _ => false

theorem Role.ne_with {role : Role} {k : Kind} (h : role.admits k = true) : k ≠ .withClause := by
  rintro rfl
  cases role <;> cases h

namespace Tree

variable {stage : Stage} {l : Label} {w v : List Token} {t c : Tree} {x : Token} {role : Role}
  {k : Kind} {ctx ctx' : Option Context} {n : Node} {span : Span}

/-- The tree is a new node. -/
def New (k : Kind) (ctx : Option Context) (span : Span) (t : Tree) : Prop :=
  ∃ n, t = .leaf n ∧ n.Begins k ctx span

/-- The tree is laid out over the tokens, its root has the label, and no `WITH` stands in front. -/
structure Based (stage : Stage) (l : Label) (t : Tree) (w : List Token) : Prop where
  laid : t.Laid stage w
  label : t.head.label = l
  bare : ∀ c ∈ t.children.head?, c.kind ≠ .withClause

/-- No semicolon stands at the end of the tokens, as behind a statement of a trigger. -/
structure Rooted (stage : Stage) (l : Label) (t : Tree) (w : List Token) : Prop
    extends t.Based stage l w where
  ended : ¬ EndsWith .semicolon w

/-- The tree is carried on to the last of the tokens. -/
structure Finished (l : Label) (t : Tree) (w : List Token) : Prop extends t.Rooted .grown l w where
  stop : stopOf w ≤ t.stop

/-- The tree reaches from the first of the tokens to the last. -/
def Whole (k : Kind) (ctx : Option Context) (t : Tree) (w : List Token) : Prop :=
  t.Finished ⟨k, ctx, startOf w, false⟩ w

/-- The tree may be put to a role. -/
structure Stands (role : Role) (ctx : Option Context) (t : Tree) (w : List Token) : Prop where
  laid : t.Laid .grown w
  admits : role.admits t.kind = true
  context : t.head.context = ctx
  frames : role.isFramed = true → t.Frames w
  ended : ¬ EndsWith .semicolon w

/-- A token that is no star. -/
theorem Based.token (h : t.Based stage l w) (hx : x.kind ≠ .star) : t.Based stage l (w ++ [x]) :=
  ⟨h.laid.token hx, h.label, h.bare⟩

theorem Based.tokens (h : t.Based stage l w) (hv : HasStars 0 v) (hne : v ≠ []) :
    t.Rooted stage l (w ++ v) :=
  ⟨⟨h.laid.tokens hv, h.label, h.bare⟩, not_endsWith_append hne hv.ended⟩

namespace Rooted

theorem kind (h : t.Rooted stage l w) : t.kind = l.kind := congrArg Label.kind h.label

theorem context (h : t.Rooted stage l w) : t.head.context = l.context :=
  congrArg Label.context h.label

theorem start (h : t.Rooted stage l w) : t.start = l.start := congrArg Label.start h.label

theorem reopen (h : t.Rooted .grown l w) : t.Rooted .growing l w :=
  ⟨⟨h.laid.reopen, h.label, h.bare⟩, h.ended⟩

theorem growing (h : t.Rooted stage l w) : t.Rooted .growing l w := by
  cases stage
  · exact h
  · exact h.reopen

theorem tokens (h : t.Rooted stage l w) (hv : HasStars 0 v) : t.Rooted stage l (w ++ v) :=
  ⟨⟨h.laid.tokens hv, h.label, h.bare⟩, hv.ended_append h.ended⟩

theorem after {kind : TokenKind} (h : t.Rooted stage l w) (hx : x.kind = kind)
    (hk : kind.isInert = true) : t.Rooted stage l (w ++ [x]) :=
  h.tokens (.one hx hk)

theorem amend {change : Node → Node} (h : t.Rooted stage l w)
    (hc : ∀ n, n.kind = l.kind → (change n).Matches n) : (t.mapHead change).Rooted stage l w := by
  have hmatch := hc t.head h.kind
  have hlaid := h.laid.amend hmatch
  obtain ⟨n, cs⟩ := t
  exact ⟨⟨hlaid, hmatch.label.trans h.label, h.bare⟩, h.ended⟩

theorem finish (h : t.Rooted stage l w) :
    (t.mapHead fun n => { n with span := n.span.extend (stopOf w) }).Finished l w := by
  have hlaid := h.laid.finish
  obtain ⟨n, cs⟩ := t
  exact ⟨⟨⟨hlaid, h.label, h.bare⟩, h.ended⟩, Nat.le_max_right _ _⟩

theorem stands (h : t.Rooted .grown l w) (hk : role.admits l.kind = true)
    (hrole : role.isFramed = false) : t.Stands role l.context w where
  laid := h.laid
  admits := by rw [h.kind]; exact hk
  context := h.context
  frames hframed := by rw [hrole] at hframed; cases hframed
  ended := h.ended

theorem plain (h : t.Rooted .grown l w) (hk : l.kind.isOrdinary = true) :
    t.Stands .plain l.context w :=
  h.stands hk rfl

end Rooted

theorem Finished.whole (h : t.Finished l w) (hstart : l.start = startOf w)
    (hstarred : l.starred = false) : t.Whole l.kind l.context w := by
  obtain ⟨k, c, b, s⟩ := l
  obtain rfl : b = startOf w := hstart
  obtain rfl : s = false := hstarred
  exact h

theorem Whole.frames (h : t.Whole k ctx w) : t.Frames w :=
  .alone h.start h.stop h.bare

theorem Whole.stands (h : t.Whole k ctx w) (hk : role.admits k = true) :
    t.Stands role ctx w :=
  ⟨h.laid, by rw [h.kind]; exact hk, h.context, fun _ => h.frames, h.ended⟩

theorem Whole.plain (h : t.Whole k ctx w) (hk : k.isOrdinary = true) : t.Stands .plain ctx w :=
  h.stands hk

namespace Stands

theorem tokens (h : t.Stands role ctx w) (hrole : role.isFramed = false)
    (hv : HasStars 0 v) : t.Stands role ctx (w ++ v) where
  laid := h.laid.tokens hv
  admits := h.admits
  context := h.context
  frames hframed := by rw [hrole] at hframed; cases hframed
  ended := hv.ended_append h.ended

theorem behind (h : t.Stands role ctx w) (hrole : role.isFramed = false)
    (hx : x.kind ≠ .star) : t.Stands role ctx (x :: w) where
  laid := h.laid.behind hx
  admits := h.admits
  context := h.context
  frames hframed := by rw [hrole] at hframed; cases hframed
  ended := not_endsWith_append (w := [x]) h.laid.ne_nil h.ended

theorem amend {change : Node → Node} (h : t.Stands role ctx w)
    (hrole : role.isFramed = false) (hc : ∀ n, (change n).Matches n) :
    (t.mapHead change).Stands role ctx w := by
  have hlaid := h.laid.amend (hc t.head)
  obtain ⟨n, cs⟩ := t
  exact ⟨hlaid, (congrArg role.admits (hc n).kind).trans h.admits, (hc n).context.trans h.context,
    fun hframed => absurd (hrole.symm.trans hframed) Bool.false_ne_true, h.ended⟩

theorem under (h : c.Stands role ctx v) (hl : l.Takes w role ctx) : c.Under l w v role where
  admits := h.admits
  takes := h.context ▸ hl
  frames := by
    rintro rfl
    exact h.frames rfl

end Stands

theorem Based.child (h : t.Based stage l w) (hc : c.Stands role ctx v)
    (hl : l.Takes w role ctx) : (t.append [c]).Rooted .growing l (w ++ v) where
  laid := h.laid.child hc.laid (hc.under (h.label ▸ hl))
  ended := not_endsWith_append hc.laid.ne_nil hc.ended
  label := h.label
  bare := by
    intro u hu
    obtain ⟨n, _ | ⟨b, cs⟩⟩ := t
    · cases hu
      exact Role.ne_with hc.admits
    · exact h.bare u hu

/-- A statement behind its `WITH`. -/
theorem Whole.with (hc : c.Whole .withClause ctx v) (h : t.Whole k ctx w)
    (hk : k.takesWith = true) (hadmits : role.admits k = true) :
    (t.prepend c).Stands role ctx (v ++ w) where
  laid := by
    refine hc.laid.with h.laid hc.kind (hc.context.trans h.context.symm) ?_
    rw [h.kind]
    exact hk
  admits := by rw [Tree.kind_prepend, h.kind]; exact hadmits
  context := h.context
  frames _ := .behind rfl hc.kind hc.start hc.stop h.start h.stop hc.laid.ne_nil h.laid.ne_nil
  ended := not_endsWith_append h.laid.ne_nil h.ended

theorem Stands.finish (h : t.Stands role ctx w) :
    (t.mapHead fun n => { n with span := n.span.extend (stopOf w) }).Stands role ctx w where
  laid := h.laid.finish
  admits := by
    obtain ⟨n, cs⟩ := t
    exact h.admits
  context := by
    obtain ⟨n, cs⟩ := t
    exact h.context
  frames hrole := by
    obtain ⟨n, cs⟩ := t
    rcases h.frames hrole with
      ⟨start, stop, bare⟩ | ⟨first, kind, hstart, hstop, start, stop, hv, hw⟩
    · exact .alone start (Nat.le_max_right _ _) bare
    · exact .behind first kind hstart hstop start (Nat.le_trans stop (Nat.le_max_left _ _)) hv hw
  ended := h.ended

/-- Both numbers of a limit, which are carried on to the last token. -/
theorem Rooted.limit {u : List Token} {mark : Token} {count skip counted skipped a b : Tree}
    (h : t.Rooted stage l w) (hk : l.kind.isQuery = true) (hx : x.kind ≠ .star)
    (hcount : count.New .limitClause l.context x.span)
    (hskip : skip.New .offsetClause l.context mark.span)
    (ha : a.Stands .plain l.context u) (hb : b.Stands .plain l.context v)
    (horder : mark.kind = .comma ∧ counted = b ∧ skipped = a ∨
      mark.kind = .keyword .OFFSET ∧ counted = a ∧ skipped = b) :
    ((t.append [(count.append [counted]).mapHead
        fun n => { n with span := n.span.extend (stopOf v) }]).append
      [(skip.append [skipped]).mapHead
        fun n => { n with span := n.span.extend (stopOf v) }]).Rooted .growing l
      (w ++ [x] ++ u ++ [mark] ++ v) := by
  obtain ⟨n, rfl, hn⟩ := hcount
  obtain ⟨m, rfl, hm⟩ := hskip
  have hplain : ∀ d ∈ [counted, skipped],
      d.head.context = l.context ∧ d.kind.isOrdinary = true := by
    have ha : a.head.context = l.context ∧ a.kind.isOrdinary = true := ⟨ha.context, ha.admits⟩
    have hb : b.head.context = l.context ∧ b.kind.isOrdinary = true := ⟨hb.context, hb.admits⟩
    rcases horder with ⟨-, rfl, rfl⟩ | ⟨-, rfl, rfl⟩ <;> simp [ha, hb]
  have hlaid : Laid .growing (w ++ x :: (u ++ mark :: v)) (t.append [
      .node { n with span := n.span.extend (stopOf v) } [counted],
      .node { m with span := m.span.extend (stopOf v) } [skipped]]) := by
    refine h.laid.limit (h.kind ▸ hk) hx ha.laid hb.laid horder ⟨hn.kind, hm.kind⟩ ?_
      (fun d hd => (hplain d hd).2) (by rw [hn.span]) (by rw [hm.span])
    simp [h.context, hn.context, hm.context, (hplain counted (by simp)).1,
      (hplain skipped (by simp)).1]
  have htree : (t.append [.node { n with span := n.span.extend (stopOf v) } [counted]]).append
      [.node { m with span := m.span.extend (stopOf v) } [skipped]] = t.append [
        .node { n with span := n.span.extend (stopOf v) } [counted],
        .node { m with span := m.span.extend (stopOf v) } [skipped]] := by
    simp [Tree.append, Tree.head, Tree.children]
  refine ⟨⟨?_, h.label, ?_⟩, not_endsWith_append hb.laid.ne_nil hb.ended⟩
  · have htokens : w ++ [x] ++ u ++ [mark] ++ v = w ++ x :: (u ++ mark :: v) := by simp
    rw [htokens]
    exact htree ▸ hlaid
  · intro d hd
    obtain ⟨root, _ | ⟨e, cs⟩⟩ := t
    · cases hd
      exact fun hkind => by cases hn.kind.symm.trans hkind
    · exact h.bare d hd

theorem bare_leaf (n : Node) : ∀ c ∈ (leaf n).children.head?, c.kind ≠ .withClause := by
  intro c hc
  cases hc

namespace New

/-- A node at the first of the tokens. -/
theorem rooted (h : t.New k ctx span) (hw : w.head?.map Token.span = some span)
    (hstars : HasStars k.isWildcard.toNat w) :
    t.Rooted .grown ⟨k, ctx, span.start, false⟩ w := by
  obtain ⟨n, rfl, hn⟩ := h
  exact ⟨⟨.leaf (hn.span ▸ hw) (hstars.count.trans hn.stars.symm), hn.label, bare_leaf n⟩,
    hstars.ended⟩

theorem amend {change : Node → Node} (h : t.New k ctx span)
    (hc : ∀ n, n.kind = k → (change n).Matches n) : (t.mapHead change).New k ctx span := by
  obtain ⟨n, rfl, hn⟩ := h
  exact ⟨_, rfl, hn.amend (hc n hn.kind)⟩

/-- A call whose arguments are a star. -/
theorem starred (h : t.New .functionCall ctx span) (hw : w.head?.map Token.span = some span)
    (hstars : HasStars 1 w) :
    (t.mapHead (·.mark .starArgs)).Rooted .grown ⟨.functionCall, ctx, span.start, true⟩ w := by
  obtain ⟨n, rfl, hn⟩ := h
  have hkind : (n.mark .starArgs).kind = .functionCall := hn.kind
  have hproduct : (n.mark .starArgs).isProduct = false := hn.product
  have hstar : (n.mark .starArgs).has .starArgs = true := by
    simp [Node.has, Node.mark, Flags.has, Flags.insert, Flags.only, Flag.index]
  have hone : (n.mark .starArgs).stars = 1 := by
    rw [Node.stars, Node.isStarCall, hproduct, hkind, hstar]
    rfl
  refine ⟨⟨.leaf (hn.span ▸ hw) (hstars.count.trans hone.symm), ?_, bare_leaf _⟩, hstars.ended⟩
  show Label.mk n.kind n.context n.span.start ((n.mark .starArgs).has .starArgs) = _
  rw [hn.kind, hn.context, hn.span, hstar]

/-- A new node over a tree that was read before it. -/
theorem above (h : t.New k ctx c.head.span) (hc : c.Stands role ctx w)
    (hk : k.isWildcard = false)
    (hl : (⟨k, ctx, c.start, false⟩ : Label).Takes [] role ctx) :
    (t.append [c]).Rooted .growing ⟨k, ctx, c.start, false⟩ w := by
  obtain ⟨n, rfl, hn⟩ := h
  have hlabel : n.label = ⟨k, ctx, c.start, false⟩ := hn.label
  have hlaid := hc.laid.above (hc.under (hlabel ▸ hl)) hn.span (w := []) (by rw [hn.stars, hk]; rfl)
  rw [List.append_nil] at hlaid
  refine ⟨⟨hlaid, hlabel, ?_⟩, hc.ended⟩
  rintro _ ⟨⟩
  exact Role.ne_with hc.admits

/-- An operator over its left operand, which stands for its own token. -/
theorem operator {op : BinaryOp} (h : t.New .binaryExpr ctx c.head.span)
    (hc : c.Stands .plain ctx w) (hop : (x.kind == .star) = (op == .mul))
    (hx : x.kind ≠ .semicolon) :
    ((t.mapHead fun n => { n with operator := some (.binary op) }).append [c]).Rooted .growing
      ⟨.binaryExpr, ctx, c.start, false⟩ (w ++ [x]) := by
  obtain ⟨n, rfl, hn⟩ := h
  have hlabel : n.label = ⟨.binaryExpr, ctx, c.start, false⟩ := hn.label
  have hstars : starsOf [x] = { n with operator := some (.binary op) : Node }.stars := by
    rw [starsOf_cons, hop]
    simp only [Node.stars, Node.isProduct, Node.isStarCall, hn.kind]
    cases op <;> rfl
  have hunder : c.Under { n with operator := some (.binary op) : Node }.label [] w .plain :=
    hc.under (show n.label.Takes [] .plain ctx by rw [hlabel]; rfl)
  refine ⟨⟨hc.laid.above hunder hn.span hstars, hlabel, ?_⟩, ?_⟩
  · rintro _ ⟨⟩
    exact Role.ne_with hc.admits
  · exact not_endsWith_append (by simp) (by simpa [EndsWith] using hx)

/-- A new node at the first token of a tree that is then put under it. -/
theorem ahead (h : t.New k ctx span) (hc : c.Stands role ctx' w)
    (hw : w.head?.map Token.span = some span) (hk : k.isWildcard = false) (hcast : k ≠ .castExpr)
    (hl : (⟨k, ctx, span.start, false⟩ : Label).Takes [] role ctx') :
    (t.append [c]).Rooted .growing ⟨k, ctx, span.start, false⟩ w := by
  obtain ⟨n, rfl, hn⟩ := h
  have hstars : n.stars = 0 := by rw [hn.stars, hk]; rfl
  refine ⟨⟨hc.laid.ahead (hc.under (hn.label ▸ hl)) (hn.span ▸ hw) hstars (hn.kind ▸ hcast),
    hn.label, ?_⟩, hc.ended⟩
  rintro _ ⟨⟩
  exact Role.ne_with hc.admits

end New

end Tree

end SqlSyntax
