import Mathlib.Data.List.Chain
import SqlSyntax.Proofs.Layout

/-!
# Spans that nest

A tree that is laid out over tokens lies between the first and the last of them, and so do its
children, each behind the one before it (`Tree.Held`). A node is carried on to the last token once
its children are there, and so reaches over them. What is put elsewhere is the exception: a `WITH`
stands in front of the node that it is put under, and the two numbers of a limit are carried on
together.
-/

namespace SqlSyntax

variable {v w : List Token} {x : Token}

/-! ## Tokens that follow one another -/

/-- Each token stands behind those before it, and none is empty. -/
structure Spread (w : List Token) : Prop where
  ordered : w.Pairwise fun x y => x.span.stop ≤ y.span.start
  filled : ∀ x ∈ w, x.span.start < x.span.stop

theorem spread_tokenize (source : Source) : Spread (tokenize source) where
  ordered := (tokenize_apart source).imp fun h => h.2
  filled _ hx := start_lt_stop_of_mem_tokenize hx

namespace Spread

theorem sublist (h : Spread w) (hv : v.Sublist w) : Spread v :=
  ⟨h.ordered.sublist hv, fun x hx => h.filled x (hv.subset hx)⟩

theorem left (h : Spread (v ++ w)) : Spread v := h.sublist (List.sublist_append_left v w)

theorem right (h : Spread (v ++ w)) : Spread w := h.sublist (List.sublist_append_right v w)

theorem start_lt_stop (h : Spread w) (hw : w ≠ []) : startOf w < stopOf w := by
  obtain ⟨x, w, rfl⟩ := List.exists_cons_of_ne_nil hw
  have hx := h.filled x (by simp)
  rcases List.eq_nil_or_concat w with rfl | ⟨w, y, rfl⟩
  · exact hx
  · have hy := h.filled y (by simp)
    have hxy : x.span.stop ≤ y.span.start := List.rel_of_pairwise_cons h.ordered (by simp)
    rw [List.concat_eq_append, ← List.cons_append, stopOf_concat, List.cons_append, startOf_cons]
    omega

/-- Some tokens end before those behind them start. -/
theorem stop_le_start (h : Spread (v ++ w)) (hv : v ≠ []) (hw : w ≠ []) : stopOf v ≤ startOf w := by
  obtain ⟨x, w, rfl⟩ := List.exists_cons_of_ne_nil hw
  have hlast := (List.pairwise_append.1 h.ordered).2.2 _ (List.getLast_mem hv) x (by simp)
  simpa [stopOf, List.getLast?_eq_some_getLast hv] using hlast

end Spread

/-! ## Trees between their tokens -/

namespace Tree

variable {stage : Stage} {t c d : Tree} {role : Role} {n : Node}

/-- The second tree stands behind the first; the number that a limit skips may be anywhere in it. -/
def Precedes (c d : Tree) : Prop :=
  c.kind = .limitClause ∧ d.kind = .offsetClause ∨ c.stop ≤ d.start

/-- The children of a node lie within it, one behind the other. A `WITH` is no part of its
statement, and an offset may stand behind the number that it holds. -/
structure Encloses (u : Tree) : Prop where
  inside : ∀ c ∈ u.children, c.kind ≠ .withClause → u.kind ≠ .offsetClause →
    u.start ≤ c.start ∧ c.stop ≤ u.stop
  ordered : u.children.IsChain Precedes

/-- The tree and its children lie between the first and the last of the tokens. -/
structure Held (stage : Stage) (w : List Token) (t : Tree) : Prop where
  start : startOf w ≤ t.start
  filled : t.start < t.stop
  stop : t.stop ≤ stopOf w
  children : ∀ c ∈ t.children, startOf w ≤ c.start ∧ c.stop ≤ stopOf w
  behind : ∀ c ∈ t.children, c.kind ≠ .withClause → t.start ≤ c.start
  before : ∀ c ∈ t.children, c.kind = .withClause → c.stop ≤ t.start
  /-- What is grown reaches over its children. -/
  reached : stage = .grown → ∀ c ∈ t.children, c.kind ≠ .withClause → c.stop ≤ t.stop
  ordered : t.children.IsChain Precedes
  below : ∀ c ∈ t.children, c.Everywhere Encloses

namespace Held

theorem encloses (h : t.Held .grown w) : t.Everywhere Encloses := by
  obtain ⟨n, cs⟩ := t
  refine everywhere_node.2 ⟨⟨fun c hc hwith _ => ?_, h.ordered⟩, h.below⟩
  exact ⟨h.behind c hc hwith, h.reached rfl c hc hwith⟩

theorem leaf (hw : Spread w) (hspan : w.head?.map Token.span = some n.span) :
    (Tree.leaf n).Held stage w := by
  obtain ⟨x, w, rfl⟩ : ∃ x v, w = x :: v := by
    cases w with
    | nil => cases hspan
    | cons x v => exact ⟨x, v, rfl⟩
  have hx : x.span = n.span := Option.some.inj hspan
  have hfilled := hw.filled x (by simp)
  have hstop : x.span.stop ≤ stopOf (x :: w) := by
    rcases eq_or_ne w [] with rfl | hne
    · exact Nat.le_refl _
    · have hle := (show Spread ([x] ++ w) from hw).stop_le_start (by simp) hne
      have hlt := (show Spread ([x] ++ w) from hw).right.start_lt_stop hne
      have hstop := stopOf_append [x] hne
      simp only [List.singleton_append] at hstop
      rw [hstop]
      exact hle.trans hlt.le
  rw [hx] at hfilled hstop
  exact {
    start := by rw [startOf_cons, hx]; exact Nat.le_refl _
    filled := hfilled
    stop := hstop
    children := nofun
    behind := nofun
    before := nofun
    reached := fun _ => nofun
    ordered := .nil
    below := nofun }

/-- More tokens behind those of the tree. -/
theorem widen (h : t.Held stage w) (hw : Spread (w ++ v)) (hne : w ≠ []) :
    t.Held stage (w ++ v) := by
  have hstop : stopOf w ≤ stopOf (w ++ v) := by
    rcases eq_or_ne v [] with rfl | hv
    · simp
    · have hle := hw.stop_le_start hne hv
      have hlt := hw.right.start_lt_stop hv
      rw [stopOf_append w hv]
      omega
  exact { h with
    start := by rw [startOf_append hne]; exact h.start
    stop := h.stop.trans hstop
    children := fun c hc => by
      have hspan := h.children c hc
      rw [startOf_append hne]
      omega }

/-- A node that starts where its only child starts, or before it. -/
theorem single (hc : c.Held .grown v) (hk : c.kind ≠ .withClause) (hlow : startOf v ≤ n.span.start)
    (hstart : n.span.start ≤ c.start) (hfilled : n.span.start < n.span.stop)
    (hstop : n.span.stop ≤ stopOf v) : (Tree.node n [c]).Held .growing v where
  start := hlow
  filled := hfilled
  stop := hstop
  children := by
    rintro d hd
    obtain rfl := List.mem_singleton.1 hd
    exact ⟨hc.start, hc.stop⟩
  behind := by
    rintro d hd -
    obtain rfl := List.mem_singleton.1 hd
    exact hstart
  before := by
    rintro d hd hkind
    obtain rfl := List.mem_singleton.1 hd
    exact absurd hkind hk
  reached := nofun
  ordered := .singleton _
  below := by
    rintro d hd
    obtain rfl := List.mem_singleton.1 hd
    exact hc.encloses

theorem reopen (h : t.Held .grown w) : t.Held .growing w := { h with reached := nofun }

/-- A token in front of the tree. -/
theorem cons (h : t.Held .grown w) (hw : Spread (x :: w)) (hne : w ≠ []) :
    t.Held .grown (x :: w) := by
  have happ : Spread ([x] ++ w) := hw
  have hle := happ.stop_le_start (by simp) hne
  have hx := hw.filled x (by simp)
  have hstop : stopOf (x :: w) = stopOf w := stopOf_append [x] hne
  have hback : x.span.start ≤ startOf w := by
    have hsingle : stopOf [x] = x.span.stop := rfl
    omega
  exact { h with
    start := hback.trans h.start
    stop := hstop ▸ h.stop
    children := fun d hd => by
      have hspan := h.children d hd
      rw [hstop]
      exact ⟨hback.trans hspan.1, hspan.2⟩ }

/-- One more child, which was read behind the tokens of the tree. -/
theorem append (h : t.Held stage w) (hc : c.Held .grown v) (hw : Spread (w ++ v)) (hne : w ≠ [])
    (hv : v ≠ []) (hk : c.kind ≠ .withClause) : (t.append [c]).Held .growing (w ++ v) := by
  have hwide := h.widen hw hne
  have hmid := hw.stop_le_start hne hv
  have hcstart := hc.start
  have hcstop := hc.stop
  have hlow := h.start
  have hhigh := h.stop
  have hfilled := h.filled
  refine ⟨hwide.start, hwide.filled, hwide.stop, ?_, ?_, ?_, nofun, ?_, ?_⟩
  · refine List.forall_mem_append.2 ⟨hwide.children, ?_⟩
    simp only [List.mem_singleton, forall_eq]
    rw [startOf_append hne, stopOf_append w hv]
    omega
  · refine List.forall_mem_append.2 ⟨h.behind, ?_⟩
    simp only [List.mem_singleton, forall_eq]
    intro _
    show t.start ≤ c.start
    omega
  · refine List.forall_mem_append.2 ⟨h.before, ?_⟩
    simp only [List.mem_singleton, forall_eq]
    exact fun hkind => absurd hkind hk
  · refine h.ordered.append (.singleton _) fun d hd e he => .inr ?_
    obtain rfl : c = e := Option.some.inj he
    have hd := (h.children d (List.mem_of_getLast? hd)).2
    omega
  · refine List.forall_mem_append.2 ⟨h.below, ?_⟩
    simp only [List.mem_singleton, forall_eq]
    exact hc.encloses

/-- Another root with the same span. -/
theorem mapHead {change : Node → Node} (h : t.Held stage w)
    (hspan : (change t.head).span = t.head.span) : (t.mapHead change).Held stage w := by
  have hstart : (t.mapHead change).start = t.start := by
    cases t
    exact congrArg Span.start hspan
  have hstop : (t.mapHead change).stop = t.stop := by
    cases t
    exact congrArg Span.stop hspan
  have hchildren : (t.mapHead change).children = t.children := by
    cases t
    rfl
  refine ⟨?_, ?_, ?_, ?_, ?_, ?_, ?_, ?_, ?_⟩ <;> simp only [hstart, hstop, hchildren]
  · exact h.start
  · exact h.filled
  · exact h.stop
  · exact h.children
  · exact h.behind
  · exact h.before
  · exact h.reached
  · exact h.ordered
  · exact h.below

/-- The tree is carried on to the last of the tokens. -/
theorem extend (h : t.Held stage w) :
    (t.mapHead fun n => { n with span := n.span.extend (stopOf w) }).Held .grown w := by
  obtain ⟨n, cs⟩ := t
  have hstop : n.span.stop ≤ stopOf w := h.stop
  have hfilled : n.span.start < n.span.stop := h.filled
  exact {
    start := h.start
    filled := Nat.lt_of_lt_of_le hfilled (Nat.le_max_left _ _)
    stop := Nat.max_le.2 ⟨hstop, Nat.le_refl _⟩
    children := h.children
    behind := h.behind
    before := h.before
    reached := fun _ c hc _ => (h.children c hc).2.trans (Nat.le_max_right _ _)
    ordered := h.ordered
    below := h.below }

/-- A `WITH` that was read before the tree. -/
theorem prepend (h : t.Held .grown w) (hc : c.Held .grown v) (hw : Spread (v ++ w)) (hv : v ≠ [])
    (hne : w ≠ []) (hk : c.kind = .withClause) : (t.prepend c).Held .grown (v ++ w) := by
  have hmid := hw.stop_le_start hv hne
  have hcstart := hc.start
  have hcfilled := hc.filled
  have hcstop := hc.stop
  have hlow := h.start
  have hhigh := h.stop
  have hfilled := h.filled
  have hstart : startOf (v ++ w) = startOf v := startOf_append hv w
  have hstop : stopOf (v ++ w) = stopOf w := stopOf_append v hne
  refine ⟨?_, h.filled, hstop ▸ h.stop, ?_, ?_, ?_, fun _ => ?_, ?_, ?_⟩
  · show startOf (v ++ w) ≤ t.start
    omega
  · refine List.forall_mem_cons.2 ⟨by omega, fun d hd => ?_⟩
    have hspan := h.children d hd
    omega
  · exact List.forall_mem_cons.2 ⟨fun hkind => absurd hk hkind, h.behind⟩
  · refine List.forall_mem_cons.2 ⟨fun _ => ?_, h.before⟩
    show c.stop ≤ t.start
    omega
  · exact List.forall_mem_cons.2 ⟨fun hkind => absurd hk hkind, h.reached rfl⟩
  · refine List.isChain_cons.2 ⟨fun d hd => .inr ?_, h.ordered⟩
    have hd := (h.children d (List.mem_of_head? hd)).1
    omega
  · exact List.forall_mem_cons.2 ⟨hc.encloses, h.below⟩

/-- Both numbers of a limit. -/
theorem limit {u : List Token} {word mark : Token} {a b counted skipped : Tree} {count skip : Node}
    (h : t.Held stage w) (ha : a.Held .grown u) (hb : b.Held .grown v)
    (hw : Spread (w ++ word :: (u ++ mark :: v))) (hne : w ≠ []) (hu : u ≠ []) (hv : v ≠ [])
    (horder : counted = b ∧ skipped = a ∨ counted = a ∧ skipped = b)
    (hcount : count.kind = .limitClause) (hskip : skip.kind = .offsetClause)
    (hcountSpan : count.span = word.span.extend (stopOf v))
    (hskipSpan : skip.span = mark.span.extend (stopOf v)) :
    (t.append [.node count [counted], .node skip [skipped]]).Held .growing
      (w ++ word :: (u ++ mark :: v)) := by
  have hword : stopOf w ≤ word.span.start := hw.stop_le_start hne (by simp)
  have hfirst : word.span.stop ≤ startOf u := by
    have hle := (show Spread ([word] ++ (u ++ mark :: v)) from hw.right).stop_le_start (by simp)
      (by simp)
    rwa [startOf_append hu] at hle
  have htail : Spread (u ++ mark :: v) := hw.right.sublist (List.sublist_cons_self word _)
  have hmark : stopOf u ≤ mark.span.start := htail.stop_le_start hu (by simp)
  have hsecond : mark.span.stop ≤ startOf v :=
    (show Spread ([mark] ++ v) from htail.right).stop_le_start (by simp) hv
  have hwfilled := hw.right.filled word (by simp)
  have hmfilled := htail.filled mark (by simp)
  have hlast := (htail.right.sublist (List.sublist_cons_self mark v)).start_lt_stop hv
  have hstart : startOf (w ++ word :: (u ++ mark :: v)) = startOf w := startOf_append hne _
  have hstop : stopOf (w ++ word :: (u ++ mark :: v)) = stopOf v := by
    rw [← List.cons_append, ← List.append_assoc, List.append_cons]
    exact stopOf_append _ hv
  have hlow := h.start
  have hhigh := h.stop
  have hfilled := h.filled
  have haspan := And.intro ha.start ha.stop
  have hbspan := And.intro hb.start hb.stop
  have hafilled := ha.filled
  have hcountEnds : count.span.start = word.span.start ∧ count.span.stop = stopOf v := by
    rw [hcountSpan]
    exact ⟨rfl, Nat.max_eq_right (by omega)⟩
  have hskipEnds : skip.span.start = mark.span.start ∧ skip.span.stop = stopOf v := by
    rw [hskipSpan]
    exact ⟨rfl, Nat.max_eq_right (by omega)⟩
  have hinside : word.span.start ≤ counted.start ∧ counted.stop ≤ stopOf v := by
    rcases horder with ⟨rfl, -⟩ | ⟨rfl, -⟩ <;> omega
  have hencloses : counted.Everywhere Encloses ∧ skipped.Everywhere Encloses := by
    rcases horder with ⟨rfl, rfl⟩ | ⟨rfl, rfl⟩
    · exact ⟨hb.encloses, ha.encloses⟩
    · exact ⟨ha.encloses, hb.encloses⟩
  have hcountStart : (Tree.node count [counted]).start = word.span.start := hcountEnds.1
  have hcountStop : (Tree.node count [counted]).stop = stopOf v := hcountEnds.2
  have hskipStart : (Tree.node skip [skipped]).start = mark.span.start := hskipEnds.1
  have hskipStop : (Tree.node skip [skipped]).stop = stopOf v := hskipEnds.2
  have hcountKind : (Tree.node count [counted]).kind = .limitClause := hcount
  have hskipKind : (Tree.node skip [skipped]).kind = .offsetClause := hskip
  refine ⟨?_, h.filled, ?_, ?_, ?_, ?_, nofun, ?_, ?_⟩
  · rw [hstart]
    exact hlow
  · rw [hstop]
    show t.stop ≤ stopOf v
    omega
  · refine List.forall_mem_append.2 ⟨fun c hc => ?_, ?_⟩
    · have hspan := h.children c hc
      omega
    · simp only [List.mem_cons, List.not_mem_nil, or_false, forall_eq_or_imp, forall_eq]
      omega
  · refine List.forall_mem_append.2 ⟨h.behind, ?_⟩
    simp only [List.mem_cons, List.not_mem_nil, or_false, forall_eq_or_imp, forall_eq]
    have hroot : (t.append [.node count [counted], .node skip [skipped]]).start = t.start := rfl
    omega
  · refine List.forall_mem_append.2 ⟨h.before, ?_⟩
    simp [hcountKind, hskipKind]
  · refine List.isChain_append.2 ⟨h.ordered, .cons_cons (.inl ⟨hcountKind, hskipKind⟩)
      (.singleton _), fun d hd e he => .inr ?_⟩
    obtain rfl : Tree.node count [counted] = e := Option.some.inj he
    have hd := (h.children d (List.mem_of_getLast? hd)).2
    omega
  · refine List.forall_mem_append.2 ⟨h.below, ?_⟩
    simp only [List.mem_cons, List.not_mem_nil, or_false, forall_eq_or_imp, forall_eq]
    refine ⟨everywhere_node.2 ⟨⟨?_, .singleton _⟩, by simpa using hencloses.1⟩,
      everywhere_node.2 ⟨⟨fun _ _ _ hkind => absurd hskipKind hkind, .singleton _⟩,
        by simpa using hencloses.2⟩⟩
    rintro c hc - -
    obtain rfl := List.mem_singleton.1 hc
    omega

end Held

theorem Laid.held (h : t.Laid stage w) (hw : Spread w) : t.Held stage w := by
  induction h with
  | leaf span => exact .leaf hw span
  | @above v w n c role first under span stars ih =>
    have hc := ih hw.left
    have hstart : n.span.start = c.start := congrArg Span.start span
    have hstop : n.span.stop = c.stop := congrArg Span.stop span
    have hspan := And.intro hc.start (And.intro hc.filled hc.stop)
    refine (Held.single hc (Role.ne_with under.admits) ?_ ?_ ?_ ?_).widen hw first.ne_nil <;> omega
  | @ahead v n c role first under span stars kind ih =>
    have hc := ih hw
    have hn : (Tree.leaf n).Held .grown v := .leaf hw span
    have hstart : n.span.start = startOf v := by
      obtain ⟨x, v, rfl⟩ := List.exists_cons_of_ne_nil first.ne_nil
      exact (congrArg Span.start (Option.some.inj span)).symm
    exact .single hc (Role.ne_with under.admits) hstart.ge (hstart ▸ hc.start) hn.filled hn.stop
  | reopen _ ih => exact (ih hw).reopen
  | token tree _ ih => exact (ih hw.left).widen hw tree.ne_nil
  | behind _ tree ih =>
    exact (ih (hw.sublist (List.sublist_cons_self _ _))).cons hw tree.ne_nil
  | child parent child under ih ihc =>
    exact (ih hw.left).append (ihc hw.right) hw parent.ne_nil child.ne_nil
      (Role.ne_with under.admits)
  | amend _ alike ih => exact (ih hw).mapHead alike.span
  | finish _ ih => exact (ih hw).extend
  | «with» clause tree kind _ _ ihc ih =>
    exact (ih hw.right).prepend (ihc hw.left) hw clause.ne_nil tree.ne_nil kind
  | @limit stage w u v word mark t a b counted skipped count skip tree query unstarred first second
      order counts contexts ordinary countSpan skipSpan ih iha ihb =>
    have htail : Spread (u ++ mark :: v) := hw.right.sublist (List.sublist_cons_self word _)
    have hsecond := htail.right.sublist (List.sublist_cons_self mark v)
    refine (ih hw.left).limit (iha htail.left) (ihb hsecond) hw tree.ne_nil first.ne_nil
      second.ne_nil ?_ counts.1 counts.2 countSpan skipSpan
    exact order.imp (fun h => h.2) fun h => h.2

end Tree

/-! ## Whole statements -/

/-- In the tree of a statement every node lies within the one above it, and behind the ones before
it. -/
theorem Session.parse_spans_nest (s : Session) (source : Source) (t : Tree)
    (h : (s.parse source).1 = .ok t) : ∀ u ∈ t.preorder, u.Encloses := by
  have hspread := (spread_tokenize source).sublist source.statementTokens_infix.sublist
  exact ((parse_laid h).laid.held hspread).encloses

/-- Common tables, an alias behind a join in parentheses, and a limit with its offset. -/
theorem Session.parse_spans_nest_limit :
    let text := "; WITH a AS (SELECT 1) SELECT * FROM (a JOIN b ON (x)), (VALUES (- 2)) c " ++
      "UNION SELECT DISTINCT COUNT(*) FROM d ORDER BY e LIMIT 3, 4;"
    ∃ t, (({} : Session).parse text.toList).1 = .ok t ∧ ∀ u ∈ t.preorder, u.Encloses := by
  intro text
  have hok : (({} : Session).parse text.toList).1.isOk := by
    decide +kernel
  obtain ⟨t, h⟩ := exists_of_isOk hok
  exact ⟨t, h, parse_spans_nest _ _ t h⟩

end SqlSyntax
