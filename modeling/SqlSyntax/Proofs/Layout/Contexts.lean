import SqlSyntax.Proofs.Layout.Edges

/-!
# Contexts

Which context a node has depends on its kind and on the node above it (`Tree.contextUnder`), and so
on nothing of how the nodes were made: a node may be made before the one that it is put under, and
in another production. Two nodes tell by their tokens: a cast that is written as a call, and the
query of an insertion in parentheses of its own.
-/

namespace SqlSyntax

/-- The tokens that start in a range of a source. -/
def tokensBetween (ts : List Token) (start stop : Nat) : List Token :=
  ts.filter fun x => decide (start ≤ x.span.start) && decide (x.span.start < stop)

namespace Tree

/-- The cast is written as a call: from its start to its operand the tokens begin with `CAST (`. -/
def CallsUnder (ts : List Token) (u c : Tree) : Prop :=
  [.keyword .CAST, .leftParen] <+: (tokensBetween ts u.start c.start).map Token.kind

instance (ts : List Token) (u c : Tree) : Decidable (u.CallsUnder ts c) :=
  inferInstanceAs (Decidable (_ <+: _))

/-- The last token in front of the tree opens a parenthesis. -/
def Enclosed (ts : List Token) (c : Tree) : Prop :=
  EndsWith .leftParen (tokensBetween ts 0 c.opening)

instance (ts : List Token) (c : Tree) : Decidable (c.Enclosed ts) :=
  inferInstanceAs (Decidable (EndsWith _ _))

/-- The context of a child: that of its node, but where the kinds say otherwise. -/
def contextUnder (ts : List Token) (u c : Tree) : Option Context :=
  if c.kind.listsColumns = true then some .selectList
  else if c.kind.isQuery = true ∧
      (u.kind.holdsSubquery = true ∨ u.kind = .insertStmt ∧ c.Enclosed ts) then some .subquery
  else if u.kind = .functionCall ∧ c.kind = .windowSpec then u.head.context
  else if u.kind = .castExpr ∧ u.CallsUnder ts c then some .functionArgument
  else u.kind.gives.or u.head.context

/-! ## Tokens in a range -/

variable {ts p q v w : List Token} {u c : Tree} {start stop : Nat}

theorem tokensBetween_append (v w : List Token) (start stop : Nat) :
    tokensBetween (v ++ w) start stop = tokensBetween v start stop ++ tokensBetween w start stop :=
  List.filter_append ..

theorem tokensBetween_eq_self (h : ∀ x ∈ ts, start ≤ x.span.start ∧ x.span.start < stop) :
    tokensBetween ts start stop = ts :=
  List.filter_eq_self.2 fun x hx => by simp [h x hx]

theorem tokensBetween_eq_nil (h : ∀ x ∈ ts, start ≤ x.span.start → stop ≤ x.span.start) :
    tokensBetween ts start stop = [] :=
  List.filter_eq_nil_iff.2 fun x hx => by simpa using h x hx

theorem start_lt_startOf {x : Token} (h : Spread (p ++ v)) (hx : x ∈ p) (hv : v ≠ []) :
    x.span.start < startOf v := by
  obtain ⟨y, v, rfl⟩ := List.exists_cons_of_ne_nil hv
  have hle := (List.pairwise_append.1 h.ordered).2.2 x hx y (by simp)
  have hlt := h.filled x (by simp [hx])
  rw [startOf_cons]
  omega

theorem startOf_le_start {x : Token} (h : Spread v) (hx : x ∈ v) : startOf v ≤ x.span.start := by
  obtain ⟨y, v, rfl⟩ := List.exists_cons_of_ne_nil (List.ne_nil_of_mem hx)
  rcases List.mem_cons.1 hx with rfl | hx
  · exact Nat.le_refl _
  · have hle := List.rel_of_pairwise_cons h.ordered hx
    have hlt := h.filled y (by simp)
    rw [startOf_cons]
    omega

/-- The tokens before the first of some are those in front of them. -/
theorem tokensBetween_zero (h : Spread (p ++ v)) (hv : v ≠ []) :
    tokensBetween (p ++ v) 0 (startOf v) = p := by
  have hp : tokensBetween p 0 (startOf v) = p :=
    tokensBetween_eq_self fun x hx => ⟨Nat.zero_le _, start_lt_startOf h hx hv⟩
  have hrest : tokensBetween v 0 (startOf v) = [] :=
    tokensBetween_eq_nil fun x hx _ => startOf_le_start h.right hx
  rw [tokensBetween_append, hp, hrest, List.append_nil]

theorem enclosed_iff (hts : Spread ts) (hw : w ++ v <:+: ts) (hne : w ≠ []) (hv : v ≠ [])
    (hc : c.opening = startOf v) : c.Enclosed ts ↔ EndsWith .leftParen w := by
  obtain ⟨p, q, rfl⟩ := hw
  have hsplit : p ++ (w ++ v) ++ q = (p ++ w) ++ (v ++ q) := by simp
  rw [hsplit] at hts
  have hbetween := tokensBetween_zero hts (by simp [hv])
  rw [startOf_append hv] at hbetween
  rw [Enclosed, hc, hsplit, hbetween]
  simp [EndsWith, List.getLast?_append, List.getLast?_eq_some_getLast hne]

/-- A cast that starts with the tokens `CAST (` is written as a call. -/
theorem callsUnder_of_calls (hts : Spread ts) (hw : w ++ v <:+: ts) (hv : v ≠ [])
    (hcalls : u.head.label.Calls w) (hc : startOf v ≤ c.start) : u.CallsUnder ts c := by
  obtain ⟨word, opening, rfl, hword, hopening, hstart⟩ := hcalls
  obtain ⟨p, q, rfl⟩ := hw
  have hstart : u.start = word.span.start := hstart
  have hsplit : p ++ ([word, opening] ++ v) ++ q = (p ++ [word, opening]) ++ (v ++ q) := by simp
  rw [hsplit] at hts
  have hbefore : ∀ x ∈ p ++ [word, opening], x.span.start < c.start := by
    intro x hx
    have hlt := start_lt_startOf hts hx (by simp [hv])
    rw [startOf_append hv] at hlt
    omega
  have hp : tokensBetween p u.start c.start = [] := by
    refine tokensBetween_eq_nil fun x hx hle => ?_
    have hlt := start_lt_startOf hts.left hx (by simp)
    rw [startOf_cons] at hlt
    omega
  have hwords : tokensBetween [word, opening] u.start c.start = [word, opening] := by
    refine tokensBetween_eq_self fun x hx => ⟨?_, hbefore x (List.mem_append_right p hx)⟩
    rw [hstart]
    exact startOf_le_start hts.left.right hx
  rw [CallsUnder, hsplit, tokensBetween_append, tokensBetween_append, hp, hwords]
  simp [hword, hopening]

/-- A cast that starts where its operand does is not written as a call. -/
theorem not_callsUnder (h : u.start = c.start) : ¬ u.CallsUnder ts c := by
  have hnil : tokensBetween ts u.start c.start = [] := by
    refine tokensBetween_eq_nil fun x _ hle => ?_
    omega
  rw [CallsUnder, hnil]
  simp

/-! ## Children -/

variable {l : Label} {context : Option Context}

theorem takes_plain (h : l.Takes w .plain context) (hcall : l.kind ≠ .functionCall)
    (hcast : l.kind ≠ .castExpr) : context = l.kind.gives.or l.context := by
  obtain ⟨k, _, _, _⟩ := l
  cases k <;> first | exact absurd rfl hcall | exact absurd rfl hcast | exact h

theorem takes_call (h : l.Takes w .plain context) (hk : l.kind = .functionCall) :
    context = some .functionArgument := by
  obtain ⟨k, _, _, _⟩ := l
  obtain rfl : k = .functionCall := hk
  exact h.2

theorem takes_window (h : l.Takes w .window context) :
    l.kind = .functionCall ∧ context = l.context := by
  obtain ⟨k, _, _, _⟩ := l
  cases k <;> first | exact ⟨rfl, h⟩ | exact h.elim

theorem takes_statement (h : l.Takes w .statement context) :
    (l.kind = .explainStmt ∨ l.kind = .triggerBody) ∧ context = l.context := by
  obtain ⟨k, _, _, _⟩ := l
  cases k <;> first | exact ⟨.inl rfl, h⟩ | exact ⟨.inr rfl, h⟩ | exact h.elim

theorem takes_cast (h : l.Takes w .plain context) (hk : l.kind = .castExpr) :
    w = [] ∧ context = l.context ∨ l.Calls w ∧ context = some .functionArgument := by
  obtain ⟨k, _, _, _⟩ := l
  obtain rfl : k = .castExpr := hk
  exact h

theorem takes_insert (h : l.Takes w .query context) (hk : l.kind = .insertStmt) :
    w ≠ [] ∧ context = if EndsWith .leftParen w then some .subquery else l.context := by
  obtain ⟨k, _, _, _⟩ := l
  obtain rfl : k = .insertStmt := hk
  exact h

theorem takes_query (h : l.Takes w .query context) (hinsert : l.kind ≠ .insertStmt) :
    context = (if l.kind.holdsSubquery = true then some .subquery else l.kind.gives.or l.context) ∧
      l.kind ≠ .functionCall ∧ l.kind ≠ .castExpr := by
  obtain ⟨k, _, _, _⟩ := l
  cases k <;> first | exact absurd rfl hinsert | exact ⟨h, by simp, by simp⟩ | exact h.elim

/-- What a plain child is given. -/
theorem contextUnder_ordinary (hk : c.kind.isOrdinary = true) :
    u.contextUnder ts c = if u.kind = .castExpr ∧ u.CallsUnder ts c then some .functionArgument
      else u.kind.gives.or u.head.context := by
  have hkinds : c.kind.listsColumns = false ∧ c.kind.isQuery = false ∧ c.kind ≠ .windowSpec := by
    cases h : c.kind <;> rw [h] at hk <;> first | (cases hk; done) | exact ⟨rfl, rfl, by decide⟩
  simp [contextUnder, hkinds]

theorem contextUnder_plain (hts : Spread ts) (hw : w ++ v <:+: ts) (hv : v ≠ [])
    (h : c.Under u.head.label w v .plain) (hc : startOf v ≤ c.start)
    (hover : w = [] → u.kind = .castExpr → u.start = c.start) :
    c.head.context = u.contextUnder ts c := by
  have htakes := h.takes
  rw [contextUnder_ordinary h.admits]
  by_cases hcall : u.kind = .functionCall
  · rw [takes_call htakes hcall]
    simp [hcall, Kind.gives]
  by_cases hcast : u.kind = .castExpr
  · rcases takes_cast htakes hcast with ⟨hnil, hcontext⟩ | ⟨hcalls, hcontext⟩
    · rw [if_neg fun hwritten => not_callsUnder (hover hnil hcast) hwritten.2, hcast]
      exact hcontext
    · rw [if_pos ⟨hcast, callsUnder_of_calls hts hw hv hcalls hc⟩]
      exact hcontext
  · rw [if_neg fun hwritten => hcast hwritten.1]
    exact takes_plain htakes hcall hcast

theorem contextUnder_query (hts : Spread ts) (hw : w ++ v <:+: ts) (hv : v ≠ [])
    (h : c.Under u.head.label w v .query) : c.head.context = u.contextUnder ts c := by
  have hquery : c.kind.isQuery = true := h.admits
  have hkinds : c.kind.listsColumns = false ∧ c.kind ≠ .windowSpec := by
    cases hk : c.kind <;> rw [hk] at hquery <;>
      first | (cases hquery; done) | exact ⟨rfl, by decide⟩
  have htakes := h.takes
  by_cases hinsert : u.kind = .insertStmt
  · obtain ⟨hne, hcontext⟩ := takes_insert htakes hinsert
    have henclosed := enclosed_iff hts hw hne hv (h.frames rfl).opening
    simp [contextUnder, hkinds, hquery, hinsert, henclosed, hcontext, Kind.gives,
      Kind.holdsSubquery, Node.label]
  · obtain ⟨hcontext, hcall, hcast⟩ := takes_query htakes hinsert
    have hcall : u.kind ≠ .functionCall := hcall
    have hcast : u.kind ≠ .castExpr := hcast
    simp only [contextUnder, hkinds, hquery, hinsert, hcall, hcast]
    rw [hcontext]
    simp
    rfl

/-- A child of a node that gives no context of its own. -/
theorem contextUnder_inherits (hu : u.kind.gives = none ∧ u.kind ≠ .castExpr)
    (hc : c.kind.listsColumns = false)
    (hquery : c.kind.isQuery = true → u.kind.holdsSubquery = false ∧ u.kind ≠ .insertStmt) :
    u.contextUnder ts c = u.head.context := by
  have hsubquery : ¬ (c.kind.isQuery = true ∧
      (u.kind.holdsSubquery = true ∨ u.kind = .insertStmt ∧ c.Enclosed ts)) := by
    rintro ⟨hk, hholds | hinsert⟩
    · rw [(hquery hk).1] at hholds
      cases hholds
    · exact (hquery hk).2 hinsert.1
  have hcast : ¬ (u.kind = .castExpr ∧ u.CallsUnder ts c) := fun h => hu.2 h.1
  simp only [contextUnder, hc, hsubquery, hcast, hu.1]
  simp

theorem gives_of_takesWith {k : Kind} (h : k.takesWith = true) :
    k.gives = none ∧ k ≠ .castExpr := by
  cases k <;> first | (cases h; done) | exact ⟨rfl, by decide⟩

theorem Edge.contextUnder (h : c.Edge ts u.head.label) (hts : Spread ts) :
    c.head.context = u.contextUnder ts c := by
  cases h with
  | @under w v role tokens some under start flush =>
    have htakes := under.takes
    have hadmits := under.admits
    cases role with
    | plain => exact contextUnder_plain hts tokens some under start flush
    | query => exact contextUnder_query hts tokens some under
    | columns =>
      have hlists : c.kind.listsColumns = true := hadmits
      rw [Tree.contextUnder, if_pos hlists]
      exact htakes.2
    | column =>
      have hu : u.kind.gives = none ∧ u.kind ≠ .castExpr := by
        have hlists : u.kind.listsColumns = true := htakes.1
        cases hk : u.kind <;> rw [hk] at hlists <;>
          first | (cases hlists; done) | exact ⟨rfl, by decide⟩
      have hc : c.kind.listsColumns = false ∧ c.kind.isQuery = false := by
        cases hk : c.kind <;> rw [hk] at hadmits <;>
          first | (cases hadmits; done) | exact ⟨rfl, rfl⟩
      exact htakes.2.trans (contextUnder_inherits hu hc.1 (by simp [hc.2])).symm
    | window =>
      have hk : c.kind = .windowSpec := eq_of_beq hadmits
      obtain ⟨hcall, hcontext⟩ := takes_window htakes
      have hcall : u.kind = .functionCall := hcall
      rw [hcontext]
      simp [Tree.contextUnder, hk, hcall, Kind.listsColumns, Kind.isQuery, Node.label]
    | statement =>
      obtain ⟨hu, hcontext⟩ := takes_statement htakes
      have hu : u.kind = .explainStmt ∨ u.kind = .triggerBody := hu
      have hc : c.kind.listsColumns = false := by
        cases hk : c.kind <;> rw [hk] at hadmits <;> first | rfl | cases hadmits
      refine hcontext.trans (contextUnder_inherits ?_ hc fun _ => ?_).symm
      · rcases hu with hu | hu <;> rw [hu] <;> exact ⟨rfl, by decide⟩
      · rcases hu with hu | hu <;> rw [hu] <;> exact ⟨rfl, by decide⟩
  | «with» kind context takes =>
    refine context.trans (contextUnder_inherits (gives_of_takesWith takes) ?_ ?_).symm <;>
      simp [kind, Kind.listsColumns, Kind.isQuery]
  | count kind context query =>
    have hu := gives_of_takesWith (Kind.takesWith_of_isQuery query)
    refine context.trans (contextUnder_inherits hu ?_ ?_).symm <;>
      simp [kind, Kind.listsColumns, Kind.isQuery]
  | skip kind context query =>
    have hu := gives_of_takesWith (Kind.takesWith_of_isQuery query)
    refine context.trans (contextUnder_inherits hu ?_ ?_).symm <;>
      simp [kind, Kind.listsColumns, Kind.isQuery]

end Tree

/-! ## Whole statements -/

/-- In the tree of a statement the root has no context, and each child has the one that its kind
and its node tell. -/
theorem Session.parse_gives_contexts (s : Session) (source : Source) (t : Tree)
    (h : (s.parse source).1 = .ok t) :
    t.head.context = none ∧
      ∀ u ∈ t.preorder, ∀ c ∈ u.children, c.head.context = u.contextUnder (tokenize source) c := by
  have hstands := parse_laid h
  have hts := spread_tokenize source
  have hjoins := hstands.laid.joins source.statementTokens_infix hts
  exact ⟨hstands.context, fun u hu c hc => (hjoins u hu c hc).contextUnder hts⟩

/-- Both ways to write a cast, a window, a query in parentheses of its own with a `WITH`, and what
an insertion returns. -/
theorem Session.parse_gives_contexts_insert :
    let text := "INSERT INTO a (WITH b AS (SELECT 1) SELECT CAST(c AS INT)::TEXT, " ++
      "SUM(d) OVER (ORDER BY e) FROM f) RETURNING *"
    ∃ t, (({} : Session).parse text.toList).1 = .ok t ∧ t.head.context = none ∧
      ∀ u ∈ t.preorder, ∀ c ∈ u.children,
        c.head.context = u.contextUnder (tokenize text.toList) c := by
  intro text
  have hok : (({} : Session).parse text.toList).1.isOk := by
    decide +kernel
  obtain ⟨t, h⟩ := exists_of_isOk hok
  exact ⟨t, h, parse_gives_contexts _ _ t h⟩

end SqlSyntax
