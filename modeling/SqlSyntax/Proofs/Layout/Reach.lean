import SqlSyntax.Proofs.Layout.Edges

/-!
# How far statements reach

The tree of a statement reaches to its last token, and from its first one unless a `WITH` stands in
front of it: the node of a statement is made behind its `WITH`, and what is put under it later moves
its end only. So a `WITH` lies before its owner, and not within it. In the same way the mark of an
offset is the first token of its node, and the number before a comma lies outside
(`Session.parse_reaches`).
-/

namespace SqlSyntax

namespace Tree

variable {ts w : List Token} {l : Label} {t c : Tree}

/-- The tree reaches to the last of the tokens, and from the first of them, or from the first behind
a `WITH`. -/
structure Reaches (w : List Token) (t : Tree) : Prop where
  nonempty : w ≠ []
  opening : t.opening = startOf w
  stop : t.stop = stopOf w
  behind : ∀ c ∈ t.children.head?, c.kind = .withClause →
    ∃ before x after, w = before ++ x :: after ∧ (∀ y ∈ before, y.span.stop ≤ c.stop) ∧
      c.stop ≤ x.span.start ∧ t.start = x.span.start

theorem stop_le_stopOf {x : Token} (hw : Spread w) (hx : x ∈ w) : x.span.stop ≤ stopOf w := by
  obtain ⟨v, u, rfl⟩ := List.append_of_mem hx
  rcases eq_or_ne u [] with rfl | hu
  · rw [stopOf_concat]
  · have hright : Spread ([x] ++ u) := hw.right
    have hle : stopOf [x] ≤ startOf u := hright.stop_le_start (by simp) hu
    have hlt := hright.right.start_lt_stop hu
    have hsingle : stopOf [x] = x.span.stop := rfl
    rw [List.append_cons, stopOf_append _ hu]
    omega

theorem Frames.reaches (h : t.Frames w) (hlaid : t.Laid .grown w) (hw : Spread w) :
    t.Reaches w := by
  have hheld := hlaid.held hw
  have hopening := h.opening
  cases h with
  | alone start stop bare =>
    exact ⟨hlaid.ne_nil, hopening, Nat.le_antisymm hheld.stop stop,
      fun c hc hk => absurd hk (bare c hc)⟩
  | @behind v w clause first kind clauseStart clauseStop start stop hv hne =>
    rw [← stopOf_append v hne] at stop
    refine ⟨hlaid.ne_nil, hopening, Nat.le_antisymm hheld.stop stop, fun c hc _ => ?_⟩
    obtain rfl : clause = c := Option.some.inj (first.symm.trans hc)
    obtain ⟨x, w, rfl⟩ := List.exists_cons_of_ne_nil hne
    have hbefore := hheld.before clause (List.mem_of_head? first) kind
    rw [start, startOf_cons] at hbefore
    exact ⟨v, x, w, rfl, fun y hy => (stop_le_stopOf hw.left hy).trans clauseStop, hbefore, start⟩

theorem Edge.stop_of_with (h : c.Edge ts l) (hk : c.kind = .withClause) : c.stop ≤ l.start := by
  cases h with
  | under _ _ under => exact absurd hk (Role.ne_with under.admits)
  | «with» _ _ _ stop => exact stop
  | count kind => cases kind.symm.trans hk
  | skip kind => cases kind.symm.trans hk

theorem Edge.offsets (h : c.Edge ts l) (hk : c.kind = .offsetClause) : c.Offsets ts := by
  cases h with
  | @under w v role _ _ under =>
    have hadmits := under.admits
    rw [hk] at hadmits
    cases role <;> cases hadmits
  | «with» kind => cases kind.symm.trans hk
  | count kind => cases kind.symm.trans hk
  | skip _ _ _ offsets => exact offsets

end Tree

/-- The tree of a statement reaches over its tokens, but for a `WITH` in front. Each `WITH` ends
before its statement or query starts. An offset starts at its keyword, and contains its number, or
it starts at a comma, and its number ends before it. -/
theorem Session.parse_reaches (s : Session) (source : Source) (t : Tree)
    (h : (s.parse source).1 = .ok t) :
    t.Reaches source.statementTokens ∧
    (∀ u ∈ t.preorder, ∀ c ∈ u.children, c.kind = .withClause → c.stop ≤ u.start) ∧
    ∀ u ∈ t.preorder, u.kind = .offsetClause → u.Offsets (tokenize source) := by
  have hstands := parse_laid h
  have hinfix := source.statementTokens_infix
  have hjoins := hstands.laid.joins hinfix (spread_tokenize source)
  refine ⟨?_, fun u hu c hc hk => (hjoins u hu c hc).stop_of_with hk, ?_⟩
  · have hspread := (spread_tokenize source).sublist hinfix.sublist
    exact (hstands.frames rfl).reaches hstands.laid hspread
  · refine Tree.Everywhere.of_children ?_ fun hk => ?_
    · exact fun u hu c hc hk => (hjoins u hu c hc).offsets hk
    have hadmits := hstands.admits
    rw [hk] at hadmits
    cases hadmits

/-- A `WITH` in front of a deletion, and an offset behind a comma. -/
theorem Session.parse_reaches_over_with :
    let text := ";WITH a AS (SELECT 1 LIMIT 2, 3) DELETE FROM b " ++
      "WHERE c IN (SELECT 4 LIMIT 5 OFFSET 6);;"
    ∃ t, (({} : Session).parse text.toList).1 = .ok t ∧
      t.Reaches (Source.statementTokens text.toList) := by
  intro text
  have hok : (({} : Session).parse text.toList).1.isOk := by
    decide +kernel
  obtain ⟨t, h⟩ := exists_of_isOk hok
  exact ⟨t, h, (parse_reaches _ _ t h).1⟩

/-- A query starts behind its `WITH`, and the number that is skipped stands before the comma where
its node starts. With `OFFSET` it stands within its node. -/
theorem Session.with_and_offset_leave_owners :
    (({} : Session).parse "WITH a AS (SELECT 1) SELECT * FROM a".toList).1.toOption.map
        (fun t => (t.kind, t.head.span, t.children.map fun c => (c.kind, c.head.span))) =
      some (.selectStmt, ⟨21, 36⟩,
        [(.withClause, ⟨0, 20⟩), (.selectList, ⟨28, 29⟩), (.fromClause, ⟨30, 36⟩)]) ∧
    (({} : Session).parse "SELECT 1 LIMIT 2, 3".toList).1.toOption.map
        (fun t => (t.find? .offsetClause).map fun u =>
          (u.head.span, u.children.map fun c => (c.kind, c.head.span))) =
      some (some (⟨16, 19⟩, [(.integerLiteral, ⟨15, 16⟩)])) ∧
    (({} : Session).parse "SELECT 1 LIMIT 3 OFFSET 2".toList).1.toOption.map
        (fun t => (t.find? .offsetClause).map fun u =>
          (u.head.span, u.children.map fun c => (c.kind, c.head.span))) =
      some (some (⟨17, 25⟩, [(.integerLiteral, ⟨24, 25⟩)])) := by
  decide +kernel

end SqlSyntax
