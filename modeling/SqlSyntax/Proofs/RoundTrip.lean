import SqlSyntax.Proofs.Reading

/-!
# Written formulas are read back

`SELECT` and what a formula is written with make a statement that selects the formula and nothing
else.
-/

namespace SqlSyntax

open SqlSyntax.Parser SqlSyntax.Expression

namespace Formula

theorem unruled_of_mem_shape : ∀ e : Formula, ∀ k ∈ e.tree.shape, k.unruled
  | leaf l => by
    rw [tree, Tree.leaf, Tree.shape_node]
    cases l <;> exact List.forall_mem_cons.2 ⟨rfl, List.forall_mem_nil _⟩
  | unary op x => by
    have hx := unruled_of_mem_shape x
    rw [tree, Tree.shape_node, List.flatMap_cons, List.flatMap_nil, List.append_nil]
    exact List.forall_mem_cons.2 ⟨rfl, hx⟩
  | binary op left right => by
    have hleft := unruled_of_mem_shape left
    have hright := unruled_of_mem_shape right
    simp only [tree, Tree.shape_node, List.flatMap_cons, List.flatMap_nil, List.append_nil]
    exact List.forall_mem_cons.2 ⟨rfl, List.forall_mem_append.2 ⟨hleft, hright⟩⟩

theorem unruled_of_erased (e : Formula) {source : Source} {u : Tree}
    (h : u.erased source = e.tree) : ∀ k ∈ u.shape, k.unruled := by
  rw [← Tree.shape_erased source, h]
  exact e.unruled_of_mem_shape

theorem erased_of_selects (e : Formula) {source : Source} {t item : Tree}
    (hitem : item.erased source = e.tree) (ht : t.Selects item) :
    t.erased source = e.selection := by
  obtain ⟨id, location, span, id', location', span', rfl⟩ := ht
  exact erased_selection (erased_list hitem)

end Formula

/-- `SELECT` and what a formula is written with are answered with the selection of the formula,
where parentheses make no nodes, the stack has no bound and three levels are allowed for each
operator. -/
theorem Session.parseTokens_selection (s : Session) (source : Source) (e : Formula) {select : Token}
    {ts : List Token} (hcompact : s.config.compactTree = true) (hstack : s.config.stackBudget = 0)
    (hdepth : 3 * e.operators + 3 ≤ s.config.maxDepth) (hfits : source.Fits)
    (hread : ∀ t ∈ select :: ts, t.ReadFrom source) (hselect : select.kind = .keyword .SELECT)
    (hts : List.Forall₂ Symbol.Writes e.symbols ts) (haccepted : ∀ t ∈ ts, t.Accepted s.config) :
    ∃ t, (s.parseTokens source (select :: ts)).1 = .ok t ∧ t.erased source = e.selection := by
  have hwrites : Scope.Writes
      { s.scope .one source with depth := 2, context := some .selectList } e.symbols ts :=
    Symbol.written_of_writes hts (fun t ht => hread t (List.mem_cons_of_mem _ ht)) haccepted
  obtain ⟨first, more, rfl, hfirst⟩ := hwrites.begins
  have hlimit : s.config.maxDepth ≤ s.config.depthLimit := Nat.le_max_left _ _
  have hroom : s.HasRoom 2 := fun depth hd =>
    ⟨by omega, fun _ => Config.exceedsStack_of_unbounded hstack _⟩
  have hready : Scope.Ready { s.scope .one source with depth := 2, context := some .selectList }
      (3 * e.operators + 1) :=
    ⟨hcompact, hstack, hfits, rfl, by show 2 + _ ≤ s.config.depthLimit; omega⟩
  have hexpression := (Formula.reads e).expression (k := more.length + 1) hready hwrites
    (Nat.le_succ _) (Nat.zero_le _) (Power.stops_nil _) (Power.stops_nil _) .nil
  rw [List.append_nil] at hexpression
  obtain ⟨t, item, hparse, hitem, ht⟩ := s.parseTokens_item source hroom hread hselect hfirst
    hwrites.no_dot hexpression fun u hu => e.unruled_of_erased hu
  exact ⟨t, hparse, e.erased_of_selects hitem ht⟩

/-- `NOT` to the right of `OR` takes a comparison, a sign binds its operand before `*`, and a sum to
the left of `*` keeps its parentheses. -/
theorem Session.parseTokens_selection_mixed :
    ∃ t, (({ config := { compactTree := true, stackBudget := 0 } } : Session).parseTokens
        "SELECT (1 + \"a\") * -?2 OR NOT 3 = b".toList
        (tokenize "SELECT (1 + \"a\") * -?2 OR NOT 3 = b".toList)).1 = .ok t ∧
      t.erased "SELECT (1 + \"a\") * -?2 OR NOT 3 = b".toList = Formula.selection
        (.binary ⟨.or, rfl⟩
          (.binary ⟨.mul, rfl⟩ (.binary ⟨.add, rfl⟩ (.leaf (.integer "1")) (.leaf (.column "a")))
            (.unary .neg (.leaf (.parameter "?2"))))
          (.unary .not (.binary ⟨.eq, rfl⟩ (.leaf (.integer "3")) (.leaf (.column "b"))))) := by
  generalize he : Formula.binary _ _ _ = e
  generalize hsource : "SELECT (1 + \"a\") * -?2 OR NOT 3 = b".toList = source
  have hfits : Source.byteSize source < 2 ^ 64 := by
    subst hsource
    decide +kernel
  have hselect : (tokenize source).head?.map Token.kind = some (.keyword .SELECT) := by
    subst hsource
    decide +kernel
  have hts : List.Forall₂ Symbol.Writes e.symbols (tokenize source).tail := by
    subst hsource he
    decide +kernel
  have hread : ∀ t ∈ tokenize source, t.ReadFrom source := fun _ => readFrom_of_mem_tokenize
  have hdepth : 3 * e.operators + 3 ≤ 1000 := by
    subst he
    decide
  generalize tokenize source = tokens at hselect hts hread ⊢
  rcases tokens with _ | ⟨select, ts⟩
  · cases hselect
  · exact Session.parseTokens_selection _ source e rfl rfl hdepth hfits hread
      (Option.some.inj hselect) hts fun _ _ => ⟨nofun, nofun⟩

end SqlSyntax
