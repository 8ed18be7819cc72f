import SqlSyntax.Proofs.Layout.Nesting

/-!
# How children stand under their nodes

For each child of a laid out tree it is told where it was read (`Tree.Edge`): behind some tokens
that the node had read itself, or put elsewhere, as a `WITH` and the numbers of a limit are. Since a
root keeps its label while its tree is made, this holds of the finished node as well.
-/

namespace SqlSyntax

namespace Tree

variable {stage : Stage} {ts w : List Token} {l : Label} {t c : Tree}

/-- The node of a skipped number starts at an `OFFSET` before the number, or at a comma behind
it. -/
def Offsets (ts : List Token) (u : Tree) : Prop :=
  ∃ mark ∈ ts, u.start = mark.span.start ∧
    (mark.kind = .keyword .OFFSET ∧ (∀ c ∈ u.children, u.start ≤ c.start ∧ c.stop ≤ u.stop) ∨
      mark.kind = .comma ∧ ∀ c ∈ u.children, c.stop ≤ u.start)

/-- How a child stands under a node with the label, in a source with the tokens. -/
inductive Edge (ts : List Token) (l : Label) (c : Tree) : Prop
  /-- Behind the tokens `w`, which the node had read. -/
  | under {w v : List Token} {role : Role} (tokens : w ++ v <:+: ts) (some : v ≠ [])
      (under : c.Under l w v role) (start : startOf v ≤ c.start)
      (flush : w = [] → l.kind = .castExpr → l.start = c.start)
  | with (kind : c.kind = .withClause) (context : c.head.context = l.context)
      (takes : l.kind.takesWith = true) (stop : c.stop ≤ l.start)
  | count (kind : c.kind = .limitClause) (context : c.head.context = l.context)
      (query : l.kind.isQuery = true)
  | skip (kind : c.kind = .offsetClause) (context : c.head.context = l.context)
      (query : l.kind.isQuery = true) (offsets : c.Offsets ts)

/-- Each child of the node stands as told. -/
def Joins (ts : List Token) (u : Tree) : Prop := ∀ c ∈ u.children, c.Edge ts u.head.label

/-- A number under its node, wherever it was read. -/
theorem joins_number {n : Node} {v : List Token} (hc : c.Laid .grown v) (hv : v <:+: ts)
    (hts : Spread ts) (hn : n.kind = .limitClause ∨ n.kind = .offsetClause)
    (hcontext : c.head.context = n.context) (hk : c.kind.isOrdinary = true) :
    (Tree.node n [c]).Joins ts := by
  have htakes : n.label.Takes [] .plain c.head.context := by
    rcases hn with hn | hn <;> simp [Label.Takes, Node.label, hn, hcontext, Kind.gives]
  intro d hd
  obtain rfl := List.mem_singleton.1 hd
  have hunder : d.Under n.label [] v .plain := ⟨hk, htakes, fun hrole => by cases hrole⟩
  refine .under (w := []) hv hc.ne_nil hunder
    (hc.held (hts.sublist hv.sublist)).start fun _ hcast => ?_
  have hcast : n.kind = .castExpr := hcast
  rcases hn with hn | hn <;> cases hn.symm.trans hcast

/-- The second number of a limit stands behind its mark, and the first before it. -/
theorem offsets_number {u v : List Token} {mark : Token} {skip : Node} {a b skipped : Tree}
    (first : a.Laid .grown u) (second : b.Laid .grown v) (hw : Spread (u ++ mark :: v))
    (hmark : mark ∈ ts)
    (horder : mark.kind = .comma ∧ skipped = a ∨ mark.kind = .keyword .OFFSET ∧ skipped = b)
    (hspan : skip.span = mark.span.extend (stopOf v)) :
    (Tree.node skip [skipped]).Offsets ts := by
  have hstart : (Tree.node skip [skipped]).start = mark.span.start := by
    show skip.span.start = mark.span.start
    rw [hspan]
    rfl
  have hstop : stopOf v ≤ (Tree.node skip [skipped]).stop := by
    show stopOf v ≤ skip.span.stop
    rw [hspan]
    exact Nat.le_max_right _ _
  have hcomma : stopOf u ≤ mark.span.start := hw.stop_le_start first.ne_nil (by simp)
  have hword : mark.span.stop ≤ startOf v :=
    (show Spread ([mark] ++ v) from hw.right).stop_le_start (by simp) second.ne_nil
  have hfilled := hw.filled mark (by simp)
  refine ⟨mark, hmark, hstart, ?_⟩
  rcases horder with ⟨hkind, rfl⟩ | ⟨hkind, rfl⟩
  · refine .inr ⟨hkind, fun c hc => ?_⟩
    obtain rfl := List.mem_singleton.1 hc
    have hfirst := (first.held hw.left).stop
    omega
  · refine .inl ⟨hkind, fun c hc => ?_⟩
    obtain rfl := List.mem_singleton.1 hc
    have hsecond := second.held (hw.right.sublist (List.sublist_cons_self mark v))
    have hlow := hsecond.start
    have hhigh := hsecond.stop
    omega

theorem Laid.joins (h : t.Laid stage w) (hw : w <:+: ts) (hts : Spread ts) :
    t.Everywhere (Joins ts) := by
  induction h with
  | leaf => exact .leaf (List.forall_mem_nil _)
  | @above v w n c role first under span stars ih =>
    have hv : v <:+: ts := (List.prefix_append v w).isInfix.trans hw
    refine everywhere_node.2 ⟨fun d hd => ?_, by simpa using ih hv⟩
    obtain rfl := List.mem_singleton.1 hd
    exact .under (w := []) hv first.ne_nil under (first.held (hts.sublist hv.sublist)).start
      fun _ _ => congrArg Span.start span
  | @ahead v n c role first under span stars kind ih =>
    refine everywhere_node.2 ⟨fun d hd => ?_, by simpa using ih hw⟩
    obtain rfl := List.mem_singleton.1 hd
    exact .under (w := []) hw first.ne_nil under (first.held (hts.sublist hw.sublist)).start
      fun _ hcast => absurd hcast kind
  | reopen _ ih => exact ih hw
  | token _ _ ih => exact ih ((List.prefix_append _ _).isInfix.trans hw)
  | behind _ _ ih => exact ih ((List.suffix_cons _ _).isInfix.trans hw)
  | @child stage w v t c role parent child under ih ihc =>
    have hparent := ih ((List.prefix_append w v).isInfix.trans hw)
    have hv : v <:+: ts := (List.suffix_append w v).isInfix.trans hw
    refine hparent.append (ihc hv) fun d hd => ?_
    rcases List.mem_append.1 hd with hd | hd
    · exact hparent.root d hd
    · obtain rfl := List.mem_singleton.1 hd
      exact .under hw child.ne_nil under (child.held (hts.sublist hv.sublist)).start
        fun hnil => absurd hnil parent.ne_nil
  | @amend stage w t change tree alike ih =>
    have ht := ih hw
    refine ht.mapHead fun d hd => ?_
    cases t
    exact alike.label ▸ ht.root d hd
  | @finish stage w t tree ih =>
    have ht := ih hw
    refine ht.mapHead fun d hd => ?_
    cases t
    exact ht.root d hd
  | @«with» v w t c clause tree kind context takes ihc ih =>
    have hts' := hts.sublist hw.sublist
    have hmid := hts'.stop_le_start clause.ne_nil tree.ne_nil
    have hstop := (clause.held hts'.left).stop
    have hstart := (tree.held hts'.right).start
    have ht := ih ((List.suffix_append v w).isInfix.trans hw)
    refine ht.prepend (ihc ((List.prefix_append v w).isInfix.trans hw)) fun d hd => ?_
    rcases List.mem_cons.1 hd with rfl | hd
    · exact .with kind context takes (show d.stop ≤ t.start by omega)
    · exact ht.root d hd
  | @limit stage w u v word mark t a b counted skipped count skip tree query unstarred first second
      order counts contexts ordinary countSpan skipSpan ih iha ihb =>
    have hu : u <:+: ts := .trans ⟨w ++ [word], mark :: v, by simp⟩ hw
    have hv : v <:+: ts := .trans ⟨w ++ word :: (u ++ [mark]), [], by simp⟩ hw
    have hafter : u ++ mark :: v <:+: ts := .trans ⟨w ++ [word], [], by simp⟩ hw
    have hmark : mark ∈ ts := hafter.subset (by simp)
    have ht := ih ((List.prefix_append _ _).isInfix.trans hw)
    have hoffsets := offsets_number first second (hts.sublist hafter.sublist) hmark
      (order.imp (fun h => ⟨h.1, h.2.2⟩) fun h => ⟨h.1, h.2.2⟩) skipSpan
    have hcounted : (Tree.node count [counted]).Joins ts ∧ (Tree.node skip [skipped]).Joins ts := by
      have hcontext : counted.head.context = count.context ∧
          skipped.head.context = skip.context := by
        simp [contexts count, contexts skip, contexts counted.head, contexts skipped.head]
      rcases order with ⟨-, rfl, rfl⟩ | ⟨-, rfl, rfl⟩
      · exact ⟨joins_number second hv hts (.inl counts.1) hcontext.1 (ordinary _ (by simp)),
          joins_number first hu hts (.inr counts.2) hcontext.2 (ordinary _ (by simp))⟩
      · exact ⟨joins_number first hu hts (.inl counts.1) hcontext.1 (ordinary _ (by simp)),
          joins_number second hv hts (.inr counts.2) hcontext.2 (ordinary _ (by simp))⟩
    have hbelow : counted.Everywhere (Joins ts) ∧ skipped.Everywhere (Joins ts) := by
      rcases order with ⟨-, rfl, rfl⟩ | ⟨-, rfl, rfl⟩
      · exact ⟨ihb hv, iha hu⟩
      · exact ⟨iha hu, ihb hv⟩
    obtain ⟨n, cs⟩ := t
    refine everywhere_node.2 ⟨?_, ?_⟩
    · refine List.forall_mem_append.2 ⟨ht.root, ?_⟩
      simp only [List.mem_cons, List.not_mem_nil, or_false, forall_eq_or_imp, forall_eq]
      exact ⟨.count counts.1 (contexts count (by simp)) query,
        .skip counts.2 (contexts skip (by simp)) query hoffsets⟩
    · refine List.forall_mem_append.2 ⟨(everywhere_node.1 ht).2, ?_⟩
      simp only [List.mem_cons, List.not_mem_nil, or_false, forall_eq_or_imp, forall_eq]
      exact ⟨everywhere_node.2 ⟨hcounted.1, by simpa using hbelow.1⟩,
        everywhere_node.2 ⟨hcounted.2, by simpa using hbelow.2⟩⟩

end Tree

end SqlSyntax
