import SqlSyntax.Proofs.Trees
import SqlSyntax.Validation

/-!
# Where violations are

Every violation of a statement is reported at one of its nodes: at the node that was checked, at a
child or grandchild of it, or at a call of an aggregate below it.
-/

namespace SqlSyntax

namespace Tree

theorem mem_preorder_self (t : Tree) : t ∈ t.preorder := by
  cases t
  rw [preorder_node]
  exact List.mem_cons_self

theorem mem_preorder_of_children {t c u : Tree} (hc : c ∈ t.children) (hu : u ∈ c.preorder) :
    u ∈ t.preorder := by
  obtain ⟨n, cs⟩ := t
  rw [preorder_node]
  exact List.mem_cons_of_mem _ (List.mem_flatMap.2 ⟨c, hc, hu⟩)

theorem mem_preorder_child {t c : Tree} (hc : c ∈ t.children) : c ∈ t.preorder :=
  mem_preorder_of_children hc c.mem_preorder_self

mutual
theorem mem_preorder_trans {u v : Tree} (hv : v ∈ u.preorder) :
    ∀ {t : Tree}, u ∈ t.preorder → v ∈ t.preorder
  | .node n cs, hu => by
    rw [preorder_node] at hu
    rcases List.mem_cons.1 hu with rfl | hu
    · exact hv
    · rw [preorder_node]
      exact List.mem_cons_of_mem _ (mem_preorder_trans_all hv hu)

theorem mem_preorder_trans_all {u v : Tree} (hv : v ∈ u.preorder) :
    ∀ {ts : List Tree}, u ∈ ts.flatMap preorder → v ∈ ts.flatMap preorder
  | [], hu => absurd hu List.not_mem_nil
  | t :: ts, hu => by
    rw [List.flatMap_cons, List.mem_append] at hu ⊢
    exact hu.imp (mem_preorder_trans hv) (mem_preorder_trans_all hv)
end

end Tree

namespace Validation

open SqlSyntax.Tree

variable {source : Source} {mode : Mode} {t : Tree} {v : Violation}

/-- The violation is reported at a node of the tree. -/
def AtNode (t : Tree) (v : Violation) : Prop := ∃ u ∈ t.preorder, ∃ breach, v = violation breach u

theorem atNode_self (breach : Breach) (t : Tree) : AtNode t (violation breach t) :=
  ⟨t, t.mem_preorder_self, breach, rfl⟩

theorem atNode_child {c : Tree} (hc : c ∈ t.children) (breach : Breach) :
    AtNode t (violation breach c) :=
  ⟨c, mem_preorder_child hc, breach, rfl⟩

theorem AtNode.below {c : Tree} (hc : c ∈ t.preorder) (h : AtNode c v) : AtNode t v := by
  obtain ⟨u, hu, breach, rfl⟩ := h
  exact ⟨u, mem_preorder_trans hu hc, breach, rfl⟩

theorem checkHaving_at (h : v ∈ checkHaving source mode t) : AtNode t v := by
  unfold checkHaving at h
  split at h
  · simp at h
  · next having hhaving =>
    dsimp only at h
    split at h
    · simp at h
    · rw [List.mem_singleton.1 h]
      exact atNode_child (List.mem_of_find?_eq_some hhaving) _

theorem checkJoin_at (h : v ∈ checkJoin mode t) : AtNode t v := by
  unfold checkJoin at h
  dsimp only at h
  split at h
  · simp at h
  · rw [List.mem_singleton.1 h]
    exact atNode_self _ t

theorem checkCompound_at (h : v ∈ checkCompound source t) : AtNode t v := by
  unfold checkCompound at h
  split at h
  · split at h
    · split at h
      · simp at h
      · rw [List.mem_singleton.1 h]
        exact atNode_self _ t
    · simp at h
  · simp at h

theorem checkRows_at (h : v ∈ checkRows t) : AtNode t v := by
  unfold checkRows at h
  split at h
  · simp at h
  · next first rows hrows =>
    obtain ⟨row, hrow, rfl⟩ := List.mem_map.1 h
    refine atNode_child ?_ _
    rw [hrows]
    exact List.mem_cons_of_mem _ (List.mem_filter.1 hrow).1

theorem checkInsert_at (h : v ∈ checkInsert t) : AtNode t v := by
  unfold checkInsert at h
  split at h
  · simp at h
  · dsimp only at h
    obtain ⟨c, hc, h⟩ := List.mem_flatMap.1 h
    refine AtNode.below (mem_preorder_child hc) ?_
    split at h
    · split at h
      · next row hrow =>
        split at h
        · simp at h
        · rw [List.mem_singleton.1 h]
          exact atNode_child (List.mem_of_head? hrow) _
      · simp at h
    · split at h
      · split at h
        · split at h
          · simp at h
          · rw [List.mem_singleton.1 h]
            exact atNode_self _ c
        · simp at h
      · simp at h

mutual
theorem outerAggregates_subset : ∀ t : Tree, outerAggregates source t ⊆ t.preorder
  | .node n cs => by
    rw [outerAggregates]
    split
    · exact List.nil_subset _
    · split
      · exact List.cons_subset.2 ⟨mem_preorder_self _, List.nil_subset _⟩
      · intro u hu
        rw [preorder_node]
        exact List.mem_cons_of_mem _ (outerAggregatesOf_subset cs hu)

theorem outerAggregatesOf_subset : ∀ ts : List Tree,
    outerAggregatesOf source ts ⊆ ts.flatMap preorder
  | [] => List.nil_subset _
  | t :: ts => by
    intro u hu
    rw [outerAggregatesOf] at hu
    rw [List.flatMap_cons]
    rcases List.mem_append.1 hu with hu | hu
    · exact List.mem_append_right _ (outerAggregatesOf_subset ts hu)
    · exact List.mem_append_left _ (outerAggregates_subset t hu)
end

theorem checkNoAggregates_at (h : v ∈ checkNoAggregates source t) : AtNode t v := by
  obtain ⟨u, hu, rfl⟩ := List.mem_map.1 h
  obtain ⟨c, hc, hu⟩ := List.mem_flatMap.1 (outerAggregatesOf_subset t.children hu)
  exact ⟨u, mem_preorder_of_children hc hu, _, rfl⟩

theorem fst_mem_of_withRepeats {p : Tree × Bool} : ∀ {seen : List String} {ts : List Tree},
    p ∈ withRepeats source seen ts → p.1 ∈ ts
  | _, [], h => absurd h List.not_mem_nil
  | _, t :: ts, h => by
    rcases List.mem_cons.1 h with rfl | h
    · exact List.mem_cons_self
    · exact List.mem_cons_of_mem t (fst_mem_of_withRepeats h)

theorem checkRecursion_at (h : v ∈ checkRecursion source t) : AtNode t v := by
  unfold checkRecursion at h
  split at h
  · simp at h
  · split at h
    · rw [List.mem_singleton.1 h]
      exact atNode_self _ t
    · simp at h

theorem checkWith_at (h : v ∈ checkWith source t) : AtNode t v := by
  obtain ⟨⟨table, repeated⟩, hmem, h⟩ := List.mem_flatMap.1 h
  refine AtNode.below (mem_preorder_child (fst_mem_of_withRepeats hmem)) ?_
  rcases List.mem_append.1 h with h | h
  · split at h
    · rw [List.mem_singleton.1 h]
      exact atNode_self _ table
    · simp at h
  · split at h
    · exact checkRecursion_at h
    · simp at h

theorem checkColumns_at (h : v ∈ checkColumns source t) : AtNode t v := by
  obtain ⟨⟨column, repeated⟩, hmem, h⟩ := List.mem_filterMap.1 h
  dsimp only at h
  split at h
  · rw [← Option.some.inj h]
    exact atNode_child (List.mem_filter.1 (fst_mem_of_withRepeats hmem)).1 _
  · simp at h

theorem check_at (h : v ∈ check source mode t) : AtNode t v := by
  unfold check at h
  split at h
  · exact checkHaving_at h
  · exact checkCompound_at h
  · exact checkRows_at h
  · exact checkRows_at h
  · exact checkInsert_at h
  · exact checkNoAggregates_at h
  · exact checkNoAggregates_at h
  · exact checkWith_at h
  · exact checkColumns_at h
  · split at h
    · exact checkJoin_at h
    · simp at h

end Validation

/-- Every violation is reported at a node of the statement. -/
theorem atNode_of_mem_validateAll {source : Source} {mode : Mode} {t : Tree} {v : Violation}
    (h : v ∈ validateAll source mode t) : Validation.AtNode t v := by
  obtain ⟨u, hu, h⟩ := List.mem_flatMap.1 h
  exact (Validation.check_at h).below hu

end SqlSyntax
