import Mathlib.Data.List.Induction
import SqlSyntax.Proofs.Numbering

/-!
# Ways down a tree

A way leads from a node to one below it, and the nodes between the two are told from top to bottom.
Where nodes have different numbers a node has one way up, so of two nodes above it one is on the way
from the other (`Tree.Way.eq_or_mem`).
-/

namespace SqlSyntax.Tree

variable {t u w c d : Tree} {between between' : List Tree} {stops : Tree → Prop}

/-- From a node these nodes lead down to one below it. -/
inductive Way : Tree → List Tree → Tree → Prop
  | child {t u : Tree} (hu : u ∈ t.children) : Way t [] u
  | down {t c u : Tree} {between : List Tree} (hc : c ∈ t.children) (way : Way c between u) :
    Way t (c :: between) u

namespace Way

theorem mem_preorder (h : t.Way between u) : u ∈ t.preorder := by
  induction h with
  | child hu => exact mem_preorder_child hu
  | down hc _ ih => exact mem_preorder_of_children hc ih

/-- The last step of a way. -/
theorem last_step (h : t.Way between u) :
    (between = [] ∧ u ∈ t.children) ∨
      ∃ above parent, between = above ++ [parent] ∧ t.Way above parent ∧ u ∈ parent.children := by
  induction h with
  | child hu => exact .inl ⟨rfl, hu⟩
  | @down t c u between hc way ih =>
    rcases ih with ⟨rfl, hu⟩ | ⟨above, parent, rfl, habove, hu⟩
    · exact .inr ⟨[], c, rfl, .child hc, hu⟩
    · exact .inr ⟨c :: above, parent, rfl, .down hc habove, hu⟩

/-- A node on a way is on the way to it and from it. -/
theorem upTo (h : t.Way between u) (hw : w ∈ between) :
    ∃ above below, between = above ++ w :: below ∧ t.Way above w := by
  induction h with
  | child => cases hw
  | @down t c u between hc way ih =>
    rcases List.mem_cons.1 hw with rfl | hw
    · exact ⟨[], between, rfl, .child hc⟩
    · obtain ⟨above, below, rfl, habove⟩ := ih hw
      exact ⟨c :: above, below, rfl, .down hc habove⟩

/-- Of two nodes with ways to the same node one is on the way from the other. -/
theorem eq_or_mem (ht : t.ids.Nodup) (hc : c ∈ t.preorder) (hd : d ∈ t.preorder)
    (h : c.Way between u) (h' : d.Way between' u) : c = d ∨ d ∈ between ∨ c ∈ between' := by
  induction between using List.reverseRecOn generalizing u between' with
  | nil =>
    obtain ⟨-, hu⟩ | ⟨above, parent, hnil, -⟩ := h.last_step
    · rcases h'.last_step with ⟨-, hu'⟩ | ⟨above, parent, rfl, habove, hu'⟩
      · exact .inl (eq_of_child_id ht hc hd hu hu' rfl)
      · have hparent := mem_preorder_trans habove.mem_preorder hd
        obtain rfl := eq_of_child_id ht hc hparent hu hu' rfl
        exact .inr (.inr List.mem_concat_self)
    · exact absurd hnil (by simp)
  | append_singleton between parent ih =>
    obtain ⟨hnil, -⟩ | ⟨above, p, heq, habove, hu⟩ := h.last_step
    · exact absurd hnil (by simp)
    obtain ⟨rfl, rfl⟩ : between = above ∧ parent = p := by simpa using heq
    have hparent := mem_preorder_trans habove.mem_preorder hc
    rcases h'.last_step with ⟨-, hu'⟩ | ⟨above', parent', rfl, habove', hu'⟩
    · obtain rfl := eq_of_child_id ht hparent hd hu hu' rfl
      exact .inr (.inl List.mem_concat_self)
    · have hparent' := mem_preorder_trans habove'.mem_preorder hd
      obtain rfl := eq_of_child_id ht hparent hparent' hu hu' rfl
      rcases ih habove habove' with heq | hmem | hmem
      · exact .inl heq
      · exact .inr (.inl (List.mem_append_left _ hmem))
      · exact .inr (.inr (List.mem_append_left _ hmem))

end Way

/-! ## Ways that nothing stops -/

/-- A node is found from another one on a way on which no node between the two stops. -/
def Finds (stops : Tree → Prop) (t u : Tree) : Prop :=
  ∃ between, t.Way between u ∧ ∀ w ∈ between, ¬ stops w

/-- What is found stands under the node, or is found from a child that does not stop. -/
theorem finds_iff :
    Finds stops t u ↔ ∃ c ∈ t.children, u = c ∨ ¬ stops c ∧ Finds stops c u := by
  constructor
  · rintro ⟨between, way, hfree⟩
    cases way with
    | child hu => exact ⟨u, hu, .inl rfl⟩
    | down hc way =>
      obtain ⟨hstop, hfree⟩ := List.forall_mem_cons.1 hfree
      exact ⟨_, hc, .inr ⟨hstop, _, way, hfree⟩⟩
  · rintro ⟨c, hc, rfl | ⟨hstop, between, way, hfree⟩⟩
    · exact ⟨[], .child hc, nofun⟩
    · exact ⟨c :: between, .down hc way, List.forall_mem_cons.2 ⟨hstop, hfree⟩⟩

end SqlSyntax.Tree
