import Mathlib.Algebra.GroupWithZero.Nat
import Mathlib.Data.List.Forall2
import SqlSyntax.Proofs.Links

/-!
# Trees that grow

How many nodes a tree has, and what holds at each of them, when its root is changed or gets one
more child.
-/

namespace SqlSyntax

/-! ## Marks -/

theorem Flag.inOrder_index (f : Flag) : inOrder[f.index]? = some f := by
  cases f <;> rfl

theorem Flags.has_insert_of_ne {s : Flags} {f g : Flag} (h : f ≠ g) :
    (s.insert f).has g = s.has g := by
  have hindex : f.index ≠ g.index := fun heq => by
    have hf := f.inOrder_index
    rw [heq, g.inOrder_index] at hf
    exact h (Option.some.inj hf).symm
  rw [has, insert, only, BitVec.getLsbD_or, BitVec.getLsbD_twoPow, decide_eq_false hindex,
    Bool.and_false, Bool.or_false, has]

namespace Tree

variable {P : Tree → Prop} {t child : Tree}

@[simp]
theorem kind_append (t : Tree) (more : List Tree) : (t.append more).kind = t.kind := rfl

@[simp]
theorem kind_prepend (t child : Tree) : (t.prepend child).kind = t.kind := rfl

/-! ## Numbers of nodes -/

theorem size_node (n : Node) (cs : List Tree) :
    size (.node n cs) = (cs.map size).sum + 1 := by
  have hsize : size = fun t => (preorder t).length := rfl
  rw [size, preorder_node, List.length_cons, List.length_flatMap, hsize]

theorem size_leaf (n : Node) : size (leaf n) = 1 := size_node n []

theorem size_mapHead (f : Node → Node) (t : Tree) : (t.mapHead f).size = t.size := by
  cases t
  rw [mapHead, size_node, size_node]

theorem size_append (t child : Tree) : (t.append [child]).size = t.size + child.size := by
  cases t
  rw [append, size_node, size_node, children, List.map_append, List.sum_append]
  simp only [List.map_cons, List.map_nil, List.sum_cons, List.sum_nil]
  omega

theorem size_prepend (t child : Tree) : (t.prepend child).size = t.size + child.size := by
  cases t
  rw [prepend, size_node, size_node, children, List.map_cons, List.sum_cons]
  omega

theorem size_le_sum {ts : List Tree} (ht : t ∈ ts) : t.size ≤ (ts.map size).sum := by
  obtain ⟨before, after, rfl⟩ := List.append_of_mem ht
  rw [List.map_append, List.sum_append, List.map_cons, List.sum_cons]
  omega

theorem length_le_sum_size : ∀ ts : List Tree, ts.length ≤ (ts.map size).sum
  | [] => Nat.le_refl _
  | .node n cs :: ts => by
    have ih := length_le_sum_size ts
    rw [List.map_cons, List.sum_cons, size_node, List.length_cons]
    omega

theorem length_entries (g : UInt32) (t : Tree) : (t.entries g).length = t.size := by
  have h : ((t.entries g).map (·.node.id)).length = t.ids.length :=
    congrArg List.length (map_id_entriesUnder t)
  rw [size_eq_length_ids, ← h, List.length_map]

theorem length_flatMap_entries (g : UInt32) (ts : List Tree) :
    (ts.flatMap (entries g)).length = (ts.map size).sum := by
  rw [List.length_flatMap]
  simp only [length_entries]

/-! ## All nodes -/

/-- Every subtree has a property. -/
def Everywhere (P : Tree → Prop) (t : Tree) : Prop := ∀ u ∈ t.preorder, P u

theorem everywhere_node {n : Node} {cs : List Tree} :
    Everywhere P (.node n cs) ↔ P (.node n cs) ∧ ∀ c ∈ cs, Everywhere P c := by
  simp only [Everywhere, preorder_node, List.forall_mem_cons, List.forall_mem_flatMap]

theorem Everywhere.root (h : Everywhere P t) : P t := by
  cases t
  exact (everywhere_node.1 h).1

theorem Everywhere.leaf {n : Node} (h : P (leaf n)) : Everywhere P (leaf n) :=
  everywhere_node.2 ⟨h, nofun⟩

theorem Everywhere.mapHead {f : Node → Node} (h : Everywhere P t) (hroot : P (t.mapHead f)) :
    Everywhere P (t.mapHead f) := by
  cases t
  exact everywhere_node.2 ⟨hroot, (everywhere_node.1 h).2⟩

theorem Everywhere.append (h : Everywhere P t) (hc : Everywhere P child)
    (hroot : P (t.append [child])) : Everywhere P (t.append [child]) := by
  cases t
  refine everywhere_node.2 ⟨hroot, fun c hmem => ?_⟩
  rcases List.mem_append.1 hmem with hmem | hmem
  · exact (everywhere_node.1 h).2 c hmem
  · rwa [List.mem_singleton.1 hmem]

theorem Everywhere.prepend (h : Everywhere P t) (hc : Everywhere P child)
    (hroot : P (t.prepend child)) : Everywhere P (t.prepend child) := by
  cases t
  exact everywhere_node.2 ⟨hroot, List.forall_mem_cons.2 ⟨hc, (everywhere_node.1 h).2⟩⟩

/-- What holds of the root and of all children holds of every subtree. -/
theorem Everywhere.of_children : ∀ {t : Tree}, t.Everywhere (fun u => ∀ c ∈ u.children, P c) →
    P t → t.Everywhere P
  | .node _ _, h, ht => everywhere_node.2 ⟨ht, fun c hc =>
      of_children ((everywhere_node.1 h).2 c hc) ((everywhere_node.1 h).1 c hc)⟩

theorem Everywhere.children (h : t.Everywhere P) : ∀ c ∈ t.children, c.Everywhere P := by
  cases t
  exact (everywhere_node.1 h).2

/-! ## Trees of one form -/

/-- Trees of one form whose nodes at the same places are related. -/
inductive Related (rel : Node → Node → Prop) : Tree → Tree → Prop
  | node {n n' : Node} {cs cs' : List Tree} (head : rel n n')
    (children : List.Forall₂ (Related rel) cs cs') : Related rel (.node n cs) (.node n' cs')

namespace Related

variable {rel : Node → Node → Prop} {t t' c c' : Tree}

theorem leaf {n n' : Node} (h : rel n n') : Related rel (Tree.leaf n) (Tree.leaf n') :=
  .node h .nil

theorem root (h : Related rel t t') : rel t.head t'.head := by
  cases h with
  | node hn _ => exact hn

theorem mapHead {f f' : Node → Node} (h : Related rel t t') (hroot : rel (f t.head) (f' t'.head)) :
    Related rel (t.mapHead f) (t'.mapHead f') := by
  cases h with
  | node _ hcs => exact .node hroot hcs

theorem append (h : Related rel t t') (hc : Related rel c c') :
    Related rel (t.append [c]) (t'.append [c']) := by
  cases h with
  | node hn hcs => exact .node hn (List.rel_append hcs (.cons hc .nil))

theorem prepend (h : Related rel t t') (hc : Related rel c c') :
    Related rel (t.prepend c) (t'.prepend c') := by
  cases h with
  | node hn hcs => exact .node hn (.cons hc hcs)

end Related

end Tree

end SqlSyntax
