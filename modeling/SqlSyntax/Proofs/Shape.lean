import SqlSyntax.Proofs.Arity.Statement
import SqlSyntax.Proofs.Numbering

/-!
# Shapes

The shape of a tree is the list of its kinds in preorder. Together with the numbers of children it
tells how the nodes stand under one another (`Tree.skeleton_eq_iff`). Most kinds tell their number
of children themselves, also the ones of expressions, so trees of one shape are built alike if those
nodes agree that may have any number (`Session.skeleton_eq_iff_of_shape_eq`).
-/

namespace SqlSyntax

open SqlSyntax.Parser SqlSyntax.Tree

/-- A tree of which only the kinds of the nodes are kept. -/
inductive Skeleton where
  | node (kind : Kind) (children : List Skeleton)

namespace Tree

mutual
/-- How nodes of which kinds stand under one another in a tree. -/
def skeleton : Tree → Skeleton
  | .node n cs => .node n.kind (skeletons cs)

def skeletons : List Tree → List Skeleton
  | [] => []
  | t :: ts => skeleton t :: skeletons ts
end

/-- The numbers of children of the nodes in preorder. -/
def childCounts (t : Tree) : List Nat := t.preorder.map (·.children.length)

/-- The nodes in preorder, each by its kind and its number of children. -/
def ranks (t : Tree) : List (Kind × Nat) := t.preorder.map fun u => (u.kind, u.children.length)

variable {t u : Tree}

theorem map_fst_ranks (t : Tree) : t.ranks.map (·.1) = t.shape := by
  rw [ranks, List.map_map]
  rfl

theorem map_snd_ranks (t : Tree) : t.ranks.map (·.2) = t.childCounts := by
  rw [ranks, List.map_map]
  rfl

theorem ranks_node (n : Node) (cs : List Tree) :
    ranks (.node n cs) = (n.kind, cs.length) :: cs.flatMap ranks := by
  rw [ranks, preorder_node, List.map_cons, List.map_flatMap]
  rfl

theorem ranks_eq_iff : t.ranks = u.ranks ↔ t.shape = u.shape ∧ t.childCounts = u.childCounts := by
  rw [← map_fst_ranks, ← map_fst_ranks, ← map_snd_ranks, ← map_snd_ranks]
  constructor
  · intro h
    rw [h]
    exact ⟨rfl, rfl⟩
  · rintro ⟨hkinds, hcounts⟩
    exact (List.zip_of_prod hkinds hcounts).trans (List.zip_of_prod rfl rfl).symm

/- A tree is read off the front of a list of ranks in one way only: a rank tells how many trees come
after it that stand below. -/
mutual
theorem skeleton_eq_of_ranks_append : ∀ (t u : Tree) {rest rest' : List (Kind × Nat)},
    t.ranks ++ rest = u.ranks ++ rest' → t.skeleton = u.skeleton ∧ rest = rest'
  | .node n cs, .node m ds, rest, rest', h => by
    rw [ranks_node, ranks_node, List.cons_append, List.cons_append] at h
    obtain ⟨hroot, hbelow⟩ := List.cons.inj h
    obtain ⟨hkind, hlength⟩ := Prod.mk.inj hroot
    obtain ⟨hchildren, hrest⟩ := skeletons_eq_of_ranks_append cs ds hlength hbelow
    rw [skeleton, skeleton, hkind, hchildren]
    exact ⟨rfl, hrest⟩

theorem skeletons_eq_of_ranks_append : ∀ (ts us : List Tree) {rest rest' : List (Kind × Nat)},
    ts.length = us.length → ts.flatMap ranks ++ rest = us.flatMap ranks ++ rest' →
      skeletons ts = skeletons us ∧ rest = rest'
  | [], [], _, _, _, h => ⟨rfl, h⟩
  | t :: ts, u :: us, rest, rest', hlength, h => by
    rw [List.flatMap_cons, List.flatMap_cons, List.append_assoc, List.append_assoc] at h
    obtain ⟨hfirst, hothers⟩ := skeleton_eq_of_ranks_append t u h
    obtain ⟨hskeletons, hrest⟩ :=
      skeletons_eq_of_ranks_append ts us (Nat.succ.inj hlength) hothers
    rw [skeletons, skeletons, hfirst, hskeletons]
    exact ⟨rfl, hrest⟩
end

mutual
theorem ranks_eq_of_skeleton_eq : ∀ t u : Tree, t.skeleton = u.skeleton → t.ranks = u.ranks
  | .node n cs, .node m ds, h => by
    obtain ⟨hkind, hchildren⟩ := Skeleton.node.inj h
    obtain ⟨hlength, hranks⟩ := ranks_eq_of_skeletons_eq cs ds hchildren
    rw [ranks_node, ranks_node, hkind, hlength, hranks]

theorem ranks_eq_of_skeletons_eq : ∀ ts us : List Tree, skeletons ts = skeletons us →
    ts.length = us.length ∧ ts.flatMap ranks = us.flatMap ranks
  | [], [], _ => ⟨rfl, rfl⟩
  | t :: ts, u :: us, h => by
    obtain ⟨hfirst, hothers⟩ := List.cons.inj h
    obtain ⟨hlength, hranks⟩ := ranks_eq_of_skeletons_eq ts us hothers
    rw [List.flatMap_cons, List.flatMap_cons, ranks_eq_of_skeleton_eq t u hfirst, hranks]
    exact ⟨congrArg (· + 1) hlength, rfl⟩
end

theorem skeleton_eq_iff :
    t.skeleton = u.skeleton ↔ t.shape = u.shape ∧ t.childCounts = u.childCounts := by
  rw [← ranks_eq_iff]
  refine ⟨ranks_eq_of_skeleton_eq t u, fun h => ?_⟩
  exact (skeleton_eq_of_ranks_append t u (congrArg (· ++ []) h)).1

/-- Where the kind tells the number of children, this is the number. -/
theorem childCounts_of_counted (ht : t.Everywhere Counted) {i n : Nat} {kind : Kind}
    (hkind : t.shape[i]? = some kind) (hn : kind.arity? = some n) : t.childCounts[i]? = some n := by
  rw [shape, List.getElem?_map, Option.map_eq_some_iff] at hkind
  obtain ⟨v, hv, rfl⟩ := hkind
  rw [childCounts, List.getElem?_map, hv, Option.map_some]
  exact congrArg some (ht v (List.mem_of_getElem? hv) n hn)

/-- Trees of one shape have the same numbers of children if they have so at the nodes whose kinds do
not tell. -/
theorem childCounts_eq_iff (ht : t.Everywhere Counted) (hu : u.Everywhere Counted)
    (hshape : t.shape = u.shape) : t.childCounts = u.childCounts ↔
      ∀ (i : Nat) (kind : Kind), t.shape[i]? = some kind → kind.arity? = none →
        t.childCounts[i]? = u.childCounts[i]? := by
  refine ⟨fun h i _ _ _ => by rw [h], fun h => List.ext_getElem? fun i => ?_⟩
  rcases hkind : t.shape[i]? with _ | kind
  · -- there is no such node in either tree
    have hlength : t.childCounts.length = t.shape.length := by simp [childCounts, shape]
    have hlength' : u.childCounts.length = u.shape.length := by simp [childCounts, shape]
    have hi := List.getElem?_eq_none_iff.1 hkind
    rw [List.getElem?_eq_none (hlength ▸ hi), List.getElem?_eq_none (hlength' ▸ hshape ▸ hi)]
  · rcases harity : kind.arity? with _ | n
    · exact h i kind hkind harity
    · rw [childCounts_of_counted ht hkind harity,
        childCounts_of_counted hu (hshape ▸ hkind) harity]

end Tree

theorem Nested.statement_counted (n : Nat) :
    Answers (upTo n).statement fun t => t.Everywhere Counted := by
  have := upTo_counts n
  have hplants : Plants ([] : Facts Phase) (upTo n).statement .whole := inferInstance
  exact (hplants.answers nofun).weaken fun _ h => (List.forall_mem_singleton.1 h).counted

theorem Session.Builds.counted {s : Session} {source : Source} {t : Tree}
    (h : s.Builds source t) : t.Everywhere Counted :=
  h.of_statement Nested.statement_counted

namespace Session

/-- Trees of one shape that calls answer with have the numbers of children that their kinds tell,
where these tell a number. They are built alike if and only if all other nodes have the same numbers
of children too. -/
theorem skeleton_eq_iff_of_shape_eq {s s' : Session} {source source' : Source} {t u : Tree}
    (ht : (s.parse source).1 = .ok t) (hu : (s'.parse source').1 = .ok u)
    (hshape : t.shape = u.shape) :
    (∀ (i n : Nat) (kind : Kind), t.shape[i]? = some kind → kind.arity? = some n →
      t.childCounts[i]? = some n ∧ u.childCounts[i]? = some n) ∧
    (t.childCounts = u.childCounts ↔ ∀ (i : Nat) (kind : Kind), t.shape[i]? = some kind →
      kind.arity? = none → t.childCounts[i]? = u.childCounts[i]?) ∧
    (t.skeleton = u.skeleton ↔ t.childCounts = u.childCounts) := by
  have hcounted := (Builds.of_parse ht).counted
  have hcounted' := (Builds.of_parse hu).counted
  refine ⟨fun i n kind hkind hn => ?_, childCounts_eq_iff hcounted hcounted' hshape, ?_⟩
  · exact ⟨childCounts_of_counted hcounted hkind hn,
      childCounts_of_counted hcounted' (hshape ▸ hkind) hn⟩
  · rw [skeleton_eq_iff]
    exact and_iff_right hshape

/-- Other names, another operator and another number under the same kinds. -/
theorem skeleton_eq_iff_of_shape_eq_calls :
    ∃ t u : Tree, (({} : Session).parse "SELECT f(a + 1), b".toList).1 = .ok t ∧
      (({} : Session).parse "SELECT g(c * 2), d".toList).1 = .ok u ∧ t.shape = u.shape ∧
      t.skeleton = u.skeleton := by
  have hshapes : (({} : Session).parse "SELECT f(a + 1), b".toList).1.toOption.map
        (fun t => (t.shape, t.childCounts)) =
      (({} : Session).parse "SELECT g(c * 2), d".toList).1.toOption.map
        (fun u => (u.shape, u.childCounts)) := by
    decide +kernel
  have hok : (({} : Session).parse "SELECT f(a + 1), b".toList).1.isOk := by decide +kernel
  rcases ht : (({} : Session).parse "SELECT f(a + 1), b".toList).1 with _ | t
  · rw [ht] at hok
    cases hok
  rcases hu : (({} : Session).parse "SELECT g(c * 2), d".toList).1 with _ | u
  · rw [ht, hu] at hshapes
    cases hshapes
  rw [ht, hu] at hshapes
  obtain ⟨hshape, hcounts⟩ := Prod.mk.inj (Option.some.inj hshapes)
  exact ⟨t, u, rfl, rfl, hshape, (skeleton_eq_iff_of_shape_eq ht hu hshape).2.2.2 hcounts⟩

/-- The second column may stand beside a call or be one of its arguments. -/
theorem equal_shapes_of_other_trees :
    (({} : Session).parse "SELECT f(a), b".toList).1.toOption.map
        (fun t => (t.shape, t.childCounts)) =
      some ([.selectStmt, .selectList, .functionCall, .columnRef, .columnRef], [1, 2, 1, 0, 0]) ∧
    (({} : Session).parse "SELECT f(a, b)".toList).1.toOption.map
        (fun t => (t.shape, t.childCounts)) =
      some ([.selectStmt, .selectList, .functionCall, .columnRef, .columnRef],
        [1, 1, 2, 0, 0]) := by
  decide +kernel

end Session

end SqlSyntax
