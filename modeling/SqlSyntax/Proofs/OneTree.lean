import SqlSyntax.Proofs.Session
import SqlSyntax.Proofs.Walks

/-!
# The nodes of a call

What a call answers with are trees that its session stores, one beside the other. After a
successful parse the stored nodes are one tree; after a successful parse of a script they are
the trees of its statements; and a parse that goes on after errors reports trees that have no node
in common.
-/

namespace SqlSyntax

namespace Progress

/-- The handles of all nodes that the run made. -/
def handles (p : Progress) : List SlotHandle := (List.range p.nodes).map p.forest.handle

/-- Where the root of a tree of the run is stored. -/
def root (p : Progress) (t : Tree) : SlotHandle := t.handle p.forest.generation

/-- The tree is stored with all its links, and reading the forest gives it back. -/
structure HasTree (p : Progress) (t : Tree) : Prop where
  isTree : p.forest.IsTree (p.root t) (p.forest.walk (p.root t))
  read : p.forest.tree? (p.root t) = some t

variable {source : Source} {p : Progress} {ts : List Tree} {t : Tree}

theorem Sound.walk_eq (h : p.Sound source ts) (ht : t ∈ ts) :
    p.forest.walk (p.root t) = t.preorder.map (Tree.handle p.forest.generation) :=
  h.owns.walk_eq ht

theorem Sound.hasTree (h : p.Sound source ts) (ht : t ∈ ts) : p.HasTree t := by
  refine ⟨?_, h.owns.tree?_eq ht⟩
  rw [h.walk_eq ht]
  exact h.owns.isTree ht

theorem Sound.size_eq (h : p.Sound source ts) : p.forest.entries.size = p.nodes :=
  h.owns.size_eq.trans h.nodes.symm

/-- The walks through the trees of a run visit every node that it made exactly once. -/
theorem Sound.walks_perm (h : p.Sound source ts) :
    (ts.flatMap fun t => p.forest.walk (p.root t)).Perm p.handles := by
  have hids := h.owns.ids_perm
  rw [h.size_eq] at hids
  have hwalks : ts.flatMap (fun t => p.forest.walk (p.root t)) =
      (ts.flatMap Tree.ids).map p.forest.handle := by
    rw [List.map_flatMap]
    refine List.flatMap_congr fun t ht => ?_
    rw [h.walk_eq ht, Tree.ids, List.map_map]
    rfl
  rw [hwalks]
  exact hids.map _

theorem nodup_handles (p : Progress) : p.handles.Nodup :=
  List.nodup_range.map fun _ _ h => congrArg SlotHandle.slot h

end Progress

namespace Session

/-- Whatever a session did before, the nodes that a successful parse stores are exactly one tree:
the walk from the root that is answered ends and visits each of them once. The nodes of a script are
those of the trees of its statements, and statements reported beside errors share no node. -/
theorem calls_store_trees (s : Session) (source : Source) :
    (∀ t, (s.parse source).1 = .ok t →
      let p := (s.parse source).2.last
      p.HasTree t ∧ (p.forest.walk (p.root t)).Perm p.handles ∧ p.forest.entries.size = p.nodes ∧
        t.size = p.nodes ∧ t.ids.Perm (List.range p.nodes)) ∧
    (∀ ts, (s.parseScript source).1 = .ok ts →
      let p := (s.parseScript source).2.last
      (∀ t ∈ ts, p.HasTree t) ∧ (ts.flatMap fun t => p.forest.walk (p.root t)).Perm p.handles ∧
        p.forest.entries.size = p.nodes) ∧
    (∀ r, (s.parseAll source).1 = .ok r →
      let p := (s.parseAll source).2.last
      (∀ t ∈ r.statements, p.HasTree t) ∧
        (r.statements.map fun t => p.forest.walk (p.root t)).Pairwise List.Disjoint ∧
        (∀ t ∈ r.statements, p.forest.walk (p.root t) ⊆ p.handles)) := by
  refine ⟨fun t ht => ?_, fun ts hts => ?_, fun r hr => ?_⟩
  · have hsound := parse_sound ht
    have hids := hsound.owns.ids_perm
    rw [hsound.size_eq] at hids
    refine ⟨hsound.hasTree List.mem_cons_self, ?_, hsound.size_eq, ?_, ?_⟩
    · simpa using hsound.walks_perm
    · simpa using hsound.nodes.symm
    · simpa using hids
  · have hsound := parseScript_sound hts
    exact ⟨fun t ht => hsound.hasTree ht, hsound.walks_perm, hsound.size_eq⟩
  · obtain ⟨roots, left, hsub, hsound⟩ := parseAll_sound hr
    have hmem : ∀ t ∈ r.statements, t ∈ roots ++ left := fun t ht =>
      List.mem_append_left left (hsub.subset ht)
    refine ⟨fun t ht => hsound.hasTree (hmem t ht), ?_, fun t ht h hh => ?_⟩
    · have hnodup := hsound.walks_perm.nodup_iff.2 (Progress.nodup_handles _)
      have hpairwise := (List.nodup_flatMap.1 hnodup).2
      exact (hpairwise.sublist (hsub.trans (List.sublist_append_left roots left))).map _
        fun _ _ h => h
    · exact hsound.walks_perm.subset (List.mem_flatMap.2 ⟨t, hmem t ht, hh⟩)

/-- A statement, a script, and a script with an error in it are stored as trees. -/
theorem calls_store_trees_select :
    (∃ t, (({} : Session).parse "SELECT a + 1 FROM t".toList).1 = .ok t ∧
      (({} : Session).parse "SELECT a + 1 FROM t".toList).2.last.HasTree t) ∧
    (∃ ts, (({} : Session).parseScript "SELECT 1; COMMIT".toList).1 = .ok ts ∧
      ∀ t ∈ ts, (({} : Session).parseScript "SELECT 1; COMMIT".toList).2.last.HasTree t) ∧
    ∃ r, (({} : Session).parseAll "SELECT 1; SELECT (; COMMIT".toList).1 = .ok r ∧
      r.statements.length = 2 ∧ r.errors.length = 1 ∧
      ∀ t ∈ r.statements,
        (({} : Session).parseAll "SELECT 1; SELECT (; COMMIT".toList).2.last.HasTree t := by
  refine ⟨?_, ?_, ?_⟩
  · obtain ⟨h, -, -⟩ := calls_store_trees {} "SELECT a + 1 FROM t".toList
    have hok : (({} : Session).parse "SELECT a + 1 FROM t".toList).1.isOk := by decide +kernel
    rcases ht : (({} : Session).parse "SELECT a + 1 FROM t".toList).1 with f | t
    · rw [ht] at hok
      exact absurd hok nofun
    · exact ⟨t, rfl, (h t ht).1⟩
  · obtain ⟨-, h, -⟩ := calls_store_trees {} "SELECT 1; COMMIT".toList
    have hok : (({} : Session).parseScript "SELECT 1; COMMIT".toList).1.isOk := by decide +kernel
    rcases hts : (({} : Session).parseScript "SELECT 1; COMMIT".toList).1 with f | ts
    · rw [hts] at hok
      exact absurd hok nofun
    · exact ⟨ts, rfl, (h ts hts).1⟩
  · obtain ⟨-, -, h⟩ := calls_store_trees {} "SELECT 1; SELECT (; COMMIT".toList
    have hok : (({} : Session).parseAll "SELECT 1; SELECT (; COMMIT".toList).1.toOption.map
        (fun r => (r.statements.length, r.errors.length)) = some (2, 1) := by decide +kernel
    rcases hr : (({} : Session).parseAll "SELECT 1; SELECT (; COMMIT".toList).1 with f | r
    · rw [hr] at hok
      exact absurd hok nofun
    · rw [hr] at hok
      have hlengths := Option.some.inj hok
      exact ⟨r, rfl, congrArg Prod.fst hlengths, congrArg Prod.snd hlengths, (h r hr).1⟩

end Session

end SqlSyntax
