import SqlSyntax.Proofs.Ownership
import SqlSyntax.Proofs.Trees

/-!
# Walks through a forest

`Forest.Chain` follows next siblings and `Forest.Walks` goes through a tree in preorder, both as
relations: a derivation is a walk that comes to its end. A forest that owns a tree has such a walk
from its root, which meets each node of the tree once (`Forest.Owns.isTree`), and what
`Forest.children`, `Forest.walk` and `Forest.tree?` compute within their bounds is what these
relations say.
-/

namespace SqlSyntax

namespace Forest

/-- From a first handle, the next siblings lead through these handles and then end. -/
inductive Chain (f : Forest) : Option SlotHandle → List SlotHandle → Prop
  | stop : Chain f none []
  | next {h : SlotHandle} {e : Entry} {hs : List SlotHandle} (he : f.get? h = some e)
    (hnext : Chain f e.links.nextSibling hs) : Chain f (some h) (h :: hs)

/-- The preorder walk over some pending trees visits these handles and then ends. -/
inductive Walks (f : Forest) : List SlotHandle → List SlotHandle → Prop
  | done : Walks f [] []
  | visit {h : SlotHandle} {e : Entry} {cs pending hs : List SlotHandle} (he : f.get? h = some e)
    (hcs : Chain f e.links.firstChild cs) (hrest : Walks f (cs ++ pending) hs) :
    Walks f (h :: pending) (h :: hs)

/-- The nodes that a walk visits are linked as one tree. -/
structure IsTree (f : Forest) (root : SlotHandle) (visited : List SlotHandle) : Prop where
  parentless : ∃ e, f.get? root = some e ∧ e.links.parent = none
  walks : f.Walks [root] visited
  nodup : visited.Nodup
  /-- The children of a node: as many as it counts, all different, each with it as parent. -/
  linked : ∀ h ∈ visited, ∃ e cs, f.get? h = some e ∧ f.Chain e.links.firstChild cs ∧
    cs.length = e.links.childCount ∧ cs.Nodup ∧
      ∀ c ∈ cs, ∃ d, f.get? c = some d ∧ d.links.parent = some h

end Forest

/-! ## Entries of subtrees -/

namespace Tree

variable {g : UInt32} {parent next : Option SlotHandle} {t c u : Tree}

theorem entry_mem : t.entry g parent next ∈ t.entriesUnder g parent next := by
  rw [entriesUnder_eq]
  exact List.mem_cons_self

theorem siblingEntries_subset_of_mem (parent next : Option SlotHandle) : ∀ {cs : List Tree},
    c ∈ cs → ∃ next', c.entriesUnder g parent next' ⊆ siblingEntries g parent next cs
  | d :: cs, hc => by
    rw [siblingEntries]
    rcases List.mem_cons.1 hc with rfl | hc
    · exact ⟨_, List.subset_append_left _ _⟩
    · obtain ⟨next', h⟩ := siblingEntries_subset_of_mem parent next hc
      exact ⟨next', List.Subset.trans h (List.subset_append_right _ _)⟩

theorem exists_entriesUnder_child (hc : c ∈ t.children) (parent next : Option SlotHandle) :
    ∃ next', c.entriesUnder g (some (t.handle g)) next' ⊆ t.entriesUnder g parent next := by
  obtain ⟨next', h⟩ := siblingEntries_subset_of_mem (g := g) (some (t.handle g)) none hc
  rw [entriesUnder_eq t]
  exact ⟨next', List.Subset.trans h (List.subset_cons_self _ _)⟩

mutual
theorem exists_entriesUnder (g : UInt32) (parent next : Option SlotHandle) :
    ∀ {t : Tree}, u ∈ t.preorder →
      ∃ parent' next', (u.entriesUnder g parent' next').Sublist (t.entriesUnder g parent next)
  | .node n cs, hu => by
    rw [preorder_node] at hu
    rcases List.mem_cons.1 hu with rfl | hu
    · exact ⟨parent, next, List.Sublist.refl _⟩
    · obtain ⟨parent', next', h⟩ := exists_siblingEntries g (some ⟨0, n.id, g⟩) none hu
      rw [entriesUnder]
      exact ⟨parent', next', h.trans (List.sublist_cons_self _ _)⟩

theorem exists_siblingEntries (g : UInt32) (parent next : Option SlotHandle) :
    ∀ {ts : List Tree}, u ∈ ts.flatMap preorder →
      ∃ parent' next', (u.entriesUnder g parent' next').Sublist (siblingEntries g parent next ts)
  | [], hu => absurd hu List.not_mem_nil
  | t :: ts, hu => by
    rw [siblingEntries]
    rw [List.flatMap_cons, List.mem_append] at hu
    rcases hu with hu | hu
    · obtain ⟨parent', next', h⟩ :=
        exists_entriesUnder g parent ((ts.head?.map (handle g)).or next) hu
      exact ⟨parent', next', h.trans (List.sublist_append_left _ _)⟩
    · obtain ⟨parent', next', h⟩ := exists_siblingEntries g parent next hu
      exact ⟨parent', next', h.trans (List.sublist_append_right _ _)⟩
end

theorem nodup_handles (h : t.ids.Nodup) : (t.preorder.map (handle g)).Nodup := by
  refine List.Nodup.of_map SlotHandle.slot ?_
  rw [List.map_map]
  exact h

theorem ids_sublist (hu : u ∈ t.preorder) : u.ids.Sublist t.ids := by
  obtain ⟨parent, next, h⟩ := exists_entriesUnder 0 none none hu
  have h := h.map (·.node.id)
  rwa [map_id_entriesUnder, map_id_entriesUnder] at h

theorem nodup_children (h : t.ids.Nodup) : (t.children.map (handle g)).Nodup := by
  have hheads : (t.children.map (·.head.id)).Sublist (t.children.flatMap ids) := by
    generalize t.children = cs
    induction cs with
    | nil => exact .refl _
    | cons c cs ih =>
      rw [List.map_cons, List.flatMap_cons, ids_eq c, List.cons_append]
      exact (ih.trans (List.sublist_append_right _ _)).cons_cons _
  rw [ids_eq, List.nodup_cons] at h
  refine List.Nodup.of_map SlotHandle.slot ?_
  rw [List.map_map]
  exact hheads.nodup h.2

end Tree

/-! ## The links of owned trees -/

namespace Forest

variable {f : Forest} {es : List Entry} {ts : List Tree} {t : Tree}

theorem Stores.get?_handle (hf : f.Stores es) {parent next : Option SlotHandle}
    (hsub : t.entriesUnder f.generation parent next ⊆ es) :
    f.get? (t.handle f.generation) = some (t.entry f.generation parent next) :=
  hf.get? (hsub Tree.entry_mem)

theorem Stores.chain (hf : f.Stores es) (parent : Option SlotHandle) : ∀ cs : List Tree,
    Tree.siblingEntries f.generation parent none cs ⊆ es →
      f.Chain (cs.head?.map (Tree.handle f.generation)) (cs.map (Tree.handle f.generation))
  | [], _ => .stop
  | c :: cs, hsub => by
    rw [Tree.siblingEntries] at hsub
    refine .next (hf.get?_handle (List.Subset.trans (List.subset_append_left _ _) hsub)) ?_
    have hrest := hf.chain parent cs (List.Subset.trans (List.subset_append_right _ _) hsub)
    rwa [← Option.or_none (o := cs.head?.map _)] at hrest

theorem Stores.chain_children (hf : f.Stores es) {parent next : Option SlotHandle}
    (hsub : t.entriesUnder f.generation parent next ⊆ es) :
    f.Chain (t.entry f.generation parent next).links.firstChild
      (t.children.map (Tree.handle f.generation)) := by
  rw [Tree.entriesUnder_eq] at hsub
  exact hf.chain _ t.children (List.Subset.trans (List.subset_cons_self _ _) hsub)

mutual
theorem Stores.walks (hf : f.Stores es) (parent next : Option SlotHandle)
    {pending hs : List SlotHandle} (hw : f.Walks pending hs) : ∀ t : Tree,
      t.entriesUnder f.generation parent next ⊆ es →
        f.Walks (t.handle f.generation :: pending)
          (t.preorder.map (Tree.handle f.generation) ++ hs)
  | .node n cs, hsub => by
    rw [Tree.preorder_node]
    refine .visit (hf.get?_handle hsub) (hf.chain_children hsub) ?_
    rw [Tree.entriesUnder] at hsub
    exact hf.walksAll _ none hw cs (List.Subset.trans (List.subset_cons_self _ _) hsub)

theorem Stores.walksAll (hf : f.Stores es) (parent next : Option SlotHandle)
    {pending hs : List SlotHandle} (hw : f.Walks pending hs) : ∀ ts : List Tree,
      Tree.siblingEntries f.generation parent next ts ⊆ es →
        f.Walks (ts.map (Tree.handle f.generation) ++ pending)
          ((ts.flatMap Tree.preorder).map (Tree.handle f.generation) ++ hs)
  | [], _ => hw
  | t :: ts, hsub => by
    rw [Tree.siblingEntries] at hsub
    have hrest := hf.walksAll parent next hw ts
      (List.Subset.trans (List.subset_append_right _ _) hsub)
    have h := hf.walks parent _ hrest t (List.Subset.trans (List.subset_append_left _ _) hsub)
    rw [List.flatMap_cons, List.map_append, List.append_assoc]
    exact h
end

/-- A forest links the nodes of each tree that it owns as one tree. -/
theorem Owns.isTree (hf : f.Owns ts) (ht : t ∈ ts) :
    f.IsTree (t.handle f.generation) (t.preorder.map (Tree.handle f.generation)) := by
  have hsub : t.entriesUnder f.generation none none ⊆ ts.flatMap (Tree.entries f.generation) :=
    fun e he => List.mem_flatMap.2 ⟨t, ht, he⟩
  have hids : t.ids.Nodup := (List.nodup_flatMap.1 hf.nodup).1 t ht
  refine ⟨⟨_, Stores.get?_handle hf hsub, rfl⟩, ?_, Tree.nodup_handles hids, ?_⟩
  · have h := Stores.walks hf none none .done t hsub
    rwa [List.append_nil] at h
  · intro h hmem
    obtain ⟨u, hu, rfl⟩ := List.mem_map.1 hmem
    obtain ⟨parent, next, hsub'⟩ := Tree.exists_entriesUnder f.generation none none hu
    have hsub' := List.Subset.trans hsub'.subset hsub
    refine ⟨u.entry f.generation parent next, u.children.map (Tree.handle f.generation),
      Stores.get?_handle hf hsub', Stores.chain_children hf hsub', by simp [Tree.entry], ?_, ?_⟩
    · exact Tree.nodup_children ((Tree.ids_sublist hu).nodup hids)
    · intro h hmem
      obtain ⟨c, hc, rfl⟩ := List.mem_map.1 hmem
      obtain ⟨next', hsub''⟩ := Tree.exists_entriesUnder_child (g := f.generation) hc parent next
      exact ⟨_, Stores.get?_handle hf (List.Subset.trans hsub'' hsub'), rfl⟩

/-! ## What the bounded walks compute -/

theorem Chain.siblings_eq {o : Option SlotHandle} {hs : List SlotHandle} (h : f.Chain o hs) :
    ∀ n, hs.length ≤ n → f.siblings n o = hs := by
  induction h with
  | stop => intro n _; cases n <;> rfl
  | next he _ ih =>
    intro n hn
    obtain ⟨m, rfl⟩ : ∃ m, n = m + 1 := ⟨n - 1, by simp only [List.length_cons] at hn; omega⟩
    rw [List.length_cons] at hn
    rw [siblings, he, Option.bind_some, ih m (by omega)]

theorem Chain.children_eq {h : SlotHandle} {e : Entry} {cs : List SlotHandle}
    (hcs : f.Chain e.links.firstChild cs) (he : f.get? h = some e)
    (hlength : cs.length ≤ f.entries.size) : f.children h = cs := by
  rw [children, he, Option.bind_some]
  exact hcs.siblings_eq _ hlength

theorem Walks.length_le {pending hs : List SlotHandle} (h : f.Walks pending hs) :
    pending.length ≤ hs.length := by
  induction h with
  | done => exact Nat.le_refl _
  | visit _ _ _ ih =>
    rw [List.length_append] at ih
    simp only [List.length_cons]
    omega

theorem Walks.walkFrom_eq {pending hs : List SlotHandle} (h : f.Walks pending hs)
    (hsize : hs.length ≤ f.entries.size) : ∀ n, hs.length ≤ n → f.walkFrom n pending = hs := by
  induction h with
  | done => intro n _; cases n <;> rfl
  | visit he hcs hrest ih =>
    intro n hn
    rw [List.length_cons] at hsize hn
    obtain ⟨m, rfl⟩ : ∃ m, n = m + 1 := ⟨n - 1, by omega⟩
    have hlength := hrest.length_le
    rw [List.length_append] at hlength
    rw [walkFrom, hcs.children_eq he (by omega), ih (by omega) m (by omega)]

theorem Owns.size_eq (hf : f.Owns ts) : f.entries.size = (ts.map Tree.size).sum := by
  rw [← Tree.length_flatMap_entries f.generation]
  exact Stores.size_eq hf

theorem Owns.size_le (hf : f.Owns ts) (ht : t ∈ ts) : t.size ≤ f.entries.size := by
  rw [hf.size_eq]
  exact Tree.size_le_sum ht

/-- The walk through an owned tree visits its nodes in preorder. -/
theorem Owns.walk_eq (hf : f.Owns ts) (ht : t ∈ ts) :
    f.walk (t.handle f.generation) = t.preorder.map (Tree.handle f.generation) := by
  have hlength : (t.preorder.map (Tree.handle f.generation)).length = t.size := by
    rw [List.length_map, Tree.size]
  have hsize := hf.size_le ht
  exact (hf.isTree ht).walks.walkFrom_eq (by omega) _ (by omega)

theorem Stores.treesBelow_eq (hf : f.Stores es) : ∀ (n : Nat) (us : List Tree),
    n ≤ f.entries.size →
    (∀ u ∈ us, u.size ≤ n ∧ ∃ parent next, u.entriesUnder f.generation parent next ⊆ es) →
      f.treesBelow n (us.map (Tree.handle f.generation)) = us
  | 0, [], _, _ => rfl
  | 0, .node m cs :: us, _, h => by
    have hsize := (h _ List.mem_cons_self).1
    rw [Tree.size_node] at hsize
    omega
  | n + 1, us, hn, h => by
    have hall : ∀ u ∈ us, (f.get? (u.handle f.generation)).map (fun e => Tree.node e.node
        (f.treesBelow n (f.children (u.handle f.generation)))) = some u := by
      rintro ⟨m, cs⟩ hu
      obtain ⟨hsize, parent, next, hsub⟩ := h _ hu
      rw [Tree.size_node] at hsize
      have hget := hf.get?_handle hsub
      have hlength := Tree.length_le_sum_size cs
      have hchildren := (hf.chain_children hsub).children_eq hget
        (by rw [List.length_map, Tree.children]; omega)
      have hbelow := hf.treesBelow_eq n cs (by omega) fun c hc => by
        obtain ⟨next', hsub'⟩ := Tree.exists_entriesUnder_child (g := f.generation)
          (t := .node m cs) hc parent next
        have hc := Tree.size_le_sum hc
        exact ⟨by omega, _, next', List.Subset.trans hsub' hsub⟩
      rw [hchildren, hget, Option.map_some]
      exact congrArg (fun cs => some (Tree.node m cs)) hbelow
    rw [treesBelow, List.filterMap_map]
    exact (List.filterMap_congr hall).trans List.filterMap_some

/-- The tree that is read from the forest is the one that it owns. -/
theorem Owns.tree?_eq (hf : f.Owns ts) (ht : t ∈ ts) :
    f.tree? (t.handle f.generation) = some t := by
  have hsub : t.entriesUnder f.generation none none ⊆ ts.flatMap (Tree.entries f.generation) :=
    fun e he => List.mem_flatMap.2 ⟨t, ht, he⟩
  have h := Stores.treesBelow_eq hf f.entries.size [t] (Nat.le_refl _)
    (List.forall_mem_singleton.2 ⟨hf.size_le ht, none, none, hsub⟩)
  exact congrArg List.head? h

end Forest

end SqlSyntax
