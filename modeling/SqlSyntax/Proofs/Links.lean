import SqlSyntax.Forest

/-!
# The links of a tree

A tree as a value says where each of its nodes is linked: `Tree.entries` lists the entries that the
tree has in a forest, each with the parent, the children and the next sibling that the shape of the
tree gives it. The laws here say what becomes of that list when one entry is changed at a time
(`changeAt`), which is all that an edit does.
-/

namespace SqlSyntax

/-- The entry with its node or links changed, if it is the one of a number. -/
def Entry.changeAt (id : Nat) (change : Entry → Entry) (e : Entry) : Entry :=
  if e.node.id = id then change e else e

namespace Tree

/-- The handle of the root in a generation of a forest. -/
def handle (g : UInt32) (t : Tree) : SlotHandle := ⟨0, t.head.id, g⟩

@[simp]
theorem head_append (t : Tree) (more : List Tree) : (t.append more).head = t.head := rfl

@[simp]
theorem children_append (t : Tree) (more : List Tree) :
    (t.append more).children = t.children ++ more := rfl

@[simp]
theorem handle_append (g : UInt32) (t : Tree) (more : List Tree) :
    (t.append more).handle g = t.handle g := rfl

/-- The entry of the root, whose parent and next sibling are given. -/
def entry (g : UInt32) (parent next : Option SlotHandle) (t : Tree) : Entry where
  node := t.head
  links := {
    parent
    firstChild := t.children.head?.map (handle g)
    lastChild := t.children.getLast?.map (handle g)
    nextSibling := next
    childCount := t.children.length }

mutual
/-- The entries of a tree whose root has a parent and a next sibling, the root first. -/
def entriesUnder (g : UInt32) (parent next : Option SlotHandle) : Tree → List Entry
  | .node n cs =>
    entry g parent next (.node n cs) :: siblingEntries g (some ⟨0, n.id, g⟩) none cs

/-- The entries of trees that are siblings; `next` comes after the last one. -/
def siblingEntries (g : UInt32) (parent next : Option SlotHandle) : List Tree → List Entry
  | [] => []
  | t :: ts =>
    entriesUnder g parent ((ts.head?.map (handle g)).or next) t ++ siblingEntries g parent next ts
end

/-- The entries of a tree of its own. -/
def entries (g : UInt32) (t : Tree) : List Entry := entriesUnder g none none t

variable {g : UInt32} {parent next : Option SlotHandle}

theorem entriesUnder_eq (t : Tree) : entriesUnder g parent next t =
    entry g parent next t :: siblingEntries g (some (t.handle g)) none t.children := by
  cases t
  rw [entriesUnder]
  rfl

theorem entry_append (t child : Tree) : (t.append [child]).entry g parent next =
    { node := t.head
      links := {
        parent
        firstChild := (t.children.head?.map (handle g)).or (some (child.handle g))
        lastChild := some (child.handle g)
        nextSibling := next
        childCount := t.children.length + 1 } } := by
  have hfirst : (t.children ++ [child]).head?.map (handle g) =
      (t.children.head?.map (handle g)).or (some (child.handle g)) := by
    cases t.children <;> rfl
  simp only [entry, head_append, children_append, hfirst, List.getLast?_concat, Option.map_some,
    List.length_append, List.length_singleton]

theorem siblingEntries_append (us ts : List Tree) :
    siblingEntries g parent next (ts ++ us) =
      siblingEntries g parent ((us.head?.map (handle g)).or next) ts ++
        siblingEntries g parent next us := by
  induction ts with
  | nil => rfl
  | cons t ts ih =>
    have hnext : ((ts ++ us).head?.map (handle g)).or next =
        (ts.head?.map (handle g)).or ((us.head?.map (handle g)).or next) := by
      cases ts <;> rfl
    rw [List.cons_append, siblingEntries, siblingEntries, ih, hnext, List.append_assoc]

theorem siblingEntries_concat (ts : List Tree) (t : Tree) :
    siblingEntries g parent next (ts ++ [t]) =
      siblingEntries g parent (some (t.handle g)) ts ++ entriesUnder g parent next t := by
  rw [siblingEntries_append]
  simp [siblingEntries]

mutual
theorem map_node_entriesUnder (parent next : Option SlotHandle) : ∀ t : Tree,
    (entriesUnder g parent next t).map (·.node) = t.preorder.map head
  | .node n cs => by
    rw [entriesUnder, List.map_cons, map_node_siblingEntries _ _ cs, preorder_node]
    rfl

theorem map_node_siblingEntries (parent next : Option SlotHandle) : ∀ ts : List Tree,
    (siblingEntries g parent next ts).map (·.node) = (ts.flatMap preorder).map head
  | [] => rfl
  | t :: ts => by
    rw [siblingEntries, List.map_append, map_node_entriesUnder _ _ t,
      map_node_siblingEntries _ _ ts, List.flatMap_cons, List.map_append]
end

/-- The numbers of the nodes in preorder. -/
def ids (t : Tree) : List Nat := t.preorder.map (·.head.id)

theorem ids_node (n : Node) (cs : List Tree) : ids (.node n cs) = n.id :: cs.flatMap ids := by
  simp only [ids, preorder_node, List.map_cons, List.map_flatMap]
  rfl

theorem ids_eq (t : Tree) : t.ids = t.head.id :: t.children.flatMap ids := by
  cases t
  exact ids_node _ _

theorem map_id_entriesUnder (t : Tree) :
    (entriesUnder g parent next t).map (·.node.id) = t.ids := by
  have h := congrArg (List.map Node.id) (map_node_entriesUnder (g := g) parent next t)
  rwa [List.map_map, List.map_map] at h

theorem map_id_entries (ts : List Tree) :
    (ts.flatMap (entries g)).map (·.node.id) = ts.flatMap ids := by
  simp only [List.map_flatMap, entries, map_id_entriesUnder]

theorem size_eq_length_ids (t : Tree) : t.size = t.ids.length := by
  simp [size, ids]

end Tree

/-- A change of one entry among entries with other numbers. -/
theorem map_changeAt {id : Nat} {change : Entry → Entry} {before after : List Entry} {e : Entry}
    (h : ((before ++ e :: after).map (·.node.id)).Nodup) (hid : e.node.id = id) :
    (before ++ e :: after).map (Entry.changeAt id change) = before ++ change e :: after := by
  have hsame : ∀ es : List Entry, id ∉ es.map (·.node.id) →
      es.map (Entry.changeAt id change) = es := by
    intro es hes
    refine (List.map_congr_left fun e' he' => ?_).trans (List.map_id es)
    refine if_neg fun h => hes ?_
    rw [← h]
    exact List.mem_map_of_mem he'
  subst hid
  rw [List.map_append, List.map_cons, List.nodup_append, List.nodup_cons] at h
  obtain ⟨-, ⟨hafter, -⟩, hbefore⟩ := h
  rw [List.map_append, List.map_cons, hsame after hafter,
    hsame before fun hmem => hbefore _ hmem _ List.mem_cons_self rfl]
  exact congrArg (fun e => before ++ e :: after) (if_pos rfl)

end SqlSyntax
