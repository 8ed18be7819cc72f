import Mathlib.Data.List.Nodup
import Mathlib.Data.List.Perm.Basic
import SqlSyntax.Proofs.Links

/-!
# Forests of whole trees

A forest owns some trees if what it stores is exactly their entries (`Forest.Owns`). Every edit that
a parser makes is then allowed, and the forest owns the trees that the edit should make:
a new leaf, a root that was changed, a tree with one more child.

In the middle of an edit the links belong to no tree. `Forest.Stores` speaks of the entries alone,
and `Edits` runs from one list of entries to another.
-/

namespace SqlSyntax

namespace Forest

/-- Reading an entry changes nothing, and only a handle that names no node is refused. -/
theorem entry_eq (f : Forest) (h : SlotHandle) :
    entry h f = (f.get? h).elim (.error (.stale h) f) (.ok · f) := by
  delta entry
  change EStateM.bind (fun f => .ok f f) _ f = _
  unfold EStateM.bind
  dsimp only
  cases f.get? h <;> rfl

/-- A forest stores these entries, in any order, each at the place that its number tells. -/
structure Stores (f : Forest) (es : List Entry) : Prop where
  numbered : ∀ (i : Nat) (e : Entry), f.entries[i]? = some e → e.node.id = i
  stored : f.entries.toList.Perm es

/-- A forest stores these trees and nothing else. -/
def Owns (f : Forest) (ts : List Tree) : Prop := f.Stores (ts.flatMap (Tree.entries f.generation))

variable {f : Forest} {es es' : List Entry} {ts us : List Tree}

namespace Stores

theorem perm (h : f.Stores es) (hp : es.Perm es') : f.Stores es' := ⟨h.numbered, h.stored.trans hp⟩

theorem size_eq (h : f.Stores es) : f.entries.size = es.length := by
  rw [← h.stored.length_eq, Array.length_toList]

theorem getElem? (h : f.Stores es) {e : Entry} (he : e ∈ es) :
    f.entries[e.node.id]? = some e := by
  obtain ⟨i, hi, hget⟩ := List.getElem_of_mem (h.stored.mem_iff.2 he)
  have hsome : f.entries[i]? = some e := by
    rw [← hget, Array.getElem_toList]
    exact Array.getElem?_eq_getElem _
  rwa [h.numbered i e hsome]

theorem get? (h : f.Stores es) {e : Entry} (he : e ∈ es) :
    f.get? ⟨0, e.node.id, f.generation⟩ = some e :=
  (if_pos ⟨rfl, rfl⟩).trans (h.getElem? he)

theorem ids_perm (h : f.Stores es) :
    (es.map (·.node.id)).Perm (List.range f.entries.size) := by
  refine (h.stored.map _).symm.trans (List.Perm.of_eq (List.ext_getElem (by simp) ?_))
  intro i hi _
  rw [List.length_map, Array.length_toList] at hi
  rw [List.getElem_map, List.getElem_range, Array.getElem_toList]
  exact h.numbered i _ (Array.getElem?_eq_getElem hi)

theorem nodup (h : f.Stores es) : (es.map (·.node.id)).Nodup :=
  h.ids_perm.nodup_iff.2 List.nodup_range

theorem modify (h : f.Stores es) (id : Nat) {change : Entry → Entry}
    (hc : ∀ e, (change e).node.id = e.node.id) :
    Stores { f with entries := f.entries.modify id change }
      (es.map (Entry.changeAt id change)) := by
  refine ⟨fun i e he => ?_, ?_⟩
  · rw [Array.getElem?_modify] at he
    split at he
    · obtain ⟨e', he', rfl⟩ := Option.map_eq_some_iff.1 he
      exact (hc e').trans (h.numbered i e' he')
    · exact h.numbered i e he
  · refine List.Perm.trans (List.Perm.of_eq ?_) (h.stored.map _)
    refine List.ext_getElem (by simp) fun i hi _ => ?_
    rw [Array.length_toList, Array.size_modify] at hi
    have hid := h.numbered i _ (Array.getElem?_eq_getElem hi)
    simp only [Array.getElem_toList, List.getElem_map, Array.getElem_modify, Entry.changeAt, hid]
    by_cases hi' : id = i
    · rw [if_pos hi', if_pos hi'.symm]
    · rw [if_neg hi', if_neg fun h => hi' h.symm]

end Stores

namespace Owns

theorem perm (h : f.Owns ts) (hp : ts.Perm us) : f.Owns us :=
  Stores.perm h (hp.flatMap_right _)

theorem ids_perm (h : f.Owns ts) :
    (ts.flatMap Tree.ids).Perm (List.range f.entries.size) := by
  rw [← Tree.map_id_entries (g := f.generation)]
  exact Stores.ids_perm h

theorem nodup (h : f.Owns ts) : (ts.flatMap Tree.ids).Nodup :=
  h.ids_perm.nodup_iff.2 List.nodup_range

end Owns

end Forest

/-! ## Edits of the entries -/

/-- From every forest of a generation that stores some entries, an edit makes one that stores
others, and it answers with a value of a sort. -/
def Edits (g : UInt32) (x : Edit α) (es es' : List Entry) (fact : α → Prop) : Prop :=
  ∀ f : Forest, f.generation = g → f.Stores es →
    ∃ a f', x f = .ok a f' ∧ f'.generation = g ∧ f'.Stores es' ∧ fact a

namespace Edits

variable {g : UInt32} {es es₁ es₂ es₃ : List Entry} {e : Entry}

theorem pure {fact : α → Prop} {a : α} (h : fact a) : Edits g (pure a) es es fact :=
  fun f hg hf => ⟨a, f, rfl, hg, hf, h⟩

theorem bind {x : Edit α} {k : α → Edit β} {fact : α → Prop} {fact' : β → Prop}
    (hx : Edits g x es₁ es₂ fact) (hk : ∀ a, fact a → Edits g (k a) es₂ es₃ fact') :
    Edits g (x >>= k) es₁ es₃ fact' := by
  intro f hg hf
  obtain ⟨a, f', hrun, hg', hf', ha⟩ := hx f hg hf
  obtain ⟨b, f'', hrun', h⟩ := hk a ha f' hg' hf'
  refine ⟨b, f'', ?_, h⟩
  show EStateM.bind x k f = _
  rw [EStateM.bind, hrun]
  exact hrun'

theorem perm {x : Edit α} {fact : α → Prop} (hx : Edits g x es₁ es₂ fact) (hp : es.Perm es₁)
    (hp' : es₂.Perm es₃) : Edits g x es es₃ fact := by
  intro f hg hf
  obtain ⟨a, f', hrun, hg', hf', ha⟩ := hx f hg (hf.perm hp)
  exact ⟨a, f', hrun, hg', hf'.perm hp', ha⟩

/-- The numbers of the entries that are stored differ. -/
theorem of_nodup {x : Edit α} {fact : α → Prop}
    (h : (es₁.map (·.node.id)).Nodup → Edits g x es₁ es₂ fact) : Edits g x es₁ es₂ fact :=
  fun f hg hf => h hf.nodup f hg hf

theorem entry (he : e ∈ es) : Edits g (Forest.entry ⟨0, e.node.id, g⟩) es es (· = e) := by
  rintro f rfl hf
  exact ⟨e, f, by rw [Forest.entry_eq, hf.get? he]; rfl, rfl, hf, rfl⟩

theorem discardEntry (he : e ∈ es) :
    Edits g (discard (Forest.entry ⟨0, e.node.id, g⟩)) es es fun _ => True := by
  intro f hg hf
  obtain ⟨a, f', hrun, hg', hf', -⟩ := entry he f hg hf
  refine ⟨(), f', ?_, hg', hf', trivial⟩
  show EStateM.map _ _ f = _
  rw [EStateM.map, hrun]

theorem modifyEntry (before after : List Entry) (e : Entry) (change : Entry → Entry)
    (hc : ∀ e, (change e).node.id = e.node.id) :
    Edits g (Forest.modifyEntry ⟨0, e.node.id, g⟩ change) (before ++ e :: after)
      (before ++ change e :: after) fun _ => True := by
  refine (discardEntry (List.mem_append_right _ List.mem_cons_self)).bind fun _ _ f hg hf => ?_
  refine ⟨(), _, rfl, hg, ?_, trivial⟩
  rw [← map_changeAt hf.nodup rfl]
  exact hf.modify _ hc

theorem relink (before after : List Entry) (e : Entry) (change : Links → Links) :
    Edits g (Forest.relink ⟨0, e.node.id, g⟩ change) (before ++ e :: after)
      (before ++ { e with links := change e.links } :: after) fun _ => True :=
  modifyEntry before after e _ fun _ => rfl

theorem get {k : Forest → Edit α} {fact : α → Prop}
    (hk : ∀ f : Forest, f.generation = g → f.Stores es₁ → Edits g (k f) es₁ es₂ fact) :
    Edits g (get >>= k) es₁ es₂ fact :=
  fun f hg hf => hk f hg hf f hg hf

/-! ## Edits of whole trees -/

variable {ts : List Tree} {t : Tree}

theorem rootEntry_mem (t : Tree) (ts : List Tree) :
    t.entry g none none ∈ (t :: ts).flatMap (Tree.entries g) := by
  rw [List.flatMap_cons, Tree.entries, Tree.entriesUnder_eq]
  exact List.mem_append_left _ List.mem_cons_self

theorem modifyNode (t : Tree) (ts : List Tree) {change : Node → Node}
    (hc : ∀ n, (change n).id = n.id) :
    Edits g (Forest.modifyNode (t.handle g) change) ((t :: ts).flatMap (Tree.entries g))
      ((t.mapHead change :: ts).flatMap (Tree.entries g)) fun _ => True := by
  obtain ⟨n, cs⟩ := t
  have h := modifyEntry (g := g) [] (Tree.siblingEntries g (some ⟨0, n.id, g⟩) none cs ++
    ts.flatMap (Tree.entries g)) (Tree.entry g none none (.node n cs))
    (fun e => { e with node := change e.node }) fun e => hc e.node
  refine h.perm (.refl _) (.of_eq ?_)
  rw [List.flatMap_cons, Tree.mapHead, Tree.entries, Tree.entriesUnder, hc]
  rfl

theorem alloc (kind : Kind) (location : Location) (span : Span) :
    Edits g (Forest.alloc kind location span) es
      ({ node := { kind, id := es.length, location, span } } :: es) (· = ⟨0, es.length, g⟩) := by
  rintro f rfl hf
  refine ⟨_, _, rfl, rfl, ⟨fun i e he => ?_, ?_⟩, ?_⟩
  · rw [Array.getElem?_push] at he
    split at he
    · next hi =>
      obtain rfl := Option.some.inj he
      exact hi.symm
    · exact hf.numbered i e he
  · rw [Array.toList_push, hf.size_eq]
    exact (List.perm_append_comm).trans (List.Perm.cons _ hf.stored)
  · exact congrArg (SlotHandle.mk 0 · f.generation) hf.size_eq

/-- A new leaf gets the next number. -/
theorem newLeaf (ts : List Tree) (kind : Kind) (location : Location) (span : Span)
    (context : Option Context) :
    Edits g
      (do
        let h ← Forest.alloc kind location span
        Forest.modifyNode h fun n => { n with context })
      (ts.flatMap (Tree.entries g))
      ((.leaf { kind, id := (ts.flatMap (Tree.entries g)).length, context, location, span } ::
        ts).flatMap (Tree.entries g)) fun _ => True := by
  refine (alloc kind location span).bind ?_
  rintro _ rfl
  exact modifyNode (.leaf { kind, id := _, location, span }) ts fun _ => rfl

theorem handle_ne {parent child : Tree} {ts : List Tree}
    (hn : ((parent :: child :: ts).flatMap Tree.ids).Nodup) :
    parent.handle g ≠ child.handle g := by
  intro h
  have hid : parent.head.id = child.head.id := congrArg SlotHandle.slot h
  simp [Tree.ids_eq parent, Tree.ids_eq child, hid] at hn

/-- The sibling that was the last one gets a next one. -/
theorem relinkLast (cs : List Tree) (parent : Option SlotHandle) (next : SlotHandle)
    (before after : List Entry) {k : PUnit → Edit Unit} {es : List Entry}
    (hk : Edits g (k ()) (before ++ Tree.siblingEntries g parent (some next) cs ++ after) es
      fun _ => True) :
    Edits g
      (match cs.getLast?.map (Tree.handle g) with
        | some previous => do
          let r ← Forest.relink previous fun l => { l with nextSibling := some next }
          k r
        | _ => k ())
      (before ++ Tree.siblingEntries g parent none cs ++ after) es fun _ => True := by
  rcases List.eq_nil_or_concat cs with rfl | ⟨init, last, rfl⟩
  · exact hk
  · simp only [List.concat_eq_append, List.getLast?_append, List.getLast?_singleton,
      Option.some_or, Option.map_some, Tree.siblingEntries_concat, Tree.entriesUnder_eq] at hk ⊢
    have h := relink (g := g)
      (before ++ Tree.siblingEntries g parent (some (last.handle g)) init)
      (Tree.siblingEntries g (some (last.handle g)) none last.children ++ after)
      (last.entry g parent none) fun l => { l with nextSibling := some next }
    refine (h.perm (.of_eq (by simp)) (.refl _)).bind fun _ _ => ?_
    exact hk.perm (.of_eq (by simp [Tree.entry])) (.refl _)

/-- A detached tree becomes the last child of another. -/
theorem addChild (parent child : Tree) (ts : List Tree) :
    Edits g (Forest.addChild (parent.handle g) (child.handle g))
      ((parent :: child :: ts).flatMap (Tree.entries g))
      ((parent.append [child] :: ts).flatMap (Tree.entries g)) fun _ => True := by
  refine of_nodup fun hn => ?_
  rw [Tree.map_id_entries] at hn
  unfold Forest.addChild
  dsimp only
  rw [if_neg (handle_ne hn)]
  have hmem : child.entry g none none ∈ (parent :: child :: ts).flatMap (Tree.entries g) :=
    List.mem_append_right _ (rootEntry_mem child ts)
  refine (entry hmem).bind ?_
  rintro _ rfl
  rw [if_neg (by simp [Tree.entry])]
  have h := relink (g := g) (parent.entries g)
    (Tree.siblingEntries g (some (child.handle g)) none child.children ++
      ts.flatMap (Tree.entries g))
    (child.entry g none none) fun l => { l with parent := some (parent.handle g) }
  refine (h.perm (.of_eq ?_) (.refl _)).bind fun _ _ => ?_
  · simp [Tree.entries, Tree.entriesUnder_eq child]
  refine (entry (e := parent.entry g none none) ?_).bind ?_
  · simp [Tree.entries, Tree.entriesUnder_eq parent]
  rintro _ rfl
  have h := relinkLast (g := g) parent.children (some (parent.handle g)) (child.handle g)
    [parent.entry g none none]
    (child.entriesUnder g (some (parent.handle g)) none ++ ts.flatMap (Tree.entries g))
    (k := fun _ => Forest.relink (parent.handle g) fun l =>
      { l with
        firstChild := l.firstChild.or (some (child.handle g))
        lastChild := some (child.handle g)
        childCount := l.childCount + 1 })
    (relink [] _ (parent.entry g none none) _)
  refine h.perm (.of_eq ?_) (.of_eq ?_)
  · simp [Tree.entries, Tree.entriesUnder_eq, Tree.entry]
  · rw [List.flatMap_cons, Tree.entries, Tree.entriesUnder_eq (parent.append [child]),
      Tree.entry_append, Tree.children_append, Tree.siblingEntries_concat]
    simp [Tree.entry]

/-- The chain of next siblings through the entries of some siblings. -/
theorem siblings {f : Forest} (hf : f.Stores es) (parent : Option SlotHandle) :
    ∀ (cs : List Tree) (n : Nat), cs.length ≤ n →
      Tree.siblingEntries f.generation parent none cs ⊆ es →
      f.siblings n (cs.head?.map (Tree.handle f.generation)) = cs.map (Tree.handle f.generation)
  | [], n, _, _ => by cases n <;> rfl
  | c :: cs, 0, hn, _ => by simp at hn
  | c :: cs, n + 1, hn, hsub => by
    rw [Tree.siblingEntries, Tree.entriesUnder_eq] at hsub
    have hget : f.get? (c.handle f.generation) = some (c.entry f.generation parent
        ((cs.head?.map (Tree.handle f.generation)).or none)) :=
      hf.get? (hsub (List.mem_append_left _ List.mem_cons_self))
    have hrest := siblings hf parent cs n (by simpa using hn)
      (List.Subset.trans (List.subset_append_right _ _) hsub)
    simp only [List.head?_cons, Option.map_some, Forest.siblings, hget, Option.bind_some,
      Tree.entry, Option.or_none, hrest, List.map_cons]

/-- The children of a root are those of its tree. -/
theorem children {f : Forest} (hf : f.Stores ((t :: ts).flatMap (Tree.entries f.generation))) :
    f.children (t.handle f.generation) = t.children.map (Tree.handle f.generation) := by
  have hget : f.get? (t.handle f.generation) = some (t.entry f.generation none none) :=
    hf.get? (rootEntry_mem t ts)
  have hsize := hf.size_eq
  rw [List.flatMap_cons, Tree.entries, Tree.entriesUnder_eq] at hf hsize
  have hlength : t.children.length ≤ f.entries.size := by
    have hle : ∀ (g : UInt32) (p : Option SlotHandle) (cs : List Tree),
        cs.length ≤ (Tree.siblingEntries g p none cs).length := by
      intro g p cs
      induction cs with
      | nil => exact Nat.zero_le _
      | cons c cs ih =>
        rw [Tree.siblingEntries, Tree.entriesUnder_eq]
        simp only [List.length_cons, List.length_append]
        omega
    have := hle f.generation (some (t.handle f.generation)) t.children
    simp only [List.length_cons, List.length_append] at hsize
    omega
  unfold Forest.children
  rw [hget]
  refine siblings hf (some (t.handle f.generation)) t.children _ hlength ?_
  exact List.Subset.trans (List.subset_cons_self _ _) (List.subset_append_left _ _)

/-- The first child of a tree becomes a tree of its own. -/
theorem removeFirst (n : Node) (c : Tree) (cs ts : List Tree) :
    Edits g (Forest.removeChild (Tree.handle g (.node n (c :: cs))) (c.handle g))
      ((.node n (c :: cs) :: ts).flatMap (Tree.entries g))
      ((.node n cs :: c :: ts).flatMap (Tree.entries g)) fun _ => True := by
  refine of_nodup fun hn => ?_
  rw [Tree.map_id_entries] at hn
  have hlast : (if (c :: cs).getLast?.map (Tree.handle g) = some (c.handle g) then none
      else (c :: cs).getLast?.map (Tree.handle g)) = cs.getLast?.map (Tree.handle g) := by
    rcases List.eq_nil_or_concat cs with rfl | ⟨init, last, rfl⟩
    · exact if_pos rfl
    · have hne : last.handle g ≠ c.handle g := by
        intro h
        have hid : last.head.id = c.head.id := congrArg SlotHandle.slot h
        simp [Tree.ids_eq c, Tree.ids_eq last, Tree.ids_node, hid] at hn
      simp [List.getLast?_cons, hne]
  unfold Forest.removeChild
  refine (discardEntry (rootEntry_mem _ ts)).bind fun _ _ => get fun f hg hf => ?_
  subst hg
  rw [children hf]
  simp only [Tree.children, List.map_cons, Forest.previousIn, if_pos]
  set p : SlotHandle := Tree.handle f.generation (.node n (c :: cs))
  set next := (cs.head?.map (Tree.handle f.generation)).or none
  set below := Tree.siblingEntries f.generation (some (c.handle f.generation)) none c.children
  set rest := Tree.siblingEntries f.generation (some p) none cs ++
    ts.flatMap (Tree.entries f.generation)
  have hes : (Tree.node n (c :: cs) :: ts).flatMap (Tree.entries f.generation) =
      [(Tree.node n (c :: cs)).entry f.generation none none] ++
        c.entry f.generation (some p) next :: (below ++ rest) := by
    rw [List.flatMap_cons, Tree.entries, Tree.entriesUnder_eq, Tree.children, Tree.siblingEntries,
      Tree.entriesUnder_eq]
    simp [below, rest, next, p]
  rw [hes]
  refine (entry (List.mem_append_right _ List.mem_cons_self)).bind ?_
  rintro _ rfl
  refine (relink [] _ (Tree.entry _ none none (.node n (c :: cs))) _).bind fun _ _ => ?_
  refine (relink [] _ { node := n, links := _ } _).bind fun _ _ => ?_
  refine (relink [_] _ (c.entry f.generation (some p) next) _).perm (.refl _) ?_
  have hes' : (Tree.node n cs :: c :: ts).flatMap (Tree.entries f.generation) =
      (Tree.node n cs).entry f.generation none none ::
        (Tree.siblingEntries f.generation (some p) none cs ++
          (c.entry f.generation none none :: below) ++ ts.flatMap (Tree.entries f.generation)) := by
    simp only [List.flatMap_cons, Tree.entries, Tree.entriesUnder_eq, List.cons_append,
      List.append_assoc]
    rfl
  rw [hes']
  refine List.Perm.trans (.of_eq ?_) (List.Perm.cons _ (List.perm_append_comm.append_right _))
  simp [Tree.entry, Tree.head, Tree.children, next, rest, ← hlast]

theorem permTrees {x : Edit α} {fact : α → Prop} {us us' ts' : List Tree}
    (hx : Edits g x (us.flatMap (Tree.entries g)) (us'.flatMap (Tree.entries g)) fact)
    (hp : ts.Perm us) (hp' : us'.Perm ts') :
    Edits g x (ts.flatMap (Tree.entries g)) (ts'.flatMap (Tree.entries g)) fact :=
  hx.perm (hp.flatMap_right _) (hp'.flatMap_right _)

/-- All children of a tree become trees of their own. -/
theorem removeAll (n : Node) : ∀ cs ts : List Tree,
    Edits g ((cs.map (Tree.handle g)).forM (Forest.removeChild ⟨0, n.id, g⟩))
      ((.node n cs :: ts).flatMap (Tree.entries g))
      ((.node n [] :: (cs ++ ts)).flatMap (Tree.entries g)) fun _ => True
  | [], _ => pure trivial
  | c :: cs, ts =>
    (removeFirst n c cs ts).bind fun _ _ =>
      (removeAll n cs (c :: ts)).permTrees (.refl _) (.cons _ List.perm_middle)

/-- Trees become the last children of another, one after the other. -/
theorem addAll (t : Tree) : ∀ cs ts : List Tree,
    Edits g ((cs.map (Tree.handle g)).forM (Forest.addChild (t.handle g)))
      ((t :: (cs ++ ts)).flatMap (Tree.entries g))
      ((t.append cs :: ts).flatMap (Tree.entries g)) fun _ => True
  | [], ts => by
    obtain ⟨n, cs⟩ := t
    rw [show (Tree.node n cs).append [] = .node n cs from congrArg _ (List.append_nil cs)]
    exact pure trivial
  | c :: cs, ts => by
    have hrest := addAll (t.append [c]) cs ts
    rw [show (t.append [c]).append cs = t.append (c :: cs) from
      congrArg _ (List.append_assoc _ _ _)] at hrest
    exact (addChild t c (cs ++ ts)).bind fun _ _ => hrest

/-- A detached tree becomes the first child of another. -/
theorem prependChild (parent child : Tree) (ts : List Tree) :
    Edits g (Forest.prependChild (parent.handle g) (child.handle g))
      ((parent :: child :: ts).flatMap (Tree.entries g))
      ((parent.prepend child :: ts).flatMap (Tree.entries g)) fun _ => True := by
  obtain ⟨n, cs⟩ := parent
  unfold Forest.prependChild
  refine get fun f hg hf => ?_
  subst hg
  rw [children hf]
  refine ((removeAll n cs (child :: ts)).permTrees (.refl _)
    (.cons _ List.perm_middle)).bind fun _ _ => ?_
  exact (addChild (.node n []) child (cs ++ ts)).bind fun _ _ => addAll _ cs ts

end Edits

end SqlSyntax
