import SqlSyntax.Proofs.Children.Strays

/-!
# Lists of children

`Forest.Lists` says of some lists of children that the links are the ones that they make, without
strays. Edits that do not fail keep that (`Lists.addChild`, `Lists.removeChild`), so after any calls
of which none failed the children are the lists that the calls say (`Forest.calls_keep_lists`).
-/

namespace SqlSyntax

/-- The edit cannot be made. -/
def Edit.Fails {α : Type} (x : Edit α) (f : Forest) : Prop := ∃ e f', x f = .error e f'

/-- The links of a forest are the ones that some lists of children make. -/
structure Forest.Lists (f : Forest) (ls : SlotHandle → List SlotHandle) : Prop where
  live : ∀ {p c}, c ∈ ls p → f.isLive p ∧ f.isLive c
  nodup : ∀ p, (ls p).Nodup
  fits : ∀ {h l}, f.links? h = some l → l.Fits ls h

namespace Forest.Lists

variable {f f' : Forest} {parent child h p q c : SlotHandle} {l : Links}
  {ls : SlotHandle → List SlotHandle}

theorem nearly (hf : f.Lists ls) : f.NearlyLists ls :=
  ⟨hf.live, hf.nodup, fun hl => .of_fits (hf.fits hl)⟩

/-- The children of a node are its list. -/
theorem children_eq (hf : f.Lists ls) (p : SlotHandle) : f.children p = ls p :=
  hf.nearly.children_eq p

/-- A child that is in no list can be appended to one. -/
theorem addChild (hf : f.Lists ls) (hne : parent ≠ child) (hparent : f.isLive parent)
    (hchild : f.isLive child) (hfree : ∀ p, child ∉ ls p) :
    ∃ f', addChild parent child f = .ok () f' ∧
      f'.Lists (Function.update ls parent (ls parent ++ [child])) := by
  obtain ⟨d, hd⟩ := isLive_iff.1 hchild
  obtain ⟨f', hrun, hf', hlinks⟩ :=
    hf.nearly.addChild hne hparent hd ((hf.fits hd).detached hfree)
  refine ⟨f', hrun, hf'.live, hf'.nodup, fun {h l'} hl' => ?_⟩
  rw [hlinks] at hl'
  obtain ⟨l, hl, rfl⟩ := Option.map_eq_some_iff.1 hl'
  exact (hf.fits hl).added hfree (hf.nodup parent) hf.nearly.unique

/-- A child can be taken out of its list. -/
theorem removeChild (hf : f.Lists ls) (hchild : child ∈ ls parent) :
    ∃ f', removeChild parent child f = .ok () f' ∧
      f'.Lists (Function.update ls parent ((ls parent).erase child)) := by
  obtain ⟨f', before, after, hrun, heq, herase, hf', hlinks⟩ := hf.nearly.removeChild hchild
  rw [herase]
  refine ⟨f', hrun, hf'.live, hf'.nodup, fun {h l'} hl' => ?_⟩
  rw [hlinks] at hl'
  obtain ⟨l, hl, rfl⟩ := Option.map_eq_some_iff.1 hl'
  exact (hf.fits hl).removed heq (hf.nodup parent) hf.nearly.unique

/-! ## Refused edits -/

theorem not_mem_of_parent_eq_none (hf : f.Lists ls) {e : Entry} (he : f.get? c = some e)
    (hnone : e.links.parent = none) (p : SlotHandle) : c ∉ ls p :=
  hf.nearly.not_mem_of_parent_eq_none (l := e.links) (by rw [links?, he]; rfl) hnone p

theorem addChild_fails_iff (hf : f.Lists ls) : (Forest.addChild parent child).Fails f ↔
    parent = child ∨ ¬ f.isLive parent ∨ ¬ f.isLive child ∨ ∃ p, child ∈ ls p := by
  constructor
  · rintro ⟨e, f', hrun⟩
    by_contra! h
    obtain ⟨f'', hrun', -⟩ := hf.addChild h.1 h.2.1 h.2.2.1 h.2.2.2
    rw [hrun] at hrun'
    cases hrun'
  · intro h
    rcases hrun : Forest.addChild parent child f with ⟨_, f'⟩ | ⟨e, f'⟩
    · obtain ⟨hne, ⟨e, he, hnone, -⟩, hlive⟩ := of_addChild hrun
      have hchild : f.isLive child := by rw [isLive, he]; rfl
      have hfree := hf.not_mem_of_parent_eq_none he hnone
      tauto
    · exact ⟨e, f', hrun⟩

theorem removeChild_fails_iff (hf : f.Lists ls) : (Forest.removeChild parent child).Fails f ↔
    ¬ f.isLive parent ∨ child ∉ ls parent := by
  constructor
  · rintro ⟨e, f', hrun⟩
    by_contra! h
    obtain ⟨f'', hrun', -⟩ := hf.removeChild h.2
    rw [hrun] at hrun'
    cases hrun'
  · intro h
    rcases hrun : Forest.removeChild parent child f with ⟨_, f'⟩ | ⟨e, f'⟩
    · have hchild := of_removeChild hrun
      rw [hf.children_eq] at hchild
      have hlive := (hf.live hchild).1
      tauto
    · exact ⟨e, f', hrun⟩

end Forest.Lists

/-! ## Calls -/

namespace Forest

/-- What may be done to a forest. -/
inductive Call where
  | alloc (kind : Kind) (location : Location) (span : Span)
  | copy (text : String)
  | modifyNode (h : SlotHandle) (change : Node → Node)
  | addChild (parent child : SlotHandle)
  | removeChild (parent child : SlotHandle)
  | reset
  | clear

namespace Call

def edit : Call → Edit Unit
  | alloc kind location span => discard (Forest.alloc kind location span)
  | copy text => discard (Forest.copy text)
  | modifyNode h change => Forest.modifyNode h change
  | addChild parent child => Forest.addChild parent child
  | removeChild parent child => Forest.removeChild parent child
  | reset => modify Forest.reset
  | clear => modify Forest.clear

/-- What a call makes of the lists of children. -/
def lists : Call → (SlotHandle → List SlotHandle) → SlotHandle → List SlotHandle
  | addChild parent child, ls => Function.update ls parent (ls parent ++ [child])
  | removeChild parent child, ls => Function.update ls parent ((ls parent).erase child)
  | reset, _ | clear, _ => fun _ => []
  | alloc .., ls | copy _, ls | modifyNode .., ls => ls

/-- The lists of children after some calls on an empty forest. -/
def listsAfter (calls : List Call) : SlotHandle → List SlotHandle :=
  calls.foldl (fun ls call => call.lists ls) fun _ => []

end Call

variable {f f' : Forest} {h : SlotHandle} {ls : SlotHandle → List SlotHandle}

/-- Where nothing is stored there are no children. -/
theorem lists_of_empty (hempty : f.entries = #[]) : f.Lists fun _ => [] := by
  have hnone (h : SlotHandle) : f.links? h = none := by
    rw [links?, get?, hempty]
    split <;> rfl
  refine ⟨fun hc => absurd hc List.not_mem_nil, fun _ => List.nodup_nil, fun hl => ?_⟩
  rw [hnone] at hl
  cases hl

namespace Lists

/-- An edit that changes no links changes no lists. -/
theorem congr (hf : f.Lists ls) (hlinks : ∀ k, f'.links? k = f.links? k) : f'.Lists ls :=
  ⟨(hf.nearly.of_links?_eq hlinks).live, hf.nodup, fun hl => hf.fits (hlinks _ ▸ hl)⟩

theorem modifyNode (hf : f.Lists ls) {h : SlotHandle} {change : Node → Node}
    (hrun : Forest.modifyNode h change f = .ok () f') : f'.Lists ls :=
  hf.congr (links?_of_modifyNode hrun)

/-- A new node has no children and is in no list. -/
theorem alloc (hf : f.Lists ls) {kind : Kind} {location : Location} {span : Span}
    (hrun : Forest.alloc kind location span f = .ok h f') : f'.Lists ls := by
  have hf' := hf.nearly.alloc hrun
  refine ⟨hf'.live, hf'.nodup, fun {k l} hl => ?_⟩
  rcases hf.nearly.links?_of_alloc hrun hl with hl | ⟨rfl, hempty, hfree⟩
  · exact hf.fits hl
  · exact .fresh hempty hfree

/-- A call that does not fail does to the lists what it says. -/
theorem call (hf : f.Lists ls) {call : Call} (hrun : call.edit f = .ok () f') :
    f'.Lists (call.lists ls) := by
  cases call with
  | alloc kind location span =>
    injection hrun with _ hf'
    exact hf' ▸ hf.alloc (show Forest.alloc kind location span f = _ from rfl)
  | copy text =>
    injection hrun with _ hf'
    exact hf' ▸ hf.congr fun _ => rfl
  | modifyNode h change => exact hf.modifyNode hrun
  | addChild parent child =>
    obtain ⟨hne, ⟨e, he, hnone, -⟩, hparent⟩ := of_addChild hrun
    obtain ⟨f'', hrun', hlists⟩ := hf.addChild hne hparent (by rw [isLive, he]; rfl)
      (hf.not_mem_of_parent_eq_none he hnone)
    rw [show Forest.addChild parent child f = _ from hrun] at hrun'
    injection hrun' with _ hf'
    exact hf' ▸ hlists
  | removeChild parent child =>
    have hchild := of_removeChild hrun
    rw [hf.children_eq] at hchild
    obtain ⟨f'', hrun', hlists⟩ := hf.removeChild hchild
    rw [show Forest.removeChild parent child f = _ from hrun] at hrun'
    injection hrun' with _ hf'
    exact hf' ▸ hlists
  | reset =>
    injection hrun with _ hf'
    exact hf' ▸ lists_of_empty rfl
  | clear =>
    injection hrun with _ hf'
    exact hf' ▸ lists_of_empty rfl

/-- Calls of which none fails do to the lists what they say one after another. -/
theorem calls : ∀ {calls : List Call} {f : Forest} {ls : SlotHandle → List SlotHandle},
    f.Lists ls → calls.forM Call.edit f = .ok () f' →
      f'.Lists (calls.foldl (fun ls call => call.lists ls) ls)
  | [], _, _, hf, hrun => by
    injection hrun with _ hf'
    exact hf' ▸ hf
  | c :: calls, _, _, hf, hrun => by
    obtain ⟨_, f₁, hcall, hrest⟩ := exists_of_bind hrun
    exact (hf.call hcall).calls hrest

end Lists

/-- The children of each node are a list of their own: the next siblings lead through it, the node
counts it, and what is in no list has neither parent nor sibling. -/
structure HasChildren (f : Forest) (ls : SlotHandle → List SlotHandle) : Prop where
  children_eq : ∀ p, f.children p = ls p
  chain : ∀ {p e}, f.get? p = some e → f.Chain e.links.firstChild (ls p)
  nodup : ∀ p, (ls p).Nodup
  childCount : ∀ {p e}, f.get? p = some e → e.links.childCount = (ls p).length
  mem_iff : ∀ {p c}, c ∈ ls p ↔ ∃ e, f.get? c = some e ∧ e.links.parent = some p
  unique : ∀ {p q c}, c ∈ ls p → c ∈ ls q → p = q
  detached : ∀ {c e}, f.get? c = some e → (∀ p, c ∉ ls p) →
    e.links.parent = none ∧ e.links.nextSibling = none

theorem Lists.hasChildren (hf : f.Lists ls) : f.HasChildren ls := by
  have hlinks {p : SlotHandle} {e : Entry} (he : f.get? p = some e) :
      f.links? p = some e.links := by rw [links?, he]; rfl
  refine ⟨hf.children_eq, hf.nearly.chain, hf.nodup, fun he => (hf.fits (hlinks he)).childCount,
    fun {p c} => ⟨fun hc => ?_, ?_⟩, hf.nearly.unique, fun he => (hf.fits (hlinks he)).detached⟩
  · obtain ⟨e, he⟩ := Option.isSome_iff_exists.1 (hf.live hc).2
    exact ⟨e, he, hf.nearly.parent_eq hc (hlinks he)⟩
  · rintro ⟨e, he, hparent⟩
    by_contra hc
    by_cases hfree : ∀ q, c ∉ ls q
    · rw [((hf.fits (hlinks he)).detached hfree).1] at hparent
      cases hparent
    · push Not at hfree
      obtain ⟨q, hq⟩ := hfree
      have hparent' := hf.nearly.parent_eq hq (hlinks he)
      rw [hparent] at hparent'
      exact hc (Option.some.inj hparent' ▸ hq)

/-- After calls of which none failed, the children of each node are the list that the calls make:
each child that is added is appended, each one that is removed is taken out, and no other list is
changed. To add a child fails where it is its own parent, where one of them names no node and where
the child is in a list, and to remove one fails where the parent names no node and where the child
is not in its list. -/
theorem calls_keep_lists (calls : List Call) {f : Forest}
    (hrun : calls.forM Call.edit {} = .ok () f) :
    f.HasChildren (Call.listsAfter calls) ∧
    (∀ parent child, (addChild parent child).Fails f ↔
      parent = child ∨ ¬ f.isLive parent ∨ ¬ f.isLive child ∨ ∃ p, child ∈ f.children p) ∧
    ∀ parent child, (removeChild parent child).Fails f ↔
      ¬ f.isLive parent ∨ child ∉ f.children parent := by
  have hf : f.Lists (Call.listsAfter calls) := (lists_of_empty rfl).calls hrun
  refine ⟨hf.hasChildren, fun parent child => ?_, fun parent child => ?_⟩
  · simp only [hf.children_eq]
    exact hf.addChild_fails_iff
  · rw [hf.children_eq]
    exact hf.removeChild_fails_iff

/-- The first of two children is put below the second one, and cannot be added again. -/
theorem calls_keep_lists_moved :
    ∃ f, [.alloc .selectStmt {} {}, .alloc .selectList {} {}, .alloc .whereClause {} {},
        .addChild ⟨0, 0, 0⟩ ⟨0, 1, 0⟩, .addChild ⟨0, 0, 0⟩ ⟨0, 2, 0⟩,
        .removeChild ⟨0, 0, 0⟩ ⟨0, 1, 0⟩, .addChild ⟨0, 2, 0⟩ ⟨0, 1, 0⟩].forM Call.edit {} =
          .ok () f ∧
      f.children ⟨0, 0, 0⟩ = [⟨0, 2, 0⟩] ∧ f.children ⟨0, 2, 0⟩ = [⟨0, 1, 0⟩] ∧
      (addChild ⟨0, 0, 0⟩ ⟨0, 1, 0⟩).Fails f := by
  refine ⟨_, rfl, ?_⟩
  obtain ⟨hchildren, hadd, -⟩ := calls_keep_lists
    [.alloc .selectStmt {} {}, .alloc .selectList {} {}, .alloc .whereClause {} {},
      .addChild ⟨0, 0, 0⟩ ⟨0, 1, 0⟩, .addChild ⟨0, 0, 0⟩ ⟨0, 2, 0⟩,
      .removeChild ⟨0, 0, 0⟩ ⟨0, 1, 0⟩, .addChild ⟨0, 2, 0⟩ ⟨0, 1, 0⟩] rfl
  have hsecond := (hchildren.children_eq ⟨0, 2, 0⟩).trans
    (show _ = [⟨0, 1, 0⟩] by decide +kernel)
  refine ⟨(hchildren.children_eq ⟨0, 0, 0⟩).trans (by decide +kernel), hsecond, ?_⟩
  exact (hadd ⟨0, 0, 0⟩ ⟨0, 1, 0⟩).2
    (.inr (.inr (.inr ⟨⟨0, 2, 0⟩, hsecond ▸ List.mem_cons_self⟩)))

end Forest

end SqlSyntax
