import SqlSyntax.Proofs.Safety

/-!
# Links under edits

An edit of a forest changes the links of some live nodes and no others. `Forest.relink_run` says so
for one node, `Forest.addChild_run` and `Forest.removeChild_run` say it for the edits that append a
child and take one away: where these are allowed, the links after them are a function of the links
before (`Links.added`, `Links.removed`).
-/

namespace SqlSyntax

/-- The links of a node after a child was appended behind the last one of its parent. -/
def Links.added (parent child : SlotHandle) (last : Option SlotHandle)
    (h : SlotHandle) (l : Links) : Links where
  parent := if h = child then some parent else l.parent
  firstChild := if h = parent then l.firstChild.or (some child) else l.firstChild
  lastChild := if h = parent then some child else l.lastChild
  nextSibling := if some h = last then some child else l.nextSibling
  childCount := if h = parent then l.childCount + 1 else l.childCount

/-- The links of a node after a child was taken away, which was between two siblings. -/
def Links.removed (parent child : SlotHandle) (previous next : Option SlotHandle)
    (h : SlotHandle) (l : Links) : Links where
  parent := if h = child then none else l.parent
  firstChild := if h = parent ∧ previous = none then next else l.firstChild
  lastChild := if h = parent ∧ l.lastChild = some child then previous else l.lastChild
  nextSibling := if h = child then none else if some h = previous then next else l.nextSibling
  childCount := if h = parent then l.childCount - 1 else l.childCount

namespace Forest

variable {f f' : Forest} {parent child h k : SlotHandle} {l : Links}
  {ls : SlotHandle → List SlotHandle}

/-! ## Links of live nodes -/

/-- The links of a live node. -/
def links? (f : Forest) (h : SlotHandle) : Option Links := (f.get? h).map (·.links)

theorem isLive_eq (f : Forest) (h : SlotHandle) : f.isLive h = (f.links? h).isSome := by
  rw [isLive, links?, Option.isSome_map]

theorem isLive_iff : f.isLive h ↔ ∃ l, f.links? h = some l := by
  rw [isLive_eq, Option.isSome_iff_exists]

/-- A live node has the handle of the place where it is stored. -/
theorem eq_handle_of_live (hlive : f.isLive h) :
    h = f.handle h.slot ∧ h.slot < f.entries.size := by
  obtain ⟨chunk, slot, generation⟩ := h
  rw [isLive, get?] at hlive
  split at hlive
  · next heq =>
    obtain ⟨rfl, rfl⟩ := heq
    obtain ⟨e, he⟩ := Option.isSome_iff_exists.1 hlive
    exact ⟨rfl, (Array.getElem?_eq_some_iff.1 he).1⟩
  · cases hlive

/-- There are not more live nodes than are stored. -/
theorem length_le_of_live {hs : List SlotHandle} (hnodup : hs.Nodup)
    (hlive : ∀ {h}, h ∈ hs → f.isLive h) : hs.length ≤ f.entries.size := by
  have hslots : (hs.map SlotHandle.slot).Nodup := by
    refine (List.nodup_map_iff_inj_on hnodup).2 fun c hc d hd heq => ?_
    rw [(eq_handle_of_live (hlive hc)).1, (eq_handle_of_live (hlive hd)).1, heq]
  have hsub : hs.map SlotHandle.slot ⊆ List.range f.entries.size := by
    intro i hi
    obtain ⟨c, hc, rfl⟩ := List.mem_map.1 hi
    exact List.mem_range.2 (eq_handle_of_live (hlive hc)).2
  simpa using (List.subperm_of_subset hslots hsub).length_le

theorem get?_modify (hlive : f.isLive h) (change : Entry → Entry) (k : SlotHandle) :
    get? { f with entries := f.entries.modify h.slot change } k =
      (f.get? k).map fun e => if k = h then change e else e := by
  obtain ⟨chunk, slot, generation⟩ := h
  obtain ⟨chunk', slot', generation'⟩ := k
  obtain ⟨rfl, rfl⟩ : generation = f.generation ∧ chunk = 0 := by
    rw [isLive, get?] at hlive
    by_contra hne
    rw [if_neg hne] at hlive
    cases hlive
  rw [get?, get?, Array.getElem?_modify]
  dsimp only
  split
  · next hk =>
    obtain ⟨rfl, rfl⟩ := hk
    by_cases hslot : slot = slot'
    · simp [hslot]
    · simp [hslot, Ne.symm hslot]
  · rfl

theorem bind_of_ok {α β : Type} {x : Edit α} {a : α} (hx : x f = .ok a f') (next : α → Edit β) :
    (x >>= next) f = next a f' := by
  show EStateM.bind x next f = _
  rw [EStateM.bind, hx]

theorem entry_of_links? (h : f.links? k = some l) : ∃ e, entry k f = .ok e f ∧ e.links = l := by
  obtain ⟨e, he, rfl⟩ := Option.map_eq_some_iff.1 h
  exact ⟨e, by rw [entry_eq, he]; rfl, rfl⟩

theorem discard_entry (hlive : f.isLive h) : discard (entry h) f = .ok () f := by
  obtain ⟨e, he⟩ := Option.isSome_iff_exists.1 hlive
  show EStateM.map _ (entry h) f = _
  rw [EStateM.map, entry_eq, he]
  rfl

/-- To change the links of a live node changes no others. -/
theorem relink_run (hlive : f.isLive h) (change : Links → Links) :
    ∃ f', relink h change f = .ok () f' ∧
      ∀ k, f'.links? k = (f.links? k).map fun l => if k = h then change l else l := by
  refine ⟨{ f with
    entries := f.entries.modify h.slot fun e => { e with links := change e.links } }, ?_, ?_⟩
  · exact bind_of_ok (discard_entry hlive) _
  · intro k
    rw [links?, get?_modify hlive, links?, Option.map_map, Option.map_map]
    refine Option.map_congr fun e _ => ?_
    show (if k = h then _ else e).links = if k = h then _ else e.links
    split <;> rfl

/-- To change a node changes no links. -/
theorem links?_of_modifyNode {change : Node → Node} (hrun : modifyNode h change f = .ok () f')
    (k : SlotHandle) : f'.links? k = f.links? k := by
  obtain ⟨_, f₁, hentry, hmodify⟩ := exists_of_bind hrun
  obtain ⟨hlive, rfl⟩ := get?_of_discard hentry
  injection hmodify with _ hf'
  rw [← hf', links?, get?_modify hlive, Option.map_map, links?]
  refine Option.map_congr fun e _ => ?_
  show (if k = h then _ else e).links = e.links
  split <;> rfl

/-- A new node has no links, and the others keep theirs. -/
theorem links?_of_alloc {kind : Kind} {location : Location} {span : Span}
    (hrun : alloc kind location span f = .ok h f') :
    ¬ f.isLive h ∧ f'.links? h = some {} ∧ ∀ {k}, k ≠ h → f'.links? k = f.links? k := by
  injection hrun with hh hf'
  refine ⟨?_, ?_, fun {k} hk => ?_⟩
  · rw [← hh, isLive, get?, if_pos ⟨rfl, rfl⟩]
    simp [handle]
  · rw [← hf', ← hh, links?, get?, if_pos ⟨rfl, rfl⟩]
    simp [handle]
  · rw [← hf', links?, links?, get?, get?]
    split
    · next hnames =>
      have hslot : k.slot ≠ f.entries.size := by
        rintro hslot
        refine hk (hh ▸ ?_)
        obtain ⟨chunk, slot, generation⟩ := k
        obtain ⟨rfl, rfl⟩ := hnames
        obtain rfl := hslot
        rfl
      rw [Array.getElem?_push, if_neg hslot]
    · rfl

theorem isLive_of_map {change : SlotHandle → Links → Links}
    (h : ∀ k, f'.links? k = (f.links? k).map (change k)) (k : SlotHandle) :
    f'.isLive k = f.isLive k := by
  rw [isLive_eq, isLive_eq, h, Option.isSome_map]

/-! ## What the edits do to the links -/

theorem addChild_run {d : Links} (hne : parent ≠ child) (hparent : f.links? parent = some l)
    (hchild : f.links? child = some d) (hdetached : d.parent = none ∧ d.nextSibling = none)
    (hlast : ∀ q, l.lastChild = some q → f.isLive q) :
    ∃ f', addChild parent child f = .ok () f' ∧
      ∀ k, f'.links? k = (f.links? k).map (Links.added parent child l.lastChild k) := by
  have hlive : f.isLive parent := isLive_iff.2 ⟨l, hparent⟩
  obtain ⟨e, hentry, rfl⟩ := entry_of_links? hchild
  obtain ⟨f₁, hrun₁, hlinks₁⟩ := relink_run (isLive_iff.2 ⟨_, hchild⟩)
    fun l => { l with parent := some parent }
  have hlive₁ := isLive_of_map hlinks₁
  have hparent₁ : f₁.links? parent = some l := by
    rw [hlinks₁, hparent, Option.map_some, if_neg hne]
  obtain ⟨e', hentry', rfl⟩ := entry_of_links? hparent₁
  unfold addChild
  rw [if_neg hne]
  cases hlastChild : e'.links.lastChild with
  | none =>
    obtain ⟨f₂, hrun₂, hlinks₂⟩ := relink_run ((hlive₁ parent).trans hlive) fun l =>
      { l with
        firstChild := l.firstChild.or (some child)
        lastChild := some child
        childCount := l.childCount + 1 }
    refine ⟨f₂, (bind_of_ok hentry _).trans ?_, fun k => ?_⟩
    · dsimp only
      rw [if_neg (by simp [hdetached])]
      refine (bind_of_ok hrun₁ _).trans ((bind_of_ok hentry' _).trans ?_)
      rw [hlastChild]
      exact hrun₂
    · rw [hlinks₂, hlinks₁, Option.map_map]
      refine Option.map_congr fun l _ => ?_
      simp only [Function.comp_apply, Links.added, reduceCtorEq, if_false]
      split_ifs <;> rfl
  | some q =>
    obtain ⟨f₂, hrun₂, hlinks₂⟩ := relink_run ((hlive₁ q).trans (hlast q hlastChild))
      fun l => { l with nextSibling := some child }
    have hlive₂ := isLive_of_map hlinks₂
    obtain ⟨f₃, hrun₃, hlinks₃⟩ := relink_run ((hlive₂ parent).trans ((hlive₁ parent).trans hlive))
      fun l => { l with
        firstChild := l.firstChild.or (some child)
        lastChild := some child
        childCount := l.childCount + 1 }
    refine ⟨f₃, (bind_of_ok hentry _).trans ?_, fun k => ?_⟩
    · dsimp only
      rw [if_neg (by simp [hdetached])]
      refine (bind_of_ok hrun₁ _).trans ((bind_of_ok hentry' _).trans ?_)
      rw [hlastChild]
      exact (bind_of_ok hrun₂ _).trans hrun₃
    · rw [hlinks₃, hlinks₂, hlinks₁, Option.map_map, Option.map_map]
      refine Option.map_congr fun l _ => ?_
      simp only [Function.comp_apply, Links.added, Option.some.injEq]
      split_ifs <;> rfl

theorem previousIn_append {before after : List SlotHandle} (h : child ∉ before)
    (first : Option SlotHandle) :
    previousIn child first (before ++ child :: after) = some (before.getLast?.or first) := by
  induction before generalizing first with
  | nil => exact if_pos rfl
  | cons q before ih =>
    rw [List.mem_cons, not_or] at h
    rw [List.cons_append, previousIn, if_neg (Ne.symm h.1), ih h.2, List.getLast?_cons]
    cases before.getLast? <;> rfl

/-- The link to a child is set to the next one, in the child before it or in the parent. -/
theorem relinkPrevious_run {previous : Option SlotHandle} (next : Option SlotHandle)
    (hparent : f.isLive parent) (hprevious : ∀ q, previous = some q → f.isLive q) :
    ∃ f', (match previous with
      | some h => relink h fun l => { l with nextSibling := next }
      | none => relink parent fun l => { l with firstChild := next }) f = .ok () f' ∧
      ∀ k, f'.links? k = (f.links? k).map fun l =>
        { l with
          firstChild := if k = parent ∧ previous = none then next else l.firstChild
          nextSibling := if some k = previous then next else l.nextSibling } := by
  cases previous with
  | none =>
    obtain ⟨f', hrun, hlinks⟩ := relink_run hparent fun l => { l with firstChild := next }
    refine ⟨f', hrun, fun k => ?_⟩
    rw [hlinks]
    refine Option.map_congr fun l _ => ?_
    simp only [reduceCtorEq, if_false, and_true]
    split_ifs <;> rfl
  | some q =>
    obtain ⟨f', hrun, hlinks⟩ := relink_run (hprevious q rfl)
      fun l => { l with nextSibling := next }
    refine ⟨f', hrun, fun k => ?_⟩
    rw [hlinks]
    refine Option.map_congr fun l _ => ?_
    simp only [Option.some.injEq, reduceCtorEq, if_false, and_false]
    split_ifs <;> rfl

theorem removeChild_run {before after : List SlotHandle} {d : Links}
    (hparent : f.isLive parent) (hchild : f.links? child = some d)
    (hchildren : f.children parent = before ++ child :: after) (hnot : child ∉ before)
    (hprevious : ∀ q, before.getLast? = some q → f.isLive q) :
    ∃ f', removeChild parent child f = .ok () f' ∧ ∀ k, f'.links? k =
      (f.links? k).map (Links.removed parent child before.getLast? d.nextSibling k) := by
  have hlive : f.isLive child := isLive_iff.2 ⟨d, hchild⟩
  have hfound : previousIn child none (f.children parent) = some before.getLast? := by
    rw [hchildren, previousIn_append hnot, Option.or_none]
  generalize before.getLast? = previous at hprevious hfound ⊢
  obtain ⟨e, hentry, rfl⟩ := entry_of_links? hchild
  obtain ⟨f₁, hrun₁, hlinks₁⟩ := relinkPrevious_run e.links.nextSibling hparent hprevious
  have hlive₁ := isLive_of_map hlinks₁
  obtain ⟨f₂, hrun₂, hlinks₂⟩ := relink_run ((hlive₁ parent).trans hparent) fun l =>
    { l with
      lastChild := if l.lastChild = some child then previous else l.lastChild
      childCount := l.childCount - 1 }
  have hlive₂ := isLive_of_map hlinks₂
  obtain ⟨f₃, hrun₃, hlinks₃⟩ := relink_run ((hlive₂ child).trans ((hlive₁ child).trans hlive))
    fun l => { l with parent := none, nextSibling := none }
  refine ⟨f₃, ?_, fun k => ?_⟩
  · unfold removeChild
    refine (bind_of_ok (discard_entry hparent) _).trans ?_
    refine (bind_of_ok (x := (get : Edit Forest)) (a := f) rfl _).trans ?_
    rw [hfound]
    refine (bind_of_ok hentry _).trans ?_
    cases previous with
    | none => exact (bind_of_ok hrun₁ _).trans ((bind_of_ok hrun₂ _).trans hrun₃)
    | some q => exact (bind_of_ok hrun₁ _).trans ((bind_of_ok hrun₂ _).trans hrun₃)
  · rw [hlinks₃, hlinks₂, hlinks₁, Option.map_map, Option.map_map]
    refine Option.map_congr fun l _ => ?_
    simp only [Function.comp_apply, Links.removed, ite_and]
    split_ifs <;> rfl

end Forest

end SqlSyntax
