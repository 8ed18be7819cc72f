import SqlSyntax.Proofs.Children.Links
import SqlSyntax.Proofs.Walks

/-!
# Lists of children with strays

A forest keeps for each node the list of its children, but as links: in the node the first and the
last child and how many there are, in each child the parent and the next sibling. `Links.Fits` says
of some lists that the links of a node are the ones that they make.

A node that names a parent and is in no list of children is a stray. `Forest.NearlyLists` says of
some lists that all links are the ones that they make, but for the parents of strays. Then the
children are these lists (`Forest.NearlyLists.children_eq`). To append a child and to take one away
do to the links what they do to the lists.
-/

namespace SqlSyntax

/-! ## Places in a list -/

section

variable {α : Type} {x y : α} {xs before between after : List α}

theorem not_mem_of_nodup_middle (h : (before ++ x :: after).Nodup) : x ∉ before ∧ x ∉ after := by
  have h := (List.nodup_cons.1 (List.nodup_middle.1 h)).1
  rwa [List.mem_append, not_or] at h

/-- In a list with one more item, an item is that one or has its place in the list. -/
theorem concat_eq_middle (h : xs ++ [y] = before ++ x :: after) :
    (xs = before ∧ y = x ∧ after = []) ∨
      ∃ between, xs = before ++ x :: between ∧ after = between ++ [y] := by
  rcases List.eq_nil_or_concat after with rfl | ⟨between, last, rfl⟩
  · obtain ⟨hxs, hy⟩ := List.append_inj' h rfl
    exact .inl ⟨hxs, by simpa using hy, rfl⟩
  · rw [List.concat_eq_append] at h ⊢
    rw [← List.cons_append, ← List.append_assoc] at h
    obtain ⟨hxs, hy⟩ := List.append_inj' h rfl
    exact .inr ⟨between, hxs, by rw [hy]⟩

/-- An item of two lists has its place in the second or in the first. -/
theorem append_eq_middle {first last : List α} (h : before ++ after = first ++ x :: last) :
    (∃ between, first = before ++ between ∧ after = between ++ x :: last) ∨
      ∃ between, before = first ++ x :: between ∧ last = between ++ after := by
  rcases List.append_eq_append_iff.1 h with ⟨between, hfirst, hafter⟩ | ⟨more, hbefore, hlast⟩
  · exact .inl ⟨between, hfirst, hafter⟩
  · rcases more with _ | ⟨y, between⟩
    · exact .inl ⟨[], by rw [hbefore, List.append_nil, List.append_nil], hlast.symm⟩
    · obtain ⟨rfl, hrest⟩ := List.cons.inj hlast
      exact .inr ⟨between, hbefore, hrest⟩

/-- An item of a list without repetitions is the last one where nothing is behind it. -/
theorem getLast?_eq_self_iff (h : (before ++ x :: after).Nodup) :
    some x = (before ++ x :: after).getLast? ↔ after = [] := by
  rcases List.eq_nil_or_concat after with rfl | ⟨between, last, rfl⟩
  · rw [List.getLast?_concat]
    exact iff_of_true rfl rfl
  · have hx := (not_mem_of_nodup_middle h).2
    rw [List.concat_eq_append] at hx ⊢
    rw [← List.cons_append, ← List.append_assoc, List.getLast?_concat, Option.some.injEq]
    refine iff_of_false (fun hlast => hx ?_) (by simp)
    exact hlast ▸ List.mem_append_right _ List.mem_cons_self

end

/-! ## Links that make lists -/

/-- The links of a node are the ones that some lists of children make. -/
structure Links.Fits (ls : SlotHandle → List SlotHandle) (h : SlotHandle) (l : Links) : Prop where
  firstChild : l.firstChild = (ls h).head?
  lastChild : l.lastChild = (ls h).getLast?
  childCount : l.childCount = (ls h).length
  attached : ∀ {p before after}, ls p = before ++ h :: after →
    l.parent = some p ∧ l.nextSibling = after.head?
  detached : (∀ p, h ∉ ls p) → l.parent = none ∧ l.nextSibling = none

namespace Links.Fits

variable {parent child h : SlotHandle} {l : Links} {ls : SlotHandle → List SlotHandle}

/-- A node without links has no children and is in no list. -/
theorem fresh (hempty : ls h = []) (hfree : ∀ p, h ∉ ls p) : Fits ls h {} where
  firstChild := by rw [hempty]; rfl
  lastChild := by rw [hempty]; rfl
  childCount := by rw [hempty]; rfl
  attached heq := absurd (heq ▸ List.mem_append_right _ List.mem_cons_self) (hfree _)
  detached _ := ⟨rfl, rfl⟩

theorem added (hl : l.Fits ls h) (hfree : ∀ p, child ∉ ls p) (hnodup : (ls parent).Nodup)
    (hunique : ∀ {p}, h ∈ ls p → h ∈ ls parent → p = parent) :
    (l.added parent child (ls parent).getLast? h).Fits
      (Function.update ls parent (ls parent ++ [child])) h where
  firstChild := by
    show (if h = parent then l.firstChild.or (some child) else l.firstChild) = _
    split
    · next hp =>
      rw [hp, Function.update_self, hl.firstChild, hp, List.head?_append]
      rfl
    · next hp => rw [Function.update_of_ne hp, hl.firstChild]
  lastChild := by
    show (if h = parent then some child else l.lastChild) = _
    split
    · next hp => rw [hp, Function.update_self, List.getLast?_concat]
    · next hp => rw [Function.update_of_ne hp, hl.lastChild]
  childCount := by
    show (if h = parent then l.childCount + 1 else l.childCount) = _
    split
    · next hp =>
      rw [hp, Function.update_self, hl.childCount, hp, List.length_append, List.length_singleton]
    · next hp => rw [Function.update_of_ne hp, hl.childCount]
  attached {p before after} heq := by
    show (if h = child then some parent else l.parent) = _ ∧
      (if some h = (ls parent).getLast? then some child else l.nextSibling) = _
    by_cases hp : p = parent
    · subst hp
      rw [Function.update_self] at heq
      rcases concat_eq_middle heq with ⟨rfl, rfl, rfl⟩ | ⟨between, hls, rfl⟩
      · rw [if_pos rfl, if_neg fun hlast => hfree _ (List.mem_of_getLast? hlast.symm)]
        exact ⟨rfl, (hl.detached hfree).2⟩
      · obtain ⟨hparent, hnext⟩ := hl.attached hls
        have hne : h ≠ child := by
          rintro rfl
          exact hfree p (hls ▸ List.mem_append_right _ List.mem_cons_self)
        rw [hls] at hnodup ⊢
        simp only [if_neg hne, hparent, hnext, getLast?_eq_self_iff hnodup]
        cases between <;> simp
    · rw [Function.update_of_ne hp] at heq
      have hmem : h ∈ ls p := heq ▸ List.mem_append_right _ List.mem_cons_self
      have hne : h ≠ child := by
        rintro rfl
        exact hfree p hmem
      rw [if_neg hne, if_neg fun hlast => hp (hunique hmem (List.mem_of_getLast? hlast.symm))]
      exact hl.attached heq
  detached hfree' := by
    show (if h = child then some parent else l.parent) = _ ∧
      (if some h = (ls parent).getLast? then some child else l.nextSibling) = _
    have hparent := hfree' parent
    rw [Function.update_self, List.mem_append, List.mem_singleton, not_or] at hparent
    rw [if_neg hparent.2, if_neg fun hlast => hparent.1 (List.mem_of_getLast? hlast.symm)]
    refine hl.detached fun p hmem => ?_
    by_cases hp : p = parent
    · exact hparent.1 (hp ▸ hmem)
    · exact hfree' p (by rwa [Function.update_of_ne hp])

theorem removed {before after : List SlotHandle} (hl : l.Fits ls h)
    (hls : ls parent = before ++ child :: after) (hnodup : (ls parent).Nodup)
    (hunique : ∀ {p}, h ∈ ls p → h ∈ ls parent → p = parent) :
    (l.removed parent child before.getLast? after.head? h).Fits
      (Function.update ls parent (before ++ after)) h where
  firstChild := by
    show (if h = parent ∧ before.getLast? = none then after.head? else l.firstChild) = _
    by_cases hp : h = parent
    · subst hp
      rw [Function.update_self, hl.firstChild, hls]
      cases before <;> simp
    · rw [Function.update_of_ne hp, if_neg fun h => hp h.1, hl.firstChild]
  lastChild := by
    show (if h = parent ∧ l.lastChild = some child then before.getLast? else l.lastChild) = _
    by_cases hp : h = parent
    · subst hp
      rw [Function.update_self, hl.lastChild, hls]
      rw [hls] at hnodup
      simp only [eq_comm (b := some child), getLast?_eq_self_iff hnodup]
      cases after <;> simp
    · rw [Function.update_of_ne hp, if_neg fun h => hp h.1, hl.lastChild]
  childCount := by
    show (if h = parent then l.childCount - 1 else l.childCount) = _
    split
    · next hp =>
      rw [hp, Function.update_self, hl.childCount, hp, hls, List.length_append, List.length_append,
        List.length_cons]
      omega
    · next hp => rw [Function.update_of_ne hp, hl.childCount]
  attached {p first last} heq := by
    show (if h = child then none else l.parent) = _ ∧
      (if h = child then none else if some h = before.getLast? then after.head?
        else l.nextSibling) = _
    by_cases hp : p = parent
    · subst hp
      rw [Function.update_self] at heq
      rw [hls] at hnodup
      rcases append_eq_middle heq with ⟨between, rfl, rfl⟩ | ⟨between, rfl, rfl⟩
      · have hplace : ls p = (before ++ child :: between) ++ h :: last := by
          rw [hls, List.append_assoc, List.cons_append]
        have hnot : h ∉ before ++ child :: between := by
          rw [← hls, hplace] at hnodup
          exact (not_mem_of_nodup_middle hnodup).1
        rw [List.mem_append, List.mem_cons, not_or, not_or] at hnot
        rw [if_neg hnot.2.1, if_neg hnot.2.1,
          if_neg fun hlast => hnot.1 (List.mem_of_getLast? hlast.symm)]
        exact hl.attached hplace
      · have hplace : ls p = first ++ h :: (between ++ child :: after) := by
          rw [hls, List.append_assoc, List.cons_append]
        have hne : h ≠ child := by
          rintro rfl
          exact (not_mem_of_nodup_middle hnodup).1
            (List.mem_append_right _ List.mem_cons_self)
        have hbefore : (first ++ h :: between).Nodup := hnodup.of_append_left
        obtain ⟨hparent, hnext⟩ := hl.attached hplace
        simp only [if_neg hne, hparent, hnext, getLast?_eq_self_iff hbefore]
        cases between <;> simp
    · rw [Function.update_of_ne hp] at heq
      have hmem : h ∈ ls p := heq ▸ List.mem_append_right _ List.mem_cons_self
      have hnot : h ∉ ls parent := fun h => hp (hunique hmem h)
      rw [hls, List.mem_append, List.mem_cons, not_or, not_or] at hnot
      rw [if_neg hnot.2.1, if_neg hnot.2.1,
        if_neg fun hlast => hnot.1 (List.mem_of_getLast? hlast.symm)]
      exact hl.attached heq
  detached hfree := by
    show (if h = child then none else l.parent) = _ ∧
      (if h = child then none else if some h = before.getLast? then after.head?
        else l.nextSibling) = _
    by_cases hh : h = child
    · rw [if_pos hh, if_pos hh]
      exact ⟨rfl, rfl⟩
    · have hparent := hfree parent
      rw [Function.update_self, List.mem_append, not_or] at hparent
      rw [if_neg hh, if_neg hh, if_neg fun hlast => hparent.1 (List.mem_of_getLast? hlast.symm)]
      refine hl.detached fun p hmem => ?_
      by_cases hp : p = parent
      · rw [hp, hls, List.mem_append, List.mem_cons] at hmem
        tauto
      · exact hfree p (by rwa [Function.update_of_ne hp])

end Links.Fits

/-- The links fit, but for the parent of a node that is in no list. -/
def Links.NearlyFits (ls : SlotHandle → List SlotHandle) (h : SlotHandle) (l : Links) : Prop :=
  ∃ p, Fits ls h { l with parent := p } ∧ (p = l.parent ∨ ∀ q, h ∉ ls q)

namespace Links.NearlyFits

variable {parent child h : SlotHandle} {l : Links} {ls : SlotHandle → List SlotHandle}

theorem of_fits (hl : l.Fits ls h) : l.NearlyFits ls h := ⟨l.parent, hl, .inl rfl⟩

/-- The parent of a node that is in no list may be any. -/
theorem stray (hl : l.NearlyFits ls h) (hfree : ∀ q, h ∉ ls q) (p : Option SlotHandle) :
    NearlyFits ls h { l with parent := p } := by
  obtain ⟨p, hfits, -⟩ := hl
  exact ⟨p, hfits, .inr hfree⟩

theorem added (hl : l.NearlyFits ls h) (hfree : ∀ p, child ∉ ls p) (hnodup : (ls parent).Nodup)
    (hunique : ∀ {p}, h ∈ ls p → h ∈ ls parent → p = parent) :
    (l.added parent child (ls parent).getLast? h).NearlyFits
      (Function.update ls parent (ls parent ++ [child])) h := by
  obtain ⟨p, hfits, hp⟩ := hl
  refine ⟨if h = child then some parent else p, hfits.added hfree hnodup hunique, ?_⟩
  show (if h = child then some parent else p) = (if h = child then some parent else l.parent) ∨ _
  by_cases hchild : h = child
  · exact .inl (by rw [if_pos hchild, if_pos hchild])
  rw [if_neg hchild, if_neg hchild]
  refine hp.imp_right fun hno q hmem => ?_
  by_cases hq : q = parent
  · rw [hq, Function.update_self, List.mem_append, List.mem_singleton] at hmem
    exact hmem.elim (hno parent) hchild
  · exact hno q (by rwa [Function.update_of_ne hq] at hmem)

theorem removed {before after : List SlotHandle} (hl : l.NearlyFits ls h)
    (hls : ls parent = before ++ child :: after) (hnodup : (ls parent).Nodup)
    (hunique : ∀ {p}, h ∈ ls p → h ∈ ls parent → p = parent) :
    (l.removed parent child before.getLast? after.head? h).NearlyFits
      (Function.update ls parent (before ++ after)) h := by
  obtain ⟨p, hfits, hp⟩ := hl
  refine ⟨if h = child then none else p, hfits.removed hls hnodup hunique, ?_⟩
  refine hp.imp (fun heq => ?_) fun hno q hmem => ?_
  · rw [heq]
    rfl
  · by_cases hq : q = parent
    · rw [hq, Function.update_self, List.mem_append] at hmem
      refine hno parent ?_
      rw [hls, List.mem_append, List.mem_cons]
      tauto
    · exact hno q (by rwa [Function.update_of_ne hq] at hmem)

end Links.NearlyFits

/-- The links of a forest are the ones that some lists of children make, but for strays. -/
structure Forest.NearlyLists (f : Forest) (ls : SlotHandle → List SlotHandle) : Prop where
  live : ∀ {p c}, c ∈ ls p → f.isLive p ∧ f.isLive c
  nodup : ∀ p, (ls p).Nodup
  fits : ∀ {h l}, f.links? h = some l → l.NearlyFits ls h

namespace Forest.NearlyLists

variable {f f' : Forest} {parent child h p q c : SlotHandle} {l : Links}
  {ls : SlotHandle → List SlotHandle}

theorem parent_eq (hf : f.NearlyLists ls) (hc : c ∈ ls p) (hl : f.links? c = some l) :
    l.parent = some p := by
  obtain ⟨before, after, heq⟩ := List.append_of_mem hc
  obtain ⟨q, hfits, hq⟩ := hf.fits hl
  have hparent : q = l.parent := hq.resolve_right fun hno => hno p hc
  exact hparent ▸ (hfits.attached heq).1

theorem nextSibling_eq (hf : f.NearlyLists ls) {before after : List SlotHandle}
    (heq : ls p = before ++ c :: after) (hl : f.links? c = some l) :
    l.nextSibling = after.head? := by
  obtain ⟨q, hfits, -⟩ := hf.fits hl
  exact (hfits.attached heq).2

theorem firstChild_eq (hf : f.NearlyLists ls) (hl : f.links? p = some l) :
    l.firstChild = (ls p).head? := by
  obtain ⟨q, hfits, -⟩ := hf.fits hl
  exact hfits.firstChild

theorem lastChild_eq (hf : f.NearlyLists ls) (hl : f.links? p = some l) :
    l.lastChild = (ls p).getLast? := by
  obtain ⟨q, hfits, -⟩ := hf.fits hl
  exact hfits.lastChild

/-- A node is in one list at most. -/
theorem unique (hf : f.NearlyLists ls) (hp : c ∈ ls p) (hq : c ∈ ls q) : p = q := by
  obtain ⟨l, hl⟩ := isLive_iff.1 (hf.live hp).2
  exact Option.some.inj ((hf.parent_eq hp hl).symm.trans (hf.parent_eq hq hl))

theorem not_mem_of_parent_eq_none (hf : f.NearlyLists ls) (hl : f.links? c = some l)
    (hnone : l.parent = none) (p : SlotHandle) : c ∉ ls p := by
  intro hc
  rw [hf.parent_eq hc hl] at hnone
  cases hnone

theorem live_update (hf : f.NearlyLists ls) (hlive : ∀ k, f'.isLive k = f.isLive k)
    {cs : List SlotHandle} (hcs : ∀ c ∈ cs, f.isLive parent ∧ f.isLive c) {p c : SlotHandle}
    (hc : c ∈ Function.update ls parent cs p) : f'.isLive p ∧ f'.isLive c := by
  rw [hlive, hlive]
  by_cases hp : p = parent
  · rw [hp, Function.update_self] at hc
    rw [hp]
    exact hcs c hc
  · rw [Function.update_of_ne hp] at hc
    exact hf.live hc

theorem nodup_update (hf : f.NearlyLists ls) {cs : List SlotHandle} (hcs : cs.Nodup)
    (p : SlotHandle) : (Function.update ls parent cs p).Nodup := by
  by_cases hp : p = parent
  · rwa [hp, Function.update_self]
  · rw [Function.update_of_ne hp]
    exact hf.nodup p

/-! ## Children -/

/-- From a place in a list on, the next siblings are the rest of the list. -/
theorem chain_of_eq (hf : f.NearlyLists ls) : ∀ before {after : List SlotHandle},
    ls p = before ++ after → f.Chain after.head? after
  | _, [], _ => .stop
  | before, c :: after, heq => by
    have hc : c ∈ ls p := heq ▸ List.mem_append_right _ List.mem_cons_self
    obtain ⟨l, hl⟩ := isLive_iff.1 (hf.live hc).2
    obtain ⟨e, he, rfl⟩ := Option.map_eq_some_iff.1 hl
    refine .next he ?_
    rw [hf.nextSibling_eq heq hl]
    exact hf.chain_of_eq (before ++ [c]) (by rw [heq, List.append_assoc]; rfl)

theorem chain (hf : f.NearlyLists ls) {e : Entry} (he : f.get? p = some e) :
    f.Chain e.links.firstChild (ls p) := by
  have hl : f.links? p = some e.links := by rw [links?, he]; rfl
  rw [hf.firstChild_eq hl]
  exact hf.chain_of_eq [] rfl

/-- The children of a node are its list. -/
theorem children_eq (hf : f.NearlyLists ls) (p : SlotHandle) : f.children p = ls p := by
  cases he : f.get? p with
  | some e =>
    exact (hf.chain he).children_eq he (length_le_of_live (hf.nodup p) fun hc => (hf.live hc).2)
  | none =>
    have hempty : ls p = [] := by
      refine List.eq_nil_iff_forall_not_mem.2 fun c hc => ?_
      have hlive := (hf.live hc).1
      rw [isLive, he] at hlive
      cases hlive
    rw [children, he, hempty]
    unfold siblings
    cases f.entries.size <;> rfl

/-! ## Edits that are made -/

/-- A child that has neither parent nor sibling can be appended. -/
theorem addChild {d : Links} (hf : f.NearlyLists ls) (hne : parent ≠ child)
    (hparent : f.isLive parent) (hd : f.links? child = some d)
    (hdetached : d.parent = none ∧ d.nextSibling = none) :
    ∃ f', addChild parent child f = .ok () f' ∧
      f'.NearlyLists (Function.update ls parent (ls parent ++ [child])) ∧
      ∀ k, f'.links? k = (f.links? k).map (Links.added parent child (ls parent).getLast? k) := by
  have hfree := hf.not_mem_of_parent_eq_none hd hdetached.1
  obtain ⟨l, hl⟩ := isLive_iff.1 hparent
  have hlast := hf.lastChild_eq hl
  obtain ⟨f', hrun, hlinks⟩ := addChild_run hne hl hd hdetached fun q hq =>
    (hf.live (List.mem_of_getLast? (hlast ▸ hq))).2
  rw [hlast] at hlinks
  refine ⟨f', hrun, ⟨hf.live_update (isLive_of_map hlinks) fun c hc => ?_, hf.nodup_update ?_,
    fun {h l'} hl' => ?_⟩, hlinks⟩
  · rcases List.mem_append.1 hc with hc | hc
    · exact hf.live hc
    · exact ⟨hparent, isLive_iff.2 ⟨d, List.mem_singleton.1 hc ▸ hd⟩⟩
  · refine (hf.nodup parent).append (List.nodup_singleton _) fun c hc hc' => ?_
    exact hfree parent (List.mem_singleton.1 hc' ▸ hc)
  · rw [hlinks] at hl'
    obtain ⟨l, hl, rfl⟩ := Option.map_eq_some_iff.1 hl'
    exact (hf.fits hl).added hfree (hf.nodup parent) hf.unique

/-- A child can be taken out of its list. -/
theorem removeChild (hf : f.NearlyLists ls) (hchild : child ∈ ls parent) :
    ∃ f' before after, removeChild parent child f = .ok () f' ∧
      ls parent = before ++ child :: after ∧ (ls parent).erase child = before ++ after ∧
      f'.NearlyLists (Function.update ls parent (before ++ after)) ∧
      ∀ k, f'.links? k =
        (f.links? k).map (Links.removed parent child before.getLast? after.head? k) := by
  obtain ⟨hparent, hlive⟩ := hf.live hchild
  obtain ⟨d, hd⟩ := isLive_iff.1 hlive
  obtain ⟨before, after, heq⟩ := List.append_of_mem hchild
  have hnodup := hf.nodup parent
  rw [heq] at hnodup
  have hnot := (not_mem_of_nodup_middle hnodup).1
  have herase : (ls parent).erase child = before ++ after := by
    rw [heq, List.erase_append_right _ hnot, List.erase_cons_head]
  have hsub : ∀ c ∈ before ++ after, c ∈ ls parent := fun c hc =>
    List.mem_of_mem_erase (herase ▸ hc)
  obtain ⟨f', hrun, hlinks⟩ := removeChild_run hparent hd ((hf.children_eq parent).trans heq) hnot
    fun q hq => (hf.live (hsub q (List.mem_append_left _ (List.mem_of_getLast? hq)))).2
  rw [hf.nextSibling_eq heq hd] at hlinks
  refine ⟨f', before, after, hrun, heq, herase,
    ⟨hf.live_update (isLive_of_map hlinks) fun c hc => hf.live (hsub c hc),
      hf.nodup_update (herase ▸ (hf.nodup parent).erase child), fun {h l'} hl' => ?_⟩, hlinks⟩
  rw [hlinks] at hl'
  obtain ⟨l, hl, rfl⟩ := Option.map_eq_some_iff.1 hl'
  exact (hf.fits hl).removed heq (hf.nodup parent) hf.unique

/-- An edit that changes no links but the parent of a stray changes no lists. -/
theorem congr (hf : f.NearlyLists ls) (hfree : ∀ p, child ∉ ls p) {o : Option SlotHandle}
    (hlinks : ∀ k, f'.links? k =
      (f.links? k).map fun l => if k = child then { l with parent := o } else l) :
    f'.NearlyLists ls := by
  have hlive := isLive_of_map hlinks
  refine ⟨fun hc => ?_, hf.nodup, fun {k l'} hl' => ?_⟩
  · rw [hlive, hlive]
    exact hf.live hc
  · rw [hlinks] at hl'
    obtain ⟨l, hl, rfl⟩ := Option.map_eq_some_iff.1 hl'
    by_cases hk : k = child
    · rw [if_pos hk]
      exact (hf.fits hl).stray (hk ▸ hfree) o
    · rw [if_neg hk]
      exact hf.fits hl

theorem of_links?_eq (hf : f.NearlyLists ls) (hlinks : ∀ k, f'.links? k = f.links? k) :
    f'.NearlyLists ls := by
  refine ⟨fun hc => ?_, hf.nodup, fun hl => hf.fits (hlinks _ ▸ hl)⟩
  rw [isLive_eq, isLive_eq, hlinks, hlinks, ← isLive_eq, ← isLive_eq]
  exact hf.live hc

/-- A new node has no children and is in no list, and no other links are changed. -/
theorem links?_of_alloc (hf : f.NearlyLists ls) {kind : Kind} {location : Location} {span : Span}
    (hrun : Forest.alloc kind location span f = .ok h f') (hl : f'.links? c = some l) :
    f.links? c = some l ∨ l = {} ∧ ls c = [] ∧ ∀ p, c ∉ ls p := by
  obtain ⟨hstale, hnew, hold⟩ := Forest.links?_of_alloc hrun
  by_cases hc : c = h
  · rw [hc, hnew] at hl
    rw [hc]
    exact .inr ⟨(Option.some.inj hl).symm,
      List.eq_nil_iff_forall_not_mem.2 fun d hd => hstale (hf.live hd).1,
      fun p hp => hstale (hf.live hp).2⟩
  · exact .inl (hold hc ▸ hl)

theorem alloc (hf : f.NearlyLists ls) {kind : Kind} {location : Location} {span : Span}
    (hrun : Forest.alloc kind location span f = .ok h f') : f'.NearlyLists ls := by
  obtain ⟨hstale, -, hold⟩ := Forest.links?_of_alloc hrun
  have hlive {c : SlotHandle} (hc : f.isLive c) : f'.isLive c := by
    rwa [isLive_eq, hold fun heq => hstale (heq ▸ hc), ← isLive_eq]
  refine ⟨fun hc => ?_, hf.nodup, fun {k l} hl => ?_⟩
  · obtain ⟨hp, hc⟩ := hf.live hc
    exact ⟨hlive hp, hlive hc⟩
  · rcases hf.links?_of_alloc hrun hl with hl | ⟨rfl, hempty, hfree⟩
    · exact hf.fits hl
    · exact .of_fits (.fresh hempty hfree)

end Forest.NearlyLists

end SqlSyntax
