import SqlSyntax.Proofs.Preorder

/-!
# Ancestors

The ancestors of a node are its parent and what that has as ancestors. To append a child is refused
where the child is its own parent, but not where the child is an ancestor of the parent further up.
Such a call makes the child its own ancestor, and the walk from it never ends. Nothing else does: as
long as no node is appended to one of its descendants, no node is its own ancestor
(`Forest.calls_keep_acyclic_iff`).
-/

namespace SqlSyntax

namespace Forest

variable {f f' : Forest} {ls : SlotHandle → List SlotHandle} {a c h p x y : SlotHandle}

/-- What the links of a live node name as its parent. -/
def parent? (f : Forest) (h : SlotHandle) : Option SlotHandle := (f.links? h).bind (·.parent)

/-- The first node is the parent of the second one, or the parent of an ancestor of it. -/
def IsAncestor (f : Forest) (a h : SlotHandle) : Prop :=
  Relation.TransGen (fun c p => f.parent? c = some p) h a

/-- No node is its own ancestor. -/
def IsAcyclic (f : Forest) : Prop := ∀ h, ¬ f.IsAncestor h h

/-- The walk from a node comes to its end. -/
def WalkEnds (f : Forest) (h : SlotHandle) : Prop :=
  ∃ limit hs, (Walk.start h).run? f limit = some hs

/-! ## Ancestors and lists of children -/

theorem Lists.isChild_iff (hf : f.Lists ls) : f.IsChild c p ↔ f.parent? c = some p := by
  rw [IsChild, hf.children_eq, hf.hasChildren.mem_iff, parent?, links?, Option.bind_map,
    Option.bind_eq_some_iff]
  rfl

theorem Lists.isAncestor_iff (hf : f.Lists ls) : f.IsAncestor a h ↔ f.Below h a := by
  have hparent : f.IsChild = fun c p => f.parent? c = some p :=
    funext₂ fun _ _ => propext hf.isChild_iff
  rw [IsAncestor, Below, hparent]

theorem live_of_isAncestor (h : f.IsAncestor a x) : f.isLive x := by
  obtain ⟨p, hp, -⟩ := Relation.TransGen.head'_iff.1 h
  obtain ⟨l, hl, -⟩ := Option.bind_eq_some_iff.1 hp
  exact isLive_iff.2 ⟨l, hl⟩

theorem Lists.isAcyclic_iff (hf : f.Lists ls) : f.IsAcyclic ↔ ∀ h, ¬ f.Below h h :=
  forall_congr' fun _ => not_congr hf.isAncestor_iff

/-! ## Walks that end -/

namespace PreorderAt

variable {level : Nat} {hs hs' : List SlotHandle} {steps : List (Nat × SlotHandle)}

theorem of_append (hp : f.PreorderAt level (hs ++ hs') steps) :
    (∃ steps, f.PreorderAt level hs steps) ∧ ∃ steps, f.PreorderAt level hs' steps := by
  induction hs generalizing steps with
  | nil => exact ⟨⟨[], .nil⟩, steps, hp⟩
  | cons h hs ih =>
    rcases hp with _ | ⟨hbelow, hrest⟩
    obtain ⟨⟨steps, hsteps⟩, hsteps'⟩ := ih hrest
    exact ⟨⟨_, .cons hbelow hsteps⟩, hsteps'⟩

theorem at_level (hp : f.PreorderAt level hs steps) (other : Nat) :
    ∃ steps, f.PreorderAt other hs steps := by
  induction hp generalizing other with
  | nil => exact ⟨[], .nil⟩
  | cons _ _ ih ih' =>
    obtain ⟨below, hbelow⟩ := ih (other + 1)
    obtain ⟨rest, hrest⟩ := ih' other
    exact ⟨_, .cons hbelow hrest⟩

/-- A node that has a preorder by recursion is not below itself. -/
theorem acyclicFrom (hp : f.PreorderAt level hs steps) : ∀ h ∈ hs, f.AcyclicFrom h := by
  induction hp with
  | nil => exact List.forall_mem_nil _
  | cons _ _ ih ih' =>
    refine List.forall_mem_cons.2 ⟨fun x hx hxx => ?_, ih'⟩
    rcases within_iff.1 hx with rfl | ⟨c, hc, hxc⟩
    · obtain ⟨c, hc, hxc⟩ := below_iff.1 hxx
      exact ih c hc x hxc hxx
    · exact ih c hc x hxc hxx

end PreorderAt

/-- What is to come of a walk that ends has a preorder by recursion. -/
theorem Walk.exists_preorderAt {limit : Nat} {w : Walk} {hs : List SlotHandle}
    (hrun : w.run? f limit = some hs) : ∃ steps, f.PreorderAt 0 w.pending steps := by
  induction limit generalizing w hs with
  | zero =>
    rcases hw : w.pending with _ | ⟨h, more⟩
    · exact ⟨[], .nil⟩
    · obtain ⟨w', hnext, -⟩ := Walk.next?_of_cons (f := f) hw
      rw [Walk.run?.eq_def, hnext] at hrun
      cases hrun
  | succ limit ih =>
    rcases hw : w.pending with _ | ⟨h, more⟩
    · exact ⟨[], .nil⟩
    · obtain ⟨w', hnext, hw'⟩ := Walk.next?_of_cons (f := f) hw
      rw [Walk.run?_of_next hnext] at hrun
      obtain ⟨hs', hrun', -⟩ := Option.map_eq_some_iff.1 hrun
      obtain ⟨steps, hp⟩ := ih hrun'
      rw [hw'] at hp
      obtain ⟨⟨below, hbelow⟩, rest, hrest⟩ := hp.of_append
      obtain ⟨below, hbelow⟩ := hbelow.at_level 1
      exact ⟨_, .cons hbelow hrest⟩

theorem walkEnds_iff (hf : f.NearlyLists ls) : f.WalkEnds h ↔ f.AcyclicFrom h := by
  constructor
  · rintro ⟨limit, hs, hrun⟩
    obtain ⟨steps, hp⟩ := Walk.exists_preorderAt hrun
    exact hp.acyclicFrom h (List.mem_singleton_self h)
  · intro hh
    obtain ⟨steps, hp⟩ := hh.exists_preorderAt hf 0
    exact ⟨_, _, Walk.run?_start hp 0⟩

theorem Lists.isAcyclic_iff_walkEnds (hf : f.Lists ls) :
    f.IsAcyclic ↔ ∀ h, f.isLive h → f.WalkEnds h := by
  simp only [walkEnds_iff hf.nearly]
  rw [hf.isAcyclic_iff]
  constructor
  · exact fun hall h _ x _ => hall x
  · intro hall h hh
    exact hall h (hf.nearly.live_of_below hh) h .refl hh

/-! ## What a call does to ancestors -/

/-- With one more child there is a new way only over that child to its parent. -/
theorem below_of_added (hadded : ∀ {x y}, f'.IsChild x y → f.IsChild x y ∨ x = c ∧ y = p)
    (h : f'.Below x y) : f.Below x y ∨ f.Within x c ∧ f.Within p y := by
  induction h with
  | single h =>
    rcases hadded h with h | ⟨rfl, rfl⟩
    · exact .inl (.single h)
    · exact .inr ⟨.refl, .refl⟩
  | tail _ h ih =>
    rcases hadded h with h | ⟨rfl, rfl⟩
    · exact ih.imp (·.tail h) fun ⟨hx, hp⟩ => ⟨hx, hp.tail h⟩
    · refine .inr ⟨?_, .refl⟩
      exact ih.elim Relation.TransGen.to_reflTransGen And.left

/-- To append a child makes a node its own ancestor if and only if the child is an ancestor of the
new parent. -/
theorem Lists.acyclic_addChild_iff (hf : f.Lists ls) (hacyclic : f.IsAcyclic)
    (hrun : Forest.addChild p c f = .ok () f') : f'.IsAcyclic ↔ ¬ f.IsAncestor c p := by
  have hf' : f'.Lists (Function.update ls p (ls p ++ [c])) :=
    hf.call (show Call.edit (.addChild p c) f = _ from hrun)
  obtain ⟨hne, -, -⟩ := of_addChild hrun
  have hchild {x y : SlotHandle} : f'.IsChild x y ↔ f.IsChild x y ∨ x = c ∧ y = p := by
    rw [IsChild, IsChild, hf'.children_eq, hf.children_eq]
    by_cases hy : y = p
    · rw [hy, Function.update_self, List.mem_append, List.mem_singleton]
      simp
    · rw [Function.update_of_ne hy]
      simp [hy]
  rw [hf'.isAcyclic_iff, hf.isAncestor_iff]
  rw [hf.isAcyclic_iff] at hacyclic
  constructor
  · intro hacyclic' hbelow
    refine hacyclic' c ?_
    have hbelow' : f'.Below p c :=
      Relation.TransGen.mono (fun _ _ h => hchild.2 (.inl h)) _ _ hbelow
    exact .head (hchild.2 (.inr ⟨rfl, rfl⟩)) hbelow'
  · intro hnot x hx
    rcases below_of_added (fun h => hchild.1 h) hx with hbelow | ⟨hxc, hpx⟩
    · exact hacyclic x hbelow
    · rcases Relation.reflTransGen_iff_eq_or_transGen.1 (hpx.trans hxc) with heq | hbelow
      · exact hne heq.symm
      · exact hnot hbelow

/-- Only to append a child makes a child of a node that was none. -/
theorem Call.mem_of_mem_lists {call : Call} (hcall : ∀ p c, call ≠ .addChild p c)
    (hx : x ∈ call.lists ls y) : x ∈ ls y := by
  cases call with
  | addChild p c => exact absurd rfl (hcall p c)
  | removeChild p c =>
    rw [Call.lists] at hx
    by_cases hy : y = p
    · rw [hy, Function.update_self] at hx
      exact hy ▸ List.mem_of_mem_erase hx
    · rwa [Function.update_of_ne hy] at hx
  | reset | clear => exact absurd hx List.not_mem_nil
  | alloc | copy | modifyNode => exact hx

/-- A call makes no node its own ancestor that appends no child to one of its descendants. -/
theorem Lists.acyclic_call (hf : f.Lists ls) (hacyclic : f.IsAcyclic) {call : Call}
    (hrun : call.edit f = .ok () f')
    (hcall : ∀ p c, call = .addChild p c → ¬ f.IsAncestor c p) : f'.IsAcyclic := by
  by_cases hadd : ∃ p c, call = .addChild p c
  · obtain ⟨p, c, rfl⟩ := hadd
    exact (hf.acyclic_addChild_iff hacyclic hrun).2 (hcall p c rfl)
  · have hf' := hf.call hrun
    have hsub {x y : SlotHandle} (h : f'.IsChild x y) : f.IsChild x y := by
      rw [IsChild, hf'.children_eq] at h
      rw [IsChild, hf.children_eq]
      exact Call.mem_of_mem_lists (fun p c heq => hadd ⟨p, c, heq⟩) h
    rw [hf'.isAcyclic_iff]
    rw [hf.isAcyclic_iff] at hacyclic
    exact fun x hx => hacyclic x (Relation.TransGen.mono (fun _ _ h => hsub h) _ _ hx)

/-! ## Runs -/

/-- Calls keep order if none of them appends a child to one of its descendants. -/
def Call.KeepOrder (calls : List Call) (f : Forest) : Prop :=
  ∀ before p c after g, calls = before ++ .addChild p c :: after →
    before.forM Call.edit f = .ok () g → ¬ g.IsAncestor c p

theorem Call.KeepOrder.tail {call : Call} {calls : List Call}
    (horder : Call.KeepOrder (call :: calls) f) (hrun : call.edit f = .ok () f') :
    Call.KeepOrder calls f' := by
  intro before p c after g heq hg
  refine horder (call :: before) p c after g (by rw [heq, List.cons_append]) ?_
  exact (bind_of_ok hrun _).trans hg

theorem Lists.acyclic_of_keepOrder : ∀ {before after : List Call} {f g : Forest}
    {ls : SlotHandle → List SlotHandle}, f.Lists ls → f.IsAcyclic →
      Call.KeepOrder (before ++ after) f → before.forM Call.edit f = .ok () g → g.IsAcyclic
  | [], _, _, _, _, _, hacyclic, _, hg => by
    injection hg with _ hg
    exact hg ▸ hacyclic
  | call :: before, _, f, g, _, hf, hacyclic, horder, hg => by
    obtain ⟨_, f₁, hcall, hrest⟩ := exists_of_bind hg
    have hacyclic₁ := hf.acyclic_call hacyclic hcall fun p c heq =>
      horder [] p c _ f (by rw [heq]; rfl) rfl
    exact (hf.call hcall).acyclic_of_keepOrder hacyclic₁ (horder.tail hcall) hrest

theorem forM_append_iff {before after : List Call} :
    (before ++ after).forM Call.edit f = .ok () f' ↔
      ∃ g, before.forM Call.edit f = .ok () g ∧ after.forM Call.edit g = .ok () f' := by
  have happend : (before ++ after).forM Call.edit =
      (before.forM Call.edit >>= fun _ => after.forM Call.edit) := List.forM_append
  rw [happend]
  constructor
  · intro hrun
    obtain ⟨_, g, hbefore, hafter⟩ := exists_of_bind hrun
    exact ⟨g, hbefore, hafter⟩
  · rintro ⟨g, hbefore, hafter⟩
    exact (bind_of_ok hbefore _).trans hafter

theorem lists_of_run (calls : List Call) (hrun : calls.forM Call.edit {} = .ok () f) :
    f.Lists (Call.listsAfter calls) :=
  (lists_of_empty rfl).calls hrun

theorem isAcyclic_empty : IsAcyclic {} := by
  have hempty : Lists {} fun _ => [] := lists_of_empty rfl
  refine hempty.isAcyclic_iff.2 fun h hh => ?_
  obtain ⟨p, hp, -⟩ := Relation.TransGen.head'_iff.1 hh
  rw [IsChild, hempty.children_eq] at hp
  exact absurd hp List.not_mem_nil

/-- After calls of which none failed: no node was its own ancestor after any of them if and only if
none of them appended a child to one of its descendants. No node is its own ancestor if and only if
the walk from every live node ends, and from a node that is its own ancestor no walk ends. -/
theorem calls_keep_acyclic_iff (calls : List Call) {f : Forest}
    (hrun : calls.forM Call.edit {} = .ok () f) :
    ((∀ before after g, calls = before ++ after → before.forM Call.edit {} = .ok () g →
      g.IsAcyclic) ↔ Call.KeepOrder calls {}) ∧
    (f.IsAcyclic ↔ ∀ h, f.isLive h → f.WalkEnds h) ∧
    ∀ h, f.IsAncestor h h → ∀ limit, (Walk.start h).run? f limit = none := by
  have hf := lists_of_run calls hrun
  refine ⟨⟨fun hall before p c after g heq hg => ?_, fun horder before after g heq hg => ?_⟩,
    hf.isAcyclic_iff_walkEnds, fun h hh limit => ?_⟩
  · obtain ⟨g', hg', hafter⟩ := forM_append_iff.1 (heq ▸ hrun)
    obtain rfl : g = g' := by
      rw [hg] at hg'
      injection hg'
    obtain ⟨_, g', hadd, -⟩ := exists_of_bind hafter
    refine ((lists_of_run before hg).acyclic_addChild_iff (hall before _ g heq hg) hadd).1 ?_
    refine hall (before ++ [.addChild p c]) after g' (by rw [heq, List.append_assoc]; rfl) ?_
    exact forM_append_iff.2 ⟨g, hg, bind_of_ok hadd _⟩
  · subst heq
    exact (lists_of_empty rfl).acyclic_of_keepOrder isAcyclic_empty horder hg
  · have hbelow := hf.isAncestor_iff.1 hh
    by_contra hsome
    obtain ⟨hs, hs'⟩ := Option.ne_none_iff_exists'.1 hsome
    exact (walkEnds_iff hf.nearly).1 ⟨limit, hs, hs'⟩ h .refl hbelow

/-- No node is its own ancestor after one was taken from its parent and put below its sibling. -/
theorem calls_keep_acyclic_iff_moved :
    ∃ f, [.alloc .exprList {} {}, .alloc .parenExpr {} {}, .alloc .nullLiteral {} {},
        .addChild ⟨0, 0, 0⟩ ⟨0, 1, 0⟩, .addChild ⟨0, 0, 0⟩ ⟨0, 2, 0⟩,
        .removeChild ⟨0, 0, 0⟩ ⟨0, 2, 0⟩, .addChild ⟨0, 1, 0⟩ ⟨0, 2, 0⟩].forM Call.edit {} =
          .ok () f ∧
      f.IsAcyclic ∧ ∀ h, f.isLive h → f.WalkEnds h := by
  obtain ⟨f, hrun, hslots⟩ : ∃ f, [.alloc .exprList {} {}, .alloc .parenExpr {} {},
      .alloc .nullLiteral {} {}, .addChild ⟨0, 0, 0⟩ ⟨0, 1, 0⟩, .addChild ⟨0, 0, 0⟩ ⟨0, 2, 0⟩,
      .removeChild ⟨0, 0, 0⟩ ⟨0, 2, 0⟩, .addChild ⟨0, 1, 0⟩ ⟨0, 2, 0⟩].forM Call.edit {} =
        .ok () f ∧ ∀ i < f.entries.size, ∀ c ∈ f.children (f.handle i), i < c.slot :=
    ⟨_, rfl, by decide +kernel⟩
  obtain ⟨-, hwalks, -⟩ := calls_keep_acyclic_iff _ hrun
  have hf := lists_of_run _ hrun
  have hacyclic : f.IsAcyclic := hf.isAcyclic_iff.2 fun h hh =>
    hf.nearly.acyclicFrom_of_slots hslots h h .refl hh
  exact ⟨f, hrun, hacyclic, hwalks.1 hacyclic⟩

/-- The second node is put below the first one and then the first one below the second one. -/
theorem ancestor_becomes_child :
    ∃ f, [.alloc .exprList {} {}, .alloc .exprList {} {}, .addChild ⟨0, 0, 0⟩ ⟨0, 1, 0⟩,
        .addChild ⟨0, 1, 0⟩ ⟨0, 0, 0⟩].forM Call.edit {} = .ok () f ∧
      f.IsAncestor ⟨0, 0, 0⟩ ⟨0, 0, 0⟩ ∧ f.isLive ⟨0, 0, 0⟩ ∧ ¬ f.WalkEnds ⟨0, 0, 0⟩ := by
  obtain ⟨f, hrun, hfirst, hsecond⟩ : ∃ f, [.alloc .exprList {} {}, .alloc .exprList {} {},
      .addChild ⟨0, 0, 0⟩ ⟨0, 1, 0⟩, .addChild ⟨0, 1, 0⟩ ⟨0, 0, 0⟩].forM Call.edit {} = .ok () f ∧
        f.parent? ⟨0, 0, 0⟩ = some ⟨0, 1, 0⟩ ∧ f.parent? ⟨0, 1, 0⟩ = some ⟨0, 0, 0⟩ :=
    ⟨_, rfl, by decide, by decide⟩
  have hancestor : f.IsAncestor ⟨0, 0, 0⟩ ⟨0, 0, 0⟩ := .head hfirst (.single hsecond)
  have hf := lists_of_run _ hrun
  refine ⟨f, hrun, hancestor, live_of_isAncestor hancestor, fun hends => ?_⟩
  exact (walkEnds_iff hf.nearly).1 hends ⟨0, 0, 0⟩ .refl (hf.isAncestor_iff.1 hancestor)

end Forest

end SqlSyntax
