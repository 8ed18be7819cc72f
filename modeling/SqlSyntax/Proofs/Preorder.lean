import SqlSyntax.Forest.Walk
import SqlSyntax.Proofs.Below
import SqlSyntax.Tree.Outline

/-!
# Preorder by a stack and by recursion

`Forest.PreorderAt` is the preorder of a list of nodes by recursion: each node is followed by what
is below it, one level deeper. A walk with a stack, which turns the children of each node round as
it puts them there, gives the nodes in the same order (`Forest.PreorderAt.run_eq`): the stack,
read from the top, is always the list of nodes whose preorders are to come.
-/

namespace SqlSyntax

namespace Forest

/-- Some nodes at a level, each with its level before those that are below it. -/
inductive PreorderAt (f : Forest) : Nat → List SlotHandle → List (Nat × SlotHandle) → Prop
  | nil {level : Nat} : PreorderAt f level [] []
  | cons {level : Nat} {h : SlotHandle} {hs : List SlotHandle}
    {below rest : List (Nat × SlotHandle)}
    (hbelow : PreorderAt f (level + 1) (f.children h) below) (hrest : PreorderAt f level hs rest) :
    PreorderAt f level (h :: hs) ((level, h) :: (below ++ rest))

variable {f : Forest} {ls : SlotHandle → List SlotHandle} {c h r : SlotHandle}
  {hs hs' : List SlotHandle} {level : Nat} {steps steps' : List (Nat × SlotHandle)}

namespace PreorderAt

theorem append (hp : f.PreorderAt level hs steps) (hp' : f.PreorderAt level hs' steps') :
    f.PreorderAt level (hs ++ hs') (steps ++ steps') := by
  induction hp with
  | nil => exact hp'
  | cons hbelow _ _ ih =>
    rw [List.cons_append, List.cons_append, List.append_assoc]
    exact .cons hbelow (ih hp')

theorem of_forall : ∀ {hs : List SlotHandle}, (∀ h ∈ hs, ∃ steps, f.PreorderAt level [h] steps) →
    ∃ steps, f.PreorderAt level hs steps
  | [], _ => ⟨[], .nil⟩
  | h :: hs, hall => by
    obtain ⟨hfirst, hrest⟩ := List.forall_mem_cons.1 hall
    obtain ⟨steps, hsteps⟩ := hfirst
    obtain ⟨steps', hsteps'⟩ := of_forall hrest
    exact ⟨_, hsteps.append hsteps'⟩

theorem mem_iff (hp : f.PreorderAt level hs steps) (x : SlotHandle) :
    x ∈ steps.map (·.2) ↔ ∃ h ∈ hs, f.Within x h := by
  induction hp with
  | nil => simp
  | cons _ _ ih ih' =>
    rw [List.map_cons, List.map_append, List.mem_cons, List.mem_append, ih, ih', ← or_assoc,
      ← within_iff]
    simp only [List.mem_cons, exists_eq_or_imp]

/-! ## Walks -/

/-- A walk from some pending nodes gives their preorder and goes on behind it. -/
theorem walkFrom_eq (hp : f.PreorderAt level hs steps) (limit : Nat) (pending : List SlotHandle) :
    f.walkFrom (steps.length + limit) (hs ++ pending) =
      steps.map (·.2) ++ f.walkFrom limit pending := by
  induction hp generalizing limit pending with
  | nil => rw [List.length_nil, Nat.zero_add]; rfl
  | @cons level h hs below rest _ _ ih ih' =>
    have hlength : ((level, h) :: (below ++ rest)).length + limit =
        (below.length + (rest.length + limit)) + 1 := by
      rw [List.length_cons, List.length_append]
      omega
    rw [hlength, List.cons_append, walkFrom, ih, ih', List.map_cons, List.map_append,
      List.cons_append, List.append_assoc]

end PreorderAt

namespace Walk

theorem toList_reverseFrom (stack : Array SlotHandle) (hs : List SlotHandle) :
    (reverseFrom stack.size (stack ++ hs)).toList = stack.toList ++ hs.reverse := by
  have hsize : (stack ++ hs).size = stack.size + hs.length := by
    rw [← Array.length_toList, Array.toList_appendList, List.length_append, Array.length_toList]
  simp [reverseFrom, hsize]

/-- The nodes that are to come, the next one first. -/
def pending (w : Walk) : List SlotHandle := w.stack.toList.reverse

theorem next?_of_nil {w : Walk} (hw : w.pending = []) : w.next? f = none := by
  rw [pending, List.reverse_eq_nil_iff] at hw
  rw [next?, Array.toList_eq_nil_iff.1 hw]
  rfl

/-- The next node leaves its children in its place. -/
theorem next?_of_cons {w : Walk} (hw : w.pending = h :: hs) :
    ∃ w', w.next? f = some (h, w') ∧ w'.pending = f.children h ++ hs := by
  have hstack : w.stack = hs.reverse.toArray.push h := by
    rw [pending, List.reverse_eq_cons_iff] at hw
    rw [← Array.toList_inj, hw]
    simp
  refine ⟨_, by rw [next?, hstack, Array.back?_push]; rfl, ?_⟩
  rw [pending, Array.pop_push, toList_reverseFrom]
  simp

theorem run?_of_nil {w : Walk} (hw : w.pending = []) (limit : Nat) : w.run? f limit = some [] := by
  unfold run?
  rw [next?_of_nil hw]

theorem run?_of_next {w w' : Walk} (hnext : w.next? f = some (h, w')) (limit : Nat) :
    w.run? f (limit + 1) = (w'.run? f limit).map (h :: ·) := by
  rw [run?.eq_def, hnext]

/-- A walk gives the preorder of the first nodes that are to come, and goes on behind them. -/
theorem exists_run?_eq (hp : f.PreorderAt level hs steps) : ∀ {w : Walk} {more : List SlotHandle},
    w.pending = hs ++ more → ∃ w' : Walk, w'.pending = more ∧ ∀ limit,
      w.run? f (steps.length + limit) = (w'.run? f limit).map (steps.map (·.2) ++ ·) := by
  induction hp with
  | nil =>
    intro w more hw
    refine ⟨w, hw, fun limit => ?_⟩
    rw [List.length_nil, Nat.zero_add]
    exact Option.map_id'.symm
  | @cons level h hs below rest _ _ ih ih' =>
    intro w more hw
    obtain ⟨w₁, hnext, hw₁⟩ := next?_of_cons (f := f) hw
    obtain ⟨w₂, hw₂, hrun₂⟩ := ih hw₁
    obtain ⟨w₃, hw₃, hrun₃⟩ := ih' hw₂
    refine ⟨w₃, hw₃, fun limit => ?_⟩
    have hlength : ((level, h) :: (below ++ rest)).length + limit =
        (below.length + (rest.length + limit)) + 1 := by
      rw [List.length_cons, List.length_append]
      omega
    rw [hlength, run?_of_next hnext, hrun₂, hrun₃, Option.map_map, Option.map_map, List.map_cons,
      List.map_append]
    refine Option.map_congr fun hs _ => ?_
    show h :: _ = _
    rw [List.cons_append, List.append_assoc]

/-- The walk from a node on ends after as many steps as there are nodes in its preorder. -/
theorem run?_start (hp : f.PreorderAt level [r] steps) (limit : Nat) :
    (start r).run? f (steps.length + limit) = some (steps.map (·.2)) := by
  obtain ⟨w, hw, hrun⟩ := exists_run?_eq hp (show (start r).pending = [r] ++ [] from rfl)
  rw [hrun, run?_of_nil hw, Option.map_some, List.append_nil]

end Walk

/-! ## Each node once -/

namespace PreorderAt

/-- Nodes that have no common node below them are gone through without repetition. -/
theorem nodup (hp : f.PreorderAt level hs steps) (hf : f.NearlyLists ls)
    (happart : hs.Pairwise fun h k => ∀ x, f.Within x h → ¬ f.Within x k)
    (hacyclic : ∀ h ∈ hs, f.AcyclicFrom h) : (steps.map (·.2)).Nodup := by
  induction hp with
  | nil => exact List.nodup_nil
  | @cons level h hs below rest hbelow hrest ih ih' =>
    obtain ⟨happart, happart'⟩ := List.pairwise_cons.1 happart
    obtain ⟨hh, hacyclic'⟩ := List.forall_mem_cons.1 hacyclic
    have hbelow' {x : SlotHandle} (hx : x ∈ below.map (·.2)) : f.Below x h :=
      below_iff.2 ((hbelow.mem_iff x).1 hx)
    have hchildren : (f.children h).Nodup := by
      rw [hf.children_eq]
      exact hf.nodup h
    rw [List.map_cons, List.map_append, List.nodup_cons, List.mem_append, not_or]
    refine ⟨⟨fun hx => hh h .refl (hbelow' hx), fun hx => ?_⟩, List.Nodup.append (ih ?_ ?_)
      (ih' happart' hacyclic') fun x hx hx' => ?_⟩
    · obtain ⟨k, hk, hwithin⟩ := (hrest.mem_iff h).1 hx
      exact happart k hk h .refl hwithin
    · exact hchildren.pairwise_of_forall_ne fun c hc d hd hne x hxc =>
        hf.apart (hh h .refl) hc hd hne hxc
    · exact fun c hc => hh.of_within (.single hc)
    · obtain ⟨k, hk, hwithin⟩ := (hrest.mem_iff x).1 hx'
      exact happart k hk x (hbelow' hx).to_reflTransGen hwithin

theorem nodup_of_acyclicFrom (hp : f.PreorderAt level [r] steps) (hf : f.NearlyLists ls)
    (hr : f.AcyclicFrom r) : (steps.map (·.2)).Nodup :=
  hp.nodup hf (List.pairwise_singleton ..) (List.forall_mem_singleton.2 hr)

theorem eq_or_live (hp : f.PreorderAt level [r] steps) (hf : f.NearlyLists ls)
    (hh : h ∈ steps.map (·.2)) : h = r ∨ f.isLive h := by
  obtain ⟨k, hk, hwithin⟩ := (hp.mem_iff h).1 hh
  rw [List.mem_singleton.1 hk] at hwithin
  rcases Relation.reflTransGen_iff_eq_or_transGen.1 hwithin with heq | hbelow
  · exact .inl heq.symm
  · exact .inr (hf.live_of_below hbelow)

theorem length_le_of_live (hp : f.PreorderAt level [r] steps) (hf : f.NearlyLists ls)
    (hr : f.AcyclicFrom r) (hlive : f.isLive r) : steps.length ≤ f.entries.size := by
  rw [← List.length_map (·.2)]
  refine Forest.length_le_of_live (hp.nodup_of_acyclicFrom hf hr) fun hh => ?_
  rcases hp.eq_or_live hf hh with rfl | hh
  · exact hlive
  · exact hh

/-- There are not more nodes below a node than are stored. -/
theorem length_le (hp : f.PreorderAt level [r] steps) (hf : f.NearlyLists ls)
    (hr : f.AcyclicFrom r) : steps.length ≤ f.entries.size + 1 := by
  have hnodup := hp.nodup_of_acyclicFrom hf hr
  have hbelow : ((steps.map (·.2)).erase r).length ≤ f.entries.size := by
    refine Forest.length_le_of_live (hnodup.erase r) fun hh => ?_
    obtain ⟨hne, hh⟩ := hnodup.mem_erase_iff.1 hh
    exact (hp.eq_or_live hf hh).resolve_left hne
  rw [List.length_erase_of_mem ((hp.mem_iff r).2 ⟨r, List.mem_singleton_self r, .refl⟩),
    List.length_map] at hbelow
  omega

/-- The walk of a node is what the preorder by recursion is. -/
theorem walk_eq (hp : f.PreorderAt level [r] steps) (hf : f.NearlyLists ls)
    (hr : f.AcyclicFrom r) : f.walk r = steps.map (·.2) := by
  obtain ⟨limit, hlimit⟩ := Nat.exists_eq_add_of_le (hp.length_le hf hr)
  have hnil : f.walkFrom limit [] = [] := by cases limit <;> rfl
  rw [walk, hlimit]
  exact (hp.walkFrom_eq limit []).trans (by rw [hnil, List.append_nil])

theorem flatMap_walk_eq (hp : f.PreorderAt level hs steps) (hf : f.NearlyLists ls)
    (hacyclic : ∀ h ∈ hs, f.AcyclicFrom h) : hs.flatMap f.walk = steps.map (·.2) := by
  induction hp with
  | nil => rfl
  | cons hbelow _ _ ih' =>
    obtain ⟨hh, hacyclic'⟩ := List.forall_mem_cons.1 hacyclic
    have hfirst := (PreorderAt.cons hbelow .nil).walk_eq hf hh
    rw [List.flatMap_cons, ih' hacyclic', hfirst, ← List.map_append, List.append_nil,
      List.cons_append]

end PreorderAt

namespace AcyclicFrom

theorem exists_preorderAt (hr : f.AcyclicFrom r) (hf : f.NearlyLists ls) (level : Nat) :
    ∃ steps, f.PreorderAt level [r] steps := by
  suffices h : ∀ level, ∃ steps, f.PreorderAt level [r] steps from h level
  refine hr.induction hf (motive := fun r => ∀ level, ∃ steps, f.PreorderAt level [r] steps) ?_
  intro h _ ih level
  obtain ⟨below, hbelow⟩ := PreorderAt.of_forall fun c hc => ih c hc (level + 1)
  exact ⟨_, .cons hbelow .nil⟩

/-- The walk of a node is the node and then the walks of its children. -/
theorem walk_eq (hr : f.AcyclicFrom r) (hf : f.NearlyLists ls) :
    f.walk r = r :: (f.children r).flatMap f.walk := by
  obtain ⟨steps, hp⟩ := hr.exists_preorderAt hf 0
  rw [hp.walk_eq hf hr]
  rcases hp with _ | ⟨hbelow, hrest⟩
  cases hrest
  rw [hbelow.flatMap_walk_eq hf fun c hc => hr.of_within (.single hc), List.append_nil]
  rfl

end AcyclicFrom

end Forest

end SqlSyntax
