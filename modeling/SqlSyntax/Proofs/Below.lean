import Mathlib.Data.Set.Finite.Basic
import SqlSyntax.Proofs.Refusals

/-!
# Nodes below a node

A child is below its parent, and below what that is below. Each node is the child of one node at
most, so what is above a node is a chain (`Forest.NearlyLists.within_total`). Where no node is below
itself, the nodes below a node can be gone through from the leaves on
(`Forest.AcyclicFrom.induction`), since there are only finitely many.
-/

namespace SqlSyntax

namespace Forest

variable {f : Forest} {ls : SlotHandle → List SlotHandle} {c d h p r x : SlotHandle}

/-- The first node is a child of the second one. -/
def IsChild (f : Forest) (c p : SlotHandle) : Prop := c ∈ f.children p

/-- The first node is below the second one. -/
def Below (f : Forest) : SlotHandle → SlotHandle → Prop := Relation.TransGen f.IsChild

/-- The first node is the second one or below it. -/
def Within (f : Forest) : SlotHandle → SlotHandle → Prop := Relation.ReflTransGen f.IsChild

/-- Neither a node nor one below it is below itself. -/
def AcyclicFrom (f : Forest) (r : SlotHandle) : Prop := ∀ h, f.Within h r → ¬ f.Below h h

theorem within_iff : f.Within h r ↔ h = r ∨ ∃ c ∈ f.children r, f.Within h c := by
  refine Relation.ReflTransGen.cases_tail_iff .. |>.trans ?_
  exact or_congr eq_comm (exists_congr fun _ => and_comm)

theorem below_iff : f.Below h r ↔ ∃ c ∈ f.children r, f.Within h c :=
  Relation.TransGen.tail'_iff.trans (exists_congr fun _ => and_comm)

theorem AcyclicFrom.of_within (hr : f.AcyclicFrom r) (hh : f.Within h r) : f.AcyclicFrom h :=
  fun x hx => hr x (hx.trans hh)

namespace NearlyLists

/-- A node is the child of one node at most. -/
theorem isChild_unique (hf : f.NearlyLists ls) (hp : f.IsChild c p) (hq : f.IsChild c d) :
    p = d := by
  rw [IsChild, hf.children_eq] at hp hq
  exact hf.unique hp hq

theorem live_of_below (hf : f.NearlyLists ls) (h : f.Below c p) : f.isLive c := by
  obtain ⟨q, hq, -⟩ := Relation.TransGen.head'_iff.1 h
  rw [IsChild, hf.children_eq] at hq
  exact (hf.live hq).2

/-- Of two nodes that a node is within, one is within the other. -/
theorem within_total (hf : f.NearlyLists ls) (hc : f.Within x c) (hd : f.Within x d) :
    f.Within c d ∨ f.Within d c :=
  Relation.ReflTransGen.total_of_right_unique (fun _ _ _ => hf.isChild_unique) hc hd

/-- Below two children of a node there is no common node. -/
theorem apart (hf : f.NearlyLists ls) (hp : ¬ f.Below p p) (hc : c ∈ f.children p)
    (hd : d ∈ f.children p) (hne : c ≠ d) (hxc : f.Within x c) : ¬ f.Within x d := by
  -- One child would be below the other, so its parent would be within the other.
  have hnot {a b : SlotHandle} (ha : a ∈ f.children p) (hb : b ∈ f.children p) (hab : a ≠ b) :
      ¬ f.Within a b := by
    intro hwithin
    obtain heq | ⟨q, hq, hqb⟩ := Relation.ReflTransGen.cases_head_iff.1 hwithin
    · exact hab heq
    · rw [hf.isChild_unique hq ha] at hqb
      exact hp (Relation.TransGen.tail' hqb hb)
  intro hxd
  rcases hf.within_total hxc hxd with h | h
  · exact hnot hc hd hne h
  · exact hnot hd hc hne.symm h

theorem finite_within (hf : f.NearlyLists ls) (r : SlotHandle) : {h | f.Within h r}.Finite := by
  refine ((Set.finite_lt_nat f.entries.size).image f.handle |>.insert r).subset fun h hh => ?_
  rcases Relation.reflTransGen_iff_eq_or_transGen.1 hh with heq | hbelow
  · exact .inl heq.symm
  · obtain ⟨heq, hslot⟩ := eq_handle_of_live (hf.live_of_below hbelow)
    exact .inr ⟨h.slot, hslot, heq.symm⟩

end NearlyLists

/-- Where all children are stored after their parents no node is below itself. -/
theorem NearlyLists.acyclicFrom_of_slots (hf : f.NearlyLists ls)
    (hslots : ∀ i < f.entries.size, ∀ c ∈ f.children (f.handle i), i < c.slot) (r : SlotHandle) :
    f.AcyclicFrom r := by
  have hchild {c p : SlotHandle} (hc : f.IsChild c p) : p.slot < c.slot := by
    rw [IsChild, hf.children_eq] at hc
    obtain ⟨heq, hslot⟩ := eq_handle_of_live (hf.live hc).1
    exact hslots p.slot hslot c (by rwa [hf.children_eq, ← heq])
  have hbelow {c p : SlotHandle} (hc : f.Below c p) : p.slot < c.slot := by
    induction hc with
    | single hc => exact hchild hc
    | tail _ hc ih => exact (hchild hc).trans ih
  exact fun h _ hh => Nat.lt_irrefl _ (hbelow hh)

/-- What holds of a node if it holds of its children holds of a node that is not above itself. -/
theorem AcyclicFrom.induction {motive : SlotHandle → Prop} (hr : f.AcyclicFrom r)
    (hf : f.NearlyLists ls)
    (step : ∀ h, f.Within h r → (∀ c ∈ f.children h, motive c) → motive h) : motive r := by
  let below (c p : {h // f.Within h r}) : Prop := f.Below c p
  have : Finite {h // f.Within h r} := (hf.finite_within r).to_subtype
  have : IsTrans _ below := ⟨fun _ _ _ => Relation.TransGen.trans⟩
  have : Std.Irrefl below := ⟨fun h => hr h h.2⟩
  have hall (h : {h // f.Within h r}) : motive h := by
    induction h using (Finite.wellFounded_of_trans_of_irrefl below).induction with
    | h h ih =>
      refine step h h.2 fun c hc => ?_
      exact ih ⟨c, .head hc h.2⟩ (.single hc)
  exact hall ⟨r, .refl⟩

end Forest

end SqlSyntax
