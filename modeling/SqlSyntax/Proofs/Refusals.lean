import SqlSyntax.Proofs.Children

/-!
# What failed edits leave

An edit checks what it may do before it changes anything, but for one check: a node that could be a
child is given its parent before it is known whether that parent is live. Where it is not, the edit
fails and the node has become a stray, which can neither be appended nor taken away any more
(`Forest.failed_edits_keep_links`).

A stray is all that failed calls leave. So after any calls, failed ones among them, the links are
the ones that some lists of children make, but for the parents of strays (`Forest.after_nearly`).
-/

namespace SqlSyntax

namespace Forest

variable {f f' : Forest} {parent child h k : SlotHandle} {l : Links} {e : EditError}
  {ls : SlotHandle → List SlotHandle}

/-- The node is live and has neither parent nor next sibling. -/
def IsDetached (f : Forest) (h : SlotHandle) : Prop :=
  ∃ l, f.links? h = some l ∧ l.parent = none ∧ l.nextSibling = none

/-! ## Edits that fail at once -/

theorem bind_of_error {α β : Type} {x : Edit α} (hx : x f = .error e f') (next : α → Edit β) :
    (x >>= next) f = .error e f' := by
  show EStateM.bind x next f = _
  rw [EStateM.bind, hx]

theorem entry_of_stale (hstale : ¬ f.isLive h) : entry h f = .error (.stale h) f := by
  rw [isLive, Option.not_isSome_iff_eq_none] at hstale
  rw [entry_eq, hstale]
  rfl

theorem discard_entry_of_stale (hstale : ¬ f.isLive h) :
    discard (entry h) f = .error (.stale h) f := by
  show EStateM.map _ (entry h) f = _
  rw [EStateM.map, entry_of_stale hstale]

theorem modifyNode_error {change : Node → Node} (hrun : modifyNode h change f = .error e f') :
    f' = f := by
  unfold modifyNode modifyEntry at hrun
  by_cases hlive : f.isLive h
  · rw [bind_of_ok (discard_entry hlive)] at hrun
    cases hrun
  · rw [bind_of_error (discard_entry_of_stale hlive)] at hrun
    injection hrun with _ hf'
    exact hf'.symm

/-- A child that is not detached is refused before anything is changed. -/
theorem addChild_of_not_detached (hchild : parent = child ∨ ¬ f.IsDetached child) :
    ∃ e, addChild parent child f = .error e f := by
  unfold addChild
  by_cases hne : parent = child
  · rw [if_pos hne]
    exact ⟨_, rfl⟩
  rw [if_neg hne]
  by_cases hlive : f.isLive child
  · obtain ⟨l, hl⟩ := isLive_iff.1 hlive
    obtain ⟨d, hentry, rfl⟩ := entry_of_links? hl
    have hattached : d.links.parent.isSome || d.links.nextSibling.isSome := by
      by_contra hnot
      rw [Bool.or_eq_true, not_or, Option.not_isSome_iff_eq_none,
        Option.not_isSome_iff_eq_none] at hnot
      exact hchild.resolve_left hne ⟨_, hl, hnot⟩
    refine ⟨.alreadyAttached child, (bind_of_ok hentry _).trans ?_⟩
    dsimp only
    rw [if_pos hattached]
    rfl
  · exact ⟨_, bind_of_error (entry_of_stale hlive) _⟩

/-- A node that is among no children is refused before anything is changed. -/
theorem removeChild_of_not_mem (hchild : child ∉ f.children parent) :
    ∃ e, removeChild parent child f = .error e f := by
  unfold removeChild
  by_cases hlive : f.isLive parent
  · have hnone : previousIn child none (f.children parent) = none := by
      rw [← Option.not_isSome_iff_eq_none]
      exact fun hsome => hchild (mem_of_previousIn hsome)
    refine ⟨.notAChild child parent, (bind_of_ok (discard_entry hlive) _).trans ?_⟩
    refine (bind_of_ok (x := (get : Edit Forest)) (a := f) rfl _).trans ?_
    rw [hnone]
    rfl
  · exact ⟨_, bind_of_error (discard_entry_of_stale hlive) _⟩

/-! ## The edit that fails late -/

/-- A detached child is given a parent that turns out not to be live. -/
theorem addChild_of_stale (hparent : ¬ f.isLive parent) (hchild : f.IsDetached child) :
    ∃ f', addChild parent child f = .error (.stale parent) f' ∧ ∀ k, f'.links? k =
      (f.links? k).map fun l => if k = child then { l with parent := some parent } else l := by
  obtain ⟨d, hd, hdetached⟩ := hchild
  have hlive : f.isLive child := isLive_iff.2 ⟨d, hd⟩
  have hne : parent ≠ child := fun heq => hparent (heq ▸ hlive)
  obtain ⟨e, hentry, rfl⟩ := entry_of_links? hd
  obtain ⟨f', hrun, hlinks⟩ := relink_run hlive fun l => { l with parent := some parent }
  refine ⟨f', ?_, hlinks⟩
  unfold addChild
  rw [if_neg hne]
  refine (bind_of_ok hentry _).trans ?_
  dsimp only
  rw [if_neg (by simp [hdetached])]
  refine (bind_of_ok hrun _).trans (bind_of_error (entry_of_stale ?_) _)
  rwa [isLive_of_map hlinks]

/-! ## Failed calls -/

namespace NearlyLists

/-- An edit that appends a child fails at once, or with a stale parent and a new stray. -/
theorem addChild_error (hf : f.NearlyLists ls)
    (hrun : Forest.addChild parent child f = .error e f') :
    f' = f ∨ ¬ f.isLive parent ∧ f.IsDetached child := by
  by_cases hchild : parent = child ∨ ¬ f.IsDetached child
  · obtain ⟨e, hsame⟩ := addChild_of_not_detached hchild
    rw [hrun] at hsame
    injection hsame with _ hf'
    exact .inl hf'
  push Not at hchild
  refine .inr ⟨fun hparent => ?_, hchild.2⟩
  obtain ⟨d, hd, hdetached⟩ := hchild.2
  obtain ⟨f'', hdone, -⟩ := hf.addChild hchild.1 hparent hd hdetached
  rw [hrun] at hdone
  cases hdone

theorem removeChild_error (hf : f.NearlyLists ls)
    (hrun : Forest.removeChild parent child f = .error e f') : f' = f := by
  by_cases hchild : child ∈ f.children parent
  · obtain ⟨f'', _, _, hdone, -⟩ := hf.removeChild (hf.children_eq parent ▸ hchild)
    rw [hrun] at hdone
    cases hdone
  · obtain ⟨e, hsame⟩ := removeChild_of_not_mem hchild
    rw [hrun] at hsame
    injection hsame

end NearlyLists

/-- What is left by a call, whether it fails or not. -/
def Call.run (call : Call) (f : Forest) : Forest :=
  match call.edit f with
  | .ok _ f' | .error _ f' => f'

/-- What is left of an empty forest by some calls, failed ones among them. -/
def after (calls : List Call) : Forest := calls.foldl (fun f call => call.run f) {}

namespace NearlyLists

theorem of_ok (hf : f.NearlyLists ls) {call : Call} (hrun : call.edit f = .ok () f') :
    ∃ ls, f'.NearlyLists ls := by
  cases call with
  | alloc kind location span =>
    injection hrun with _ hf'
    exact ⟨ls, hf' ▸ hf.alloc (show Forest.alloc kind location span f = _ from rfl)⟩
  | copy text =>
    injection hrun with _ hf'
    exact ⟨ls, hf' ▸ hf.of_links?_eq fun _ => rfl⟩
  | modifyNode h change => exact ⟨ls, hf.of_links?_eq (links?_of_modifyNode hrun)⟩
  | addChild parent child =>
    obtain ⟨hne, ⟨d, hd, hdetached⟩, hparent⟩ := of_addChild hrun
    have hlinks : f.links? child = some d.links := by rw [links?, hd]; rfl
    obtain ⟨f'', hrun', hlists, -⟩ := hf.addChild hne hparent hlinks hdetached
    rw [show Forest.addChild parent child f = _ from hrun] at hrun'
    injection hrun' with _ hf'
    exact ⟨_, hf' ▸ hlists⟩
  | removeChild parent child =>
    have hchild := of_removeChild hrun
    rw [hf.children_eq] at hchild
    obtain ⟨f'', _, _, hrun', -, -, hlists, -⟩ := hf.removeChild hchild
    rw [show Forest.removeChild parent child f = _ from hrun] at hrun'
    injection hrun' with _ hf'
    exact ⟨_, hf' ▸ hlists⟩
  | reset =>
    injection hrun with _ hf'
    exact ⟨fun _ => [], hf' ▸ (lists_of_empty rfl).nearly⟩
  | clear =>
    injection hrun with _ hf'
    exact ⟨fun _ => [], hf' ▸ (lists_of_empty rfl).nearly⟩

/-- A call that fails changes no lists. -/
theorem of_error (hf : f.NearlyLists ls) {call : Call} (hrun : call.edit f = .error e f') :
    f'.NearlyLists ls := by
  cases call with
  | alloc | copy | reset | clear => cases hrun
  | modifyNode h change => exact modifyNode_error hrun ▸ hf
  | addChild parent child =>
    rcases hf.addChild_error hrun with rfl | ⟨hparent, hchild⟩
    · exact hf
    · obtain ⟨f'', hrun', hlinks⟩ := addChild_of_stale hparent hchild
      rw [show Forest.addChild parent child f = _ from hrun] at hrun'
      injection hrun' with _ hf'
      obtain ⟨d, hd, hnone, -⟩ := hchild
      exact hf.congr (hf.not_mem_of_parent_eq_none hd hnone) (hf' ▸ hlinks)
  | removeChild parent child => exact hf.removeChild_error hrun ▸ hf

theorem run (hf : f.NearlyLists ls) (call : Call) : ∃ ls, (call.run f).NearlyLists ls := by
  unfold Call.run
  rcases hrun : call.edit f with ⟨_, f'⟩ | ⟨e, f'⟩
  · exact hf.of_ok hrun
  · exact ⟨ls, hf.of_error hrun⟩

theorem runs : ∀ (calls : List Call) {f : Forest} {ls : SlotHandle → List SlotHandle},
    f.NearlyLists ls → ∃ ls, (calls.foldl (fun f call => call.run f) f).NearlyLists ls
  | [], _, ls, hf => ⟨ls, hf⟩
  | call :: calls, _, _, hf => by
    obtain ⟨ls', hf'⟩ := hf.run call
    exact hf'.runs calls

/-- What names a parent and is in no list is refused by every edit. -/
theorem stray_refused (hf : f.NearlyLists ls) (hfree : ∀ p, child ∉ ls p)
    (hl : f.links? child = some l) (hstray : l.parent ≠ none) (p : SlotHandle) :
    (Forest.addChild p child).Fails f ∧ (Forest.removeChild p child).Fails f := by
  have hattached : ¬ f.IsDetached child := by
    rintro ⟨d, hd, hnone, -⟩
    rw [hl] at hd
    exact hstray (Option.some.inj hd ▸ hnone)
  constructor
  · obtain ⟨e, hrun⟩ : ∃ e, Forest.addChild p child f = .error e f :=
      addChild_of_not_detached (.inr hattached)
    exact ⟨e, f, hrun⟩
  · obtain ⟨e, hrun⟩ := removeChild_of_not_mem (hf.children_eq p ▸ hfree p)
    exact ⟨e, f, hrun⟩

end NearlyLists

/-- After any calls the links are the ones that some lists make, but for strays. -/
theorem after_nearly (calls : List Call) : ∃ ls, (after calls).NearlyLists ls :=
  NearlyLists.runs calls ((lists_of_empty rfl).nearly)

/-- After any calls, failed ones among them, an edit that fails changes nothing, unless a detached
node was to be appended to a parent that is not live. That edit gives the node its parent, changes
nothing else, and leaves it to be refused by every later edit. A detached node can be appended to
every other node that is live. -/
theorem failed_edits_keep_links (calls : List Call) (parent child : SlotHandle) :
    (∀ e f', removeChild parent child (after calls) = .error e f' → f' = after calls) ∧
    (∀ e f', addChild parent child (after calls) = .error e f' →
      (after calls).isLive parent ∨ ¬ (after calls).IsDetached child → f' = after calls) ∧
    (¬ (after calls).isLive parent → (after calls).IsDetached child →
      ∃ f', addChild parent child (after calls) = .error (.stale parent) f' ∧
        (∀ k, f'.links? k = ((after calls).links? k).map fun l =>
          if k = child then { l with parent := some parent } else l) ∧
        ∀ p, (addChild p child).Fails f' ∧ (removeChild p child).Fails f') ∧
    ((after calls).isLive parent → (after calls).IsDetached child → parent ≠ child →
      ∃ f', addChild parent child (after calls) = .ok () f') := by
  obtain ⟨ls, hf⟩ := after_nearly calls
  refine ⟨fun e f' hrun => hf.removeChild_error hrun, fun e f' hrun hlive => ?_,
    fun hparent hchild => ?_, fun hparent ⟨d, hd, hdetached⟩ hne => ?_⟩
  · refine (hf.addChild_error hrun).resolve_right fun ⟨hparent, hchild⟩ => ?_
    exact hlive.elim hparent fun h => h hchild
  · obtain ⟨f', hrun, hlinks⟩ := addChild_of_stale hparent hchild
    refine ⟨f', hrun, hlinks, fun p => ?_⟩
    obtain ⟨d, hd, hnone, -⟩ := hchild
    have hfree := hf.not_mem_of_parent_eq_none hd hnone
    have hl : f'.links? child = some { d with parent := some parent } := by
      rw [hlinks, hd, Option.map_some, if_pos rfl]
    exact (hf.congr hfree hlinks).stray_refused hfree hl (Option.some_ne_none parent) p
  · obtain ⟨f', hrun, -⟩ := hf.addChild hne hparent hd hdetached
    exact ⟨f', hrun⟩

/-- A node that should be put below one from before a reset names that one as its parent. -/
theorem failed_edits_keep_links_stale :
    ∃ f, after [.alloc .selectStmt {} {}, .reset, .alloc .selectList {} {}] = f ∧
      ¬ f.isLive ⟨0, 0, 0⟩ ∧ f.IsDetached ⟨0, 0, 1⟩ ∧
      ∃ f', addChild ⟨0, 0, 0⟩ ⟨0, 0, 1⟩ f = .error (.stale ⟨0, 0, 0⟩) f' ∧
        (f'.links? ⟨0, 0, 1⟩).map (·.parent) = some (some ⟨0, 0, 0⟩) ∧
        ∀ p, (addChild p ⟨0, 0, 1⟩).Fails f' ∧ (removeChild p ⟨0, 0, 1⟩).Fails f' := by
  obtain ⟨-, -, hstale, -⟩ := failed_edits_keep_links
    [.alloc .selectStmt {} {}, .reset, .alloc .selectList {} {}] ⟨0, 0, 0⟩ ⟨0, 0, 1⟩
  refine ⟨_, rfl, by decide, ⟨{}, rfl, rfl, rfl⟩, ?_⟩
  obtain ⟨f', hrun, hlinks, hrefused⟩ := hstale (by decide) ⟨{}, rfl, rfl, rfl⟩
  refine ⟨f', hrun, ?_, hrefused⟩
  rw [hlinks]
  decide

/-- The edit that fails changes the links of the node. Before it the node could be appended to
another one, and after it that fails. -/
theorem failed_edit_leaves_stray :
    ∃ f f', after [.alloc .selectStmt {} {}, .reset, .alloc .selectList {} {},
        .alloc .exprList {} {}] = f ∧
      addChild ⟨0, 0, 0⟩ ⟨0, 0, 1⟩ f = .error (.stale ⟨0, 0, 0⟩) f' ∧
      f'.links? ⟨0, 0, 1⟩ ≠ f.links? ⟨0, 0, 1⟩ ∧
      (∃ f'', addChild ⟨0, 1, 1⟩ ⟨0, 0, 1⟩ f = .ok () f'') ∧
      (addChild ⟨0, 1, 1⟩ ⟨0, 0, 1⟩).Fails f' := by
  refine ⟨_, _, rfl, rfl, fun heq => ?_, ⟨_, rfl⟩, ⟨_, _, rfl⟩⟩
  exact absurd (congrArg (Option.map Links.parent) heq) (by decide)

end Forest

end SqlSyntax
