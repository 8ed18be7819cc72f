import SqlSyntax.Proofs.Preorder

/-!
# What is read off a preorder

The size of a tree, its shape, the first node of a kind and its outline depend on nothing but the
nodes in preorder, each with its level (`Tree.levels`). For a tree in a forest these are the steps
of the preorder by recursion (`Forest.PreorderAt.treesBelow_eq`). So all of them are told by one
list, which is also what a walk with a stack gives (`Forest.walk_is_preorder`).
-/

namespace SqlSyntax

/-! ## Trees -/

namespace Tree

mutual
/-- The nodes of a tree in preorder, each with its level. -/
def levels (level : Nat) : Tree → List (Nat × Node)
  | .node n cs => (level, n) :: levelsAll (level + 1) cs

/-- The nodes of trees, one tree after the other, each with its level. -/
def levelsAll (level : Nat) : List Tree → List (Nat × Node)
  | [] => []
  | t :: ts => levels level t ++ levelsAll level ts
end

mutual
theorem map_snd_levels (level : Nat) : ∀ t : Tree,
    (t.levels level).map (·.2) = t.preorder.map head
  | .node n cs => by
    rw [levels, preorder_node, List.map_cons, List.map_cons, map_snd_levelsAll (level + 1) cs]
    rfl

theorem map_snd_levelsAll (level : Nat) : ∀ ts : List Tree,
    (levelsAll level ts).map (·.2) = (ts.flatMap preorder).map head
  | [] => rfl
  | t :: ts => by
    rw [levelsAll, List.map_append, map_snd_levels level t, map_snd_levelsAll level ts,
      List.flatMap_cons, List.map_append]
end

/-- The line of a node at a level. -/
def line (source : Source) (step : Nat × Node) : String :=
  "".pushn ' ' (2 * step.1) ++ step.2.outline source ++ "\n"

/-- The lines of some nodes at their levels, unless one of them is indented too wide. -/
def lines (source : Source) (steps : List (Nat × Node)) : Option String :=
  if ∀ step ∈ steps, 2 * step.1 ≤ maxIndent then some (String.join (steps.map (line source)))
  else none

theorem lines_append (source : Source) (steps steps' : List (Nat × Node)) :
    lines source (steps ++ steps') =
      (lines source steps).bind fun first => (lines source steps').map (first ++ ·) := by
  unfold lines
  simp only [List.forall_mem_append]
  by_cases hfirst : ∀ step ∈ steps, 2 * step.1 ≤ maxIndent
  · by_cases hothers : ∀ step ∈ steps', 2 * step.1 ≤ maxIndent
    · rw [if_pos ⟨hfirst, hothers⟩, if_pos hfirst, if_pos hothers, List.map_append,
        String.join_append]
      rfl
    · rw [if_neg fun h => hothers h.2, if_pos hfirst, if_neg hothers]
      rfl
  · rw [if_neg fun h => hfirst h.1, if_neg hfirst]
    rfl

theorem lines_singleton (source : Source) (level : Nat) (n : Node) :
    lines source [(level, n)] =
      (indent? (2 * level)).map fun gap => gap ++ n.outline source ++ "\n" := by
  unfold lines indent?
  simp only [List.forall_mem_singleton]
  by_cases hwidth : 2 * level ≤ maxIndent
  · rw [if_pos hwidth, if_pos hwidth, List.map_singleton, String.join_cons,
      String.join_nil, String.append_empty]
    rfl
  · rw [if_neg hwidth, if_neg hwidth]
    rfl

mutual
/-- The outline of a tree is made of the lines of its nodes in preorder. -/
theorem outlineAt_eq (source : Source) (level : Nat) : ∀ t : Tree,
    t.outlineAt source level = lines source (t.levels level)
  | .node n cs => by
    rw [outlineAt, levels, outlineAll_eq source (level + 1) cs, ← List.singleton_append,
      lines_append, lines_singleton]
    rcases lines source (levelsAll (level + 1) cs) with _ | below
    · cases indent? (2 * level) <;> rfl
    · cases indent? (2 * level) <;> rfl

theorem outlineAll_eq (source : Source) (level : Nat) : ∀ ts : List Tree,
    outlineAll source level ts = lines source (levelsAll level ts)
  | [] => rfl
  | t :: ts => by
    rw [outlineAll, levelsAll, lines_append, outlineAt_eq source level t,
      outlineAll_eq source level ts]
    rcases lines source (t.levels level) with _ | first
    · rfl
    · cases lines source (levelsAll level ts) <;> rfl
end

end Tree

/-! ## Trees in a forest -/

namespace Forest

variable {f : Forest} {ls : SlotHandle → List SlotHandle} {r : SlotHandle}
  {hs : List SlotHandle} {level : Nat} {steps : List (Nat × SlotHandle)}

/-- The node of a live handle. -/
def node? (f : Forest) (h : SlotHandle) : Option Node := (f.get? h).map (·.node)

/-- The trees below some nodes are made of the nodes in their preorder by recursion. -/
theorem PreorderAt.treesBelow_eq (hp : f.PreorderAt level hs steps)
    (hlive : ∀ h ∈ steps.map (·.2), f.isLive h) : ∀ {depth : Nat}, steps.length ≤ depth →
      (f.treesBelow depth hs).length = hs.length ∧
        (Tree.levelsAll level (f.treesBelow depth hs)).map (Prod.map id some) =
          steps.map (Prod.map id f.node?) := by
  induction hp with
  | nil =>
    intro depth _
    cases depth <;> exact ⟨rfl, rfl⟩
  | @cons level h hs below rest _ _ ih ih' =>
    intro depth hdepth
    obtain ⟨depth, rfl⟩ : ∃ n, depth = n + 1 :=
      ⟨depth - 1, by simp only [List.length_cons] at hdepth; omega⟩
    simp only [List.length_cons, List.length_append] at hdepth
    rw [List.map_cons, List.map_append, List.forall_mem_cons, List.forall_mem_append] at hlive
    obtain ⟨hh, hbelow, hrest⟩ := hlive
    obtain ⟨e, he⟩ := Option.isSome_iff_exists.1 hh
    obtain ⟨-, hlevels⟩ := ih hbelow (show below.length ≤ depth by omega)
    obtain ⟨hlength', hlevels'⟩ := ih' hrest (show rest.length ≤ depth + 1 by omega)
    have htrees : f.treesBelow (depth + 1) (h :: hs) =
        .node e.node (f.treesBelow depth (f.children h)) :: f.treesBelow (depth + 1) hs := by
      rw [treesBelow, treesBelow, List.filterMap_cons_some (by rw [he]; rfl)]
    rw [htrees, List.length_cons, List.length_cons, hlength']
    refine ⟨rfl, ?_⟩
    rw [Tree.levelsAll, Tree.levels, List.map_append, List.map_cons, hlevels, hlevels',
      List.map_cons, List.map_append, List.cons_append]
    refine congrArg (· :: _) ?_
    show (level, some e.node) = (level, f.node? h)
    rw [node?, he]
    rfl

/-- The tree below a live node is made of the nodes in its preorder by recursion. -/
theorem PreorderAt.exists_tree? (hp : f.PreorderAt 0 [r] steps) (hf : f.NearlyLists ls)
    (hr : f.AcyclicFrom r) (hlive : f.isLive r) : ∃ t, f.tree? r = some t ∧
      (t.levels 0).map (Prod.map id some) = steps.map (Prod.map id f.node?) := by
  have hall : ∀ h ∈ steps.map (·.2), f.isLive h := by
    intro h hh
    rcases hp.eq_or_live hf hh with rfl | hh
    · exact hlive
    · exact hh
  obtain ⟨hlength, hlevels⟩ := hp.treesBelow_eq hall (hp.length_le_of_live hf hr hlive)
  obtain ⟨t, ht⟩ := List.length_eq_one_iff.1 hlength
  rw [ht, Tree.levelsAll, Tree.levelsAll, List.append_nil] at hlevels
  exact ⟨t, by rw [tree?, ht]; rfl, hlevels⟩

/-- One list of steps is the preorder of a node by recursion, what a walk with a stack gives, and
what the tree there is read from. -/
structure IsPreorder (f : Forest) (r : SlotHandle) (steps : List (Nat × SlotHandle)) : Prop where
  recursive : f.PreorderAt 0 [r] steps
  /-- The children of a node are where the next siblings lead. -/
  chain : ∀ {h e}, f.get? h = some e → f.Chain e.links.firstChild (f.children h)
  run?_eq : ∃ limit, (Walk.start r).run? f limit = some (steps.map (·.2))
  walk_eq : f.walk r = steps.map (·.2)
  walk_eq_cons : ∀ {h}, f.Within h r → f.walk h = h :: (f.children h).flatMap f.walk
  nodup : (steps.map (·.2)).Nodup
  mem_iff : ∀ {h}, h ∈ steps.map (·.2) ↔ f.Within h r
  /-- What is found is the first node of the kind. -/
  find?_eq_some_iff : ∀ {kind h}, f.find? r kind = some h ↔
    (f.node? h).map (·.kind) = some kind ∧ ∃ before after, steps.map (·.2) = before ++ h :: after ∧
      ∀ b ∈ before, (f.node? b).map (·.kind) ≠ some kind
  tree : f.isLive r → ∃ t, f.tree? r = some t ∧
    (t.levels 0).map (Prod.map id some) = steps.map (Prod.map id f.node?) ∧
    t.size = steps.length ∧ (∀ kind, (t.find? kind).map Tree.head = (f.find? r kind).bind f.node?) ∧
    ∀ source, t.outline? source = Tree.lines source (t.levels 0)

theorem find?_eq (f : Forest) (r : SlotHandle) (kind : Kind) :
    f.find? r kind = (f.walk r).find? fun d => (f.node? d).map (·.kind) == some kind := by
  refine congrArg (List.find? · _) (funext fun d => ?_)
  rw [node?]
  cases f.get? d <;> rfl

/-- The first of some nodes of a kind is found where it is stored. -/
theorem find?_map_eq {ns : List Node} {hs : List SlotHandle} {kind : Kind}
    (heq : ns.map some = hs.map f.node?) : ns.find? (·.kind == kind) =
      (hs.find? fun d => (f.node? d).map (·.kind) == some kind).bind f.node? := by
  induction ns generalizing hs with
  | nil =>
    obtain rfl := List.map_eq_nil_iff.1 heq.symm
    rfl
  | cons n ns ih =>
    obtain ⟨h, hs, rfl, hn, hrest⟩ := List.map_eq_cons_iff.1 heq.symm
    by_cases hkind : n.kind = kind
    · rw [List.find?_cons_of_pos (by simpa using hkind),
        List.find?_cons_of_pos (by simp [hn, hkind]), Option.bind_some, hn]
    · rw [List.find?_cons_of_neg (by simpa using hkind),
        List.find?_cons_of_neg (by simp [hn, hkind]), ih hrest.symm]

theorem AcyclicFrom.exists_isPreorder (hr : f.AcyclicFrom r) (hf : f.NearlyLists ls) :
    ∃ steps, f.IsPreorder r steps := by
  obtain ⟨steps, hp⟩ := hr.exists_preorderAt hf 0
  have hwalk := hp.walk_eq hf hr
  refine ⟨steps, hp, fun {h e} he => ?_, ⟨_, Walk.run?_start hp 0⟩, hwalk,
    fun hh => (hr.of_within hh).walk_eq hf, hp.nodup_of_acyclicFrom hf hr, fun {h} => ?_,
    fun {kind h} => ?_, fun hlive => ?_⟩
  · rw [hf.children_eq]
    exact hf.chain he
  · rw [hp.mem_iff]
    simp
  · rw [find?_eq, hwalk, List.find?_eq_some_iff_append]
    simp
  · obtain ⟨t, ht, hlevels⟩ := hp.exists_tree? hf hr hlive
    have hheads : (t.preorder.map Tree.head).map some = (steps.map (·.2)).map f.node? := by
      have hnodes := congrArg (List.map Prod.snd) hlevels
      rw [List.map_map, List.map_map] at hnodes
      rw [← Tree.map_snd_levels 0, List.map_map, List.map_map]
      exact hnodes
    refine ⟨t, ht, hlevels, ?_, fun kind => ?_, fun source => Tree.outlineAt_eq source 0 t⟩
    · simpa [Tree.size] using congrArg List.length hheads
    · rw [find?_eq, hwalk, ← find?_map_eq hheads, List.find?_map]
      rfl

/-- After any calls, failed ones among them, and for every node such that neither it nor one below
it is below itself: the walk with a stack ends and gives the preorder by recursion, each node
once, and the first node of a kind, the number of nodes and the outline are told by that order,
each line being indented by twice the level. -/
theorem walk_is_preorder (calls : List Call) {r : SlotHandle} (hr : (after calls).AcyclicFrom r) :
    ∃ steps, (after calls).IsPreorder r steps := by
  obtain ⟨ls, hf⟩ := after_nearly calls
  exact hr.exists_isPreorder hf

/-- The second child comes after what is below the first one. -/
theorem walk_is_preorder_nested :
    ∃ f, after [.alloc .exprList {} {}, .alloc .parenExpr {} {}, .alloc .nullLiteral {} {},
        .alloc .integerLiteral {} {}, .addChild ⟨0, 0, 0⟩ ⟨0, 3, 0⟩, .addChild ⟨0, 0, 0⟩ ⟨0, 1, 0⟩,
        .addChild ⟨0, 3, 0⟩ ⟨0, 2, 0⟩, .removeChild ⟨0, 3, 0⟩ ⟨0, 2, 0⟩,
        .addChild ⟨0, 1, 0⟩ ⟨0, 2, 0⟩, .removeChild ⟨0, 0, 0⟩ ⟨0, 3, 0⟩,
        .addChild ⟨0, 0, 0⟩ ⟨0, 3, 0⟩] = f ∧
      f.AcyclicFrom ⟨0, 0, 0⟩ ∧ ∃ steps, f.IsPreorder ⟨0, 0, 0⟩ steps ∧
        steps.map (·.2) = [⟨0, 0, 0⟩, ⟨0, 1, 0⟩, ⟨0, 2, 0⟩, ⟨0, 3, 0⟩] := by
  refine ⟨_, rfl, ?_⟩
  obtain ⟨ls, hf⟩ := after_nearly [.alloc .exprList {} {}, .alloc .parenExpr {} {},
    .alloc .nullLiteral {} {}, .alloc .integerLiteral {} {}, .addChild ⟨0, 0, 0⟩ ⟨0, 3, 0⟩,
    .addChild ⟨0, 0, 0⟩ ⟨0, 1, 0⟩, .addChild ⟨0, 3, 0⟩ ⟨0, 2, 0⟩,
    .removeChild ⟨0, 3, 0⟩ ⟨0, 2, 0⟩, .addChild ⟨0, 1, 0⟩ ⟨0, 2, 0⟩,
    .removeChild ⟨0, 0, 0⟩ ⟨0, 3, 0⟩, .addChild ⟨0, 0, 0⟩ ⟨0, 3, 0⟩]
  have hacyclic := hf.acyclicFrom_of_slots (by decide +kernel) ⟨0, 0, 0⟩
  obtain ⟨steps, hsteps⟩ := walk_is_preorder _ hacyclic
  exact ⟨hacyclic, steps, hsteps, hsteps.walk_eq.symm.trans (by decide +kernel)⟩

end Forest

end SqlSyntax
