import SqlSyntax.Proofs.EntryPoints
import SqlSyntax.Proofs.Limits
import SqlSyntax.Proofs.Pairing.Same
import SqlSyntax.Proofs.Parentheses.Rules

/-!
# Compact trees

A session that makes no nodes for parentheses answers as one that makes them: with the same failure,
or with the same tree without these nodes. The two runs are compared step by step
(`Pairing.compacting`); what they make has a common form, which is all that the rules for whole
statements look at.
-/

namespace SqlSyntax

open SqlSyntax.Parser

variable {t t' c c' : Tree}

/-- A change of a node that does not depend on its number and place and marks no expression. -/
structure Node.Steady (change : Node → Node) : Prop where
  kind : ∀ n, (change n).kind = n.kind
  mark : ∀ n, (change n).has .parenthesized = n.has .parenthesized
  bare : ∀ n, (change n.bare).bare = (change n).bare
  number : ∀ n, { change { n with id := 0 } with id := 0 } = { change n with id := 0 }

theorem Node.Steady.settled {change : Node → Node} (h : Steady change) (n : Node) :
    (change n.settled).settled = (change n).settled := by
  have hkind : ∀ m : Node, m.kind = n.kind → (change m).kind.floats = n.kind.floats :=
    fun m hm => by rw [h.kind, hm]
  cases hplace : n.kind.floats with
  | true =>
    rw [settled_of_floats hplace, settled_of_floats (hkind n.bare rfl ▸ hplace),
      settled_of_floats (hkind n rfl ▸ hplace), h.bare]
  | false =>
    rw [settled_of_placed hplace, settled_of_placed (hkind { n with id := 0 } rfl ▸ hplace),
      settled_of_placed (hkind n rfl ▸ hplace), h.number]

namespace Tree

/-- No expression is marked as one in parentheses. -/
def Unmarked (t : Tree) : Prop := t.head.has .parenthesized = false

/-- A tree and the one that is made in its place without nodes for parentheses. -/
structure Compacts (t t' : Tree) : Prop where
  proper : t.Everywhere Proper
  unmarked : t.Everywhere Unmarked
  proper' : t'.Everywhere Proper
  plain : t'.Everywhere (·.kind ≠ .parenExpr)
  same : t'.compacted = t.compacted

theorem proper_leaf {n : Node} (h : n.kind ≠ .parenExpr) : Proper (leaf n) where
  paren hk := absurd hk h
  rows := nofun

theorem Proper.mapHead {f : Node → Node} (hf : ∀ n, (f n).kind = n.kind) (h : Proper t) :
    Proper (t.mapHead f) := by
  obtain ⟨n, cs⟩ := t
  have hkind : (Tree.mapHead f (.node n cs)).kind = n.kind := hf n
  refine ⟨fun hk => h.paren (hkind.symm.trans hk), fun c hc hk => h.rows c hc ?_⟩
  exact (congrArg Kind.listsRows hkind).symm.trans hk

theorem Proper.append (ht : t.kind ≠ .parenExpr) (h : Proper t) (hc : Belongs t c) :
    Proper (t.append [c]) where
  paren hk := absurd hk ht
  rows u hu := by
    rcases List.mem_append.1 hu with hu | hu
    · exact h.rows u hu
    · rw [List.mem_singleton.1 hu]
      exact hc

theorem Proper.prepend (ht : t.kind ≠ .parenExpr) (h : Proper t) (hc : Belongs t c) :
    Proper (t.prepend c) where
  paren hk := absurd hk ht
  rows := List.forall_mem_cons.2 ⟨hc, h.rows⟩

namespace Compacts

theorem leaf {n n' : Node} (hk : n.kind ≠ .parenExpr) (hk' : n'.kind ≠ .parenExpr)
    (hflags : n.flags = .empty) (h : n'.settled = n.settled) : Compacts (.leaf n) (.leaf n') where
  proper := .leaf (proper_leaf hk)
  unmarked := .leaf (by rw [Unmarked, Tree.leaf, head, Node.has, hflags]; rfl)
  proper' := .leaf (proper_leaf hk')
  plain := .leaf hk'
  same := by rw [Tree.leaf, Tree.leaf, compacted_node hk, compacted_node hk', h]

theorem kind' (h : Compacts t t') : t'.kind ≠ .parenExpr := h.plain.root

theorem head (h : Compacts t t') (ht : t.kind ≠ .parenExpr) :
    t'.head.settled = t.head.settled := by
  rw [← head_compacted h.kind', h.same, head_compacted ht]

theorem children (h : Compacts t t') (ht : t.kind ≠ .parenExpr) :
    t'.children.map compacted = t.children.map compacted := by
  rw [← children_compacted h.kind', h.same, children_compacted ht]

/-- The roots are changed in the same way. -/
theorem mapHead {f : Node → Node} (hf : Node.Steady f) (h : Compacts t t')
    (ht : t.kind ≠ .parenExpr) : Compacts (t.mapHead f) (t'.mapHead f) := by
  have hhead := h.head ht
  have hchildren := h.children ht
  have hplain := h.kind'
  obtain ⟨n, cs⟩ := t
  obtain ⟨n', cs'⟩ := t'
  have hk : (f n).kind ≠ .parenExpr := (hf.kind n).symm ▸ ht
  have hk' : (f n').kind ≠ .parenExpr := (hf.kind n').symm ▸ hplain
  have hroot : (Tree.node n cs).Unmarked := h.unmarked.root
  exact {
    proper := h.proper.mapHead (h.proper.root.mapHead hf.kind)
    unmarked := h.unmarked.mapHead ((hf.mark n).trans hroot)
    proper' := h.proper'.mapHead (h.proper'.root.mapHead hf.kind)
    plain := h.plain.mapHead hk'
    same := by
      have hsettled : (f n').settled = (f n).settled := by
        rw [← hf.settled n', ← hf.settled n]
        exact congrArg (fun m => (f m).settled) hhead
      rw [Tree.mapHead, Tree.mapHead, compacted_node hk, compacted_node hk', hsettled]
      exact congrArg _ hchildren }

theorem append (h : Compacts t t') (ht : t.kind ≠ .parenExpr) (hc : Compacts c c')
    (hbelongs : Belongs t c) (hbelongs' : Belongs t' c') :
    Compacts (t.append [c]) (t'.append [c']) where
  proper := h.proper.append hc.proper (h.proper.root.append ht hbelongs)
  unmarked := h.unmarked.append hc.unmarked h.unmarked.root
  proper' := h.proper'.append hc.proper' (h.proper'.root.append h.kind' hbelongs')
  plain := h.plain.append hc.plain h.kind'
  same := by
    have hplain : (t'.append [c']).kind ≠ .parenExpr := h.kind'
    rw [compacted_eq hplain, compacted_eq (t := t.append [c]) ht]
    refine congrArg₂ Tree.node (h.head ht) ?_
    show (t'.children ++ [c']).map compacted = (t.children ++ [c]).map compacted
    rw [List.map_append, List.map_append, h.children ht, List.map_singleton, List.map_singleton,
      hc.same]

theorem prepend (h : Compacts t t') (ht : t.kind ≠ .parenExpr) (hc : Compacts c c')
    (hbelongs : Belongs t c) (hbelongs' : Belongs t' c') :
    Compacts (t.prepend c) (t'.prepend c') where
  proper := h.proper.prepend hc.proper (h.proper.root.prepend ht hbelongs)
  unmarked := h.unmarked.prepend hc.unmarked h.unmarked.root
  proper' := h.proper'.prepend hc.proper' (h.proper'.root.prepend h.kind' hbelongs')
  plain := h.plain.prepend hc.plain h.kind'
  same := by
    have hplain : (t'.prepend c').kind ≠ .parenExpr := h.kind'
    rw [compacted_eq hplain, compacted_eq (t := t.prepend c) ht]
    refine congrArg₂ Tree.node (h.head ht) ?_
    show (c' :: t'.children).map compacted = (c :: t.children).map compacted
    rw [List.map_cons, List.map_cons, h.children ht, hc.same]

/-- An expression gets a node for its parentheses, or a mark. -/
theorem enclosed {n : Node} (hn : n.kind = .parenExpr) (hflags : n.flags = .empty)
    (h : Compacts t t') (ht : t.kind.isOperand) :
    Compacts (.node n [t]) (t'.mapHead (·.mark .parenthesized)) where
  proper := by
    refine everywhere_node.2 ⟨⟨fun _ => ⟨t, rfl, ht⟩, fun _ _ hk => ?_⟩, ?_⟩
    · rw [show (Tree.node n [t]).kind = .parenExpr from hn] at hk
      cases hk
    · exact List.forall_mem_singleton.2 h.proper
  unmarked := by
    refine everywhere_node.2 ⟨?_, List.forall_mem_singleton.2 h.unmarked⟩
    show n.has .parenthesized = false
    rw [Node.has, hflags]
    rfl
  proper' := h.proper'.mapHead (h.proper'.root.mapHead fun _ => rfl)
  plain := h.plain.mapHead (by rw [kind_mark]; exact h.kind')
  same := by
    have hplain := h.kind'
    rw [compacted_paren hn, ← h.same]
    obtain ⟨n', cs'⟩ := t'
    have hmark : (n'.mark .parenthesized).kind ≠ .parenExpr := hplain
    rw [Tree.mapHead, compacted_node hmark, compacted_node (n := n') hplain, Tree.mapHead,
      Node.settled_mark]

end Compacts

end Tree

/-! ## Two runs -/

namespace Pairing

variable {source : Source} {config : Config}

/-- The run that makes nodes for parentheses, and the one that does not. -/
def compacting (source : Source) (config : Config) : Pairing :=
  same source { config with compactTree := false } { config with compactTree := true }
    Tree.Compacts Eq (fun _ => True) True

theorem compacting_takes : (compacting source config).Takes :=
  takes_of_next trivial fun _ _ => trivial

theorem Amends.steady {W : Pairing} {k : Kind} {change change' : Node → Node}
    (h : W.Amends k change change') : Node.Steady change := by
  cases h with
  | mark hf =>
    exact ⟨fun _ => rfl, fun _ => Flags.has_insert_of_ne hf, fun _ => rfl, fun _ => rfl⟩
  | _ => exact ⟨fun _ => rfl, fun _ => rfl, fun _ => rfl, fun _ => rfl⟩

theorem compacting_place (h : (compacting source config).Placed t t') :
    t'.head.location = t.head.location ∧ t'.head.span = t.head.span := by
  obtain ⟨k, hk, ht⟩ := h
  have hk := (Kind.isAnchored_spec hk).1
  have hhead := ht.tree.head ht.root_ne_paren
  rw [Node.settled_of_placed ((congrArg Kind.floats ht.kind).trans hk),
    Node.settled_of_placed ((congrArg Kind.floats ht.kind').trans hk)] at hhead
  have hlocation := congrArg Node.location hhead
  have hspan := congrArg Node.span hhead
  exact ⟨hlocation, hspan⟩

/-- What fits under a node belongs there in both trees. -/
theorem compacting_belongs {k : Kind} (ht : (compacting source config).Made k t t')
    (hc : (compacting source config).Fits k c c') : Tree.Belongs t c ∧ Tree.Belongs t' c' := by
  unfold Tree.Belongs
  rw [ht.kind, ht.kind']
  have hplaced : k.listsRows = true → (c.kind ≠ .parenExpr ∧ c.kind.floats = false) ∧
      c'.kind ≠ .parenExpr ∧ c'.kind.floats = false := fun hk => by
    obtain ⟨j, hj, hmade⟩ := hc.2 hk
    rw [hmade.kind, hmade.kind']
    have hplace := (Kind.isAnchored_spec hj).1
    exact ⟨⟨hmade.ne_paren, hplace⟩, hmade.ne_paren, hplace⟩
  exact ⟨fun hk => (hplaced hk).1, fun hk => (hplaced hk).2⟩

theorem compacting_builds : (compacting source config).Builds where
  next _ := trivial
  leaf {t u _ _ _} _ ht _ hk _ := by
    obtain rfl : t = u := ht.1.1
    exact .leaf hk hk rfl (Node.settled_congr rfl)
  spans {t u i i' kind} _ hu hplace _ hk := by
    have hparen : kind ≠ .parenExpr := bne_iff_ne.1 (Bool.and_eq_true_iff.1 hk).1
    refine .leaf hparen hparen rfl ?_
    rcases hplace with hplace | hplace
    · rw [Node.settled_of_floats, Node.settled_of_floats]
      · rfl
      · exact hplace
      · exact hplace
    · obtain ⟨hlocation, hspan⟩ := compacting_place hplace
      rw [hlocation, hspan]
      exact Node.settled_congr rfl
  amend h ht := by
    obtain rfl := eq_of_amends h
    exact ht.tree.mapHead h.steady ht.root_ne_paren
  attach ht hc :=
    have ⟨hbelongs, hbelongs'⟩ := compacting_belongs ht hc
    ht.tree.append ht.root_ne_paren hc.1 hbelongs hbelongs'
  prepend ht hc :=
    have ⟨hbelongs, hbelongs'⟩ := compacting_belongs ht hc
    ht.tree.prepend ht.root_ne_paren hc.1 hbelongs hbelongs'
  enclosed {_ _ u u' _ _ stop stop'} context _ hu _ hstop := by
    obtain rfl : stop = stop' := hstop
    exact ⟨.enclosed rfl rfl hu.1 hu.2, rfl⟩
  enclosed_next _ := trivial

theorem compacting_reads : (compacting source config).Reads := same_reads_eq rfl rfl rfl rfl

theorem compacting_lawful : (compacting source config).Lawful :=
  { compacting_reads, compacting_takes, compacting_builds with }

end Pairing

/-! ## Two calls -/

namespace Session

/-- The session that makes compact trees, or full ones. -/
def compacting (s : Session) (compactTree : Bool) : Session :=
  { s with config := { s.config with compactTree } }

/-- A tree and the one that is made in its place come through the same rules. -/
theorem checked_compacts {source : Source} {mode : Mode} (h : Tree.Compacts t t') :
    (∃ f, checked source mode t = .error f ∧ checked source mode t' = .error f) ∨
      (checked source mode t = .ok t ∧ checked source mode t' = .ok t') := by
  have hfirst : (validate source mode t').map ParseError.ofViolation =
      (validate source mode t).map ParseError.ofViolation := by
    rw [← validate_compacted h.proper', h.same, validate_compacted h.proper]
  unfold checked
  generalize validate source mode t = o, validate source mode t' = o' at hfirst ⊢
  rcases o with _ | v <;> rcases o' with _ | v'
  · exact .inr ⟨rfl, rfl⟩
  · cases hfirst
  · cases hfirst
  · refine .inl ⟨_, rfl, ?_⟩
    rw [Option.map_some, Option.map_some, Option.some_inj] at hfirst
    simp only [hfirst]

/-- A parse that makes no nodes for parentheses goes as deep as one that makes them. It fails with
the same error, or its tree is the other one without these nodes: each of them has one child, which
is marked in its place, and no other node is marked. -/
theorem parse_compact (s : Session) (source : Source) :
    ((s.compacting true).parse source).2.last.deepest =
      ((s.compacting false).parse source).2.last.deepest ∧
    ((∃ f, ((s.compacting false).parse source).1 = .error f ∧
        ((s.compacting true).parse source).1 = .error f) ∨
      ∃ full compact, ((s.compacting false).parse source).1 = .ok full ∧
        ((s.compacting true).parse source).1 = .ok compact ∧
        (∀ t ∈ full.preorder, t.kind = .parenExpr → ∃ c, t.children = [c]) ∧
        (∀ t ∈ full.preorder, t.head.has .parenthesized = false) ∧
        compact.bare = full.withoutParens.bare) := by
  have hout := Script.single_alike Pairing.compacting_lawful
    ((s.compacting false).scope .one source) ((s.compacting true).scope .one source)
    ((s.compacting false).start (tokenize source)) ((s.compacting true).start (tokenize source))
    ⟨rfl, rfl, rfl, rfl, rfl, rfl, rfl⟩
    (Pairing.same_meets _ _ rfl rfl rfl rfl rfl) trivial trivial
  rw [parse_eq, parse_eq, parse_last, parse_last]
  rcases hrun : Script.single ((s.compacting false).scope .one source)
      ((s.compacting false).start (tokenize source)) with ⟨root, r⟩ | ⟨f, r⟩ <;>
    rcases hrun' : Script.single ((s.compacting true).scope .one source)
      ((s.compacting true).start (tokenize source)) with ⟨root', r'⟩ | ⟨f', r'⟩ <;>
    rw [hrun, hrun'] at hout
  · obtain ⟨⟨k, -, hroot⟩, -, hmeets, -⟩ := hout
    refine ⟨hmeets.deepest.symm, (checked_compacts hroot.tree).imp_right fun hok => ?_⟩
    refine ⟨root, root', hok.1, hok.2, fun t ht hk => ?_, hroot.tree.unmarked, ?_⟩
    · obtain ⟨c, hc, -⟩ := (hroot.tree.proper t ht).paren hk
      exact ⟨c, hc⟩
    · -- the compact tree has no parentheses, so it is its own form without them
      rw [← Tree.bare_compacted, ← hroot.tree.same, Tree.bare_compacted,
        Tree.withoutParens_eq hroot.tree.plain]
  · exact hout.elim
  · exact hout.elim
  · obtain ⟨hfails, hmeets⟩ := hout
    obtain rfl : f = f' := hfails
    exact ⟨hmeets.deepest.symm, .inl ⟨_, rfl, rfl⟩⟩

/-- One literal is in two pairs of parentheses. -/
example : (((({} : Session).compacting true).parse "SELECT ((1)) + 2".toList).1.toOption.map
    fun t => t.preorder.map fun u => (u.kind, u.head.has .parenthesized)) =
      some [(.selectStmt, false), (.selectList, false), (.binaryExpr, false),
        (.integerLiteral, true), (.integerLiteral, false)] := by
  decide +kernel

end Session

end SqlSyntax
