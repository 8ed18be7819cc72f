import SqlSyntax.Proofs.Pairing

/-!
# Trees without nodes for parentheses

A tree may have a node for each pair of parentheses around an expression. Without these nodes the
expressions are marked instead (`Tree.withoutParens`). Nodes above them may then begin elsewhere,
and every node after them has another number; the rest of a tree stays (`Tree.compacted`).
-/

namespace SqlSyntax

namespace Node

/-- The node without its number and its place. -/
def bare (n : Node) : Node := { n with id := 0, location := {}, span := {} }

/-- The node without its number, and without its place if that is the place of an expression. -/
def settled (n : Node) : Node := if n.kind.floats then n.bare else { n with id := 0 }

variable (n : Node)

@[simp]
theorem kind_settled : n.settled.kind = n.kind := by unfold settled; split <;> rfl

theorem text_settled : n.settled.text = n.text := by unfold settled; split <;> rfl

theorem schema_settled : n.settled.schema = n.schema := by unfold settled; split <;> rfl

theorem has_settled (f : Flag) : n.settled.has f = n.has f := by unfold settled; split <;> rfl

theorem bare_settled : n.settled.bare = n.bare := by unfold settled; split <;> rfl

theorem settled_of_floats {n : Node} (h : n.kind.floats) : n.settled = n.bare := if_pos h

theorem settled_of_placed {n : Node} (h : n.kind.floats = false) :
    n.settled = { n with id := 0 } := by
  rw [settled, h]
  rfl

/-- Nodes that differ in their numbers alone. -/
theorem settled_congr {n n' : Node} (h : { n with id := 0 } = { n' with id := 0 }) :
    n.settled = n'.settled := by
  have hnumber : ∀ n : Node, ({ n with id := 0 } : Node).settled = n.settled := fun n => by
    unfold settled
    split <;> rfl
  rw [← hnumber n, h, hnumber n']

theorem settled_mark (f : Flag) : (n.mark f).settled = n.settled.mark f := by
  show (if n.kind.floats then _ else _ : Node) = (if n.kind.floats then _ else _ : Node).mark f
  split <;> rfl

end Node

namespace Tree

variable {t c : Tree} {n : Node} {cs : List Tree}

/-- What holds of a node whenever it holds of the children holds of every tree. -/
@[elab_as_elim]
theorem induction {P : Tree → Prop} (node : ∀ n cs, (∀ c ∈ cs, P c) → P (.node n cs))
    (t : Tree) : P t := by
  refine @Tree.rec P (fun cs => ∀ c ∈ cs, P c) node (List.forall_mem_nil P) ?_ t
  exact fun c cs hc hcs => List.forall_mem_cons.2 ⟨hc, hcs⟩

mutual
/-- The tree with other nodes at the same places. -/
def mapNodes (f : Node → Node) : Tree → Tree
  | .node n cs => .node (f n) (mapNodesAll f cs)

/-- The trees with other nodes at the same places. -/
def mapNodesAll (f : Node → Node) : List Tree → List Tree
  | [] => []
  | t :: ts => mapNodes f t :: mapNodesAll f ts
end

mutual
/-- The tree with each pair of parentheses replaced by the expression in it, which is marked. -/
def withoutParens : Tree → Tree
  | .node n cs =>
    match n.kind, withoutParensAll cs with
    | .parenExpr, [c] => c.mapHead (·.mark .parenthesized)
    | _, cs => .node n cs

/-- The trees with each pair of parentheses replaced by the expression in it. -/
def withoutParensAll : List Tree → List Tree
  | [] => []
  | t :: ts => withoutParens t :: withoutParensAll ts
end

/-- The tree without numbers and places. -/
def bare (t : Tree) : Tree := t.mapNodes Node.bare

/-- What a tree has in common with the one that is made without nodes for parentheses. -/
def compacted (t : Tree) : Tree := t.withoutParens.mapNodes Node.settled

/-! ## Equations -/

theorem mapNodesAll_eq (f : Node → Node) (ts : List Tree) :
    mapNodesAll f ts = ts.map (mapNodes f) := by
  induction ts with
  | nil => rw [mapNodesAll, List.map_nil]
  | cons t ts ih => rw [mapNodesAll, ih, List.map_cons]

theorem mapNodes_node (f : Node → Node) (n : Node) (cs : List Tree) :
    mapNodes f (.node n cs) = .node (f n) (cs.map (mapNodes f)) := by
  rw [mapNodes, mapNodesAll_eq]

theorem mapNodes_mapNodes (f g : Node → Node) (t : Tree) :
    (t.mapNodes f).mapNodes g = t.mapNodes fun n => g (f n) := by
  induction t using Tree.induction with
  | node n cs ih =>
    simp only [mapNodes_node, List.map_map]
    exact congrArg _ (List.map_congr_left ih)

theorem mapNodes_mapHead {f g : Node → Node} (h : ∀ n, f (g n) = g (f n)) (t : Tree) :
    (t.mapHead g).mapNodes f = (t.mapNodes f).mapHead g := by
  obtain ⟨n, cs⟩ := t
  simp only [mapHead, mapNodes_node, h]

theorem withoutParensAll_eq (ts : List Tree) : withoutParensAll ts = ts.map withoutParens := by
  induction ts with
  | nil => rw [withoutParensAll, List.map_nil]
  | cons t ts ih => rw [withoutParensAll, ih, List.map_cons]

theorem withoutParens_node (h : n.kind ≠ .parenExpr) :
    withoutParens (.node n cs) = .node n (cs.map withoutParens) := by
  rw [withoutParens, withoutParensAll_eq]
  split
  · next hk _ => exact absurd hk h
  · rfl

theorem withoutParens_paren (h : n.kind = .parenExpr) :
    withoutParens (.node n [c]) = c.withoutParens.mapHead (·.mark .parenthesized) := by
  rw [withoutParens, h]
  rfl

/-- A tree without parentheses stays. -/
theorem withoutParens_eq (h : t.Everywhere (·.kind ≠ .parenExpr)) : t.withoutParens = t := by
  induction t using Tree.induction with
  | node n cs ih =>
    obtain ⟨hn, hcs⟩ := everywhere_node.1 h
    rw [withoutParens_node (n := n) hn]
    refine congrArg _ ((List.map_congr_left fun c hc => ih c hc (hcs c hc)).trans ?_)
    exact List.map_id' cs

theorem compacted_node (h : n.kind ≠ .parenExpr) :
    compacted (.node n cs) = .node n.settled (cs.map compacted) := by
  rw [compacted, withoutParens_node h, mapNodes_node, List.map_map]
  rfl

theorem compacted_paren (h : n.kind = .parenExpr) :
    compacted (.node n [c]) = c.compacted.mapHead (·.mark .parenthesized) := by
  rw [compacted, withoutParens_paren h,
    mapNodes_mapHead fun n => Node.settled_mark n .parenthesized]
  rfl

/-- What is left out of a tree that is compacted is left out of a bare one. -/
theorem bare_compacted (t : Tree) : t.compacted.bare = t.withoutParens.bare := by
  rw [compacted, bare, mapNodes_mapNodes, bare]
  exact congrArg (fun f => t.withoutParens.mapNodes f) (funext Node.bare_settled)

section Roots

variable (h : t.kind ≠ .parenExpr)
include h

theorem compacted_eq : t.compacted = .node t.head.settled (t.children.map compacted) := by
  obtain ⟨n, cs⟩ := t
  exact compacted_node h

theorem head_compacted : t.compacted.head = t.head.settled := by rw [compacted_eq h, head]

theorem kind_compacted : t.compacted.kind = t.kind := by
  rw [kind, head_compacted h, Node.kind_settled, kind]

theorem children_compacted : t.compacted.children = t.children.map compacted := by
  rw [compacted_eq h, children]

theorem name_compacted (source : Source) : t.compacted.name source = t.name source := by
  rw [name, head_compacted h, Node.text_settled, name]

end Roots

/-! ## Where parentheses are -/

/-- In a list of rows or tables a child is neither parentheses nor begins where an expression
begins. -/
def Belongs (t c : Tree) : Prop :=
  t.kind.listsRows = true → c.kind ≠ .parenExpr ∧ c.kind.floats = false

/-- Parentheses hold one expression, and each child belongs where it is. -/
structure Proper (t : Tree) : Prop where
  paren : t.kind = .parenExpr → ∃ c, t.children = [c] ∧ c.kind.isOperand
  rows : ∀ c ∈ t.children, Belongs t c

/-- What holds of a node and of parentheses whenever it holds below them holds of every tree with
proper nodes. -/
@[elab_as_elim]
theorem Proper.induction {P : (t : Tree) → t.Everywhere Proper → Prop}
    (node : ∀ n cs, n.kind ≠ .parenExpr → ∀ (hroot : Proper (.node n cs))
      (hcs : ∀ c ∈ cs, c.Everywhere Proper), (∀ c (hc : c ∈ cs), P c (hcs c hc)) →
        P (.node n cs) (everywhere_node.2 ⟨hroot, hcs⟩))
    (paren : ∀ n c, n.kind = .parenExpr → c.kind.isOperand →
      ∀ (h : (Tree.node n [c]).Everywhere Proper) (hc : c.Everywhere Proper),
        P c hc → P (.node n [c]) h)
    (h : t.Everywhere Proper) : P t h := by
  induction t using Tree.induction with
  | node n cs ih =>
    obtain ⟨hn, hcs⟩ := everywhere_node.1 h
    by_cases hk : n.kind = .parenExpr
    · obtain ⟨c, rfl, hc⟩ : ∃ c, cs = [c] ∧ c.kind.isOperand := hn.paren hk
      have hproper := hcs c (List.mem_singleton_self c)
      exact paren n c hk hc h hproper (ih c (List.mem_singleton_self c) hproper)
    · exact node n cs hk hn hcs fun c hc => ih c hc (hcs c hc)

@[simp]
theorem kind_mark (t : Tree) (f : Flag) : (t.mapHead (·.mark f)).kind = t.kind := by
  cases t
  rfl

/-- An expression in parentheses is an expression without them. -/
theorem isOperand_compacted (h : t.Everywhere Proper) :
    t.kind.isOperand → t.compacted.kind.isOperand := by
  induction h using Proper.induction with
  | node n cs hn _ _ _ => exact fun hk => (kind_compacted (t := .node n cs) hn).symm ▸ hk
  | paren n c hn hc _ _ ih =>
    intro _
    rw [compacted_paren hn, kind_mark]
    exact ih hc

theorem isOperand_of_paren (h : t.kind = .parenExpr) : t.kind.isOperand := by
  rw [h]
  rfl

/-- A question about kinds that is false of every expression has the same answer. -/
theorem asks_compacted {p : Kind → Bool} (hp : ∀ k, k.isOperand → p k = false)
    (h : t.Everywhere Proper) : p t.compacted.kind = p t.kind := by
  by_cases hk : t.kind = .parenExpr
  · have hoperand := isOperand_of_paren hk
    rw [hp _ hoperand, hp _ (isOperand_compacted h hoperand)]
  · rw [kind_compacted hk]

end Tree

end SqlSyntax
