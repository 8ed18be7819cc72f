import SqlSyntax.Proofs.Planting

/-!
# How many children a node has

Many kinds tell how many children their nodes have (`Kind.arity?`): an operator has its operands, a
clause its condition, a name nothing. A node that is being made still wants some children, or it is
of a kind that takes any number. Its phase tells what it wants, and a tree is at a phase if all
nodes below the root have as many children as their kinds tell. So phases tell what productions
plant (`Parser.Plants`), and each child that is put under a node leads to the next phase.
-/

namespace SqlSyntax

open SqlSyntax.Parser

/-- How many children a node of a kind has, if the kind tells. -/
@[reducible]
def Kind.arity? : Kind → Option Nat
  | .beginStmt | .commitStmt | .rollbackStmt | .savepointStmt | .releaseStmt | .detachStmt => some 0
  | .conflictAction | .typeName | .nullConstraint | .collateConstraint | .objectName => some 0
  | .renameTable | .dropColumn | .alias | .columnRef | .wildcard | .qualifiedWildcard => some 0
  | .identifier | .parameter | .integerLiteral | .floatLiteral | .stringLiteral => some 0
  | .blobLiteral | .booleanLiteral | .nullLiteral => some 0
  | .createSchemaStmt | .truncateStmt | .explainStmt | .attachStmt | .whereClause => some 1
  | .havingClause | .orderByItem | .limitClause | .offsetClause | .onCondition => some 1
  | .checkConstraint | .defaultConstraint | .indexedColumn | .addColumn | .unaryExpr => some 1
  | .parenExpr | .castExpr | .extractExpr | .elseClause | .existsExpr | .collateExpr => some 1
  | .subqueryExpr => some 1
  | .alterTableStmt | .resultColumn | .renameColumn | .binaryExpr | .positionExpr => some 2
  | .inExpr | .isExpr => some 2
  | .betweenExpr => some 3
  | _ => none

/-- The root has as many children as its kind tells. -/
def Tree.Counted (t : Tree) : Prop := ∀ n ∈ t.kind.arity?, t.children.length = n

/-! ## Phases of a node -/

/-- What is known of the kind of a node and the number of its children. -/
abbrev Phase := Kind → Nat → Prop

namespace Phase

def nothing : Phase := fun _ _ => False

/-- The node wants so many more children, or, if no number is given, it takes any. -/
def wants (more : Option Nat) : Phase := fun k n => k.arity? = more.map (n + ·)

/-- The node has as many children as its kind tells. -/
def whole : Phase := fun k n => ∀ m ∈ k.arity?, n = m

def either (σ ρ : Phase) : Phase := fun k n => σ k n ∨ ρ k n

/-- The kind of the node does not tell how many children it has. -/
abbrev free : Phase := wants none

/-- What is at the one phase is at the other. -/
class Sub (σ ρ : Phase) : Prop where
  le : ∀ {k n}, σ k n → ρ k n

/-- With one more child a node at the one phase is at the other. -/
class Next (σ : Phase) (ρ : outParam Phase) : Prop where
  step : ∀ {k n}, σ k n → ρ k (n + 1)

variable {σ ρ τ : Phase} {m : Nat}

namespace Sub

instance (priority := 1100) refl : Sub σ σ := ⟨id⟩

instance nothing : Sub nothing σ := ⟨nofun⟩

instance either [hσ : Sub σ τ] [hρ : Sub ρ τ] : Sub (either σ ρ) τ := ⟨(·.elim hσ.le hρ.le)⟩

instance left [h : Sub σ ρ] : Sub σ (ρ.either τ) := ⟨fun hk => .inl (h.le hk)⟩

instance right [h : Sub σ τ] : Sub σ (ρ.either τ) := ⟨fun hk => .inr (h.le hk)⟩

/-- A node that wants nothing more is whole. -/
instance full : Sub (wants (some 0)) whole where
  le hk _ hm := Option.some.inj (hk.symm.trans hm)

instance free : Sub free whole where
  le hk _ hm := by
    rw [show Kind.arity? _ = none from hk] at hm
    cases hm

end Sub

namespace Next

instance free : Next free free := ⟨id⟩

instance wants : Next (wants (some (m + 1))) (wants (some m)) where
  step {k n} hk := by
    have heq : n + (m + 1) = n + 1 + m := by omega
    exact hk.trans (congrArg some heq)

end Next

end Phase

/-- A tree at a phase, in which every node below the root has as many children as its kind tells. -/
structure Tree.At (σ : Phase) (t : Tree) : Prop where
  root : σ t.kind t.children.length
  below : ∀ c ∈ t.children, c.Everywhere Counted

namespace Tree.At

variable {σ ρ : Phase} {t c : Tree}

theorem sub (h : t.At σ) (hσ : σ.Sub ρ) : t.At ρ := ⟨hσ.le h.root, h.below⟩

theorem leaf {n : Node} (h : σ n.kind 0) : (Tree.leaf n).At σ := ⟨h, nofun⟩

theorem counted (h : t.At .whole) : t.Everywhere Counted := by
  obtain ⟨n, cs⟩ := t
  exact everywhere_node.2 ⟨h.root, h.below⟩

theorem mapHead (h : t.At σ) {change : Node → Node} (hc : ∀ n, (change n).kind = n.kind) :
    (t.mapHead change).At σ := by
  obtain ⟨n, cs⟩ := t
  refine ⟨?_, h.below⟩
  have hkind : (Tree.mapHead change (.node n cs)).kind = n.kind := hc n
  rw [hkind]
  exact h.root

theorem append (h : t.At σ) (hc : c.At .whole) (hσ : σ.Next ρ) : (t.append [c]).At ρ := by
  refine ⟨?_, List.forall_mem_append.2 ⟨h.below, List.forall_mem_singleton.2 hc.counted⟩⟩
  show ρ t.kind (t.children ++ [c]).length
  rw [List.length_append]
  exact hσ.step h.root

theorem prepend (h : t.At σ) (hc : c.At .whole) (hσ : σ.Next ρ) : (t.prepend c).At ρ :=
  ⟨hσ.step h.root, List.forall_mem_cons.2 ⟨hc.counted, h.below⟩⟩

end Tree.At

namespace Phase

variable {σ ρ τ : Phase}

instance : TreeSort Phase where
  Of := Tree.At
  mapHead h hc := Tree.At.mapHead h hc

instance [hσ : σ.Sub ρ] : TreeSort.Sub σ ρ := ⟨fun h => Tree.At.sub h hσ⟩

instance : TreeSort.Join σ ρ (σ.either ρ) where
  left := inferInstance
  right := inferInstance

instance : TreeSort.Void nothing where

instance [hσ : σ.Next τ] [hρ : ρ.Sub whole] : TreeSort.Takes σ ρ τ where
  append ht hc := Tree.At.append ht (Tree.At.sub hc hρ) hσ
  prepend ht hc := Tree.At.prepend ht (Tree.At.sub hc hρ) hσ

/-! ## New nodes -/

theorem at_leaf {kind : Kind} {n : Node} (h : n.kind = kind) :
    (Tree.leaf n).At (wants kind.arity?) := .leaf (by simp [wants, h])

variable {Γ : Facts Phase}

instance newNode (kind : Kind) (location : Location) (span : Span) :
    Plants Γ (newNode kind location span) (wants kind.arity?) := .newNode_of at_leaf ..

instance nodeAt (kind : Kind) (token : Token) : Plants Γ (nodeAt kind token) (wants kind.arity?) :=
  .nodeAt_of at_leaf token

instance nodeOver (kind : Kind) (first : Tree) :
    Plants Γ (nodeOver kind first) (wants kind.arity?) := .nodeOver_of at_leaf first

instance namedNode (kind : Kind) (token : Token) :
    Plants Γ (namedNode kind token) (wants kind.arity?) := .namedNode_of at_leaf token

/-! Under a new node of a kind that tells no number there may be any. -/

section

variable {kind : Kind} (hkind : kind.arity? = none)

include hkind

theorem nodeAt_free (token : Token) : Plants Γ (Parser.nodeAt kind token) free :=
  show Plants Γ _ (wants none) from hkind ▸ nodeAt kind token

theorem nodeOver_free (first : Tree) : Plants Γ (Parser.nodeOver kind first) free :=
  show Plants Γ _ (wants none) from hkind ▸ nodeOver kind first

end

end Phase

/-- The productions that occur inside one another make trees of which all nodes have as many
children as their kinds tell, whatever is known. -/
class Nested.Counts (inner : Nested) : Prop where
  expression : ∀ (Γ : Facts Phase) power, Plants Γ (inner.expression power) .whole
  query : ∀ Γ : Facts Phase, Plants Γ inner.query .free
  joinTree : ∀ Γ : Facts Phase, Plants Γ inner.joinTree .whole
  statement : ∀ Γ : Facts Phase, Plants Γ inner.statement .whole

attribute [instance] Nested.Counts.expression Nested.Counts.query Nested.Counts.joinTree
  Nested.Counts.statement

end SqlSyntax
