import SqlSyntax.Proofs.Bearing.Kinds
import SqlSyntax.Proofs.Planting

/-!
# Families of trees

A tree is of a family if its root is of a kind of the family and every node stands under one that
bears it. So families tell what productions plant (`Parser.Plants`), and `Family.Over` what may be
put under what.
-/

namespace SqlSyntax

open SqlSyntax.Parser

/-- A tree of a family in which every node bears its children. -/
structure Tree.Of (σ : Family) (t : Tree) : Prop where
  kind : σ t.kind
  ordered : t.Everywhere Tree.Ordered

variable {Γ : Facts Family} {σ ρ : Family} {t c : Tree}

namespace Tree.Of

theorem sub (h : t.Of σ) (hσ : σ.Sub ρ) : t.Of ρ := ⟨hσ.le h.kind, h.ordered⟩

theorem mapHead (h : t.Of σ) {change : Node → Node} (hc : ∀ n, (change n).kind = n.kind) :
    (t.mapHead change).Of σ := by
  obtain ⟨n, cs⟩ := t
  have hkind : (Tree.mapHead change (.node n cs)).kind = n.kind := hc n
  refine ⟨?_, h.ordered.mapHead ⟨?_, ?_⟩⟩ <;> rw [hkind]
  · exact h.kind
  · exact h.ordered.root.bears
  · exact h.ordered.root.inserts

theorem append (h : t.Of σ) (hc : c.Of ρ) (hσ : σ.Over ρ) : (t.append [c]).Of σ := by
  refine ⟨h.kind, h.ordered.append hc.ordered ⟨?_, fun hk => absurd hk (hσ.ne h.kind)⟩⟩
  refine List.forall_mem_append.2 ⟨h.ordered.root.bears, List.forall_mem_singleton.2 ?_⟩
  exact hσ.bears h.kind hc.kind

theorem prepend (h : t.Of σ) (hc : c.Of ρ) (hσ : σ.Over ρ) : (t.prepend c).Of σ := by
  refine ⟨h.kind, h.ordered.prepend hc.ordered ⟨?_, fun hk => absurd hk (hσ.ne h.kind)⟩⟩
  exact List.forall_mem_cons.2 ⟨hσ.bears h.kind hc.kind, h.ordered.root.bears⟩

end Tree.Of

namespace Family

instance : TreeSort Family where
  Of := Tree.Of
  mapHead h hc := Tree.Of.mapHead h hc

instance [hσ : σ.Sub ρ] : TreeSort.Sub σ ρ := ⟨fun h => Tree.Of.sub h hσ⟩

instance : TreeSort.Join σ ρ (σ.either ρ) where
  left := inferInstance
  right := inferInstance

instance : TreeSort.Void nothing where

instance [hσ : σ.Over ρ] : TreeSort.Takes σ ρ σ where
  append ht hc := Tree.Of.append ht hc hσ
  prepend ht hc := Tree.Of.prepend ht hc hσ

/-! ## New nodes -/

theorem of_leaf {kind : Kind} {n : Node} (h : n.kind = kind) : (Tree.leaf n).Of (only kind) :=
  ⟨beq_iff_eq.2 h, .leaf ⟨nofun, fun _ => .empty (by decide)⟩⟩

instance newNode (kind : Kind) (location : Location) (span : Span) :
    Plants Γ (newNode kind location span) (only kind) := .newNode_of of_leaf ..

instance nodeAt (kind : Kind) (token : Token) : Plants Γ (nodeAt kind token) (only kind) :=
  .nodeAt_of of_leaf token

instance nodeOver (kind : Kind) (first : Tree) : Plants Γ (nodeOver kind first) (only kind) :=
  .nodeOver_of of_leaf first

instance namedNode (kind : Kind) (token : Token) : Plants Γ (namedNode kind token) (only kind) :=
  .namedNode_of of_leaf token

end Family

/-- The productions that occur inside one another plant what they are called for, whatever is
known. -/
class Nested.Bears (inner : Nested) : Prop where
  expression : ∀ (Γ : Facts Family) power, Plants Γ (inner.expression power) .plain
  query : ∀ Γ : Facts Family, Plants Γ inner.query .query
  joinTree : ∀ Γ : Facts Family, Plants Γ inner.joinTree .plain
  statement : ∀ Γ : Facts Family, Plants Γ inner.statement .whole

attribute [instance] Nested.Bears.expression Nested.Bears.query Nested.Bears.joinTree
  Nested.Bears.statement

end SqlSyntax
