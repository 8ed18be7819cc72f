import SqlSyntax.Proofs.Levels
import SqlSyntax.Proofs.Session

/-!
# Operands and levels

Where no parentheses are dropped, the levels of the operators tell how a tree is nested. An operand
to the right of an operator comes from an expression that takes greater levels only. The operand to
its left was complete before it: what that operand ends with would have taken the operator, had the
operator been of a greater level (`Tree.Fits`). So the invariant of a growing expression speaks of
the token that comes next.
-/

namespace SqlSyntax

open SqlSyntax.Parser

namespace Kind

/-- Operators whose operands are bound by their level. -/
def chains : Kind → Bool
  | .binaryExpr | .likeExpr | .betweenExpr | .isExpr => true
  | _ => false

/-- Operators after an operand; `IN` has a list to its right, in parentheses of its own. -/
def joins : Kind → Bool
  | .binaryExpr | .likeExpr | .betweenExpr | .isExpr | .inExpr => true
  | _ => false

/-- Operators that choose their operands. -/
def ranked (k : Kind) : Bool := k.chains || k == .unaryExpr

theorem ranked_of_isOperator (k : Kind) (h : k.isOperator = false) : k.ranked = false := by
  cases k <;> first | rfl | cases h

theorem joins_of_isOperator (k : Kind) (h : k.isOperator = false) : k.joins = false := by
  cases k <;> first | rfl | cases h

end Kind

/-- The level of an operator after an operand. -/
def Node.level? (n : Node) : Option Nat :=
  match n.kind, n.operator with
  | .binaryExpr, some (.binary op) => some op.level
  | .likeExpr, _ | .betweenExpr, _ | .isExpr, _ | .inExpr, _ => some Power.words
  | _, _ => none

namespace Tree

def level? (t : Tree) : Option Nat := t.head.level?

/-- `NOT` before an operand. -/
def Negates (t : Tree) : Prop := t.kind = .unaryExpr ∧ t.head.operator = some (.unary .not)

/-- If the tree is an operator after an operand, its level is so great. -/
def AtLeast (power : Nat) (t : Tree) : Prop := t.kind.joins → ∃ l ∈ t.level?, power ≤ l

/-- The tree may stand to the left of an operator of the level. -/
structure LeftOf (level : Nat) (t : Tree) : Prop where
  chained : t.kind.chains → ∃ l ∈ t.level?, level ≤ l
  negated : t.Negates → level < Power.not

/-- An operator takes operands as its level tells. -/
structure Ranked (t : Tree) : Prop where
  operands : t.kind.chains → ∀ left right, t.children = left :: right →
    ∃ l ∈ t.level?, left.LeftOf l ∧ ∀ u ∈ right, u.AtLeast (l + 1)
  signed : t.kind = .unaryExpr → ∀ inner ∈ t.children,
    ∃ op, t.head.operator = some (.unary op) ∧
      (op ≠ .not → inner.kind.joins = false) ∧ (op = .not → inner.AtLeast Power.not)

/-- The tokens after the tree do not go on with what is at its end. -/
structure Fits (t : Tree) (ts : List Token) : Prop where
  chained : t.kind.chains → ∃ l ∈ t.level?, Power.Stops (l + 1) ts
  negated : t.Negates → Power.Stops Power.not ts

variable {t u : Tree} {n : Node} {l : Nat} {ts : List Token}

theorem Fits.leftOf (h : t.Fits ts) (hl : Power.ahead? ts = some l) : t.LeftOf l where
  chained hk := by
    obtain ⟨p, hp, hstops⟩ := h.chained hk
    exact ⟨p, hp, Nat.lt_succ_iff.1 (hstops l hl)⟩
  negated hk := h.negated hk l hl

theorem AtLeast.mono {power more : Nat} (h : t.AtLeast more) (hle : power ≤ more) :
    t.AtLeast power := by
  intro hk
  obtain ⟨l, hl, hmore⟩ := h hk
  exact ⟨l, hl, Nat.le_trans hle hmore⟩

theorem AtLeast.of_isOperator (h : t.kind.isOperator = false) (power : Nat) : t.AtLeast power := by
  intro hk
  rw [Kind.joins_of_isOperator _ h] at hk
  cases hk

theorem AtLeast.of_level {power : Nat} (h : t.level? = some l) (hle : power ≤ l) :
    t.AtLeast power :=
  fun _ => ⟨l, h, hle⟩

/-- No level is as great as the power of a sign. -/
theorem AtLeast.not_joins (h : t.AtLeast Power.sign) : t.kind.joins = false := by
  rw [← Bool.not_eq_true]
  intro hk
  obtain ⟨l, hl, hle⟩ := h hk
  have hlt : l < Power.sign := by
    unfold level? Node.level? at hl
    split at hl <;> simp only [Option.mem_def, Option.some.injEq, reduceCtorEq] at hl
    · rename_i op _ _
      subst hl
      cases op <;> decide
    all_goals exact hl ▸ (by decide)
  omega

/-- What the rank of a tree depends on stays. -/
structure SameRank (t u : Tree) : Prop where
  kind : t.kind = u.kind
  operator : t.head.operator = u.head.operator

namespace SameRank

variable (h : t.SameRank u)

include h

theorem level? : t.level? = u.level? := by
  have hkind : t.head.kind = u.head.kind := h.kind
  unfold Tree.level? Node.level?
  rw [hkind, h.operator]

theorem negates : t.Negates ↔ u.Negates := by
  unfold Negates
  rw [h.kind, h.operator]

theorem atLeast {power : Nat} (hu : u.AtLeast power) : t.AtLeast power := by
  unfold AtLeast at hu ⊢
  rwa [h.kind, h.level?]

theorem fits (hu : u.Fits ts) : t.Fits ts where
  chained := by
    rw [h.kind, h.level?]
    exact hu.chained
  negated hk := hu.negated (h.negates.1 hk)

theorem ranked (hc : t.children = u.children) (hu : u.Ranked) : t.Ranked where
  operands := by
    rw [h.kind, hc, h.level?]
    exact hu.operands
  signed := by
    rw [h.kind, hc, h.operator]
    exact hu.signed

end SameRank

theorem ranked_of_kind (h : t.kind.ranked = false) : t.Ranked := by
  rw [Kind.ranked, Bool.or_eq_false_iff] at h
  refine ⟨fun hk => ?_, fun hk => ?_⟩
  · rw [h.1] at hk
    cases hk
  · rw [hk] at h
    exact absurd h.2 (by decide)

theorem ranked_leaf (n : Node) : (leaf n).Ranked where
  operands _ _ _ h := nomatch h
  signed _ := List.forall_mem_nil _

/-- An operator that has no operands yet. -/
structure Open (l : Nat) (t : Tree) : Prop where
  kind : t.kind.chains = true
  level : t.level? = some l
  children : t.children = []

/-- An operator with the operand to its left and maybe more. -/
structure Filled (l : Nat) (t : Tree) : Prop where
  kind : t.kind.chains = true
  level : t.level? = some l
  children : ∃ left right, t.children = left :: right ∧ left.LeftOf l ∧
    ∀ u ∈ right, u.AtLeast (l + 1)

theorem Open.append (h : t.Open l) (hu : u.LeftOf l) : (t.append [u]).Filled l where
  kind := h.kind
  level := h.level
  children := by
    refine ⟨u, [], ?_, hu, List.forall_mem_nil _⟩
    rw [children_append, h.children]
    rfl

namespace Filled

theorem append (h : t.Filled l) (hu : u.AtLeast (l + 1)) : (t.append [u]).Filled l where
  kind := h.kind
  level := h.level
  children := by
    obtain ⟨left, right, hchildren, hleft, hright⟩ := h.children
    refine ⟨left, right ++ [u], ?_, hleft, ?_⟩
    · rw [children_append, hchildren]
      rfl
    · exact List.forall_mem_append.2 ⟨hright, by simpa using hu⟩

theorem ranked (h : t.Filled l) : t.Ranked where
  operands _ left right hchildren := by
    obtain ⟨left', right', hchildren', hleft, hright⟩ := h.children
    rw [hchildren] at hchildren'
    obtain ⟨rfl, rfl⟩ := List.cons.inj hchildren'
    exact ⟨l, h.level, hleft, hright⟩
  signed hunary := by
    have hk := h.kind
    rw [hunary] at hk
    cases hk

theorem atLeast (h : t.Filled l) : t.AtLeast l := .of_level h.level (Nat.le_refl l)

theorem fits (h : t.Filled l) (hstops : Power.Stops (l + 1) ts) : t.Fits ts where
  chained _ := ⟨l, h.level, hstops⟩
  negated hn := by
    have hk := h.kind
    rw [hn.1] at hk
    cases hk

end Filled

/-- A tree that is no operator fits anywhere. -/
theorem fits_of_kind (h : t.kind.ranked = false) (ts : List Token) : t.Fits ts := by
  rw [Kind.ranked, Bool.or_eq_false_iff] at h
  refine ⟨fun hk => ?_, fun hk => ?_⟩
  · rw [h.1] at hk
    cases hk
  · rw [hk.1] at h
    exact absurd h.2 (by decide)

theorem ranked_signed {op : UnaryOp} (hk : n.kind = .unaryExpr)
    (hop : n.operator = some (.unary op)) (hu : u.AtLeast op.level) :
    (node n [u]).Ranked where
  operands h := by
    have hchains : n.kind.chains = true := h
    rw [hk] at hchains
    cases hchains
  signed _ := by
    refine List.forall_mem_singleton.2 ⟨op, hop, fun hne => ?_, fun he => ?_⟩
    · refine AtLeast.not_joins ?_
      cases op <;> first | exact hu | exact absurd rfl hne
    · rwa [he] at hu

theorem fits_signed {op : UnaryOp} (hk : n.kind = .unaryExpr)
    (hop : n.operator = some (.unary op)) (hstops : Power.Stops op.level ts) :
    (node n [u]).Fits ts where
  chained h := by
    have hchains : n.kind.chains = true := h
    rw [hk] at hchains
    cases hchains
  negated h := by
    have hnot : n.operator = some (.unary .not) := h.2
    rw [hop] at hnot
    injection hnot with hnot
    injection hnot with hnot
    rwa [hnot] at hstops

/-- How an expression of a power ends. -/
def Ends (power : Nat) (t : Tree) (ts : List Token) : Prop :=
  t.AtLeast power ∧ Power.Stops power ts

end Tree

/-! ## Steps -/

namespace Law

/-- Every operator in the detached trees takes operands as its level tells. -/
def ranks (source : Source) (config : Config) : Law :=
  plain source config fun ts _ => ∀ t ∈ ts, t.Everywhere Tree.Ranked

/-- What productions may rely on where some operators get no operands. -/
def barring (config : Config) (inner : Nested) (bars : Kind → Bool)
    (h : ∀ k, k.isOperator = false → bars k = false) : Terms :=
  ⟨config, inner, fun _ => True, bars, h⟩

variable {source : Source} {config : Config} {inner : Nested} {bars : Kind → Bool}
  {h : ∀ k, k.isOperator = false → bars k = false} {ahead : List Token → Prop} {t child : Tree}

theorem ranks_steps (hbars : ∀ k, bars k = false → k.ranked = false) :
    Steps (barring config inner bars h) fun ts _ => ∀ t ∈ ts, t.Everywhere Tree.Ranked := by
  refine {
    perm := fun hperm hs t ht => hs t (hperm.mem_iff.2 ht)
    known := fun _ _ _ => trivial
    advanced := fun hs => hs
    leaf := fun n hs => List.forall_mem_cons.2 ⟨.leaf (Tree.ranked_leaf n), hs⟩
    amended := ?_
    attached := ?_
    prepended := ?_ }
  · intro t ts _ change hc ht hs
    obtain ⟨ht', hs⟩ := List.forall_mem_cons.1 hs
    refine List.forall_mem_cons.2 ⟨ht'.mapHead ?_, hs⟩
    obtain ⟨n, cs⟩ := t
    rcases ht with hfree | hop
    · refine Tree.ranked_of_kind (hbars _ ?_)
      rw [Tree.kind, (Tree.alike_mapHead hc _).kind]
      exact hfree
    · have hsame : ((Tree.node n cs).mapHead change).SameRank (.node n cs) := ⟨(hc n).kind, hop n⟩
      exact hsame.ranked rfl ht'.root
  · intro parent child ts _ hfree hs
    obtain ⟨hchild, hs⟩ := List.forall_mem_cons.1 hs
    obtain ⟨hparent, hs⟩ := List.forall_mem_cons.1 hs
    exact List.forall_mem_cons.2
      ⟨hparent.append hchild (Tree.ranked_of_kind (hbars _ hfree)), hs⟩
  · intro parent child ts _ hfree hs
    obtain ⟨hchild, hs⟩ := List.forall_mem_cons.1 hs
    obtain ⟨hparent, hs⟩ := List.forall_mem_cons.1 hs
    exact List.forall_mem_cons.2
      ⟨hparent.prepend hchild (Tree.ranked_of_kind (hbars _ hfree)), hs⟩

theorem ranks_allows (hbars : ∀ k, bars k = false → k.ranked = false) :
    (ranks source config).Allows (barring config inner bars h) :=
  (ranks_steps hbars).allows

theorem reorder_ranked {α : Type} {pre pre' : List Tree} {p : Parser α} {post : α → List Tree}
    {fact : α → List Token → Prop} (hp : (ranks source config).Keeps ahead pre p post fact)
    (hpre : pre'.Perm pre) : (ranks source config).Keeps ahead pre' p post fact :=
  hp.relax (fun hperm hs t ht => hs t (hperm.mem_iff.2 ht)) (fun _ h => h) hpre
    (fun _ _ _ => .refl _) fun _ _ h => h

theorem swap_ranked {α : Type} {t u : Tree} {live : List Tree} {p : Parser α}
    {post : α → List Tree} {fact : α → List Token → Prop}
    (hp : (ranks source config).Keeps ahead (t :: u :: live) p post fact) :
    (ranks source config).Keeps ahead (u :: t :: live) p post fact :=
  reorder_ranked hp (.swap t u live)

theorem rotate_ranked {α : Type} {t u v : Tree} {live : List Tree} {p : Parser α}
    {post : α → List Tree} {fact : α → List Token → Prop}
    (hp : (ranks source config).Keeps ahead (t :: u :: v :: live) p post fact) :
    (ranks source config).Keeps ahead (v :: t :: u :: live) p post fact :=
  reorder_ranked hp ((List.Perm.swap t v _).trans (.cons t (.swap u v _)))

/-- No production that chooses its operands has a part in these steps. -/
theorem barred_steps (config : Config) :
    Steps (barring config (Nested.upTo 0) Kind.ranked Kind.ranked_of_isOperator) fun ts _ =>
      ∀ t ∈ ts, t.Everywhere Tree.Ranked :=
  ranks_steps fun _ h => h

theorem nodeAt_ranked (kind : Kind) (t : Token) :
    (ranks source config).Keeps ahead [] (nodeAt kind t) one
      fun u r => (∃ n : Node, n.kind = kind ∧ u = .leaf n) ∧ ahead r :=
  ((barred_steps config).newNode kind t.location t.span).weaken fun _ _ h => by
    obtain ⟨⟨hu, n, rfl⟩, ha⟩ := h
    exact ⟨⟨n, hu.kind, rfl⟩, ha⟩

theorem nodeOver_ranked (kind : Kind) (first : Tree) :
    (ranks source config).Keeps ahead [first] (nodeOver kind first) (fun t => [first, t])
      fun u r => (∃ n : Node, n.kind = kind ∧ u = .leaf n) ∧ ahead r :=
  ((barred_steps config).nodeOver kind first).weaken fun _ _ h => by
    obtain ⟨⟨hu, n, rfl⟩, ha⟩ := h
    exact ⟨⟨n, hu.kind, rfl⟩, ha⟩

theorem consume_ranked (kind : TokenKind) :
    (ranks source config).Keeps ahead [] (consume kind) silent fun b r => b = false → ahead r :=
  (barred_steps config).consume kind

theorem attach_ranked (h : (t.append [child]).Ranked) :
    (ranks source config).Keeps ahead [child, t] (attach t child) one fun u r =>
      u = t.append [child] ∧ ahead r := by
  refine plain_make _ fun ts _ hs => ?_
  obtain ⟨hchild, hs⟩ := List.forall_mem_cons.1 hs
  obtain ⟨ht, hs⟩ := List.forall_mem_cons.1 hs
  exact List.forall_mem_cons.2 ⟨ht.append hchild h, hs⟩

theorem attach_left {l : Nat} (h : t.Open l) (hleft : child.LeftOf l) :
    (ranks source config).Keeps ahead [child, t] (attach t child) one fun u r =>
      u.Filled l ∧ ahead r :=
  (attach_ranked (h.append hleft).ranked).weaken fun _ _ hu => ⟨hu.1 ▸ h.append hleft, hu.2⟩

theorem attach_right {l : Nat} (h : t.Filled l) (hright : child.AtLeast (l + 1)) :
    (ranks source config).Keeps ahead [child, t] (attach t child) one fun u r =>
      u.Filled l ∧ ahead r :=
  (attach_ranked (h.append hright).ranked).weaken fun _ _ hu => ⟨hu.1 ▸ h.append hright, hu.2⟩

theorem amend_leaf (n : Node) (change : Node → Node) :
    (ranks source config).Keeps ahead [.leaf n] (amend (.leaf n) change) one fun u r =>
      u = .leaf (change n) ∧ ahead r := by
  have hmake : ∀ ts : List Tree, (∀ t ∈ [.leaf n] ++ ts, t.Everywhere Tree.Ranked) →
      ∀ t ∈ .leaf (change n) :: ts, t.Everywhere Tree.Ranked :=
    fun _ hs => List.forall_mem_cons.2 ⟨.leaf (Tree.ranked_leaf _), (List.forall_mem_cons.1 hs).2⟩
  exact plain_make _ fun ts _ => hmake ts

theorem setOperator_open {n : Node} {op : BinaryOp} {l : Nat} (hk : n.kind.chains = true)
    (hl : Node.level? { n with operator := some (.binary op) } = some l) :
    (ranks source config).Keeps ahead [.leaf n] (Expression.setOperator (.leaf n) op) one
      fun u r => u.Open l ∧ ahead r :=
  (amend_leaf n _).weaken fun _ _ hu => ⟨hu.1 ▸ ⟨hk, hl, rfl⟩, hu.2⟩

/-- A change of the root that has no part in ranks. -/
theorem amend_sameRank {change : Node → Node} (t : Tree) (hc : ∀ n, (change n).Alike n)
    (hop : ∀ n, (change n).operator = n.operator) :
    (ranks source config).Keeps ahead [t] (amend t change) one fun u r =>
      u.SameRank t ∧ ahead r := by
  have hamend : (ranks source config).Keeps ahead [t] (amend t change) one _ :=
    plain_make _ fun _ r => (barred_steps config).amended (r := r) hc (.inr hop)
  refine hamend.weaken fun u r hu => ⟨?_, hu.2⟩
  rw [hu.1]
  obtain ⟨n, cs⟩ := t
  exact ⟨(hc n).kind, hop n⟩

theorem flag_sameRank (t : Tree) (f : Flag) :
    (ranks source config).Keeps ahead [t] (flag t f) one fun u r => u.SameRank t ∧ ahead r :=
  amend_sameRank t (fun _ => ⟨rfl, rfl, rfl, rfl, rfl⟩) fun _ => rfl

theorem finish_sameRank (t : Tree) :
    (ranks source config).Keeps ahead [t] (finish t) one fun u r => u.SameRank t ∧ ahead r := by
  intro scope others s
  have hamend : (ranks source config).Keeps ahead [t]
      (amend t fun n => { n with span := n.span.extend s.lastEnd }) one _ :=
    amend_sameRank t (fun _ => ⟨rfl, rfl, rfl, rfl, rfl⟩) fun _ => rfl
  exact hamend scope others s

end Law

end SqlSyntax
