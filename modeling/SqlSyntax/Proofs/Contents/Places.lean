import SqlSyntax.Proofs.Pairing
import SqlSyntax.Proofs.Trees

/-!
# What stands under a node

The kind of an expression, a query or a join tells what its children are, how many of them there
may be, and in which order they stand (`Kind.places?`). A node that is being made has filled the
first places of its kind, and those that are left may stay empty once it is complete
(`Begun.complete`).
-/

namespace SqlSyntax

/-! ## Places -/

/-- A place among the children of a node. -/
structure Place where
  /-- What may stand there. -/
  admits : Tree → Bool
  /-- How many trees stand there at least. -/
  least : Nat := 0
  /-- How many trees stand there at most, if that is limited. -/
  most : Option Nat := none

namespace Place

/-- A place of just so many trees. -/
def exactly (n : Nat) (admits : Tree → Bool) : Place := ⟨admits, n, some n⟩

/-- A place of one tree or none. -/
def optional (admits : Tree → Bool) : Place := ⟨admits, 0, some 1⟩

/-- A place of so many trees or more. -/
def atLeast (n : Nat) (admits : Tree → Bool) : Place := ⟨admits, n, none⟩

/-- The trees may stand in the place together. -/
structure Holds (p : Place) (ts : List Tree) : Prop where
  least : p.least ≤ ts.length
  most : ∀ n ∈ p.most, ts.length ≤ n
  admits : ∀ t ∈ ts, p.admits t

variable {p : Place} {ts us : List Tree} {t : Tree} {admits : Tree → Bool} {m n : Nat}

instance (p : Place) (ts : List Tree) : Decidable (p.Holds ts) :=
  decidable_of_iff
    (p.least ≤ ts.length ∧ (∀ n ∈ p.most, ts.length ≤ n) ∧ ∀ t ∈ ts, p.admits t = true)
    ⟨fun ⟨hleast, hmost, hadmits⟩ => ⟨hleast, hmost, hadmits⟩,
      fun h => ⟨h.least, h.most, h.admits⟩⟩

theorem Holds.nil (h : p.least = 0) : p.Holds [] :=
  ⟨Nat.le_of_eq h, fun _ _ => Nat.zero_le _, nofun⟩

theorem Holds.one (h : admits t) : (exactly 1 admits).Holds [t] := by
  refine ⟨Nat.le_refl 1, ?_, List.forall_mem_singleton.2 h⟩
  rintro _ ⟨⟩
  exact Nat.le_refl 1

theorem Holds.some (h : admits t) : (optional admits).Holds [t] :=
  ⟨Nat.zero_le _, (Holds.one h).most, (Holds.one h).admits⟩

/-- Two places beside each other for the same trees are one. -/
theorem Holds.append {a b : Option Nat} (ht : Holds ⟨admits, m, a⟩ ts)
    (hu : Holds ⟨admits, n, b⟩ us) :
    Holds ⟨admits, m + n, a.bind fun i => b.map (i + ·)⟩ (ts ++ us) := by
  have hmt : m ≤ ts.length := ht.least
  have hnu : n ≤ us.length := hu.least
  refine ⟨?_, fun k hk => ?_, List.forall_mem_append.2 ⟨ht.admits, hu.admits⟩⟩
  · rw [List.length_append]
    exact Nat.add_le_add hmt hnu
  · obtain ⟨i, hi, j, hj, rfl⟩ : ∃ i, a = .some i ∧ ∃ j, b = .some j ∧ i + j = k := by
      simpa [Option.bind_eq_some_iff] using hk
    rw [List.length_append]
    exact Nat.add_le_add (ht.most i hi) (hu.most j hj)

end Place

/-- The trees fill the places from left to right. -/
inductive Fills : List Place → List Tree → Prop
  | nil : Fills [] []
  | cons {p : Place} {ps : List Place} {now later : List Tree} (hnow : p.Holds now)
    (hlater : Fills ps later) : Fills (p :: ps) (now ++ later)

namespace Fills

variable {p : Place} {ps qs : List Place} {ts us : List Tree}

theorem append (h : Fills ps ts) (h' : Fills qs us) : Fills (ps ++ qs) (ts ++ us) := by
  induction h with
  | nil => exact h'
  | cons hnow _ ih =>
    rw [List.append_assoc]
    exact .cons hnow ih

theorem single (h : p.Holds ts) : Fills [p] ts := by
  rw [← List.append_nil ts]
  exact .cons h .nil

theorem holds (h : Fills [p] ts) : p.Holds ts := by
  obtain _ | ⟨hnow, ⟨⟩⟩ := h
  rwa [List.append_nil]

theorem cons_iff : Fills (p :: ps) ts ↔
    ∃ n < ts.length + 1, p.Holds (ts.take n) ∧ Fills ps (ts.drop n) := by
  constructor
  · rintro (_ | ⟨hnow, hlater⟩)
    next now later =>
    refine ⟨now.length, ?_, ?_, ?_⟩
    · rw [List.length_append]
      omega
    · rwa [List.take_left]
    · rwa [List.drop_left]
  · rintro ⟨n, -, hnow, hlater⟩
    rw [← List.take_append_drop n ts]
    exact .cons hnow hlater

instance decidable : ∀ (ps : List Place) (ts : List Tree), Decidable (Fills ps ts)
  | [], [] => .isTrue .nil
  | [], _ :: _ => .isFalse nofun
  | _ :: ps, _ =>
    have := decidable ps
    decidable_of_iff _ cons_iff.symm

/-- Places that may stay empty. -/
theorem empty (h : ∀ p ∈ ps, p.least = 0) : Fills ps [] := by
  induction ps with
  | nil => exact .nil
  | cons p ps ih =>
    obtain ⟨hp, hps⟩ := List.forall_mem_cons.1 h
    exact List.nil_append [] ▸ .cons (.nil hp) (ih hps)

end Fills

/-! ## The places of each kind -/

namespace Kind

/-- Tables and what may stand for one. -/
def isTable (k : Kind) : Bool := k == .tableRef || k == .derivedTable || k.isJoin

/-- Queries that no set operator joins. -/
def isCore (k : Kind) : Bool := k == .selectStmt || k == .valuesStmt

/-- The places of a query between its `WITH` and its order. -/
def middle : Kind → List Place
  | .selectStmt => [
      .exactly 1 (·.kind == .selectList),
      .optional (·.kind == .fromClause),
      .optional (·.kind == .whereClause),
      .optional (·.kind == .groupByClause),
      .optional (·.kind == .havingClause)]
  | .valuesStmt => [.atLeast 1 (·.kind == .valuesRow)]
  | .compoundSelect => [.exactly 1 (·.kind.isQuery), .exactly 1 (·.kind.isCore)]
  | _ => []

end Kind

-- A `WHERE` does not stand before the `FROM`.
example : ¬ Fills (Kind.middle .selectStmt)
    ([Kind.selectList, .whereClause, .fromClause].map fun kind =>
      .leaf { (default : Node) with kind }) := by
  decide

/-- A tree that stands for a value. -/
def Tree.isExpression (t : Tree) : Bool := t.kind.isOperand

/-- `WHEN condition THEN result`. -/
def Tree.isArm (t : Tree) : Bool :=
  t.kind == .whenClause && t.children.length == 2 && t.children.all Tree.isExpression

/-- The places of a `WITH` before a query. -/
def Place.before : Place := .optional (·.kind == .withClause)

/-- The places behind a query: its order, its limit and the number of rows that it skips. -/
def Place.behind : List Place := [
  .optional (·.kind == .orderByClause),
  .optional (·.kind == .limitClause),
  .optional (·.kind == .offsetClause)]

/-- The place of what a join asks of the rows that it combines. -/
def Place.condition : Place :=
  .optional fun t => t.kind == .onCondition || t.kind == .usingClause

/-- The places of the children of a node of a kind, if the kind tells them. A call whose argument is
a star has no expressions. -/
def Kind.places? (starred : Bool) (k : Kind) : Option (List Place) :=
  match k with
  | .binaryExpr | .isExpr | .positionExpr => some [.exactly 2 Tree.isExpression]
  | .unaryExpr | .parenExpr | .collateExpr | .extractExpr | .castExpr =>
    some [.exactly 1 Tree.isExpression]
  | .betweenExpr => some [.exactly 3 Tree.isExpression]
  | .likeExpr | .substringExpr => some [⟨Tree.isExpression, 2, some 3⟩]
  | .rowValue => some [.atLeast 2 Tree.isExpression]
  | .inExpr => some [
      .exactly 1 Tree.isExpression,
      .exactly 1 fun t => t.kind == .exprList || t.kind == .subqueryExpr]
  | .subqueryExpr | .existsExpr => some [.exactly 1 (·.kind.isQuery)]
  | .caseExpr => some [
      .optional Tree.isExpression,
      .atLeast 1 Tree.isArm,
      .optional (·.kind == .elseClause)]
  | .functionCall => some [
      ⟨Tree.isExpression, 0, if starred then some 0 else none⟩,
      .optional (·.kind == .windowSpec)]
  | .selectStmt | .valuesStmt | .compoundSelect =>
    some (.before :: (k.middle ++ Place.behind))
  | .innerJoin | .leftJoin | .rightJoin | .fullJoin | .crossJoin =>
    some [.exactly 2 (·.kind.isTable), .condition]
  | _ => none

theorem Kind.places?_eq_none {k : Kind} (h : k.places? false = none) (starred : Bool) :
    k.places? starred = none := by
  cases k <;> first | rfl | cases h

theorem Kind.places?_of_isQuery {k : Kind} (h : k.isQuery) (starred : Bool) :
    k.places? starred = some (.before :: (k.middle ++ Place.behind)) := by
  cases k <;> first | rfl | cases h

theorem Kind.places?_of_isJoin {k : Kind} (h : k.isJoin) (starred : Bool) :
    k.places? starred = some [.exactly 2 (·.kind.isTable), .condition] := by
  cases k <;> first | rfl | cases h

/-- What a node of a kind has to hold itself. -/
def Kind.Asks (n : Node) : Kind → Prop
  | .binaryExpr => ∃ op, n.operator = some (.binary op)
  | .unaryExpr => ∃ op, n.operator = some (.unary op)
  | .castExpr => n.dataType.isSome
  | _ => True

/-- The root holds what its kind asks for, and its children fill the places of its kind. -/
structure Tree.Obeys (t : Tree) : Prop where
  asks : t.kind.Asks t.head
  fills : ∀ ps, t.kind.places? (t.head.has .starArgs) = some ps → Fills ps t.children

/-- The tree and all trees in it obey their kinds. -/
abbrev Tree.Complete (t : Tree) : Prop := t.Everywhere Tree.Obeys

/-! ## Trees that are being made -/

/-- The nodes agree in all that the places of a node depend on. -/
structure Node.Agrees (m n : Node) : Prop where
  kind : m.kind = n.kind
  operator : m.operator = n.operator
  dataType : m.dataType = n.dataType
  starArgs : m.has .starArgs = n.has .starArgs

theorem Node.Agrees.refl (n : Node) : n.Agrees n := ⟨rfl, rfl, rfl, rfl⟩

theorem Node.Agrees.trans {l m n : Node} (h : l.Agrees m) (h' : m.Agrees n) : l.Agrees n where
  kind := h.kind.trans h'.kind
  operator := h.operator.trans h'.operator
  dataType := h.dataType.trans h'.dataType
  starArgs := h.starArgs.trans h'.starArgs

namespace Tree

variable {t u v c : Tree} {k : Kind} {p : Place} {ps qs : List Place} {admits : Tree → Bool}

/-- The roots agree, and the same trees stand under them. -/
structure Agrees (u t : Tree) : Prop where
  head : u.head.Agrees t.head
  children : u.children = t.children

/-- A property that depends on nothing else than the places of a node do. -/
def Lasting (P : Tree → Prop) : Prop := ∀ ⦃u t : Tree⦄, u.Agrees t → P t → P u

/-- A tree of a kind with complete trees under it. -/
structure Over (k : Kind) (t : Tree) : Prop where
  kind : t.kind = k
  below : ∀ c ∈ t.children, c.Complete

/-- A tree of a kind with complete trees under it, which fill these places. -/
structure Begun (k : Kind) (ps : List Place) (t : Tree) : Prop extends Over k t where
  fills : Fills ps t.children

/-- A complete tree that may stand in a place. -/
structure Fit (admits : Tree → Bool) (t : Tree) : Prop where
  complete : t.Complete
  admitted : admits t

/-- The second tree is the first with complete trees at a place behind its children. -/
structure Gains (p : Place) (t u : Tree) : Prop where
  head : u.head.Agrees t.head
  added : ∃ cs, u.children = t.children ++ cs ∧ p.Holds cs ∧ ∀ c ∈ cs, c.Complete

theorem complete_of_children (h : t.Obeys) (hcs : ∀ c ∈ t.children, c.Complete) :
    t.Complete := by
  cases t
  exact everywhere_node.2 ⟨h, hcs⟩

/-! ### What lasts -/

theorem Agrees.refl (t : Tree) : t.Agrees t := ⟨.refl _, rfl⟩

theorem Agrees.kind (h : u.Agrees t) : u.kind = t.kind := h.head.kind

theorem Agrees.mapHead {change : Node → Node} (h : ∀ n, (change n).Agrees n) (t : Tree) :
    (t.mapHead change).Agrees t := by
  cases t
  exact ⟨h _, rfl⟩

theorem lasting_complete : Lasting Complete := by
  intro u t h ht
  refine complete_of_children ⟨?_, ?_⟩ (h.children ▸ ht.children)
  · have hasks := ht.root.asks
    have hoperator := h.head.operator
    have hdataType := h.head.dataType
    rw [h.kind]
    unfold Kind.Asks at hasks ⊢
    rw [hoperator, hdataType]
    exact hasks
  · rw [h.kind, h.head.starArgs, h.children]
    exact ht.root.fills

theorem lasting_over : Lasting (Over k) :=
  fun _ _ h ht => ⟨h.kind.trans ht.kind, h.children ▸ ht.below⟩

theorem lasting_begun : Lasting (Begun k ps) :=
  fun _ _ h ht => ⟨lasting_over h ht.toOver, h.children ▸ ht.fills⟩

theorem lasting_unstarred : Lasting fun t => t.Begun k ps ∧ t.head.has .starArgs = false :=
  fun _ _ h ht => ⟨lasting_begun h ht.1, h.head.starArgs.trans ht.2⟩

theorem lasting_gains : Lasting (Gains p t) := by
  rintro v u h ⟨hhead, cs, hcs, hp, hcomplete⟩
  exact ⟨h.head.trans hhead, cs, h.children.trans hcs, hp, hcomplete⟩

theorem lasting_fit (h : ∀ {u t : Tree}, u.Agrees t → admits t → admits u) :
    Lasting (Fit admits) :=
  fun _ _ hu ht => ⟨lasting_complete hu ht.complete, h hu ht.admitted⟩

theorem lasting_expression : Lasting (Fit isExpression) :=
  lasting_fit fun h ht => by rwa [isExpression, h.kind]

theorem lasting_arm : Lasting (Fit isArm) :=
  lasting_fit fun h ht => by rwa [isArm, h.kind, h.children]

/-- The kind and the children do not depend on what else is changed at the root. -/
theorem Begun.mapHead (h : t.Begun k ps) {change : Node → Node} (hc : (change t.head).kind = k) :
    (t.mapHead change).Begun k ps := by
  cases t
  exact ⟨⟨hc, h.below⟩, h.fills⟩

/-! ### Steps -/

theorem Over.prepend (h : t.Over k) (hc : c.Complete) : (t.prepend c).Over k :=
  ⟨h.kind, List.forall_mem_cons.2 ⟨hc, h.below⟩⟩

theorem Gains.of_fit (t : Tree) (hc : c.Fit admits) :
    Gains (.exactly 1 admits) t (t.append [c]) :=
  ⟨.refl _, [c], rfl, .one hc.admitted, List.forall_mem_singleton.2 hc.complete⟩

theorem Gains.none (h : u.Agrees t) (hp : p.least = 0) : Gains p t u :=
  ⟨h.head, [], by rw [h.children, List.append_nil], .nil hp, nofun⟩

theorem Gains.over (h : Gains p t u) (ht : t.Over k) : u.Over k := by
  obtain ⟨hhead, cs, hcs, -, hcomplete⟩ := h
  refine ⟨hhead.kind.trans ht.kind, ?_⟩
  rw [hcs]
  exact List.forall_mem_append.2 ⟨ht.below, hcomplete⟩

theorem Gains.begun (h : Gains p t u) (ht : t.Begun k ps) : u.Begun k (ps ++ [p]) := by
  refine ⟨h.over ht.toOver, ?_⟩
  obtain ⟨-, cs, hcs, hp, -⟩ := h
  rw [hcs]
  exact ht.fills.append (.single hp)

/-- The place before all others. -/
theorem Begun.prepend (h : t.Begun k ps) (hp : p.Holds [c]) (hc : c.Complete) :
    (t.prepend c).Begun k (p :: ps) :=
  ⟨h.toOver.prepend hc, .cons hp h.fills⟩

theorem Begun.skipFirst (h : t.Begun k ps) (hp : p.least = 0) : t.Begun k (p :: ps) :=
  ⟨h.toOver, List.nil_append t.children ▸ .cons (.nil hp) h.fills⟩

/-- Places that may stay empty. -/
theorem Begun.skip (h : t.Begun k ps) (hqs : ∀ q ∈ qs, q.least = 0) : t.Begun k (ps ++ qs) :=
  ⟨h.toOver, List.append_nil t.children ▸ h.fills.append (.empty hqs)⟩

/-- What is gained at two places beside each other for the same trees. -/
theorem Gains.append {m n : Nat} {a b : Option Nat} (h : Gains ⟨admits, m, a⟩ t u)
    (h' : Gains ⟨admits, n, b⟩ u v) :
    Gains ⟨admits, m + n, a.bind fun i => b.map (i + ·)⟩ t v := by
  obtain ⟨hhead, cs, hcs, hp, hcomplete⟩ := h
  obtain ⟨hhead', cs', hcs', hp', hcomplete'⟩ := h'
  refine ⟨hhead'.trans hhead, cs ++ cs', ?_, hp.append hp',
    List.forall_mem_append.2 ⟨hcomplete, hcomplete'⟩⟩
  rw [hcs', hcs, List.append_assoc]

/-- A place for fewer trees or more. -/
theorem Gains.relax {m n : Nat} {a b : Option Nat} (h : Gains ⟨admits, m, a⟩ t u) (hleast : n ≤ m)
    (hmost : ∀ j ∈ b, ∃ i ∈ a, i ≤ j) : Gains ⟨admits, n, b⟩ t u := by
  obtain ⟨hhead, cs, hcs, hp, hcomplete⟩ := h
  refine ⟨hhead, cs, hcs, ⟨Nat.le_trans hleast hp.least, fun j hj => ?_, hp.admits⟩, hcomplete⟩
  obtain ⟨i, hi, hle⟩ := hmost j hj
  exact Nat.le_trans (hp.most i hi) hle

theorem Gains.optional (h : Gains (.exactly 1 admits) t u) : Gains (.optional admits) t u :=
  h.relax (Nat.zero_le _) fun j hj => ⟨j, hj, Nat.le_refl j⟩

/-! ### Complete trees -/

/-- Under a kind that does not tell its children, complete trees make a complete one. -/
theorem Over.complete (h : t.Over k) (hk : k.places? false = .none) : t.Complete := by
  refine complete_of_children ⟨?_, fun ps hps => ?_⟩ h.below
  · rw [h.kind]
    cases k <;> trivial
  · rw [h.kind, Kind.places?_eq_none hk] at hps
    cases hps

/-- A node whose kind's places are filled is complete. -/
theorem Begun.complete (h : t.Begun k ps) (hasks : k.Asks t.head)
    (hps : k.places? (t.head.has .starArgs) = some ps) : t.Complete := by
  refine complete_of_children ⟨h.kind ▸ hasks, fun qs hqs => ?_⟩ h.below
  rw [h.kind, hps] at hqs
  obtain rfl := Option.some.inj hqs
  exact h.fills

theorem Over.fit (h : t.Over k) (hk : k.places? false = .none) : t.Fit (·.kind == k) :=
  ⟨h.complete hk, beq_iff_eq.2 h.kind⟩

theorem Begun.fit (h : t.Begun k ps) (hasks : k.Asks t.head)
    (hps : k.places? (t.head.has .starArgs) = some ps) {ofKind : Kind → Bool} (hk : ofKind k) :
    t.Fit fun t => ofKind t.kind :=
  ⟨h.complete hasks hps, by rwa [h.kind]⟩

theorem Begun.isArm (h : t.Begun .whenClause [.exactly 2 isExpression]) : t.isArm := by
  have hp := h.fills.holds
  have hlength : t.children.length = 2 := Nat.le_antisymm (hp.most 2 rfl) hp.least
  have hall : t.children.all isExpression := List.all_eq_true.2 hp.admits
  rw [Tree.isArm, h.kind, hlength, hall]
  rfl

theorem Fit.weaken {admits' : Tree → Bool} (h : t.Fit admits)
    (hle : ∀ t : Tree, admits t → admits' t) : t.Fit admits' :=
  ⟨h.complete, hle t h.admitted⟩

end Tree

end SqlSyntax
