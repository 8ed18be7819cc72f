import SqlSyntax.Proofs.Contents.Places

/-!
# Which nodes bear which

Not every node may stand under every other. A clause that chooses or groups rows belongs to one of
four kinds of statements, statements that are no queries stand under such statements only, under a
literal, a parameter or an alias there is nothing, under the rows of an insertion nothing but rows,
and under a `WITH` nothing but tables. The insertion itself has its parts in one order, each of them
once at most (`Tree.Ordered`).

What is known of a tree that is being made is a family of kinds that its root is of.
-/

namespace SqlSyntax

namespace Kind

/-- Clauses that choose or group rows. -/
@[reducible]
def isFilter : Kind → Bool
  | .whereClause | .groupByClause => true
  | _ => false

/-- Statements that have such clauses. -/
@[reducible]
def isFiltered : Kind → Bool
  | .selectStmt | .updateStmt | .deleteStmt | .createIndexStmt => true
  | _ => false

/-- Statements that are no queries, and the bodies of triggers. -/
@[reducible]
def isCommand : Kind → Bool
  | .insertStmt | .updateStmt | .deleteStmt | .createTableStmt | .createIndexStmt => true
  | .createViewStmt | .createTriggerStmt | .createSchemaStmt | .dropStmt | .alterTableStmt => true
  | .truncateStmt | .beginStmt | .commitStmt | .rollbackStmt | .savepointStmt => true
  | .releaseStmt | .explainStmt | .setStmt | .pragmaStmt | .vacuumStmt | .analyzeStmt => true
  | .attachStmt | .detachStmt | .reindexStmt | .triggerBody => true
  | _ => false

/-- Nodes that nothing stands under. -/
@[reducible]
def isAtom : Kind → Bool
  | .parameter | .alias | .integerLiteral | .floatLiteral | .stringLiteral | .blobLiteral => true
  | .booleanLiteral | .nullLiteral => true
  | _ => false

/-- Nodes that want children of their own kinds: the parts of an insertion, rows, and tables. -/
@[reducible]
def isParticular : Kind → Bool
  | .insertStmt | .valuesClause | .withClause => true
  | _ => false

/-- Whether a node of the one kind may bear a node of the other. -/
def bears (parent child : Kind) : Bool :=
  !parent.isAtom && (!child.isFilter || parent.isFiltered) &&
    (!child.isCommand || parent.isCommand) && (parent != .valuesClause || child == .valuesRow) &&
    (parent != .withClause || child == .commonTableExpr)

theorem isAtom_of_isLiteral {k : Kind} (h : k.isLiteral) : k.isAtom := by
  cases k <;> first | rfl | cases h

end Kind

/-- The places of an insertion. -/
def Place.insertion : List Place := [
  .before,
  .optional (·.kind == .conflictAction),
  .optional (·.kind == .tableRef),
  .optional (·.kind == .columnList),
  .optional fun t => t.kind == .valuesClause || t.kind.isQuery,
  .optional (·.kind == .returningClause)]

/-- The root may bear its children, and if it is an insertion, they are in order. -/
structure Tree.Ordered (t : Tree) : Prop where
  bears : ∀ c ∈ t.children, t.kind.bears c.kind
  inserts : t.kind = .insertStmt → Fills Place.insertion t.children

/-! ## Families of kinds -/

/-- Some kinds of nodes. -/
abbrev Family := Kind → Bool

/-- A test that comes out as true by its definition. -/
class TestPasses (b : Bool) : Prop where
  eq : b = true

/-- A test that comes out as false by its definition. -/
class TestFails (b : Bool) : Prop where
  eq : b = false

instance : TestPasses true := ⟨rfl⟩

instance : TestFails false := ⟨rfl⟩

namespace Family

def nothing : Family := fun _ => false

def only (k : Kind) : Family := (· == k)

def either (σ ρ : Family) : Family := fun k => σ k || ρ k

/-- What may stand alone: a statement or a part of one, but no clause that chooses or groups
rows. -/
def whole : Family := fun k => !k.isFilter

/-- What may stand under all that bears anything. -/
def plain : Family := fun k => !k.isFilter && !k.isCommand

abbrev query : Family :=
  either (only .selectStmt) (either (only .valuesStmt) (only .compoundSelect))

/-- One family is part of the other. -/
class Sub (σ ρ : Family) : Prop where
  le : ∀ {k}, σ k → ρ k

/-- What is of the one family may bear what is of the other, in any order. -/
class Over (σ ρ : Family) : Prop where
  ne : ∀ {k}, σ k → k ≠ .insertStmt
  bears : ∀ {k l}, σ k → ρ l → k.bears l

variable {σ ρ τ : Family} {k l : Kind}

theorem eq_of_only (h : only k l) : l = k := beq_iff_eq.1 h

/-! ### Parts of families -/

namespace Sub

instance (priority := 1100) refl : Sub σ σ := ⟨id⟩

instance nothing : Sub nothing σ := ⟨nofun⟩

instance either [hσ : Sub σ τ] [hρ : Sub ρ τ] : Sub (either σ ρ) τ where
  le h := (Bool.or_eq_true_iff.1 h).elim hσ.le hρ.le

instance left [h : Sub σ ρ] : Sub σ (ρ.either τ) :=
  ⟨fun hk => Bool.or_eq_true_iff.2 (.inl (h.le hk))⟩

instance right [h : Sub σ τ] : Sub σ (ρ.either τ) :=
  ⟨fun hk => Bool.or_eq_true_iff.2 (.inr (h.le hk))⟩

instance ite {c : Prop} [Decidable c] [hk : Sub (only k) σ] [hl : Sub (only l) σ] :
    Sub (only (if c then k else l)) σ := by
  split
  · exact hk
  · exact hl

instance only_plain [h : TestFails k.isFilter] [h' : TestFails k.isCommand] :
    Sub (only k) plain where
  le hl := by
    obtain rfl := eq_of_only hl
    exact Bool.and_eq_true_iff.2 ⟨congrArg not h.eq, congrArg not h'.eq⟩

instance only_whole [h : TestFails k.isFilter] : Sub (only k) whole where
  le hl := by
    obtain rfl := eq_of_only hl
    exact congrArg not h.eq

instance plain_whole : Sub plain whole := ⟨fun h => (Bool.and_eq_true_iff.1 h).1⟩

end Sub

/-! ### Families under families -/

namespace Over

instance either [hσ : Over σ τ] [hρ : Over ρ τ] : Over (either σ ρ) τ where
  ne h := (Bool.or_eq_true_iff.1 h).elim hσ.ne hρ.ne
  bears h hl := (Bool.or_eq_true_iff.1 h).elim (hσ.bears · hl) (hρ.bears · hl)

/-- What is plain stands under all that bears anything but children of its own kinds. -/
instance only_plain [h : TestFails k.isAtom] [h' : TestFails k.isParticular] [hρ : Sub ρ plain] :
    Over (only k) ρ where
  ne {i} hi := by
    obtain rfl := eq_of_only hi
    rintro rfl
    cases h'.eq
  bears {i j} hi hj := by
    obtain rfl := eq_of_only hi
    have hatom := h.eq
    have hrows : i ≠ .valuesClause := by
      rintro rfl
      cases h'.eq
    have htables : i ≠ .withClause := by
      rintro rfl
      cases h'.eq
    have hplain := Bool.and_eq_true_iff.1 (hρ.le hj)
    simp_all [Kind.bears]

instance rows : Over (only .valuesClause) (only .valuesRow) where
  ne hk := by
    rw [eq_of_only hk]
    decide
  bears hk hl := by
    rw [eq_of_only hk, eq_of_only hl]
    rfl

instance tables : Over (only .withClause) (only .commonTableExpr) where
  ne hk := by
    rw [eq_of_only hk]
    decide
  bears hk hl := by
    rw [eq_of_only hk, eq_of_only hl]
    rfl

instance filtered [h : TestPasses k.isFiltered] [h' : TestPasses l.isFilter] :
    Over (only k) (only l) where
  ne {i} hi := by
    obtain rfl := eq_of_only hi
    rintro rfl
    cases h.eq
  bears {i j} hi hj := by
    obtain rfl := eq_of_only hi
    obtain rfl := eq_of_only hj
    have hfiltered := h.eq
    have hfilter := h'.eq
    cases i <;> cases hfiltered <;> cases j <;> cases hfilter <;> rfl

instance command [h : TestPasses k.isCommand] [h' : TestFails k.isParticular] [hρ : Sub ρ whole] :
    Over (only k) ρ where
  ne {i} hi := by
    obtain rfl := eq_of_only hi
    rintro rfl
    cases h'.eq
  bears {i j} hi hj := by
    obtain rfl := eq_of_only hi
    have hwhole : (!j.isFilter) = true := hρ.le hj
    have hcommand := h.eq
    rw [Kind.bears, hwhole, hcommand, Bool.or_true, Bool.true_or]
    cases i <;> first | rfl | cases hcommand

end Over

end Family

end SqlSyntax
