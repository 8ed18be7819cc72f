import SqlSyntax.Proofs.Erasure

/-!
# Defaults with a collation after them

`DEFAULT` asks for an expression that binds more tightly than `COLLATE`, so that a collation after a
literal is left to the column. But an operator before its operand asks for that operand with its own
power, which is less: behind a sign, the collation goes to the literal and is part of the default.
-/

namespace SqlSyntax

open SqlSyntax.Parser SqlSyntax.Expression

namespace Tree

/-- The tree with operators before it. -/
def signed (u : Tree) : List UnaryOp → Tree
  | [] => u
  | op :: ops =>
    .node { Node.unplaced .unaryExpr with operator := some (.unary op) } [u.signed ops]

/-- The tree with a collation after it. -/
def collated (u : Tree) (name : String) : Tree := .node (.unplaced .collateExpr (.copied name)) [u]

/-- The leaf of a literal or a parameter, with its text. -/
def IsLiteral (source : Source) (t : Token) (u : Tree) : Prop :=
  ∃ n, u = .leaf n ∧ literalKind? t.kind = some n.kind ∧
    (t.kind ≠ .blob → n.text.resolve source = some t.content)

end Tree

/-- The constraints that a default and a collation after it become: the collation is one of its own
only where the default has no operators. -/
def defaultConstraints (value : Tree) (collation : String) : List UnaryOp → List Tree
  | [] => [.node (.unplaced .defaultConstraint) [value],
      .leaf (.unplaced .collateConstraint (.copied collation))]
  | ops => [.node (.unplaced .defaultConstraint) [(value.collated collation).signed ops]]

/-! ## The default -/

section Value

variable {scope : Scope} {self : Nested} {t literal collate name : Token} {rest : List Token}

theorem leading?_of_literalKind? {kind : TokenKind} {k : Kind} (h : literalKind? kind = some k) :
    Power.leading? kind = none := by
  unfold literalKind? at h
  split at h <;> first | rfl | cases h

/-- A literal or a parameter is an operand. -/
theorem literal_operand {kind : Kind} (hfits : scope.source.Fits) (hread : t.ReadFrom scope.source)
    (hkind : literalKind? t.kind = some kind) :
    Gives scope (t :: rest) (operand self) fun u r => u.IsLiteral scope.source t ∧ r = rest := by
  refine Gives.current.next ?_
  dsimp only [List.head?_cons]
  rw [leading?_of_literalKind? hkind]
  refine Gives.current.next ?_
  dsimp only [List.head?_cons]
  rw [hkind]
  refine Gives.advance.skip ((Gives.namedNode (Gives.tokenText hfits hread) kind).bind ?_)
  rintro _ _ ⟨⟨id, text, location, span, rfl, htext⟩, rfl⟩
  split
  · refine (Gives.amend _ _).weaken ?_
    rintro _ _ ⟨rfl, rfl⟩
    exact ⟨⟨_, rfl, hkind, htext⟩, rfl⟩
  · exact .pure ⟨⟨_, rfl, hkind, htext⟩, rfl⟩

/-- `COLLATE` and a name that is read. -/
structure Collates (scope : Scope) (collate name : Token) : Prop where
  keyword : collate.kind = .keyword .COLLATE
  isName : name.isNamePart
  quotes : name.QuotesPass scope.config
  fits : scope.source.Fits
  read : name.ReadFrom scope.source

/-- Up to its own power, `COLLATE` goes on an expression. -/
theorem grow?_collate (hcollates : Collates scope collate name) (hcontext : scope.context = none)
    {left u : Tree} {power : Nat} (hpower : power ≤ Power.trailing)
    (hleft : left.erased scope.source = u) :
    Gives scope (collate :: name :: rest) (grow? self power left) fun o r =>
      (∃ v, o = some v ∧ v.erased scope.source = u.collated name.content) ∧ r = rest := by
  have htrailing : Gives scope (collate :: name :: rest) (trailing left collate) fun v r =>
      v.erased scope.source = u.collated name.content ∧ r = rest := by
    refine Gives.advance.skip ?_
    rw [if_neg (by rw [hcollates.keyword]; decide)]
    refine (Gives.expectWord _ hcollates.isName hcollates.quotes).next ?_
    refine (Gives.nodeOver_erased hcontext _ _).bind ?_
    rintro node _ ⟨hnode, rfl⟩
    refine (Gives.setText_erased hcollates.fits hcollates.read hcollates.isName hnode).bind ?_
    rintro node _ ⟨hnode, rfl⟩
    refine (Gives.attach_erased hnode hleft).bind ?_
    rintro node _ ⟨hnode, rfl⟩
    exact Gives.finish_erased hnode
  refine Gives.current.next ?_
  dsimp only [List.head?_cons]
  rw [hcollates.keyword]
  dsimp only [Power.trailing?]
  rw [if_neg (Nat.not_lt.2 hpower)]
  refine htrailing.bind ?_
  rintro v _ ⟨hv, rfl⟩
  exact .pure ⟨⟨v, rfl, hv⟩, rfl⟩

/-- A literal with a collation after it, where nothing more goes on. -/
theorem collated_operand (hcollates : Collates scope collate name)
    (hcontext : scope.context = none) (hliteral : (literalKind? literal.kind).isSome)
    (hread : literal.ReadFrom scope.source) {power : Nat} (hpower : power ≤ Power.trailing)
    (hstops : Power.Stops power rest) :
    Gives scope (literal :: collate :: name :: rest)
      (operand self >>= Parser.iterate (grow? self power)) fun u r =>
      (∃ v : Tree, v.IsLiteral scope.source literal ∧
        u.erased scope.source = (v.erased scope.source).collated name.content) ∧ r = rest := by
  obtain ⟨kind, hkind⟩ := Option.isSome_iff_exists.1 hliteral
  refine (literal_operand hcollates.fits hread hkind).bind ?_
  rintro v _ ⟨hv, rfl⟩
  refine .iterate ((grow?_collate hcollates hcontext hpower rfl).bind ?_)
  rintro _ _ ⟨⟨u, rfl, hu⟩, rfl⟩
  refine (iterateOver_stops hstops _).weaken ?_
  rintro _ _ ⟨rfl, rfl⟩
  exact ⟨⟨v, hv, hu⟩, rfl⟩

end Value

/-- A literal asked for with more than the power of `COLLATE` stops before it. -/
theorem uncollated_run {scope : Scope} {self : Nested} {literal collate : Token}
    {rest : List Token} (hroom : scope.HasRoom 1) (hfits : scope.source.Fits)
    (hread : literal.ReadFrom scope.source) (hliteral : (literalKind? literal.kind).isSome)
    (hcollate : collate.kind = .keyword .COLLATE) :
    Gives scope (literal :: collate :: rest) (expression self Power.primary) fun u r =>
      u.IsLiteral scope.source literal ∧ r = collate :: rest := by
  obtain ⟨kind, hkind⟩ := Option.isSome_iff_exists.1 hliteral
  have hstops : Power.Stops Power.primary (collate :: rest) := by
    intro power hpower
    rw [Power.ahead?, hcollate] at hpower
    cases hpower
    exact Nat.lt_succ_self _
  have hoperand : Gives { scope with depth := scope.depth + 1 } (literal :: collate :: rest)
      (operand self) fun u r => u.IsLiteral scope.source literal ∧ r = collate :: rest :=
    literal_operand hfits hread hkind
  exact expression_run_stops (hroom scope.depth (Nat.le_refl _) (by omega)) hoperand hstops

/-- The tokens of operators before an operand. -/
abbrev Signs (ops : List UnaryOp) (ts : List Token) : Prop :=
  List.Forall₂ (fun op t => t.kind = op.tokenKind) ops ts

section Signed

variable {collate name literal sign : Token} {rest signs : List Token} {op : UnaryOp}
  {ops : List UnaryOp}

/-- Neither operators nor a literal are a query after `EXISTS`. -/
theorem Signs.head_ne (hsigns : Signs ops signs) (hliteral : (literalKind? literal.kind).isSome) :
    (signs ++ literal :: rest).head?.map Token.kind ≠ some (.keyword .EXISTS) := by
  intro h
  cases hsigns with
  | nil =>
    have hkind : literal.kind = .keyword .EXISTS := Option.some.inj h
    rw [hkind] at hliteral
    cases hliteral
  | @cons op sign _ _ hsign _ =>
    have hkind : sign.kind = .keyword .EXISTS := Option.some.inj h
    rw [hsign] at hkind
    cases op <;> cases hkind

/-- An operator with its operand, which is an expression of the power of the operator. -/
theorem unary_operand {scope : Scope} (self : Nested) {ts : List Token} (P : Tree → Prop)
    (hinner : Gives scope ts (self.expression op.level) fun u r =>
      P (u.erased scope.source) ∧ r = rest)
    (hcontext : scope.context = none) (hsign : sign.kind = op.tokenKind)
    (hexists : ts.head?.map Token.kind ≠ some (.keyword .EXISTS)) :
    Gives scope (sign :: ts) (operand self) fun u r =>
      (∃ v, P v ∧ u.erased scope.source = v.signed [op]) ∧ r = rest := by
  refine Gives.current.next ?_
  dsimp only [List.head?_cons]
  rw [hsign, op.leading?_tokenKind]
  refine Gives.advance.skip ((Gives.sees _).next ?_)
  rw [if_neg (by simpa [← List.head?_eq_getElem?] using fun _ => hexists)]
  refine hinner.bind ?_
  rintro inner _ ⟨hP, rfl⟩
  refine (Gives.newNode_erased hcontext _ _ _).bind ?_
  rintro node _ ⟨hnode, rfl⟩
  refine (Gives.amend_erased (fun n =>
    { n with operator := (UnaryOp.ofToken? sign.kind).map .unary }) (fun _ => rfl) hnode).bind ?_
  rintro node _ ⟨hnode, rfl⟩
  refine (Gives.attach_erased hnode rfl).bind ?_
  rintro node _ ⟨hnode, rfl⟩
  refine (Gives.finish_erased hnode).weaken ?_
  rintro u _ ⟨hu, rfl⟩
  refine ⟨⟨_, hP, ?_⟩, rfl⟩
  rw [hu, hsign, op.ofToken?_tokenKind]
  rfl

end Signed

/-- Operators before a literal with a collation take it with the collation. -/
theorem signed_run {collate name literal : Token} {rest signs : List Token} {ops : List UnaryOp}
    (hsigns : Signs ops signs) (hliteral : (literalKind? literal.kind).isSome)
    (hstops : Power.Stops 0 rest) :
    ∀ (scope : Scope) (k power : Nat), scope.context = none → Collates scope collate name →
      literal.ReadFrom scope.source → scope.HasRoom (ops.length + 1) → ops.length ≤ k →
      (ops = [] → power ≤ Power.trailing) →
      Gives scope (signs ++ literal :: collate :: name :: rest)
        (expression (Nested.upTo k) power) fun u r =>
        (∃ v : Tree, v.IsLiteral scope.source literal ∧ u.erased scope.source =
          ((v.erased scope.source).collated name.content).signed ops) ∧ r = rest := by
  induction hsigns with
  | nil =>
    intro scope k power hcontext hcollates hread hroom _ hpower
    refine .deeperIn hroom fun _ => ?_
    have hdeeper : Collates { scope with depth := scope.depth + 1 } collate name :=
      { hcollates with }
    exact collated_operand hdeeper hcontext hliteral hread (hpower rfl)
      (hstops.mono (Nat.zero_le _))
  | @cons op sign ops signs hsign hsigns ih =>
    intro scope k power hcontext hcollates hread hroom hk hpower
    obtain ⟨k, rfl⟩ : ∃ j, k = j + 1 := Nat.exists_eq_add_one.2 (by simp at hk; omega)
    refine .deeperIn hroom fun hroom => ?_
    have hdeeper : Collates { scope with depth := scope.depth + 1 } collate name :=
      { hcollates with }
    have hinner := ih { scope with depth := scope.depth + 1 } k op.level hcontext hdeeper hread
      hroom (by simpa using hk) fun _ => by cases op <;> decide
    have hoperand := unary_operand (Nested.upTo (k + 1))
      (fun u => ∃ v : Tree, v.IsLiteral scope.source literal ∧
        u = ((v.erased scope.source).collated name.content).signed ops) hinner hcontext hsign
      (Signs.head_ne hsigns hliteral)
    refine hoperand.bind ?_
    rintro u _ ⟨⟨_, ⟨v, hv, rfl⟩, hu⟩, rfl⟩
    refine (Gives.iterate (iterateOver_stops (hstops.mono (Nat.zero_le _)) _)).weaken ?_
    rintro _ _ ⟨rfl, rfl⟩
    exact ⟨⟨v, hv, hu⟩, rfl⟩

/-! ## The column -/

section Column

variable {scope : Scope} {self : Nested} {t start : Token} {ts rest : List Token}

/-- A constraint without a name, told by its first token. -/
theorem columnConstraint?_run (P : Tree → Prop) (hname : t.kind ≠ .keyword .CONSTRAINT)
    (hbody : Gives scope (t :: ts) (Schema.columnConstraintBody? self t t.kind) fun o r =>
      (∃ u, o = some u ∧ P (u.erased scope.source)) ∧ r = rest) :
    Gives scope (t :: ts) (Schema.columnConstraint? self) fun o r =>
      (∃ u, o = some u ∧ P (u.erased scope.source)) ∧ r = rest := by
  refine Gives.current.next ?_
  have hunnamed : Gives scope (t :: ts) Schema.constraintName? fun o r =>
      o = none ∧ r = t :: ts :=
    (Gives.consume_false (by simpa using hname)).next (.pure ⟨rfl, rfl⟩)
  refine hunnamed.next (Gives.current.next (hbody.bind ?_))
  rintro _ _ ⟨⟨u, rfl, hu⟩, rfl⟩
  refine (Gives.finish_erased rfl).bind ?_
  rintro v _ ⟨hv, rfl⟩
  exact .pure ⟨⟨v, rfl, hv ▸ hu⟩, rfl⟩

/-- No constraint comes before a closing parenthesis. -/
theorem columnConstraint?_closing (h : t.kind = .rightParen) :
    Gives scope (t :: ts) (Schema.columnConstraint? self) fun o r => o = none ∧ r = t :: ts := by
  refine Gives.current.next ?_
  have hunnamed : Gives scope (t :: ts) Schema.constraintName? fun o r =>
      o = none ∧ r = t :: ts :=
    (Gives.consume_false (by simp [h])).next (.pure ⟨rfl, rfl⟩)
  refine hunnamed.next (Gives.current.next ?_)
  dsimp only [List.head?_cons]
  rw [h]
  exact Gives.pure ⟨rfl, rfl⟩

theorem default_run {P : Tree → Prop} (hcontext : scope.context = none)
    (h : t.kind = .keyword .DEFAULT)
    (hvalue : Gives scope ts (self.expression Power.primary) fun u r =>
      P (u.erased scope.source) ∧ r = rest) :
    Gives scope (t :: ts) (Schema.columnConstraint? self) fun o r =>
      (∃ u, o = some u ∧ ∃ v, P v ∧
        u.erased scope.source = .node (.unplaced .defaultConstraint) [v]) ∧ r = rest := by
  refine columnConstraint?_run
    (fun u => ∃ v, P v ∧ u = .node (.unplaced .defaultConstraint) [v]) (by rw [h]; decide) ?_
  rw [h]
  refine Gives.advance.skip ((Gives.newNode_erased hcontext _ _ _).bind ?_)
  rintro node _ ⟨hnode, rfl⟩
  refine hvalue.bind ?_
  rintro v _ ⟨hv, rfl⟩
  refine (Gives.attach_erased hnode rfl).bind ?_
  rintro u _ ⟨hu, rfl⟩
  exact .pure ⟨⟨u, rfl, _, hv, hu⟩, rfl⟩

theorem collation_run {collate name : Token} (hcontext : scope.context = none)
    (hcollates : Collates scope collate name) :
    Gives scope (collate :: name :: rest) (Schema.columnConstraint? self) fun o r =>
      (∃ u, o = some u ∧ u.erased scope.source =
        .leaf (.unplaced .collateConstraint (.copied name.content))) ∧ r = rest := by
  refine columnConstraint?_run
    (· = .leaf (.unplaced .collateConstraint (.copied name.content)))
    (by rw [hcollates.keyword]; decide) ?_
  rw [hcollates.keyword]
  refine Gives.advance.skip ((Gives.expectWord _ hcollates.isName hcollates.quotes).next ?_)
  refine (Gives.newNode_erased hcontext _ _ _).bind ?_
  rintro node _ ⟨hnode, rfl⟩
  refine (Gives.setText_erased hcollates.fits hcollates.read hcollates.isName hnode).bind ?_
  rintro u _ ⟨hu, rfl⟩
  exact .pure ⟨⟨u, rfl, hu⟩, rfl⟩

/-- A type of one word stands under its column and is the type of the column. -/
theorem columnType?_run {u a : Tree} (hcontext : scope.context = none) (hword : start.isTypeWord)
    (hnext : ∀ t ∈ ts.head?, t.isTypeWord = false)
    (hparen : ts.head?.map Token.kind ≠ some .leftParen) (hu : u.erased scope.source = a) :
    Gives scope (start :: ts) (Schema.columnType? u) fun v r =>
      (∃ type : Tree, type.kind = .typeName ∧ type.children = [] ∧ v.erased scope.source =
        (a.append [type]).mapHead fun n =>
          { n with dataType := some (.ofName start.text none none) }) ∧ r = ts := by
  have hnumbers : Gives scope ts typeParameters fun a r => a = (none, none) ∧ r = ts :=
    (Gives.consume_false hparen).next (.pure ⟨rfl, rfl⟩)
  refine Gives.current.next ?_
  dsimp only [List.head?_cons]
  rw [if_pos hword]
  refine (Gives.typeName_word hword hnext hnumbers).bind ?_
  rintro ⟨text, dataType⟩ _ ⟨rfl, rfl⟩
  refine (Gives.newNode_erased hcontext _ _ _).bind ?_
  rintro type _ ⟨htype, rfl⟩
  refine (Gives.amend_erased (fun n => { n with
    text := text.erased scope.source
    dataType := some (.ofName start.text none none) }) (fun _ => rfl) htype).bind ?_
  rintro type _ ⟨htype, rfl⟩
  refine (Gives.finish_erased htype).bind ?_
  rintro type _ ⟨htype, rfl⟩
  refine (Gives.attach_erased hu htype).bind ?_
  rintro v _ ⟨hv, rfl⟩
  refine (Gives.amend_erased (fun n => { n with
    dataType := some (.ofName start.text none none) }) (fun _ => rfl) hv).weaken ?_
  rintro w _ ⟨hw, rfl⟩
  exact ⟨⟨_, rfl, rfl, hw⟩, rfl⟩

end Column

/-! ## The table -/

/-- `CREATE TABLE object (column type DEFAULT value COLLATE collation)`, where the value is a
literal with operators before it. -/
structure DefaultTable (config : Config) (ops : List UnaryOp) where
  create : Token
  table : Token
  object : Token
  opening : Token
  column : Token
  type : Token
  default : Token
  signs : List Token
  literal : Token
  collate : Token
  collation : Token
  closing : Token
  create_kind : create.kind = .keyword .CREATE
  table_kind : table.kind = .keyword .TABLE
  object_isName : object.isName
  object_kind : object.kind ≠ .keyword .IF
  opening_kind : opening.kind = .leftParen
  column_isName : column.isName
  type_isWord : type.isTypeWord
  default_kind : default.kind = .keyword .DEFAULT
  signs_kinds : Signs ops signs
  literal_kind : (literalKind? literal.kind).isSome
  collate_kind : collate.kind = .keyword .COLLATE
  collation_isName : collation.isNamePart
  closing_kind : closing.kind = .rightParen
  quotes : ∀ t ∈ [object, column, collation], t.QuotesPass config

namespace DefaultTable

variable {config : Config} {ops : List UnaryOp} (d : DefaultTable config ops)

/-- The constraints with the closing parenthesis. -/
def constraints : List Token :=
  d.default :: (d.signs ++ [d.literal, d.collate, d.collation, d.closing])

def tokens : List Token :=
  d.create :: d.table :: d.object :: d.opening :: d.column :: d.type :: d.constraints

/-- The children of the column after its type. -/
inductive Constrained (source : Source) : List Tree → Prop
  | intro (v : Tree) (hv : v.IsLiteral source d.literal) :
    Constrained source (defaultConstraints (v.erased source) d.collation.content ops)

section Runs

variable {source : Source} {scope : Scope} {k : Nat} (hscope : scope.config = config)
  (hcontext : scope.context = none) (hfits : scope.source.Fits)
  (hread : ∀ t ∈ d.tokens, t.ReadFrom scope.source)

include hscope hfits hread

theorem collates : Collates scope d.collate d.collation where
  keyword := d.collate_kind
  isName := d.collation_isName
  quotes := hscope ▸ d.quotes _ (by simp)
  fits := hfits
  read := hread _ (by simp [tokens, constraints])

include hcontext

/-- The constraints are read as a default, and where it has no operators as a collation too. -/
theorem constraints_run {u a : Tree} (hroom : scope.HasRoom (ops.length + 1))
    (hk : ops.length < k) (hu : u.erased scope.source = a) :
    Gives scope d.constraints (attachWhile (Schema.columnConstraint? (Nested.upTo k)) u)
      fun v r => (∃ bs, d.Constrained scope.source bs ∧ v.erased scope.source = a.append bs) ∧
        r = [d.closing] := by
  obtain ⟨k, rfl⟩ : ∃ j, k = j + 1 := Nat.exists_eq_add_one.2 (by omega)
  have hcollates := d.collates hscope hfits hread
  have hliteral : d.literal.ReadFrom scope.source := hread _ (by simp [tokens, constraints])
  have hsigns := d.signs_kinds
  have hclosing : Power.Stops 0 [d.closing] := AfterOperand.stops_closing d.closing_kind 0
  have hend : Items scope (Schema.columnConstraint? (Nested.upTo (k + 1))) [d.closing] []
      [d.closing] := .nil (columnConstraint?_closing d.closing_kind)
  rcases ops with _ | ⟨op, ops⟩
  · have hvalue : Gives scope (d.literal :: d.collate :: [d.collation, d.closing])
        ((Nested.upTo (k + 1)).expression Power.primary) fun u r =>
        (∃ v : Tree, v.IsLiteral scope.source d.literal ∧
          u.erased scope.source = v.erased scope.source) ∧
        r = [d.collate, d.collation, d.closing] :=
      (uncollated_run hroom hfits hliteral d.literal_kind d.collate_kind).weaken
        fun u _ h => ⟨⟨u, h.1, rfl⟩, h.2⟩
    have hitems : Items scope (Schema.columnConstraint? (Nested.upTo (k + 1)))
        (d.default :: d.literal :: d.collate :: [d.collation, d.closing])
        [fun u => ∃ w, (∃ v : Tree, v.IsLiteral scope.source d.literal ∧
            w = v.erased scope.source) ∧ u = .node (.unplaced .defaultConstraint) [w],
          (· = .leaf (.unplaced .collateConstraint (.copied d.collation.content)))] [d.closing] :=
      .cons (default_run hcontext d.default_kind hvalue) (by simp)
        (.cons (collation_run hcontext hcollates) (by simp) hend)
    have hnone : d.signs = [] := List.forall₂_nil_left_iff.1 hsigns
    rw [constraints, hnone]
    refine (hitems.attachWhile hu).weaken ?_
    rintro w _ ⟨⟨_, _ | ⟨⟨_, ⟨v, hv, rfl⟩, rfl⟩, _ | ⟨rfl, _ | _⟩⟩, hw⟩, rfl⟩
    exact ⟨⟨_, .intro v hv, hw⟩, rfl⟩
  · have hvalue : Gives scope (d.signs ++ d.literal :: d.collate :: d.collation :: [d.closing])
        ((Nested.upTo (k + 1)).expression Power.primary) fun u r =>
        (∃ v : Tree, v.IsLiteral scope.source d.literal ∧ u.erased scope.source =
          ((v.erased scope.source).collated d.collation.content).signed (op :: ops)) ∧
        r = [d.closing] :=
      signed_run hsigns d.literal_kind hclosing scope k Power.primary hcontext hcollates hliteral
        hroom (Nat.le_of_lt_succ hk) nofun
    have hitems : Items scope (Schema.columnConstraint? (Nested.upTo (k + 1)))
        d.constraints
        [fun u => ∃ w, (∃ v : Tree, v.IsLiteral scope.source d.literal ∧
            w = ((v.erased scope.source).collated d.collation.content).signed (op :: ops)) ∧
          u = .node (.unplaced .defaultConstraint) [w]] [d.closing] :=
      .cons (default_run hcontext d.default_kind hvalue) (by simp [constraints]) hend
    refine (hitems.attachWhile hu).weaken ?_
    rintro w _ ⟨⟨_, _ | ⟨⟨_, ⟨v, hv, rfl⟩, rfl⟩, _ | _⟩, hw⟩, rfl⟩
    exact ⟨⟨_, .intro v hv, hw⟩, rfl⟩

/-- The column has its type and the constraints under it. -/
def IsColumn (d : DefaultTable config ops) (source : Source) (u : Tree) : Prop :=
  ∃ type cs, type.kind = .typeName ∧ type.children = [] ∧ d.Constrained source cs ∧
    u.erased source = .node { Node.unplaced .columnDef (.copied d.column.content) with
      dataType := some (.ofName d.type.text none none) } (type :: cs)

theorem column_run (hroom : scope.HasRoom (ops.length + 1)) (hk : ops.length < k) :
    Gives scope (d.column :: d.type :: d.constraints) (Schema.columnDefinition (Nested.upTo k))
      fun u r => d.IsColumn scope.source u ∧ r = [d.closing] := by
  have hquotes : d.column.QuotesPass scope.config := hscope ▸ d.quotes _ (by simp)
  have hcolumn : d.column.ReadFrom scope.source := hread _ (by simp [tokens])
  have hname : d.column.isNamePart := by simp [Token.isNamePart, d.column_isName]
  have hdefault : ∀ t ∈ d.constraints.head?, t.isTypeWord = false := by
    rintro _ ⟨⟩
    rw [Token.isTypeWord, d.default_kind]
    rfl
  have hparen : d.constraints.head?.map Token.kind ≠ some .leftParen := by
    rw [constraints, List.head?_cons, Option.map_some, d.default_kind]
    decide
  refine (Gives.expectWord _ d.column_isName hquotes).next ?_
  refine (Gives.namedNode_erased hcontext hfits hcolumn hname _).bind ?_
  rintro u _ ⟨hu, rfl⟩
  refine (columnType?_run hcontext d.type_isWord hdefault hparen hu).bind ?_
  rintro u _ ⟨⟨type, hkind, hchildren, hu⟩, rfl⟩
  refine (d.constraints_run hscope hcontext hfits hread hroom hk hu).bind ?_
  rintro u _ ⟨⟨cs, hcs, hu⟩, rfl⟩
  refine (Gives.finish_erased hu).weaken ?_
  rintro u _ ⟨hu, rfl⟩
  exact ⟨⟨type, cs, hkind, hchildren, hcs, hu⟩, rfl⟩

/-- The statement makes the table with the column. -/
def IsTable (d : DefaultTable config ops) (source : Source) (u : Tree) : Prop :=
  ∃ column, d.IsColumn source column ∧ u.erased source = .node (.unplaced .createTableStmt)
    [.leaf (.unplaced .tableRef (.copied d.object.content)), column.erased source]

/-- A name without qualifiers. -/
theorem object_run :
    Gives scope (d.object :: d.opening :: d.column :: d.type :: d.constraints)
      (objectName .tableRef) fun u r =>
      u.erased scope.source = .leaf (.unplaced .tableRef (.copied d.object.content)) ∧
        r = d.opening :: d.column :: d.type :: d.constraints := by
  have hquotes : d.object.QuotesPass scope.config := hscope ▸ d.quotes _ (by simp)
  have hobject : d.object.ReadFrom scope.source := hread _ (by simp [tokens])
  have hname : d.object.isNamePart := by simp [Token.isNamePart, d.object_isName]
  have hparts : Gives scope (d.opening :: d.column :: d.type :: d.constraints)
      (dottedParts "name" 2) fun ts r =>
        ts = [] ∧ r = d.opening :: d.column :: d.type :: d.constraints := by
    have hdot : d.opening.kind ≠ .dot := by rw [d.opening_kind]; decide
    exact (Gives.consume_false (by simpa using hdot)).next (.pure ⟨rfl, rfl⟩)
  refine (Gives.expectWord _ d.object_isName hquotes).next (hparts.next ?_)
  refine (Gives.newNode_erased hcontext _ _ _).bind ?_
  rintro u _ ⟨hu, rfl⟩
  refine (Gives.tokenTexts_one (Gives.tokenText_erased hfits hobject hname)).bind ?_
  rintro _ _ ⟨⟨text, rfl, htext⟩, rfl⟩
  refine (Gives.amend_erased (fun n => { n with
    text := .copied d.object.content, schema := .none, catalog := .none }) (fun n => ?_) hu).bind ?_
  · rw [← htext]
    rfl
  rintro u _ ⟨hu, rfl⟩
  exact Gives.finish_erased hu

theorem createTable_run {u : Tree} (hroom : scope.HasRoom (ops.length + 1)) (hk : ops.length < k)
    (hu : u.erased scope.source = .leaf (.unplaced .createTableStmt)) :
    Gives scope (d.object :: d.opening :: d.column :: d.type :: d.constraints)
      (Schema.createTable (Nested.upTo k) u) fun v r => d.IsTable scope.source v ∧ r = [] := by
  have helement : Gives scope (d.column :: d.type :: d.constraints)
      (Schema.tableElement (Nested.upTo k)) fun u r =>
        d.IsColumn scope.source u ∧ r = [d.closing] := by
    have hwrites : (Symbol.leaf (.column d.column.content)).Writes d.column :=
      ⟨d.column_isName, rfl⟩
    have hbegins : d.column.Begins := hwrites.begins nofun
    refine (Gives.seesOneOf _ d.column).next ?_
    rw [hbegins.seesOneOf (by decide), if_neg nofun]
    exact d.column_run hscope hcontext hfits hread hroom hk
  have has : d.opening.kind ≠ .keyword .AS := by rw [d.opening_kind]; decide
  have hcomma : d.closing.kind ≠ .comma := by rw [d.closing_kind]; decide
  refine (d.object_run hscope hcontext hfits hread).bind ?_
  rintro object _ ⟨hobject, rfl⟩
  refine (Gives.attach_erased hu hobject).bind ?_
  rintro u _ ⟨hu, rfl⟩
  refine (Gives.consume_false (by simpa using has)).next ?_
  refine (Gives.expect _ d.opening_kind).skip ?_
  refine (Gives.attachList_one helement (by simpa using hcomma)).bind ?_
  rintro _ _ ⟨⟨column, hcolumn, rfl⟩, rfl⟩
  refine (Gives.expect _ d.closing_kind).skip ((Gives.take?_nil _).next (.pure ⟨?_, rfl⟩))
  refine ⟨column, hcolumn, ?_⟩
  rw [Tree.erased_append, hu]
  rfl

theorem create_run (hroom : scope.HasRoom (ops.length + 1)) (hk : ops.length < k) :
    Gives scope d.tokens (Schema.create (Nested.upTo k)) fun u r =>
      d.IsTable scope.source u ∧ r = [] := by
  have htable {kind : TokenKind} (h : kind ≠ .keyword .TABLE) :
      Gives scope (d.table :: d.object :: d.opening :: d.column :: d.type :: d.constraints)
        (consume kind) fun b r => b = false ∧
        r = d.table :: d.object :: d.opening :: d.column :: d.type :: d.constraints :=
    Gives.consume_false (by simpa [d.table_kind] using h.symm)
  have htemporary : Gives scope
      (d.table :: d.object :: d.opening :: d.column :: d.type :: d.constraints)
      Schema.temporary? fun b r => b = false ∧
        r = d.table :: d.object :: d.opening :: d.column :: d.type :: d.constraints :=
    (htable (by decide)).next (htable (by decide))
  have hif : Omitted scope (d.object :: d.opening :: d.column :: d.type :: d.constraints)
      Schema.ifNotExists? := fun u =>
    (Gives.consume_false (by simpa using d.object_kind)).next (.pure ⟨rfl, rfl⟩)
  refine (Gives.expect _ d.create_kind).next (htemporary.next ((htable (by decide)).next ?_))
  refine Gives.current.next ?_
  have hkind : Gives scope (d.table :: d.object :: d.opening :: d.column :: d.type :: d.constraints)
      (Schema.creationKind false false d.table) fun kind r => kind = .createTableStmt ∧
        r = d.table :: d.object :: d.opening :: d.column :: d.type :: d.constraints := by
    unfold Schema.creationKind
    rw [d.table_kind]
    exact .pure ⟨rfl, rfl⟩
  refine hkind.next (Gives.advance.skip ((Gives.newNode_erased hcontext _ _ _).bind ?_))
  rintro u _ ⟨hu, rfl⟩
  refine (Gives.pure ⟨rfl, rfl⟩).next ((Gives.pure ⟨rfl, rfl⟩).next ((hif u).next ?_))
  have hbody : Schema.creationBody (Nested.upTo k) u = Schema.createTable (Nested.upTo k) u := by
    unfold Schema.creationBody
    rw [← Tree.kind_erased scope.source u, hu]
    rfl
  rw [hbody]
  refine (d.createTable_run hscope hcontext hfits hread hroom hk hu).bind ?_
  rintro v _ ⟨⟨column, hcolumn, hv⟩, rfl⟩
  refine (Gives.finish_erased hv).weaken ?_
  rintro w _ ⟨hw, rfl⟩
  exact ⟨⟨column, hcolumn, hw⟩, rfl⟩

end Runs

/-! ## Rules -/

variable {source : Source} {d}

theorem unruled_of_literalKind? {kind : TokenKind} {k : Kind} (h : literalKind? kind = some k) :
    k.unruled := by
  unfold literalKind? at h
  split at h <;> cases h <;> rfl

theorem unruled_signed {u : Tree} (h : u.Unruled) : ∀ ops : List UnaryOp, (u.signed ops).Unruled
  | [] => h
  | op :: ops => .node rfl (by simpa using unruled_signed h ops)

theorem Constrained.unruled {cs : List Tree} (h : d.Constrained source cs) :
    ∀ c ∈ cs, c.Unruled := by
  obtain ⟨v, n, rfl, hn, -⟩ := h
  have hliteral : (Tree.leaf n).Unruled := .node (unruled_of_literalKind? hn) (by simp)
  generalize Tree.leaf n = v at hliteral
  have hvalue : (v.erased source).Unruled := (Tree.unruled_erased source v).2 hliteral
  have hcollated : ((v.erased source).collated d.collation.content).Unruled :=
    .node rfl (by simpa using hvalue)
  have hcollate : (Tree.leaf (.unplaced .collateConstraint
      (.copied d.collation.content))).Unruled := .node rfl (by simp)
  rcases ops with _ | ⟨op, ops⟩
  · have hdefault : (Tree.node (.unplaced .defaultConstraint) [v.erased source]).Unruled :=
      .node rfl (by simpa using hvalue)
    exact List.forall_mem_cons.2 ⟨hdefault, by simpa using hcollate⟩
  · have hdefault : (Tree.node (.unplaced .defaultConstraint)
        [((v.erased source).collated d.collation.content).signed (op :: ops)]).Unruled :=
      .node rfl (by simpa using unruled_signed hcollated (op :: ops))
    exact List.forall_mem_cons.2 ⟨hdefault, List.forall_mem_nil _⟩

theorem IsColumn.unruled {u : Tree} (h : d.IsColumn source u) : u.Unruled := by
  obtain ⟨type, cs, htype, hleaf, hcs, hu⟩ := h
  have htype : type.Unruled := by
    obtain ⟨n, below⟩ := type
    obtain rfl : below = [] := hleaf
    exact .node (by rw [show n.kind = .typeName from htype]; rfl) (by simp)
  rw [← Tree.unruled_erased source, hu]
  exact .node rfl (List.forall_mem_cons.2 ⟨htype, hcs.unruled⟩)

/-- The name of the one column is no repetition, and there are no other rules to keep. -/
theorem IsTable.keepsRules {u : Tree} (h : d.IsTable source u) (mode : Mode) :
    u.KeepsRules source mode := by
  obtain ⟨column, hcolumn, hu⟩ := h
  have hkind : column.kind = .columnDef := by
    obtain ⟨_, _, -, -, -, hcolumn⟩ := hcolumn
    rw [← Tree.kind_erased source, hcolumn]
    rfl
  obtain ⟨n, _ | ⟨object, _ | ⟨other, _ | ⟨more, below⟩⟩⟩⟩ := u <;>
    simp only [Tree.erased, Tree.erasedAll, Tree.node.injEq, List.cons.injEq, reduceCtorEq,
      and_false, and_true] at hu
  obtain ⟨hn, hobject, hother⟩ := hu
  have hobjectKind : object.kind = .tableRef := by
    rw [← Tree.kind_erased source, hobject]
    rfl
  have hotherKind : other.kind = .columnDef := by
    rw [← Tree.kind_erased source, hother, Tree.kind_erased, hkind]
  have hroot : Validation.check source mode (.node n [object, other]) = [] := by
    have hn : (Tree.node n [object, other]).kind = .createTableStmt := congrArg Node.kind hn
    rw [Validation.check, hn]
    simp [Validation.checkColumns, Tree.children, hobjectKind, hotherKind, Validation.withRepeats]
  have hobjectUnruled : object.Unruled := by
    rw [← Tree.unruled_erased source, hobject]
    exact .node rfl (List.forall_mem_nil _)
  have hotherUnruled : other.Unruled := by
    rw [← Tree.unruled_erased source, hother, Tree.unruled_erased]
    exact hcolumn.unruled
  refine .node hroot (List.forall_mem_cons.2 ⟨.of_unruled hobjectUnruled, ?_⟩)
  exact List.forall_mem_singleton.2 (.of_unruled hotherUnruled)

end DefaultTable

/-- A default before a collation: without operators both are constraints of the column, but behind
an operator the collation is part of the default. -/
theorem Session.parse_default_collation (s : Session) (source : Source) {ops : List UnaryOp}
    (d : DefaultTable s.config ops) (htokens : tokenize source = d.tokens)
    (hfits : source.byteSize < 2 ^ 32)
    (hroom : s.HasRoom (ops.length + 2)) :
    ∃ t, (s.parse source).1 = .ok t ∧ d.IsTable source t := by
  have hfits : source.Fits := Nat.lt_trans hfits (Nat.pow_lt_pow_right (by decide) (by decide))
  have hread : ∀ t ∈ d.tokens, t.ReadFrom source := fun t ht =>
    readFrom_of_mem_tokenize (htokens ▸ ht)
  have hlength : d.signs.length = ops.length := d.signs_kinds.length_eq.symm
  have hcreate : d.create.kind ≠ .semicolon := by rw [d.create_kind]; decide
  rw [parse, htokens]
  refine s.parseTokens_statement source hread hcreate ?_ fun u hu =>
    (hu.keepsRules s.config.mode).validate
  have hlevels : (s.scope .one source).HasRoom (ops.length + 2) :=
    fun depth _ hdepth => hroom depth (by simpa [Session.scope] using hdepth)
  refine .deeperIn hlevels fun hroom => ?_
  refine Gives.current.next ?_
  dsimp only [List.head?_cons]
  rw [Token.keyword?, d.create_kind]
  refine d.create_run rfl rfl hfits hread hroom ?_
  simp [DefaultTable.constraints, hlength]
  omega

/-- A column `a` with the default `-1 COLLATE c`. -/
def signedDefault : DefaultTable {} [.neg] where
  create := ⟨.keyword .CREATE, "CREATE", ⟨0, 6⟩, 1, 1⟩
  table := ⟨.keyword .TABLE, "TABLE", ⟨7, 12⟩, 1, 8⟩
  object := ⟨.identifier, "t", ⟨13, 14⟩, 1, 14⟩
  opening := ⟨.leftParen, "(", ⟨15, 16⟩, 1, 16⟩
  column := ⟨.identifier, "a", ⟨16, 17⟩, 1, 17⟩
  type := ⟨.keyword .TEXT, "TEXT", ⟨18, 22⟩, 1, 19⟩
  default := ⟨.keyword .DEFAULT, "DEFAULT", ⟨23, 30⟩, 1, 24⟩
  signs := [⟨.minus, "-", ⟨31, 32⟩, 1, 32⟩]
  literal := ⟨.integer, "1", ⟨32, 33⟩, 1, 33⟩
  collate := ⟨.keyword .COLLATE, "COLLATE", ⟨34, 41⟩, 1, 35⟩
  collation := ⟨.identifier, "c", ⟨42, 43⟩, 1, 43⟩
  closing := ⟨.rightParen, ")", ⟨43, 44⟩, 1, 44⟩
  create_kind := rfl
  table_kind := rfl
  object_isName := rfl
  object_kind := nofun
  opening_kind := rfl
  column_isName := rfl
  type_isWord := rfl
  default_kind := rfl
  signs_kinds := .cons rfl .nil
  literal_kind := rfl
  collate_kind := rfl
  collation_isName := rfl
  closing_kind := rfl
  quotes := fun _ _ => nofun

/-- The collation goes to the literal behind the sign. -/
theorem Session.parse_default_collation_signed :
    ∃ t, (({} : Session).parse "CREATE TABLE t (a TEXT DEFAULT -1 COLLATE c)".toList).1 = .ok t ∧
      signedDefault.IsTable "CREATE TABLE t (a TEXT DEFAULT -1 COLLATE c)".toList t :=
  Session.parse_default_collation {} _ signedDefault (by decide +kernel) (by decide +kernel)
    (Session.hasRoom_default (by decide))

/-- The same default with and without a sign: only without it the column gets the collation. -/
theorem Session.signed_default_takes_collation :
    ((({} : Session).parse
        "CREATE TABLE t (a TEXT DEFAULT -1 COLLATE c)".toList).1.toOption.map Tree.shape) =
      some [.createTableStmt, .tableRef, .columnDef, .typeName, .defaultConstraint, .unaryExpr,
        .collateExpr, .integerLiteral] ∧
      ((({} : Session).parse
        "CREATE TABLE t (a TEXT DEFAULT 1 COLLATE c)".toList).1.toOption.map Tree.shape) =
      some [.createTableStmt, .tableRef, .columnDef, .typeName, .defaultConstraint,
        .integerLiteral, .collateConstraint] := by
  decide +kernel

end SqlSyntax
