import SqlSyntax.Grammar.Expression
import SqlSyntax.Proofs.Arity.Steps

/-!
# How many children the nodes of expressions have

Each operator gets its operands and a call any number of arguments. Whatever an expression is, all
of its nodes have as many children as their kinds tell.
-/

namespace SqlSyntax

open SqlSyntax.Parser SqlSyntax.Facts

variable {Γ : Facts Phase} {σ τ : Phase} {t : Tree}

set_option synthInstance.maxSize 1000

/-! ## Names -/

instance objectName_counts (kind : Kind) : Plants Γ (objectName kind) (.wants kind.arity?) := by
  unfold objectName
  infer_instance

instance columnReference_counts (allowStar : Bool) :
    Plants Γ (columnReference allowStar) .whole := by
  -- with a star or without there is nothing under the node
  have hkind (star : Bool) :
      (Phase.wants (if star then Kind.qualifiedWildcard else .columnRef).arity?).Sub .whole := by
    cases star <;> exact .full
  unfold columnReference
  exact .skip (h := fun _ => .skip_pair (h := fun _ star => .widen))

instance direction_counts [Knows Γ t σ] : Plants Γ (direction t) σ := by
  unfold direction
  exact .widen

instance columnName_counts : Plants Γ columnName .whole := by
  unfold columnName
  exact .widen

instance columnList_counts : Plants Γ columnList .free := by
  unfold columnList
  infer_instance

instance aliased_counts (name : Token) [Knows Γ t σ] [σ.Next τ] : Plants Γ (aliased t name) τ := by
  unfold aliased
  infer_instance

instance withAlias_counts [Knows Γ t .free] : Plants Γ (withAlias t) .free := by
  unfold withAlias
  exact .widen

/-! ## Clauses of expressions -/

namespace Expression

variable {self : Nested} [self.Counts]

instance nullsOrder_counts [Knows Γ t σ] : Plants Γ (nullsOrder t) σ := by
  unfold nullsOrder
  exact .widen

instance orderByItem_counts : Plants Γ (orderByItem self) .whole := by
  unfold orderByItem
  exact .widen

instance orderBy_counts : Plants Γ (orderBy self) .free := by
  unfold orderBy
  infer_instance

instance enclosedQuery_counts [Knows Γ t σ] [σ.Next τ] : Plants Γ (enclosedQuery self t) τ := by
  unfold enclosedQuery
  infer_instance

instance subquery_counts (kind : Kind) (opening : Token) [(Phase.wants kind.arity?).Next τ] :
    Plants Γ (subquery self kind opening) τ := by
  unfold subquery
  infer_instance

instance row_counts (opening : Token) [Knows Γ t .whole] : Plants Γ (row self opening t) .free := by
  unfold row
  infer_instance

instance enclosed_counts (opening : Token) [Knows Γ t .whole] :
    Plants Γ (enclosed opening t) .whole := by
  unfold enclosed
  exact .widen

instance parenthesized_counts : Plants Γ (parenthesized self) .whole := by
  unfold parenthesized
  exact .widen

theorem literalKind?_arity {k : TokenKind} {kind : Kind} (hkind : literalKind? k = some kind) :
    kind.arity? = some 0 := by
  unfold literalKind? at hkind
  split at hkind <;> cases hkind <;> rfl

instance literal_counts (kind : Kind) (token : Token) :
    Plants Γ (literal kind token) (.wants kind.arity?) := by
  unfold literal
  exact .widen

instance partition?_counts [Knows Γ t .free] : Plants Γ (partition? self t) .free := by
  unfold partition?
  exact .widen

instance window_counts (word : Token) : Plants Γ (window self word) .free := by
  unfold window
  exact .widen

instance over?_counts [Knows Γ t .free] : Plants Γ (over? self t) .free := by
  unfold over?
  exact .widen

instance arguments_counts [Knows Γ t .free] : Plants Γ (arguments self t) .free := by
  unfold arguments
  exact .widen

instance call_counts : Plants Γ (call self) .whole := by
  unfold call
  exact .widen

instance setType_counts [Knows Γ t σ] : Plants Γ (setType t) σ := by
  unfold setType
  infer_instance

instance cast_counts : Plants Γ (cast self) .whole := by
  unfold cast
  exact .widen

instance extract_counts : Plants Γ (extract self) .whole := by
  unfold extract
  exact .widen

instance whenArm?_counts : Plants Γ (whenArm? self) .whole := by
  unfold whenArm?
  exact .widen

instance otherwise?_counts [Knows Γ t .free] : Plants Γ (otherwise? self t) .free := by
  unfold otherwise?
  exact .widen

instance arms_counts [Knows Γ t .free] : Plants Γ (arms self t) .free := by
  unfold arms
  exact .widen

instance caseOf_counts : Plants Γ (caseOf self) .whole := by
  unfold caseOf
  exact .widen

instance existence_counts : Plants Γ (existence self) .whole := by
  unfold existence
  exact .widen

instance position_counts : Plants Γ (position self) .whole := by
  unfold position
  exact .widen

instance substringArguments_counts [Knows Γ t .free] :
    Plants Γ (substringArguments self t) .free := by
  unfold substringArguments
  exact .widen

instance substring_counts : Plants Γ (substring self) .whole := by
  unfold substring
  exact .widen

instance named_counts (token : Token) : Plants Γ (named self token) .whole := by
  unfold named
  exact .widen

@[instance]
theorem primary_counts : Plants Γ (primary self) .whole := by
  unfold primary
  refine .skip (h := fun o => ?_)
  rcases o with _ | token
  · exact .widen
  dsimp only
  split
  · next kind hkind =>
    have hwhole : (Phase.wants kind.arity?).Sub .whole := literalKind?_arity hkind ▸ .full
    exact .skip (h := fun _ => (literal_counts kind token).sub inferInstance)
  · split <;> exact .widen

instance unary_counts (token : Token) (power : Nat) : Plants Γ (unary self token power) .whole := by
  unfold unary
  exact .widen

@[instance]
theorem operand_counts : Plants Γ (operand self) .whole := by
  unfold operand
  refine .skip (h := fun o => ?_)
  rcases o with _ | token
  · exact .widen
  dsimp only
  split <;> exact .widen

instance listItems_counts [Knows Γ t .free] : Plants Γ (listItems self t) .free := by
  unfold listItems
  exact .widen

instance memberList_counts (opening : Token) : Plants Γ (memberList self opening) .free := by
  unfold memberList
  infer_instance

section

variable [Knows Γ t .whole]

instance membership_counts : Plants Γ (membership self t) .whole := by
  unfold membership
  exact .widen

instance range_counts (power : Nat) : Plants Γ (range self t power) .whole := by
  unfold range
  exact .widen

instance setOperator_counts (op : BinaryOp) {u : Tree} [Knows Γ u σ] :
    Plants Γ (setOperator u op) σ := by
  unfold setOperator
  infer_instance

instance likeness_counts (op : BinaryOp) (power : Nat) :
    Plants Γ (likeness self t op power) .whole := by
  unfold likeness
  exact .widen

instance identity_counts (power : Nat) : Plants Γ (identity self t power) .whole := by
  unfold identity
  exact .widen

instance binary_counts (token : Token) (power : Nat) :
    Plants Γ (binary self t token power) .whole := by
  unfold binary
  rcases BinaryOp.ofToken? token.kind with _ | op
  · exact .widen
  · exact .widen

@[instance]
theorem application_counts (op : Token) (power : Nat) :
    Plants Γ (application self t op power) .whole := by
  unfold application
  split <;> infer_instance

instance joining_counts (token : Token) (power : Nat) :
    Plants Γ (joining self t token power) .whole := by
  unfold joining
  exact .widen

instance signCast_counts (token : Token) : Plants Γ (signCast t token) .whole := by
  unfold signCast
  exact .widen

instance collation_counts : Plants Γ (collation t) .whole := by
  unfold collation
  exact .widen

instance trailing_counts (token : Token) : Plants Γ (trailing t token) .whole := by
  unfold trailing
  exact .widen

@[instance]
theorem grow?_counts (power : Nat) : Plants Γ (grow? self power t) .whole := by
  unfold grow?
  refine .skip (h := fun o => ?_)
  rcases o with _ | token
  · exact .widen
  dsimp only
  split
  · exact .widen
  · refine .skip (h := fun next => ?_)
    split <;> exact .widen

end

end Expression

instance expression_counts {self : Nested} [self.Counts] (power : Nat) :
    Plants Γ (expression self power) .whole := by
  unfold expression
  infer_instance

end SqlSyntax
