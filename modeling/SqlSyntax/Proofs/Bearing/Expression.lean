import SqlSyntax.Grammar.Expression
import SqlSyntax.Proofs.Bearing.Steps

/-!
# What expressions bear

Whatever is an expression may stand under all that bears anything, and so may its clauses.
-/

namespace SqlSyntax

open SqlSyntax.Parser SqlSyntax.Facts

variable {Γ : Facts Family} {σ : Family} {t : Tree}

set_option synthInstance.maxSize 1000

/-! ## Names -/

instance objectName_plants (kind : Kind) : Plants Γ (objectName kind) (.only kind) := by
  unfold objectName
  infer_instance

instance columnReference_plants (allowStar : Bool) :
    Plants Γ (columnReference allowStar) .plain := by
  unfold columnReference
  exact .skip (h := fun _ => .skip_pair (h := fun _ _ => .widen))

instance direction_plants [Knows Γ t σ] : Plants Γ (direction t) σ := by
  unfold direction
  exact .widen

instance columnName_plants : Plants Γ columnName (.only .identifier) := by
  unfold columnName
  infer_instance

instance columnList_plants : Plants Γ columnList (.only .columnList) := by
  unfold columnList
  infer_instance

instance aliased_plants (name : Token) [Knows Γ t σ] [σ.Over (.only .alias)] :
    Plants Γ (aliased t name) σ := by
  unfold aliased
  infer_instance

instance withAlias_plants [Knows Γ t σ] [σ.Over (.only .alias)] : Plants Γ (withAlias t) σ := by
  unfold withAlias
  exact .widen

/-! ## Clauses of expressions -/

namespace Expression

variable {self : Nested} [self.Bears]

instance nullsOrder_plants [Knows Γ t σ] : Plants Γ (nullsOrder t) σ := by
  unfold nullsOrder
  exact .widen

instance orderByItem_plants : Plants Γ (orderByItem self) (.only .orderByItem) := by
  unfold orderByItem
  infer_instance

instance orderBy_plants : Plants Γ (orderBy self) (.only .orderByClause) := by
  unfold orderBy
  infer_instance

instance enclosedQuery_plants [Knows Γ t σ] [σ.Over .query] :
    Plants Γ (enclosedQuery self t) σ := by
  unfold enclosedQuery
  infer_instance

instance subquery_plants (kind : Kind) (opening : Token) [(Family.only kind).Over .query] :
    Plants Γ (subquery self kind opening) (.only kind) := by
  unfold subquery
  infer_instance

instance row_plants (opening : Token) [Knows Γ t .plain] :
    Plants Γ (row self opening t) (.only .rowValue) := by
  unfold row
  infer_instance

instance enclosed_plants (opening : Token) [Knows Γ t .plain] :
    Plants Γ (enclosed opening t) .plain := by
  unfold enclosed
  exact .widen

instance parenthesized_plants : Plants Γ (parenthesized self) .plain := by
  unfold parenthesized
  exact .widen

instance literal_plants (kind : Kind) (token : Token) :
    Plants Γ (literal kind token) (.only kind) := by
  unfold literal
  exact .widen

instance partition?_plants [Knows Γ t σ] [σ.Over (.only .partitionByClause)] :
    Plants Γ (partition? self t) σ := by
  unfold partition?
  exact .widen

instance window_plants (word : Token) : Plants Γ (window self word) (.only .windowSpec) := by
  unfold window
  exact .widen

instance over?_plants [Knows Γ t σ] [σ.Over (.only .windowSpec)] : Plants Γ (over? self t) σ := by
  unfold over?
  exact .widen

instance arguments_plants [Knows Γ t σ] [σ.Over .plain] : Plants Γ (arguments self t) σ := by
  unfold arguments
  exact .widen

instance call_plants : Plants Γ (call self) .plain := by
  unfold call
  exact .widen

instance setType_plants [Knows Γ t σ] : Plants Γ (setType t) σ := by
  unfold setType
  infer_instance

instance cast_plants : Plants Γ (cast self) .plain := by
  unfold cast
  exact .widen

instance extract_plants : Plants Γ (extract self) .plain := by
  unfold extract
  exact .widen

instance whenArm?_plants : Plants Γ (whenArm? self) (.only .whenClause) := by
  unfold whenArm?
  exact .widen

instance otherwise?_plants [Knows Γ t σ] [σ.Over (.only .elseClause)] :
    Plants Γ (otherwise? self t) σ := by
  unfold otherwise?
  exact .widen

instance arms_plants [Knows Γ t σ] [σ.Over (.only .whenClause)] : Plants Γ (arms self t) σ := by
  unfold arms
  exact .widen

instance caseOf_plants : Plants Γ (caseOf self) .plain := by
  unfold caseOf
  exact .widen

instance existence_plants : Plants Γ (existence self) .plain := by
  unfold existence
  exact .widen

instance position_plants : Plants Γ (position self) .plain := by
  unfold position
  exact .widen

instance substringArguments_plants [Knows Γ t σ] [σ.Over .plain] :
    Plants Γ (substringArguments self t) σ := by
  unfold substringArguments
  exact .widen

instance substring_plants : Plants Γ (substring self) .plain := by
  unfold substring
  exact .widen

instance named_plants (token : Token) : Plants Γ (named self token) .plain := by
  unfold named
  exact .widen

@[instance]
theorem primary_plants : Plants Γ (primary self) .plain := by
  unfold primary
  refine .skip (h := fun o => ?_)
  rcases o with _ | token
  · exact .widen
  dsimp only
  split
  · next kind hkind =>
    -- whichever literal it is, the kind is plain
    unfold literalKind? at hkind
    split at hkind <;> cases hkind <;> exact .widen
  · split <;> exact .widen

instance unary_plants (token : Token) (power : Nat) : Plants Γ (unary self token power) .plain := by
  unfold unary
  exact .widen

@[instance]
theorem operand_plants : Plants Γ (operand self) .plain := by
  unfold operand
  refine .skip (h := fun o => ?_)
  rcases o with _ | token
  · exact .widen
  dsimp only
  split <;> exact .widen

instance listItems_plants [Knows Γ t σ] [σ.Over .plain] : Plants Γ (listItems self t) σ := by
  unfold listItems
  exact .widen

instance memberList_plants (opening : Token) :
    Plants Γ (memberList self opening) (.only .exprList) := by
  unfold memberList
  infer_instance

section

variable [Knows Γ t .plain]

instance membership_plants : Plants Γ (membership self t) .plain := by
  unfold membership
  exact .widen

instance range_plants (power : Nat) : Plants Γ (range self t power) .plain := by
  unfold range
  exact .widen

instance setOperator_plants (op : BinaryOp) {u : Tree} [Knows Γ u σ] :
    Plants Γ (setOperator u op) σ := by
  unfold setOperator
  infer_instance

instance likeness_plants (op : BinaryOp) (power : Nat) :
    Plants Γ (likeness self t op power) .plain := by
  unfold likeness
  exact .widen

instance identity_plants (power : Nat) : Plants Γ (identity self t power) .plain := by
  unfold identity
  exact .widen

instance binary_plants (token : Token) (power : Nat) :
    Plants Γ (binary self t token power) .plain := by
  unfold binary
  rcases BinaryOp.ofToken? token.kind with _ | op
  · exact .widen
  · exact .widen

@[instance]
theorem application_plants (op : Token) (power : Nat) :
    Plants Γ (application self t op power) .plain := by
  unfold application
  split <;> infer_instance

instance joining_plants (token : Token) (power : Nat) :
    Plants Γ (joining self t token power) .plain := by
  unfold joining
  exact .widen

instance signCast_plants (token : Token) : Plants Γ (signCast t token) .plain := by
  unfold signCast
  exact .widen

instance collation_plants : Plants Γ (collation t) .plain := by
  unfold collation
  exact .widen

instance trailing_plants (token : Token) : Plants Γ (trailing t token) .plain := by
  unfold trailing
  exact .widen

@[instance]
theorem grow?_plants (power : Nat) : Plants Γ (grow? self power t) .plain := by
  unfold grow?
  refine .skip (h := fun o => ?_)
  rcases o with _ | token
  · exact .widen
  dsimp only
  split
  · exact .widen
  · refine .skip (h := fun next => ?_)
    split <;> exact .widen

end

end Expression

instance expression_plants {self : Nested} [self.Bears] (power : Nat) :
    Plants Γ (expression self power) .plain := by
  unfold expression
  infer_instance

end SqlSyntax
