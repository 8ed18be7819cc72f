import SqlSyntax.Proofs.Depth.Steps

/-!
# Levels inside an expression

An expression opens a level and comes to its first operand. Where that begins with a parenthesis,
one more level is opened before the parenthesis is taken; all other operands take their first token
before they come to anything that opens a level, and so does each operator.
-/

namespace SqlSyntax

open SqlSyntax.Parser

variable {n levels more : Nat} {self self' : Nested}

set_option synthInstance.maxSize 1000

/-! ## Names and types -/

instance tokenTexts_confined (ts : List Token) :
    Confined n levels more (tokenTexts ts) (tokenTexts ts) := by
  unfold tokenTexts
  induction ts with
  | nil =>
    rw [List.mapM_nil]
    infer_instance
  | cons t ts ih =>
    rw [List.mapM_cons]
    infer_instance

instance dottedParts_confined (what : String) (i : Nat) :
    Confined n levels more (dottedParts what i) (dottedParts what i) := by
  induction i with
  | zero =>
    unfold dottedParts
    infer_instance
  | succ i ih =>
    unfold dottedParts
    infer_instance

instance objectName_confined (kind : Kind) :
    Confined n levels more (objectName kind) (objectName kind) := by
  unfold objectName
  infer_instance

instance columnStar_confined (allowStar : Bool) :
    Confined n levels more (columnStar allowStar) (columnStar allowStar) := by
  unfold columnStar
  infer_instance

instance columnParts_confined (allowStar : Bool) (i : Nat) :
    Confined n levels more (columnParts allowStar i) (columnParts allowStar i) := by
  induction i with
  | zero =>
    unfold columnParts
    infer_instance
  | succ i ih =>
    unfold columnParts
    infer_instance

instance columnReference_confined (allowStar : Bool) :
    Confined n levels more (columnReference allowStar) (columnReference allowStar) := by
  have hfail (first : Token) :
      Confined n levels more (fail (.atToken .tooManyQualifiers first) : Parser Tree)
        (fail (.atToken .tooManyQualifiers first)) := .fail nofun
  unfold columnReference
  infer_instance

instance seesQualifiedStar_confined :
    Confined n levels more seesQualifiedStar seesQualifiedStar := by
  unfold seesQualifiedStar
  infer_instance

instance direction_confined (node : Tree) :
    Confined n levels more (direction node) (direction node) := by
  unfold direction
  infer_instance

instance columnName_confined : Confined n levels more columnName columnName := by
  unfold columnName
  infer_instance

instance columnList_confined : Confined n levels more columnList columnList := by
  unfold columnList
  infer_instance

instance aliasName?_confined : Confined n levels more aliasName? aliasName? := by
  unfold aliasName?
  infer_instance

instance aliased_confined (t : Tree) (name : Token) :
    Confined n levels more (aliased t name) (aliased t name) := by
  unfold aliased
  infer_instance

instance withAlias_confined (t : Tree) : Confined n levels more (withAlias t) (withAlias t) := by
  unfold withAlias
  infer_instance

instance typeParameter_confined : Confined n levels more typeParameter typeParameter := by
  unfold typeParameter
  infer_instance

instance typeParameters_confined : Confined n levels more typeParameters typeParameters := by
  unfold typeParameters
  infer_instance

instance typeName_confined : Confined n levels more typeName typeName := by
  unfold typeName
  refine Confined.andThen inferInstance fun words => ?_
  rcases words with _ | ⟨first, others⟩
  · infer_instance
  · infer_instance

/-! ## Clauses of expressions -/

namespace Expression

variable [Nested.Confined n levels self self']

instance nullsOrder_confined (item : Tree) :
    Confined n levels more (nullsOrder item) (nullsOrder item) := by
  unfold nullsOrder
  infer_instance

instance orderByItem_confined : Confined n levels 0 (orderByItem self) (orderByItem self') := by
  unfold orderByItem
  infer_instance

instance orderBy_confined : Confined n levels 1 (orderBy self) (orderBy self') := by
  unfold orderBy
  infer_instance

instance seesQuery_confined : Confined n levels more seesQuery seesQuery := by
  unfold seesQuery
  infer_instance

instance enclosedQuery_confined (node : Tree) :
    Confined n levels 0 (enclosedQuery self node) (enclosedQuery self' node) := by
  unfold enclosedQuery
  infer_instance

instance subquery_confined (kind : Kind) (opening : Token) :
    Confined n levels 0 (subquery self kind opening) (subquery self' kind opening) := by
  unfold subquery
  infer_instance

instance row_confined (opening : Token) (first : Tree) :
    Confined n levels 0 (row self opening first) (row self' opening first) := by
  unfold row
  infer_instance

instance enclosed_confined (opening : Token) (inner : Tree) :
    Confined n levels more (enclosed opening inner) (enclosed opening inner) := by
  unfold enclosed
  infer_instance

/-- Parentheses open one level more than what they enclose. -/
instance parenthesized_confined :
    Confined n (levels + 1) 1 (parenthesized self) (parenthesized self') := by
  unfold parenthesized
  infer_instance

instance literal_confined (kind : Kind) (t : Token) :
    Confined n levels more (literal kind t) (literal kind t) := by
  unfold literal
  infer_instance

instance partition?_confined (node : Tree) :
    Confined n levels 0 (partition? self node) (partition? self' node) := by
  unfold partition?
  infer_instance

instance window_confined (word : Token) :
    Confined n levels 0 (window self word) (window self' word) := by
  unfold window
  infer_instance

instance over?_confined (node : Tree) :
    Confined n levels 0 (over? self node) (over? self' node) := by
  unfold over?
  infer_instance

instance arguments_confined (node : Tree) :
    Confined n levels 0 (arguments self node) (arguments self' node) := by
  unfold arguments
  infer_instance

instance call_confined : Confined n levels 1 (call self) (call self') := by
  unfold call
  infer_instance

instance setType_confined (node : Tree) : Confined n levels more (setType node) (setType node) := by
  unfold setType
  infer_instance

instance cast_confined : Confined n levels 1 (cast self) (cast self') := by
  unfold cast
  infer_instance

instance extract_confined : Confined n levels 1 (extract self) (extract self') := by
  unfold extract
  infer_instance

instance whenArm?_confined : Confined n levels 0 (whenArm? self) (whenArm? self') := by
  unfold whenArm?
  infer_instance

instance otherwise?_confined (node : Tree) :
    Confined n levels 0 (otherwise? self node) (otherwise? self' node) := by
  unfold otherwise?
  infer_instance

instance arms_confined (node : Tree) : Confined n levels 0 (arms self node) (arms self' node) := by
  unfold arms
  infer_instance

instance caseOf_confined : Confined n levels 1 (caseOf self) (caseOf self') := by
  unfold caseOf
  infer_instance

instance existence_confined : Confined n levels 1 (existence self) (existence self') := by
  unfold existence
  infer_instance

instance position_confined : Confined n levels 1 (position self) (position self') := by
  unfold position
  infer_instance

instance substringArguments_confined (node : Tree) :
    Confined n levels 0 (substringArguments self node) (substringArguments self' node) := by
  unfold substringArguments
  infer_instance

instance substring_confined : Confined n levels 1 (substring self) (substring self') := by
  unfold substring
  infer_instance

instance named_confined (t : Token) : Confined n levels 1 (named self t) (named self' t) := by
  unfold named
  infer_instance

/-- Only parentheses open a level where nothing was taken. -/
instance primary_confined : Confined n (levels + 1) 1 (primary self) (primary self') := by
  unfold primary
  refine Confined.andThen inferInstance fun o => ?_
  rcases o with _ | t
  · infer_instance
  dsimp only
  split
  · infer_instance
  · split
    · infer_instance
    -- the others come to what is inside behind their first word
    all_goals exact Confined.deepen inferInstance (Nat.le_succ levels)

instance unary_confined (t : Token) (power : Nat) :
    Confined n levels 0 (unary self t power) (unary self' t power) := by
  unfold unary
  infer_instance

instance operand_confined : Confined n (levels + 1) 1 (operand self) (operand self') := by
  unfold operand
  refine Confined.andThen inferInstance fun o => ?_
  rcases o with _ | t
  · infer_instance
  dsimp only
  split
  · infer_instance
  · exact Confined.deepen inferInstance (Nat.le_succ levels)

instance listItems_confined (list : Tree) :
    Confined n levels 0 (listItems self list) (listItems self' list) := by
  unfold listItems
  infer_instance

instance memberList_confined (opening : Token) :
    Confined n levels 0 (memberList self opening) (memberList self' opening) := by
  unfold memberList
  infer_instance

instance membership_confined (left : Tree) :
    Confined n levels 0 (membership self left) (membership self' left) := by
  unfold membership
  infer_instance

instance range_confined (left : Tree) (power : Nat) :
    Confined n levels 0 (range self left power) (range self' left power) := by
  unfold range
  infer_instance

instance setOperator_confined (node : Tree) (op : BinaryOp) :
    Confined n levels more (setOperator node op) (setOperator node op) := by
  unfold setOperator
  infer_instance

instance likeness_confined (left : Tree) (op : BinaryOp) (power : Nat) :
    Confined n levels 0 (likeness self left op power) (likeness self' left op power) := by
  unfold likeness
  infer_instance

instance identity_confined (left : Tree) (power : Nat) :
    Confined n levels 0 (identity self left power) (identity self' left power) := by
  unfold identity
  infer_instance

instance binary_confined (left : Tree) (t : Token) (power : Nat) :
    Confined n levels 0 (binary self left t power) (binary self' left t power) := by
  have hspelling : Confined n levels 0 (fail (.atToken (.operatorSpelling t.text) t) : Parser Tree)
      (fail (.atToken (.operatorSpelling t.text) t)) := .fail nofun
  have hunknown : Confined n levels 0 (fail (.atToken .unknownOperator t) : Parser Tree)
      (fail (.atToken .unknownOperator t)) := .fail nofun
  unfold binary
  rcases BinaryOp.ofToken? t.kind with _ | op
  · infer_instance
  · infer_instance

instance application_confined (left : Tree) (op : Token) (power : Nat) :
    Confined n levels 0 (application self left op power) (application self' left op power) := by
  unfold application
  split <;> infer_instance

instance joining_confined (left : Tree) (t : Token) (power : Nat) :
    Confined n levels 1 (joining self left t power) (joining self' left t power) := by
  unfold joining
  infer_instance

instance signCast_confined (left : Tree) (t : Token) :
    Confined n levels more (signCast left t) (signCast left t) := by
  have hfail : Confined n levels more (fail (.atToken .castSpelling t) : Parser Tree)
      (fail (.atToken .castSpelling t)) := .fail nofun
  unfold signCast
  infer_instance

instance collation_confined (left : Tree) :
    Confined n levels more (collation left) (collation left) := by
  unfold collation
  infer_instance

instance trailing_confined (left : Tree) (t : Token) :
    Confined n levels more (trailing left t) (trailing left t) := by
  unfold trailing
  infer_instance

instance grow?_confined (power : Nat) (left : Tree) :
    Confined n levels 1 (grow? self power left) (grow? self' power left) := by
  unfold grow?
  refine Confined.andThen inferInstance fun o => ?_
  rcases o with _ | t
  · infer_instance
  dsimp only
  split
  · infer_instance
  · refine Confined.andThen inferInstance fun next => ?_
    split
    · infer_instance
    · infer_instance

end Expression

/-- An expression opens a level, and a pair of parentheses at its beginning one more. -/
instance expression_confined [Nested.Confined n levels self self'] (power : Nat) :
    Confined n (levels + 2) 1 (expression self power) (expression self' power) := by
  have hgrow (left : Tree) : Confined n (levels + 1) 1 (Expression.grow? self power left)
      (Expression.grow? self' power left) :=
    Confined.deepen inferInstance (Nat.le_succ levels)
  unfold expression
  infer_instance

end SqlSyntax
