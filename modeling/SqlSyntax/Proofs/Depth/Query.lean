import SqlSyntax.Grammar.Change
import SqlSyntax.Proofs.Depth.Expression

/-!
# Levels inside queries and changes

A query and the tables of a join open a level each. What they begin with takes a token before it
comes to anything that opens a level, and so does each change of data.
-/

namespace SqlSyntax

open SqlSyntax.Parser

variable {n levels more : Nat} {self self' : Nested} [Nested.Confined n levels self self']

set_option synthInstance.maxSize 1000

namespace Query

instance resultColumn_confined : Confined n levels 0 (resultColumn self) (resultColumn self') := by
  unfold resultColumn
  infer_instance

instance resultColumns_confined (kind : Kind) :
    Confined n levels 0 (resultColumns self kind) (resultColumns self' kind) := by
  unfold resultColumns
  infer_instance

instance tablePrimary_confined :
    Confined n levels 1 (tablePrimary self) (tablePrimary self') := by
  unfold tablePrimary
  infer_instance

instance joinKind?_confined : Confined n levels more joinKind? joinKind? := by
  unfold joinKind?
  refine Confined.andThen inferInstance fun o => ?_
  split <;> infer_instance

instance clause_confined (kind : Kind) (context : Context) (t : Token) :
    Confined n levels 0 (clause self kind context t) (clause self' kind context t) := by
  unfold clause
  infer_instance

instance usingColumns_confined (t : Token) :
    Confined n levels more (usingColumns t) (usingColumns t) := by
  unfold usingColumns
  infer_instance

instance joinCondition?_confined (join : Tree) :
    Confined n levels 0 (joinCondition? self join) (joinCondition? self' join) := by
  unfold joinCondition?
  infer_instance

instance joined?_confined (left : Tree) :
    Confined n levels 1 (joined? self left) (joined? self' left) := by
  unfold joined?
  infer_instance

instance whereClause?_confined (statement : Tree) :
    Confined n levels 0 (whereClause? self statement) (whereClause? self' statement) := by
  unfold whereClause?
  infer_instance

instance fromClause?_confined {item item' : Parser Tree} [Confined n levels 0 item item']
    (statement : Tree) :
    Confined n levels 0 (fromClause? item statement) (fromClause? item' statement) := by
  unfold fromClause?
  infer_instance

instance groupBy?_confined (select : Tree) :
    Confined n levels 0 (groupBy? self select) (groupBy? self' select) := by
  unfold groupBy?
  infer_instance

instance having?_confined (select : Tree) :
    Confined n levels 0 (having? self select) (having? self' select) := by
  unfold having?
  infer_instance

instance valuesRow_confined : Confined n levels 0 (valuesRow self) (valuesRow self') := by
  unfold valuesRow
  infer_instance

instance values_confined (kind : Kind) :
    Confined n levels 1 (values self kind) (values self' kind) := by
  unfold values
  infer_instance

instance quantifier?_confined (node : Tree) :
    Confined n levels more (quantifier? node) (quantifier? node) := by
  unfold quantifier?
  infer_instance

instance select_confined : Confined n levels 1 (select self) (select self') := by
  unfold select
  infer_instance

instance core_confined : Confined n levels 1 (core self) (core self') := by
  unfold core
  infer_instance

instance setOperator?_confined : Confined n levels more setOperator? setOperator? := by
  unfold setOperator?
  infer_instance

instance combined?_confined (left : Tree) :
    Confined n levels 1 (combined? self left) (combined? self' left) := by
  unfold combined?
  infer_instance

instance limitNumbers_confined (limit first : Tree) :
    Confined n levels 0 (limitNumbers self limit first) (limitNumbers self' limit first) := by
  unfold limitNumbers
  infer_instance

instance attachOffset_confined (query : Tree) (offset : Option Tree) :
    Confined n levels more (attachOffset query offset) (attachOffset query offset) := by
  unfold attachOffset
  rcases offset with _ | offset
  · infer_instance
  · infer_instance

instance limit?_confined (query : Tree) :
    Confined n levels 1 (limit? self query) (limit? self' query) := by
  unfold limit?
  infer_instance

instance body_confined : Confined n levels 1 (body self) (body self') := by
  unfold body
  infer_instance

instance commonTable_confined : Confined n levels 0 (commonTable self) (commonTable self') := by
  unfold commonTable
  infer_instance

instance withClause_confined : Confined n levels 1 (withClause self) (withClause self') := by
  unfold withClause
  infer_instance

instance afterWith_confined (clause : Tree) :
    Confined n levels 1 (afterWith self clause) (afterWith self' clause) := by
  unfold afterWith
  infer_instance

end Query

instance query_confined : Confined n (levels + 1) 1 (query self) (query self') := by
  unfold query
  infer_instance

instance joinTree_confined : Confined n (levels + 1) 1 (joinTree self) (joinTree self') := by
  unfold joinTree
  infer_instance

/-! ## Changes of data -/

namespace Change

instance conflictWord_confined : Confined n levels more conflictWord conflictWord := by
  unfold conflictWord
  infer_instance

instance conflictAction_confined (start word : Token) :
    Confined n levels more (conflictAction start word) (conflictAction start word) := by
  unfold conflictAction
  infer_instance

instance orAction?_confined (statement : Tree) :
    Confined n levels more (orAction? statement) (orAction? statement) := by
  unfold orAction?
  infer_instance

instance returning?_confined (statement : Tree) :
    Confined n levels 0 (returning? self statement) (returning? self' statement) := by
  unfold returning?
  infer_instance

instance assigned_confined : Confined n levels more assigned assigned := by
  unfold assigned
  infer_instance

instance assignmentSign_confined : Confined n levels more assignmentSign assignmentSign := by
  unfold assignmentSign
  infer_instance

instance assignment_confined : Confined n levels 0 (assignment self) (assignment self') := by
  unfold assignment
  infer_instance

instance insertColumns?_confined (statement : Tree) :
    Confined n levels more (insertColumns? statement) (insertColumns? statement) := by
  unfold insertColumns?
  refine Confined.andThen inferInstance fun b => ?_
  split
  · refine Confined.andThen inferInstance fun o => ?_
    split <;> infer_instance
  · infer_instance

instance insertSource_confined (statement : Tree) :
    Confined n levels 0 (insertSource self statement) (insertSource self' statement) := by
  unfold insertSource
  refine Confined.andThen inferInstance fun o => ?_
  split <;> infer_instance

instance insertTable_confined : Confined n levels more insertTable insertTable := by
  unfold insertTable
  infer_instance

instance insertAction_confined (statement : Tree) (word : Token) :
    Confined n levels more (insertAction statement word) (insertAction statement word) := by
  unfold insertAction
  infer_instance

instance insert_confined : Confined n levels 1 (insert self) (insert self') := by
  unfold insert
  infer_instance

instance target_confined : Confined n levels more target target := by
  unfold target
  infer_instance

instance setClause_confined : Confined n levels 0 (setClause self) (setClause self') := by
  unfold setClause
  infer_instance

instance update_confined : Confined n levels 1 (update self) (update self') := by
  unfold update
  infer_instance

instance delete_confined : Confined n levels 1 (delete self) (delete self') := by
  unfold delete
  infer_instance

end Change

end SqlSyntax
