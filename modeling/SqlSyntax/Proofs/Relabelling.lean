import SqlSyntax.Proofs.Parentheses.Rules
import SqlSyntax.Proofs.Trees

/-!
# Rules for relabelled trees

A tree over one source may stand for a tree over another, with other nodes at the same places. The
rules for whole statements ask for kinds and flags and compare names up to case. If all that stays,
both trees break the same rules in the same order (`Relabelling.validate_tree`).
-/

namespace SqlSyntax

namespace Tree

variable {rel : Node → Node → Prop} {f f' : Node → Node}

mutual
/-- Related trees are one tree once related nodes are one node. -/
theorem Related.mapNodes_eq (hf : ∀ n n', rel n n' → f' n' = f n) :
    ∀ {t t'}, Related rel t t' → t'.mapNodes f' = t.mapNodes f
  | _, _, .node hn hcs => by rw [mapNodes, mapNodes, hf _ _ hn, Related.mapNodesAll_eq hf hcs]

theorem Related.mapNodesAll_eq (hf : ∀ n n', rel n n' → f' n' = f n) :
    ∀ {ts ts'}, List.Forall₂ (Related rel) ts ts' → mapNodesAll f' ts' = mapNodesAll f ts
  | _, _, .nil => rfl
  | _, _, .cons h hs => by
    rw [mapNodesAll, mapNodesAll, Related.mapNodes_eq hf h, Related.mapNodesAll_eq hf hs]
end

end Tree

/-- What nodes over one source become over another. -/
structure Relabelling where
  source : Source
  source' : Source
  node : Node → Node
  name : String → String
  /-- The kinds of nodes whose texts are names. -/
  names : Kind → Bool
  location : Location → Location
  span : Span → Span
  number : Nat → Nat

/-- The breach with other names. -/
def Breach.mapNames (f : String → String) : Breach → Breach
  | .operandArity operator left right => .operandArity (f operator) left right
  | .misplacedAggregate name clause => .misplacedAggregate (f name) clause
  | .recursiveTable name => .recursiveTable (f name)
  | .duplicateTable name => .duplicateTable (f name)
  | .duplicateColumn name => .duplicateColumn (f name)
  | breach => breach

theorem Breach.rule_mapNames (f : String → String) (breach : Breach) :
    (breach.mapNames f).rule = breach.rule := by
  cases breach <;> rfl

namespace Relabelling

variable {R : Relabelling} {t : Tree} {cs : List Tree} {mode : Mode}

def tree (R : Relabelling) (t : Tree) : Tree := t.mapNodes R.node

def violation (R : Relabelling) (v : Violation) : Violation :=
  ⟨v.breach.mapNames R.name, R.location v.location, R.span v.span, R.number v.node⟩

/-- What the rules ask for stays. -/
structure Lawful (R : Relabelling) : Prop where
  kind : ∀ n, (R.node n).kind = n.kind
  has : ∀ n f, (R.node n).has f = n.has f
  schema : ∀ n, ((R.node n).schema == .none) = (n.schema == .none)
  text : ∀ n, R.names n.kind →
    ((R.node n).text.resolve R.source').getD "" = R.name ((n.text.resolve R.source).getD "")
  location : ∀ n, (R.node n).location = R.location n.location
  span : ∀ n, (R.node n).span = R.span n.span
  id : ∀ n, (R.node n).id = R.number n.id
  fold : ∀ word, foldCase (R.name word) = foldCase word
  names : ∀ k ∈ [Kind.functionCall, .compoundSelect, .commonTableExpr, .tableRef, .columnDef],
    R.names k

/-- The tables of a `WITH` have names. -/
def Named (R : Relabelling) (t : Tree) : Prop :=
  t.kind = .withClause → ∀ c ∈ t.children, R.names c.kind

/-! ## Trees -/

theorem tree_node (R : Relabelling) (n : Node) (cs : List Tree) :
    R.tree (.node n cs) = .node (R.node n) (cs.map R.tree) := Tree.mapNodes_node R.node n cs

@[simp]
theorem head_tree (R : Relabelling) (t : Tree) : (R.tree t).head = R.node t.head := by
  cases t
  rw [tree_node, Tree.head, Tree.head]

@[simp]
theorem children_tree (R : Relabelling) (t : Tree) :
    (R.tree t).children = t.children.map R.tree := by
  cases t
  rw [tree_node, Tree.children, Tree.children]

theorem preorder_tree (R : Relabelling) (t : Tree) :
    (R.tree t).preorder = t.preorder.map R.tree := by
  induction t using Tree.induction with
  | node n cs ih =>
    rw [tree_node, Tree.preorder_node, Tree.preorder_node, List.map_cons, tree_node,
      List.flatMap_map, List.map_flatMap, List.flatMap_congr ih]

section Lawful

variable (hR : R.Lawful)
include hR

theorem kind_tree (t : Tree) : (R.tree t).kind = t.kind := by
  rw [Tree.kind, head_tree, hR.kind, Tree.kind]

theorem filter_tree (p : Kind → Bool) (cs : List Tree) :
    (cs.map R.tree).filter (fun c => p c.kind) = (cs.filter fun c => p c.kind).map R.tree := by
  rw [List.filter_map]
  simp only [Function.comp_def, kind_tree hR]

theorem find?_tree (p : Kind → Bool) (cs : List Tree) :
    (cs.map R.tree).find? (fun c => p c.kind) = (cs.find? fun c => p c.kind).map R.tree := by
  rw [List.find?_map]
  simp only [Function.comp_def, kind_tree hR]

theorem child?_tree (t : Tree) (k : Kind) :
    (R.tree t).child? k = (t.child? k).map R.tree := by
  rw [Tree.child?, children_tree]
  exact find?_tree hR (· == k) t.children

theorem name_tree (h : R.names t.kind) :
    (R.tree t).name R.source' = R.name (t.name R.source) := by
  rw [Tree.name, head_tree]
  exact hR.text t.head h

theorem name_of_kind {k : Kind} (ht : t.kind = k)
    (hk : k ∈ [Kind.functionCall, .compoundSelect, .commonTableExpr, .tableRef, .columnDef]) :
    (R.tree t).name R.source' = R.name (t.name R.source) :=
  name_tree hR (ht ▸ hR.names k hk)

theorem violation_tree (breach : Breach) (t : Tree) :
    Validation.violation (breach.mapNames R.name) (R.tree t) =
      R.violation (Validation.violation breach t) := by
  rw [Validation.violation, head_tree, hR.location, hR.span, hR.id]
  rfl

theorem reports_tree (breach : Breach) (t : Tree) :
    [Validation.violation (breach.mapNames R.name) (R.tree t)] =
      [Validation.violation breach t].map R.violation :=
  congrArg (fun v => [v]) (violation_tree hR breach t)

end Lawful

open SqlSyntax.Validation

section Rules

variable (hR : R.Lawful)
include hR

/-! ## Groups and joins -/

theorem isAggregate_tree (t : Tree) :
    isAggregate R.source' (R.tree t) = isAggregate R.source t := by
  rw [isAggregate, kind_tree hR, child?_tree hR, Option.isNone_map, isAggregate]
  by_cases ht : t.kind = .functionCall
  · rw [name_of_kind hR ht (by decide), hR.fold]
  · simp only [beq_false_of_ne ht, Bool.false_and]

theorem isGroupConstant_tree (t : Tree) :
    isGroupConstant R.source' (R.tree t) = isGroupConstant R.source t := by
  induction t using Tree.induction with
  | node n cs ih =>
    have haggregate := isAggregate_tree hR (.node n cs)
    rw [tree_node] at haggregate ⊢
    rw [isGroupConstant, isGroupConstant, haggregate, areGroupConstant_map ih, hR.kind]

theorem checkHaving_tree (t : Tree) :
    checkHaving R.source' mode (R.tree t) = (checkHaving R.source mode t).map R.violation := by
  rw [checkHaving, checkHaving, child?_tree hR, child?_tree hR, child?_tree hR]
  rcases t.child? .havingClause with _ | having
  · rfl
  · have hlist : ((t.child? .selectList).map R.tree).any
        (fun list => areGroupConstant R.source' list.children) =
          (t.child? .selectList).any fun list => areGroupConstant R.source list.children := by
      rcases t.child? .selectList with _ | list
      · rfl
      · show areGroupConstant _ (R.tree list).children = _
        rw [children_tree]
        exact areGroupConstant_map fun c _ => isGroupConstant_tree hR c
    simp only [Option.map_some, Option.isSome_map, hlist]
    split
    · rfl
    · exact reports_tree hR .havingWithoutGroupBy having

theorem checkJoin_tree (t : Tree) :
    checkJoin mode (R.tree t) = (checkJoin mode t).map R.violation := by
  have hcondition : (t.children.map R.tree).any
      (fun c => c.kind == .onCondition || c.kind == .usingClause) =
        t.children.any fun c => c.kind == .onCondition || c.kind == .usingClause :=
    Tree.any_map_eq fun c _ => by rw [kind_tree hR]
  rw [checkJoin, checkJoin, kind_tree hR, head_tree, children_tree, hcondition, hR.has]
  split
  · rfl
  · exact reports_tree hR .joinWithoutCondition t

/-! ## Widths -/

theorem firstArity?_tree (h : ∀ c ∈ cs, arity? (R.tree c) = arity? c) :
    firstArity? (cs.map R.tree) = firstArity? cs := by
  induction cs with
  | nil => rfl
  | cons c cs ih =>
    obtain ⟨hc, hcs⟩ := List.forall_mem_cons.1 h
    rw [List.map_cons, firstArity?, kind_tree hR, hc, ih hcs, firstArity?]

theorem arity?_tree (t : Tree) : arity? (R.tree t) = arity? t := by
  induction t using Tree.induction with
  | node n cs ih =>
    rw [tree_node, arity?, arity?, hR.kind]
    split
    · rw [find?_tree hR (· == .selectList) cs]
      generalize cs.find? (fun c => c.kind == .selectList) = list?
      rcases list? with _ | list
      · rfl
      · have hstar : (list.children.map R.tree).any
            (fun c => c.kind == .wildcard || c.kind == .qualifiedWildcard) =
              list.children.any fun c => c.kind == .wildcard || c.kind == .qualifiedWildcard :=
          Tree.any_map_eq fun c _ => by rw [kind_tree hR]
        simp only [Option.map_some, Option.bind_eq_bind, Option.bind_some, children_tree,
          hstar, List.length_map]
    · rw [find?_tree hR (· == .valuesRow) cs, Option.map_map]
      refine congrArg (fun f => Option.map f _) (funext fun row => ?_)
      rw [Function.comp_apply, children_tree, List.length_map]
    · exact firstArity?_tree hR ih
    · rfl

theorem checkCompound_tree (ht : t.kind = .compoundSelect) :
    checkCompound R.source' (R.tree t) = (checkCompound R.source t).map R.violation := by
  rw [checkCompound, checkCompound, children_tree, filter_tree hR Kind.isQuery,
    name_of_kind hR ht (by decide)]
  generalize t.children.filter (·.kind.isQuery) = queries
  rcases queries with _ | ⟨left, _ | ⟨right, more⟩⟩
  · rfl
  · rfl
  · simp only [List.map_cons]
    rw [arity?_tree hR, arity?_tree hR]
    split
    · next l r _ _ =>
      split
      · rfl
      · exact reports_tree hR (.operandArity (t.name R.source) l r) t
    · rfl

theorem checkRows_tree (t : Tree) :
    checkRows (R.tree t) = (checkRows t).map R.violation := by
  rw [checkRows, checkRows, children_tree]
  rcases t.children with _ | ⟨first, rows⟩
  · rfl
  · simp only [List.map_cons, children_tree, List.length_map, List.filter_map, List.map_map,
      Function.comp_def]
    refine List.map_congr_left fun row _ => ?_
    exact violation_tree hR (.rowArity row.children.length first.children.length) row

theorem checkInsert_tree (t : Tree) :
    checkInsert (R.tree t) = (checkInsert t).map R.violation := by
  rw [checkInsert, checkInsert, child?_tree hR]
  rcases t.child? .columnList with _ | columns
  · rfl
  · simp only [Option.map_some, children_tree, List.length_map, List.flatMap_map,
      List.map_flatMap]
    refine List.flatMap_congr fun c _ => ?_
    rw [kind_tree hR, arity?_tree hR, List.head?_map]
    split
    · rcases c.children.head? with _ | row
      · rfl
      · simp only [Option.map_some, children_tree, List.length_map]
        split
        · rfl
        · exact reports_tree hR (.insertRowArity row.children.length columns.children.length) row
    · split
      · rcases arity? c with _ | n
        · rfl
        · dsimp only
          split
          · rfl
          · exact reports_tree hR (.insertQueryArity n columns.children.length) c
      · rfl

/-! ## Aggregates -/

omit hR in
theorem outerAggregatesOf_tree (h : ∀ c ∈ cs, outerAggregates R.source' (R.tree c) =
      (outerAggregates R.source c).map R.tree) :
    outerAggregatesOf R.source' (cs.map R.tree) =
      (outerAggregatesOf R.source cs).map R.tree := by
  induction cs with
  | nil => rfl
  | cons c cs ih =>
    obtain ⟨hc, hcs⟩ := List.forall_mem_cons.1 h
    rw [List.map_cons, outerAggregatesOf, outerAggregatesOf, List.map_append, hc, ih hcs]

theorem outerAggregates_tree (t : Tree) :
    outerAggregates R.source' (R.tree t) = (outerAggregates R.source t).map R.tree := by
  induction t using Tree.induction with
  | node n cs ih =>
    have haggregate := isAggregate_tree hR (.node n cs)
    rw [tree_node] at haggregate ⊢
    rw [outerAggregates, outerAggregates, haggregate, hR.kind]
    split_ifs
    · rfl
    · rw [List.map_singleton, tree_node]
    · exact outerAggregatesOf_tree ih

omit hR in
/-- What is found among some trees was found in one of them. -/
theorem exists_of_mem_outerAggregatesOf {source : Source} {u : Tree}
    (h : u ∈ outerAggregatesOf source cs) : ∃ c ∈ cs, u ∈ outerAggregates source c := by
  induction cs with
  | nil => exact absurd h List.not_mem_nil
  | cons c cs ih =>
    rw [outerAggregatesOf] at h
    rcases List.mem_append.1 h with h | h
    · obtain ⟨d, hd, hu⟩ := ih h
      exact ⟨d, List.mem_cons_of_mem c hd, hu⟩
    · exact ⟨c, List.mem_cons_self, h⟩

omit hR in
theorem isAggregate_of_mem {source : Source} {u : Tree} (t : Tree) :
    u ∈ outerAggregates source t → isAggregate source u := by
  induction t using Tree.induction with
  | node n cs ih =>
    rw [outerAggregates]
    split_ifs with hblock haggregate
    · exact fun h => absurd h List.not_mem_nil
    · exact fun h => List.mem_singleton.1 h ▸ haggregate
    · intro h
      obtain ⟨c, hc, hu⟩ := exists_of_mem_outerAggregatesOf h
      exact ih c hc hu

theorem checkNoAggregates_tree (t : Tree) :
    checkNoAggregates R.source' (R.tree t) =
      (checkNoAggregates R.source t).map R.violation := by
  rw [checkNoAggregates, checkNoAggregates, kind_tree hR, children_tree,
    outerAggregatesOf_tree fun c _ => outerAggregates_tree hR c, List.map_map, List.map_map]
  refine List.map_congr_left fun call hcall => ?_
  obtain ⟨c, -, hcall⟩ := exists_of_mem_outerAggregatesOf hcall
  have hkind : call.kind = .functionCall := by
    have haggregate := isAggregate_of_mem c hcall
    simp only [isAggregate, Bool.and_eq_true, and_assoc, beq_iff_eq] at haggregate
    exact haggregate.1
  rw [Function.comp_apply, Function.comp_apply, name_of_kind hR hkind (by decide)]
  exact violation_tree hR (.misplacedAggregate (call.name R.source) _) call

/-! ## Names -/

theorem withRepeats_tree (seen : List String) (h : ∀ c ∈ cs, R.names c.kind) :
    withRepeats R.source' seen (cs.map R.tree) =
      (withRepeats R.source seen cs).map fun (c, repeated) => (R.tree c, repeated) := by
  induction cs generalizing seen with
  | nil => rfl
  | cons c cs ih =>
    obtain ⟨hc, hcs⟩ := List.forall_mem_cons.1 h
    rw [List.map_cons, withRepeats, withRepeats, name_tree hR hc, hR.fold, ih _ hcs]
    rfl

theorem readsTable_tree (name : String) (t : Tree) :
    readsTable R.source' (R.name name) (R.tree t) = readsTable R.source name t := by
  rw [readsTable, preorder_tree, List.any_map, readsTable]
  refine congrArg (List.any _) (funext fun c => ?_)
  rw [Function.comp_apply, kind_tree hR, head_tree, hR.schema]
  by_cases hc : c.kind = .tableRef
  · rw [name_of_kind hR hc (by decide), sameWord, hR.fold, hR.fold, sameWord]
  · simp only [beq_false_of_ne hc, Bool.false_and]

theorem checkRecursion_tree (h : R.names t.kind) :
    checkRecursion R.source' (R.tree t) = (checkRecursion R.source t).map R.violation := by
  rw [checkRecursion, checkRecursion, children_tree, find?_tree hR Kind.isQuery, name_tree hR h]
  generalize t.children.find? (·.kind.isQuery) = body?
  rcases body? with _ | body
  · rfl
  · simp only [Option.map_some]
    rw [readsTable_tree hR, kind_tree hR]
    split
    · exact reports_tree hR (.recursiveTable (t.name R.source)) t
    · rfl

theorem checkWith_tree (h : ∀ c ∈ t.children, R.names c.kind) :
    checkWith R.source' (R.tree t) = (checkWith R.source t).map R.violation := by
  rw [checkWith, checkWith, children_tree, withRepeats_tree hR _ h, List.flatMap_map,
    List.map_flatMap, head_tree, hR.has]
  refine List.flatMap_congr fun entry hentry => ?_
  obtain ⟨table, repeated⟩ := entry
  have htable : R.names table.kind := h table (fst_mem_of_withRepeats hentry)
  simp only [List.map_append]
  refine congrArg₂ _ ?_ ?_
  · split
    · rw [name_tree hR htable]
      exact reports_tree hR (.duplicateTable (table.name R.source)) table
    · rfl
  · split
    · exact checkRecursion_tree hR htable
    · rfl

theorem checkColumns_tree (t : Tree) :
    checkColumns R.source' (R.tree t) = (checkColumns R.source t).map R.violation := by
  have hcolumns : ∀ c ∈ t.children.filter (·.kind == .columnDef), R.names c.kind :=
    fun c hc => eq_of_beq (List.mem_filter.1 hc).2 ▸ hR.names .columnDef (by decide)
  rw [checkColumns, checkColumns, children_tree, filter_tree hR (· == .columnDef),
    withRepeats_tree hR _ hcolumns, List.filterMap_map, List.map_filterMap]
  refine List.filterMap_congr fun entry hentry => ?_
  obtain ⟨column, repeated⟩ := entry
  have hcolumn : R.names column.kind := hcolumns column (fst_mem_of_withRepeats hentry)
  simp only [Function.comp_apply, name_tree hR hcolumn]
  split
  · exact congrArg some (violation_tree hR (.duplicateColumn (column.name R.source)) column)
  · rfl

/-! ## All rules -/

theorem check_tree (h : R.Named t) :
    check R.source' mode (R.tree t) = (check R.source mode t).map R.violation := by
  rw [check, check, kind_tree hR]
  split
  · exact checkHaving_tree hR t
  · next ht => exact checkCompound_tree hR ht
  · exact checkRows_tree hR t
  · exact checkRows_tree hR t
  · exact checkInsert_tree hR t
  · exact checkNoAggregates_tree hR t
  · exact checkNoAggregates_tree hR t
  · next ht => exact checkWith_tree hR (h ht)
  · exact checkColumns_tree hR t
  · split
    · exact checkJoin_tree hR t
    · rfl

theorem validateAll_tree (h : t.Everywhere R.Named) :
    validateAll R.source' mode (R.tree t) = (validateAll R.source mode t).map R.violation := by
  rw [validateAll, preorder_tree, List.flatMap_map, validateAll, List.map_flatMap]
  exact List.flatMap_congr fun c hc => check_tree hR (h c hc)

/-- A relabelled tree breaks the same rule first. -/
theorem validate_tree (h : t.Everywhere R.Named) :
    validate R.source' mode (R.tree t) = (validate R.source mode t).map R.violation := by
  rw [validate, validateAll_tree hR h, List.head?_map, validate]

end Rules

end Relabelling

end SqlSyntax
