import SqlSyntax.ParseError
import SqlSyntax.Proofs.Parentheses
import SqlSyntax.Proofs.Violations

/-!
# Rules for statements without nodes for parentheses

A tree and its compacted form break the same rules at the same places. No rule is about expressions
as such: a rule asks for nodes of other kinds, and looks through parentheses where it looks for
aggregates.
-/

namespace SqlSyntax

open SqlSyntax.Tree

variable {source : Source} {mode : Mode} {t : Tree} {cs : List Tree} {k : Kind}

namespace Kind

theorem beq_of_isOperand (hk : k.isOperand = false) (j : Kind) (hj : j.isOperand) :
    (j == k) = false := by
  refine beq_false_of_ne ?_
  rintro rfl
  rw [hk] at hj
  cases hj

theorem or_beq_of_isOperand {i : Kind} (hi : i.isOperand = false) (hk : k.isOperand = false)
    (j : Kind) (hj : j.isOperand) : (j == i || j == k) = false := by
  rw [beq_of_isOperand hi j hj, beq_of_isOperand hk j hj, Bool.or_false]

/-- A query is no expression, and begins with its own word. -/
theorem query_spec (h : k.isQuery) : k.isOperand = false ∧ k.floats = false := by
  unfold isQuery at h
  split at h
  · exact ⟨rfl, rfl⟩
  · exact ⟨rfl, rfl⟩
  · exact ⟨rfl, rfl⟩
  · cases h

theorem isQuery_of_isOperand (j : Kind) (hj : j.isOperand) : j.isQuery = false := by
  cases h : j.isQuery with
  | true =>
    rw [(query_spec h).1] at hj
    cases hj
  | false => rfl

theorem floats_of_isJoin (h : k.isJoin) : k.floats = false := by
  unfold isJoin at h
  split at h
  · rfl
  · rfl
  · rfl
  · rfl
  · rfl
  · cases h

end Kind

namespace Tree

theorem any_map_eq {f : Tree → Tree} {q : Tree → Bool} (h : ∀ c ∈ cs, q (f c) = q c) :
    (cs.map f).any q = cs.any q := by
  rw [List.any_map, Bool.eq_iff_iff, List.any_eq_true, List.any_eq_true]
  exact exists_congr fun c => and_congr_right fun hc => by rw [Function.comp_apply, h c hc]

/-- The children that a question about kinds is true of. -/
theorem filter_compacted {p : Kind → Bool} (hp : ∀ k, k.isOperand → p k = false)
    (hcs : ∀ c ∈ cs, c.Everywhere Proper) :
    (cs.map compacted).filter (fun c => p c.kind) =
      (cs.filter fun c => p c.kind).map compacted := by
  rw [List.filter_map]
  exact congrArg _ (List.filter_congr fun c hc => asks_compacted hp (hcs c hc))

theorem find?_compacted {p : Kind → Bool} (hp : ∀ k, k.isOperand → p k = false)
    (hcs : ∀ c ∈ cs, c.Everywhere Proper) :
    (cs.map compacted).find? (fun c => p c.kind) = (cs.find? fun c => p c.kind).map compacted := by
  rw [← List.head?_filter, filter_compacted hp hcs, List.head?_map, List.head?_filter]

theorem any_compacted {p : Kind → Bool} (hp : ∀ k, k.isOperand → p k = false)
    (hcs : ∀ c ∈ cs, c.Everywhere Proper) :
    (cs.map compacted).any (fun c => p c.kind) = cs.any fun c => p c.kind :=
  any_map_eq fun c hc => asks_compacted hp (hcs c hc)

theorem child?_compacted (h : t.Everywhere Proper) (ht : t.kind ≠ .parenExpr)
    (hk : k.isOperand = false) : t.compacted.child? k = (t.child? k).map compacted := by
  rw [child?, children_compacted ht]
  exact find?_compacted (p := (· == k)) (Kind.beq_of_isOperand hk) h.children

end Tree

namespace Validation

/-! ## Parts of rules -/

theorem isAggregate_compacted (h : t.Everywhere Proper) (ht : t.kind ≠ .parenExpr) :
    isAggregate source t.compacted = isAggregate source t := by
  rw [isAggregate, kind_compacted ht, child?_compacted h ht rfl, name_compacted ht,
    Option.isNone_map, isAggregate]

theorem isAggregate_paren (h : t.kind = .parenExpr) : isAggregate source t = false := by
  rw [isAggregate, h]
  rfl

theorem kind_of_child? {c : Tree} (h : t.child? k = some c) : c.kind = k :=
  eq_of_beq (List.find?_some (p := fun u : Tree => u.kind == k) h)

theorem mem_of_child? {c : Tree} (h : t.child? k = some c) : c ∈ t.children :=
  List.mem_of_find?_eq_some h

theorem length_children_compacted (h : t.kind ≠ .parenExpr) :
    t.compacted.children.length = t.children.length := by
  rw [children_compacted h, List.length_map]

/-- A breach at a node that has its place. -/
theorem report_compacted (h : t.kind ≠ .parenExpr) (hplace : t.kind.floats = false)
    (breach : Breach) : ParseError.ofViolation (violation breach t.compacted) =
      ParseError.ofViolation (violation breach t) := by
  rw [violation, head_compacted h, Node.settled_of_placed hplace]
  rfl

theorem reports_compacted (h : t.kind ≠ .parenExpr) (hplace : t.kind.floats = false)
    (breach : Breach) : [violation breach t.compacted].map .ofViolation =
      [violation breach t].map ParseError.ofViolation :=
  congrArg (fun e => [e]) (report_compacted h hplace breach)

/-! ## Groups and joins -/

theorem isGroupConstant_mark (t : Tree) (f : Flag) :
    isGroupConstant source (t.mapHead (·.mark f)) = isGroupConstant source t := by
  cases t
  rw [mapHead, isGroupConstant, isGroupConstant]
  rfl

theorem areGroupConstant_map {source' : Source} {f : Tree → Tree}
    (h : ∀ c ∈ cs, isGroupConstant source' (f c) = isGroupConstant source c) :
    areGroupConstant source' (cs.map f) = areGroupConstant source cs := by
  induction cs with
  | nil => rfl
  | cons c cs ih =>
    obtain ⟨hc, hcs⟩ := List.forall_mem_cons.1 h
    rw [List.map_cons, areGroupConstant, hc, ih hcs, areGroupConstant]

theorem isGroupConstant_compacted (h : t.Everywhere Proper) :
    isGroupConstant source t.compacted = isGroupConstant source t := by
  induction h using Proper.induction with
  | node n cs hn hroot hcs ih =>
    have haggregate : isAggregate source (Tree.node n cs).compacted =
        isAggregate source (.node n cs) :=
      isAggregate_compacted (everywhere_node.2 ⟨hroot, hcs⟩) hn
    rw [compacted_node hn] at haggregate ⊢
    rw [isGroupConstant, isGroupConstant, Node.kind_settled, haggregate, areGroupConstant_map ih]
  | paren n c hn _ _ _ ih =>
    rw [compacted_paren hn, isGroupConstant_mark, ih, isGroupConstant,
      isAggregate_paren (t := .node n [c]) hn, hn]
    simp [areGroupConstant, Kind.isLiteral]

theorem checkHaving_compacted (h : t.Everywhere Proper) (ht : t.kind ≠ .parenExpr) :
    (checkHaving source mode t.compacted).map .ofViolation =
      (checkHaving source mode t).map ParseError.ofViolation := by
  rw [checkHaving, checkHaving, child?_compacted h ht rfl, child?_compacted h ht rfl,
    child?_compacted h ht rfl]
  cases hhaving : t.child? .havingClause with
  | none => rfl
  | some having =>
    have hlist : ((t.child? .selectList).map compacted).any
        (fun list => areGroupConstant source list.children) =
          (t.child? .selectList).any fun list => areGroupConstant source list.children := by
      cases hlist : t.child? .selectList with
      | none => rfl
      | some list =>
        have hkind : list.kind ≠ .parenExpr := by rw [kind_of_child? hlist]; nofun
        have hproper := (h.children list (mem_of_child? hlist)).children
        show areGroupConstant source list.compacted.children = _
        rw [children_compacted hkind]
        exact areGroupConstant_map fun c hc => isGroupConstant_compacted (hproper c hc)
    simp only [Option.map_some, Option.isSome_map, hlist]
    split
    · rfl
    · have hkind := kind_of_child? hhaving
      exact reports_compacted (by rw [hkind]; nofun) (by rw [hkind]; rfl) _

theorem checkJoin_compacted (h : t.Everywhere Proper) (ht : t.kind.isJoin) :
    (checkJoin mode t.compacted).map .ofViolation =
      (checkJoin mode t).map ParseError.ofViolation := by
  have hparen : t.kind ≠ .parenExpr := fun hk => by rw [hk] at ht; cases ht
  have hplace : t.kind.floats = false := Kind.floats_of_isJoin ht
  have hcondition : t.compacted.children.any
      (fun c => c.kind == .onCondition || c.kind == .usingClause) =
        t.children.any fun c => c.kind == .onCondition || c.kind == .usingClause := by
    rw [children_compacted hparen]
    exact any_compacted (p := fun k => k == .onCondition || k == .usingClause)
      (Kind.or_beq_of_isOperand rfl rfl) h.children
  rw [checkJoin, checkJoin, hcondition, kind_compacted hparen, head_compacted hparen,
    Node.has_settled]
  split
  · rfl
  · exact reports_compacted hparen hplace _

/-! ## Widths -/

theorem arity?_of_isOperand (h : t.kind.isOperand) : arity? t = none := by
  obtain ⟨n, cs⟩ := t
  rw [arity?]
  generalize hk : (Tree.node n cs).kind = k at h
  rw [show n.kind = k from hk]
  cases k <;> first | rfl | cases h

theorem firstArity?_compacted (hcs : ∀ c ∈ cs, c.Everywhere Proper)
    (h : ∀ c ∈ cs, arity? c.compacted = arity? c) :
    firstArity? (cs.map compacted) = firstArity? cs := by
  induction cs with
  | nil => rfl
  | cons c cs ih =>
    obtain ⟨hc, hcs⟩ := List.forall_mem_cons.1 hcs
    obtain ⟨harity, h⟩ := List.forall_mem_cons.1 h
    rw [List.map_cons, firstArity?, asks_compacted Kind.isQuery_of_isOperand hc, harity, ih hcs h,
      firstArity?]

/-- A star may stand in a list of columns, but not in parentheses. -/
theorem any_star_compacted (hcs : ∀ c ∈ cs, c.Everywhere Proper) :
    (cs.map compacted).any (fun c => c.kind == .wildcard || c.kind == .qualifiedWildcard) =
      cs.any fun c => c.kind == .wildcard || c.kind == .qualifiedWildcard :=
  any_compacted (p := fun k => k == .wildcard || k == .qualifiedWildcard)
    (Kind.or_beq_of_isOperand rfl rfl) hcs

theorem arity?_compacted (h : t.Everywhere Proper) : arity? t.compacted = arity? t := by
  induction h using Proper.induction with
  | node n cs hn _ hcs ih =>
    rw [compacted_node hn, arity?, arity?, Node.kind_settled]
    split
    · rw [find?_compacted (p := (· == .selectList)) (Kind.beq_of_isOperand rfl) hcs]
      cases hlist : cs.find? fun c => c.kind == .selectList with
      | none => rfl
      | some list =>
        have hkind : list.kind ≠ .parenExpr := by
          rw [kind_of_child? (t := .node n cs) hlist]
          nofun
        have hproper := (hcs list (List.mem_of_find?_eq_some hlist)).children
        simp only [Option.map_some, Option.bind_eq_bind, Option.bind_some,
          children_compacted hkind, any_star_compacted hproper, List.length_map]
    · rw [find?_compacted (p := (· == .valuesRow)) (Kind.beq_of_isOperand rfl) hcs]
      cases hrow : cs.find? fun c => c.kind == .valuesRow with
      | none => rfl
      | some row =>
        have hkind : row.kind ≠ .parenExpr := by
          rw [kind_of_child? (t := .node n cs) hrow]
          nofun
        exact congrArg some (length_children_compacted hkind)
    · exact firstArity?_compacted hcs ih
    · rfl
  | paren n c hn hc h _ _ =>
    have hoperand : (Tree.node n [c]).kind.isOperand := isOperand_of_paren hn
    rw [arity?_of_isOperand hoperand, arity?_of_isOperand (isOperand_compacted h hoperand)]

theorem checkCompound_compacted (h : t.Everywhere Proper) (ht : t.kind = .compoundSelect) :
    (checkCompound source t.compacted).map .ofViolation =
      (checkCompound source t).map ParseError.ofViolation := by
  have hparen : t.kind ≠ .parenExpr := by rw [ht]; nofun
  rw [checkCompound, checkCompound, children_compacted hparen,
    filter_compacted Kind.isQuery_of_isOperand h.children, name_compacted hparen]
  have hproper : ∀ c ∈ t.children.filter (·.kind.isQuery), c.Everywhere Proper :=
    fun c hc => h.children c (List.mem_filter.1 hc).1
  generalize t.children.filter (·.kind.isQuery) = queries at hproper ⊢
  rcases queries with _ | ⟨left, _ | ⟨right, more⟩⟩
  · rfl
  · rfl
  · simp only [List.map_cons]
    rw [arity?_compacted (hproper left List.mem_cons_self),
      arity?_compacted (hproper right (List.mem_cons_of_mem left List.mem_cons_self))]
    split
    · split
      · rfl
      · exact reports_compacted hparen (by rw [ht]; rfl) _
    · rfl

theorem checkRows_compacted (h : t.Everywhere Proper) (ht : t.kind.listsRows = true) :
    (checkRows t.compacted).map .ofViolation = (checkRows t).map ParseError.ofViolation := by
  have hparen : t.kind ≠ .parenExpr := fun hk => by rw [hk] at ht; cases ht
  have hrows := fun c hc => h.root.rows c hc ht
  rw [checkRows, checkRows, children_compacted hparen]
  generalize t.children = rows at hrows ⊢
  rcases rows with _ | ⟨first, rows⟩
  · rfl
  · obtain ⟨hfirst, hrows⟩ := List.forall_mem_cons.1 hrows
    simp only [List.map_cons, length_children_compacted hfirst.1, List.filter_map, List.map_map]
    rw [List.filter_congr fun row hrow => by
      rw [Function.comp_apply, length_children_compacted (hrows row hrow).1]]
    refine List.map_congr_left fun row hrow => ?_
    obtain ⟨hkind, hplace⟩ := hrows row (List.mem_filter.1 hrow).1
    show ParseError.ofViolation (violation (.rowArity row.compacted.children.length _) _) = _
    rw [length_children_compacted hkind]
    exact report_compacted hkind hplace _

theorem checkInsert_compacted (h : t.Everywhere Proper) (ht : t.kind = .insertStmt) :
    (checkInsert t.compacted).map .ofViolation = (checkInsert t).map ParseError.ofViolation := by
  have hparen : t.kind ≠ .parenExpr := by rw [ht]; nofun
  rw [checkInsert, checkInsert, child?_compacted h hparen rfl]
  cases hcolumns : t.child? .columnList with
  | none => rfl
  | some columns =>
    have hkind : columns.kind ≠ .parenExpr := by rw [kind_of_child? hcolumns]; nofun
    simp only [Option.map_some, length_children_compacted hkind, children_compacted hparen,
      List.flatMap_map, List.map_flatMap]
    refine List.flatMap_congr fun c hc => ?_
    have hproper := h.children c hc
    rw [asks_compacted (p := (· == .valuesClause)) (Kind.beq_of_isOperand rfl) hproper,
      asks_compacted Kind.isQuery_of_isOperand hproper]
    split
    · next hvalues =>
      have hvalues := eq_of_beq hvalues
      have hrows := fun row hrow => hproper.root.rows row hrow (by rw [hvalues]; rfl)
      rw [children_compacted (by rw [hvalues]; nofun), List.head?_map]
      cases hrow : c.children.head? with
      | none => rfl
      | some row =>
        obtain ⟨hkind, hplace⟩ := hrows row (List.mem_of_head? hrow)
        simp only [Option.map_some, length_children_compacted hkind]
        split
        · rfl
        · exact reports_compacted hkind hplace _
    · split
      · next hquery =>
        have hkind : c.kind ≠ .parenExpr := fun hk => by rw [hk] at hquery; cases hquery
        rw [arity?_compacted hproper]
        split
        · split
          · rfl
          · exact reports_compacted hkind (Kind.query_spec hquery).2 _
        · rfl
      · rfl

/-! ## Aggregates -/

/-- What is reported of an aggregate that a clause has. -/
def misplaced (source : Source) (clause : String) (t : Tree) : ParseError :=
  .ofViolation (violation (.misplacedAggregate (t.name source) clause) t)

theorem outerAggregates_mark (clause : String) (t : Tree) (f : Flag) :
    (outerAggregates source (t.mapHead (·.mark f))).map (misplaced source clause) =
      (outerAggregates source t).map (misplaced source clause) := by
  obtain ⟨n, cs⟩ := t
  rw [mapHead, outerAggregates, outerAggregates]
  show (if n.kind.isQueryBlock then [] else if isAggregate source (.node n cs) then
    [Tree.node (n.mark f) cs] else _).map _ = _
  split_ifs <;> rfl

theorem outerAggregatesOf_compacted {clause : String}
    (h : ∀ c ∈ cs, (outerAggregates source c.compacted).map (misplaced source clause) =
      (outerAggregates source c).map (misplaced source clause)) :
    (outerAggregatesOf source (cs.map compacted)).map (misplaced source clause) =
      (outerAggregatesOf source cs).map (misplaced source clause) := by
  induction cs with
  | nil => rfl
  | cons c cs ih =>
    obtain ⟨hc, hcs⟩ := List.forall_mem_cons.1 h
    rw [List.map_cons, outerAggregatesOf, outerAggregatesOf, List.map_append, List.map_append, hc,
      ih hcs]

theorem outerAggregates_compacted (clause : String) (h : t.Everywhere Proper) :
    (outerAggregates source t.compacted).map (misplaced source clause) =
      (outerAggregates source t).map (misplaced source clause) := by
  induction h using Proper.induction with
  | node n cs hn hroot hcs ih =>
    have haggregate : isAggregate source (Tree.node n cs).compacted =
        isAggregate source (.node n cs) :=
      isAggregate_compacted (everywhere_node.2 ⟨hroot, hcs⟩) hn
    have hname := name_compacted (t := .node n cs) hn source
    have hreport := report_compacted (t := .node n cs) hn
    rw [compacted_node hn] at haggregate hname hreport ⊢
    rw [outerAggregates, outerAggregates, Node.kind_settled, haggregate]
    split_ifs with hblock hcall
    · rfl
    · -- a call begins with its name, so it stays where it is
      have hkind : n.kind = .functionCall := by
        rw [isAggregate, Bool.and_assoc] at hcall
        exact eq_of_beq (Bool.and_eq_true_iff.1 hcall).1
      have hplace : (Tree.node n cs).kind.floats = false := by
        show n.kind.floats = false
        rw [hkind]
        rfl
      refine congrArg (fun e => [e]) ?_
      rw [misplaced, hname]
      exact hreport hplace _
    · exact outerAggregatesOf_compacted ih
  | paren n c hn _ _ _ ih =>
    rw [compacted_paren hn, outerAggregates_mark, ih, outerAggregates,
      isAggregate_paren (t := .node n [c]) hn, hn]
    simp [outerAggregatesOf, Kind.isQueryBlock]

theorem checkNoAggregates_compacted (h : t.Everywhere Proper) (ht : t.kind ≠ .parenExpr) :
    (checkNoAggregates source t.compacted).map .ofViolation =
      (checkNoAggregates source t).map ParseError.ofViolation := by
  rw [checkNoAggregates, checkNoAggregates, kind_compacted ht, children_compacted ht, List.map_map,
    List.map_map]
  exact outerAggregatesOf_compacted fun c hc => outerAggregates_compacted _ (h.children c hc)

/-! ## Names -/

variable {name : String}

theorem readsTable_node (n : Node) (cs : List Tree) :
    readsTable source name (.node n cs) =
      (n.kind == .tableRef && n.schema == .none &&
        sameWord ((n.text.resolve source).getD "") name || cs.any (readsTable source name)) := by
  rw [readsTable, preorder_node, List.any_cons, List.any_flatMap]
  rfl

theorem readsTable_compacted (h : t.Everywhere Proper) :
    readsTable source name t.compacted = readsTable source name t := by
  induction h using Proper.induction with
  | node n cs hn _ _ ih =>
    rw [compacted_node hn, readsTable_node, readsTable_node, Node.kind_settled,
      Node.schema_settled, Node.text_settled, any_map_eq ih]
  | paren n c hn _ _ _ ih =>
    have hmark : ∀ t : Tree, readsTable source name (t.mapHead (·.mark .parenthesized)) =
        readsTable source name t := by
      rintro ⟨m, ts⟩
      rw [mapHead, readsTable_node, readsTable_node]
      rfl
    rw [compacted_paren hn, hmark, ih, readsTable_node, hn, List.any_cons, List.any_nil,
      Bool.or_false]
    rfl

theorem checkRecursion_compacted (h : t.Everywhere Proper) (ht : t.kind ≠ .parenExpr)
    (hplace : t.kind.floats = false) :
    (checkRecursion source t.compacted).map .ofViolation =
      (checkRecursion source t).map ParseError.ofViolation := by
  rw [checkRecursion, checkRecursion, children_compacted ht,
    find?_compacted Kind.isQuery_of_isOperand h.children, name_compacted ht]
  cases hbody : t.children.find? fun c => c.kind.isQuery with
  | none => rfl
  | some body =>
    have hproper := h.children body (List.mem_of_find?_eq_some hbody)
    simp only [Option.map_some]
    rw [readsTable_compacted hproper, bne, bne,
      asks_compacted (p := (· == .compoundSelect)) (Kind.beq_of_isOperand rfl) hproper]
    split
    · exact reports_compacted ht hplace _
    · rfl

theorem withRepeats_compacted (hcs : ∀ c ∈ cs, c.kind ≠ .parenExpr) (seen : List String) :
    withRepeats source seen (cs.map compacted) =
      (withRepeats source seen cs).map fun (c, repeated) => (c.compacted, repeated) := by
  induction cs generalizing seen with
  | nil => rfl
  | cons c cs ih =>
    obtain ⟨hc, hcs⟩ := List.forall_mem_cons.1 hcs
    rw [List.map_cons, withRepeats, withRepeats, name_compacted hc, ih hcs]
    rfl

theorem checkWith_compacted (h : t.Everywhere Proper) (ht : t.kind = .withClause) :
    (checkWith source t.compacted).map .ofViolation =
      (checkWith source t).map ParseError.ofViolation := by
  have hparen : t.kind ≠ .parenExpr := by rw [ht]; nofun
  have hrows := fun c hc => h.root.rows c hc (by rw [ht]; rfl)
  rw [checkWith, checkWith, children_compacted hparen,
    withRepeats_compacted fun c hc => (hrows c hc).1, List.flatMap_map, List.map_flatMap,
    List.map_flatMap, head_compacted hparen, Node.has_settled]
  refine List.flatMap_congr fun ⟨table, repeated⟩ hmem => ?_
  have hchild := fst_mem_of_withRepeats hmem
  obtain ⟨hkind, hplace⟩ := hrows table hchild
  simp only [List.map_append]
  refine congrArg₂ _ ?_ ?_
  · split
    · rw [name_compacted hkind]
      exact reports_compacted hkind hplace _
    · rfl
  · split
    · exact checkRecursion_compacted (h.children table hchild) hkind hplace
    · rfl

theorem checkColumns_compacted (h : t.Everywhere Proper) (ht : t.kind ≠ .parenExpr) :
    (checkColumns source t.compacted).map .ofViolation =
      (checkColumns source t).map ParseError.ofViolation := by
  have hcolumns : ∀ c ∈ t.children.filter (·.kind == .columnDef), c.kind = .columnDef :=
    fun c hc => eq_of_beq (List.mem_filter.1 hc).2
  rw [checkColumns, checkColumns, children_compacted ht,
    filter_compacted (p := (· == .columnDef)) (Kind.beq_of_isOperand rfl) h.children,
    withRepeats_compacted fun c hc => by rw [hcolumns c hc]; nofun, List.filterMap_map,
    List.map_filterMap, List.map_filterMap]
  refine List.filterMap_congr fun ⟨column, repeated⟩ hmem => ?_
  have hkind := hcolumns column (fst_mem_of_withRepeats hmem)
  have hparen : column.kind ≠ .parenExpr := by rw [hkind]; nofun
  simp only [Function.comp_apply, name_compacted hparen]
  split
  · exact congrArg some (report_compacted hparen (by rw [hkind]; rfl) _)
  · rfl

/-! ## All rules -/

/-- There is no rule for expressions. -/
theorem check_of_isOperand (h : t.kind.isOperand) : check source mode t = [] := by
  rw [check]
  generalize t.kind = k at h
  cases k <;> first | rfl | cases h

theorem check_compacted (h : t.Everywhere Proper) (ht : t.kind ≠ .parenExpr) :
    (check source mode t.compacted).map .ofViolation =
      (check source mode t).map ParseError.ofViolation := by
  rw [check, check, kind_compacted ht]
  split
  · exact checkHaving_compacted h ht
  · next hk => exact checkCompound_compacted h hk
  · next hk => exact checkRows_compacted h (by rw [hk]; rfl)
  · next hk => exact checkRows_compacted h (by rw [hk]; rfl)
  · next hk => exact checkInsert_compacted h hk
  · exact checkNoAggregates_compacted h ht
  · exact checkNoAggregates_compacted h ht
  · next hk => exact checkWith_compacted h hk
  · exact checkColumns_compacted h ht
  · split
    · next hjoin => exact checkJoin_compacted h hjoin
    · rfl

end Validation

open Validation

theorem validateAll_node (n : Node) (cs : List Tree) :
    validateAll source mode (.node n cs) =
      check source mode (.node n cs) ++ cs.flatMap (validateAll source mode) := by
  rw [validateAll, preorder_node, List.flatMap_cons, List.flatMap_assoc]
  rfl

/-- A marked expression breaks the same rules. -/
theorem validateAll_mark {f : Flag} (h : t.kind.isOperand) :
    validateAll source mode (t.mapHead (·.mark f)) = validateAll source mode t := by
  obtain ⟨n, cs⟩ := t
  have hmark : (Tree.node (n.mark f) cs).kind.isOperand := h
  rw [mapHead, validateAll_node, validateAll_node, check_of_isOperand hmark, check_of_isOperand h]

/-- A tree and its compacted form break the same rules at the same places. -/
theorem validateAll_compacted (h : t.Everywhere Proper) :
    (validateAll source mode t.compacted).map .ofViolation =
      (validateAll source mode t).map ParseError.ofViolation := by
  induction h using Proper.induction with
  | node n cs hn hroot hcs ih =>
    have hcheck : (check source mode (Tree.node n cs).compacted).map .ofViolation =
        (check source mode (.node n cs)).map ParseError.ofViolation :=
      check_compacted (everywhere_node.2 ⟨hroot, hcs⟩) hn
    rw [compacted_node hn] at hcheck ⊢
    rw [validateAll_node, validateAll_node, List.map_append, List.map_append, hcheck,
      List.flatMap_map, List.map_flatMap, List.map_flatMap, List.flatMap_congr ih]
  | paren n c hn hc _ hproper ih =>
    have hoperand : (Tree.node n [c]).kind.isOperand := isOperand_of_paren hn
    -- neither the parentheses nor the mark break a rule
    rw [compacted_paren hn, validateAll_mark (isOperand_compacted hproper hc), ih,
      validateAll_node n, check_of_isOperand hoperand, List.nil_append, List.flatMap_cons,
      List.flatMap_nil, List.append_nil]

theorem validate_compacted (h : t.Everywhere Proper) :
    (validate source mode t.compacted).map .ofViolation =
      (validate source mode t).map ParseError.ofViolation := by
  rw [validate, validate, ← List.head?_map, ← List.head?_map, validateAll_compacted h]

end SqlSyntax
