import SqlSyntax.Proofs.Selection
import SqlSyntax.Proofs.Sequel

/-!
# Sort keys

Behind a sort key may stand `ASC` or `DESC`, and `NULLS FIRST` or `NULLS LAST`. None of these words
is reserved, so they could be names; but an expression does not go on with a name, so it stops
before them (`Session.parse_order`). Only a type behind `::` takes any words that come, also these.
-/

namespace SqlSyntax

open SqlSyntax.Parser SqlSyntax.Expression

inductive Direction where
  | ascending | descending
deriving DecidableEq

namespace Direction

def kind : Direction → TokenKind
  | ascending => .keyword .ASC
  | descending => .keyword .DESC

def flag : Direction → Flag
  | ascending => .ascending
  | descending => .descending

end Direction

inductive NullsPlace where
  | first | last
deriving DecidableEq

namespace NullsPlace

def kinds : NullsPlace → List TokenKind
  | first => [.keyword .NULLS, .keyword .FIRST]
  | last => [.keyword .NULLS, .keyword .LAST]

def flag : NullsPlace → Flag
  | first => .nullsFirst
  | last => .nullsLast

end NullsPlace

/-- What may be said about the order behind a sort key. -/
structure SortOrder where
  direction : Option Direction := none
  nulls : Option NullsPlace := none
deriving DecidableEq

namespace SortOrder

/-- The words that say it. -/
def kinds (o : SortOrder) : List TokenKind :=
  o.direction.toList.map Direction.kind ++ o.nulls.toList.flatMap NullsPlace.kinds

/-- The flags of the item that has it. -/
def flags (o : SortOrder) : List Flag :=
  o.direction.toList.map Direction.flag ++ o.nulls.toList.map NullsPlace.flag

theorem goesOn_of_mem_kinds (o : SortOrder) : ∀ kind ∈ o.kinds, kind.goesOn = false := by
  rcases o with ⟨_ | _ | _, _ | _ | _⟩ <;> decide

theorem goesOn_of_mem {o : SortOrder} {words : List Token} (h : words.map Token.kind = o.kinds)
    {t : Token} (ht : t ∈ words) : t.kind.goesOn = false :=
  o.goesOn_of_mem_kinds t.kind (h ▸ List.mem_map_of_mem ht)

/-- The words as they stand behind an expression. -/
def sequel (o : SortOrder) (words : List Token) (h : words.map Token.kind = o.kinds) : Sequel where
  tokens := words
  stops _ ht := goesOn_of_mem h (List.mem_of_head? ht)
  noStar := by
    refine startsStar_of_no_dot fun t ht hdot => ?_
    have hgoes := goesOn_of_mem h ht
    rw [hdot] at hgoes
    cases hgoes

end SortOrder

/-- A tree with flags at its root. -/
def Tree.marked (u : Tree) (flags : List Flag) : Tree :=
  flags.foldl (fun v f => v.mapHead (·.mark f)) u

theorem Tree.marked_node (n : Node) (cs : List Tree) (flags : List Flag) :
    (Tree.node n cs).marked flags =
      .node { n with flags := flags.foldl Flags.insert n.flags } cs := by
  induction flags generalizing n with
  | nil => rfl
  | cons f flags ih => exact ih (n.mark f)

theorem Tree.marked_append (u : Tree) (flags more : List Flag) :
    u.marked (flags ++ more) = (u.marked flags).marked more :=
  List.foldl_append

/-- The statement selects a number and sorts by one key. -/
def Tree.Sorts (statement : Tree) (o : SortOrder) (key : Tree) : Prop :=
  ∃ n list clause item, statement = .node n [list, .node clause [.node item [key]]] ∧
    n.kind = .selectStmt ∧ list.shape = [.selectList, .integerLiteral] ∧
    clause.kind = .orderByClause ∧ item.kind = .orderByItem ∧
    item.flags = o.flags.foldl Flags.insert .empty

section Runs

variable {scope : Scope} {self : Nested} {words e : List Token} {o : SortOrder}
  {fact : Tree → Prop}

theorem nullsOrder_run {nulls : Option NullsPlace}
    (h : words.map Token.kind = nulls.toList.flatMap NullsPlace.kinds) (u : Tree) :
    Gives scope words (nullsOrder u) fun v r =>
      v = u.marked (nulls.toList.map NullsPlace.flag) ∧ r = [] := by
  rcases nulls with _ | _ | _
  · obtain rfl : words = [] := List.map_eq_nil_iff.1 h
    exact (Gives.consume_false (by simp)).next (.pure ⟨rfl, rfl⟩)
  · obtain ⟨word, _, rfl, hword, h⟩ := List.map_eq_cons_iff.1 h
    obtain ⟨place, _, rfl, hplace, h⟩ := List.map_eq_cons_iff.1 h
    obtain rfl := List.map_eq_nil_iff.1 h
    exact (Gives.consume_true hword).next ((Gives.consume_true hplace).next (Gives.flag u _))
  · obtain ⟨word, _, rfl, hword, h⟩ := List.map_eq_cons_iff.1 h
    obtain ⟨place, _, rfl, hplace, h⟩ := List.map_eq_cons_iff.1 h
    obtain rfl := List.map_eq_nil_iff.1 h
    have hfirst : place.kind ≠ .keyword .FIRST := by rw [hplace]; decide
    refine (Gives.consume_true hword).next ((Gives.consume_false (by simpa using hfirst)).next ?_)
    exact (Gives.expect _ hplace).skip (Gives.flag u _)

theorem direction_run {nulls : Option NullsPlace} {direction : Option Direction}
    (h : words.map Token.kind =
      direction.toList.map Direction.kind ++ nulls.toList.flatMap NullsPlace.kinds) (u : Tree) :
    Gives scope words (SqlSyntax.direction u) fun v r =>
      v = u.marked (direction.toList.map Direction.flag) ∧
        r.map Token.kind = nulls.toList.flatMap NullsPlace.kinds := by
  rcases direction with _ | _ | _
  · have hhead : words.head?.map Token.kind = (nulls.toList.flatMap NullsPlace.kinds).head? := by
      rw [← List.head?_map, h]
      rfl
    have hne {kind : TokenKind} (hk : kind ≠ .keyword .NULLS) :
        words.head?.map Token.kind ≠ some kind := by
      rw [hhead]
      rcases nulls with _ | _ | _
      · nofun
      all_goals exact fun heq => hk (Option.some.inj heq).symm
    refine (Gives.consume_false (hne (by decide))).next ?_
    exact (Gives.consume_false (hne (by decide))).next (.pure ⟨rfl, h⟩)
  · obtain ⟨word, rest, rfl, hword, hrest⟩ := List.map_eq_cons_iff.1 h
    have hdesc : word.kind ≠ .keyword .DESC := by rw [hword]; decide
    refine (Gives.consume_false (by simpa using hdesc)).next ((Gives.consume_true hword).next ?_)
    exact (Gives.flag u _).weaken fun _ _ hv => ⟨hv.1, hv.2 ▸ hrest⟩
  · obtain ⟨word, rest, rfl, hword, hrest⟩ := List.map_eq_cons_iff.1 h
    refine (Gives.consume_true hword).next ?_
    exact (Gives.flag u _).weaken fun _ _ hv => ⟨hv.1, hv.2 ▸ hrest⟩

/-- A key with what is said about its order. -/
theorem orderByItem_run (hwords : words.map Token.kind = o.kinds)
    (hkey : Gives scope e (self.expression 0) fun u r => fact u ∧ r = words) :
    Gives scope e (orderByItem self) fun u r =>
      (∃ key item, fact key ∧ u = .node item [key] ∧ item.kind = .orderByItem ∧
        item.flags = o.flags.foldl Flags.insert .empty) ∧ r = [] := by
  refine hkey.bind ?_
  rintro key _ ⟨hfact, rfl⟩
  refine (Gives.nodeOver _ _).bind ?_
  rintro _ _ ⟨⟨id, location, span, rfl⟩, rfl⟩
  refine (Gives.attach _ _).next ((direction_run hwords _).bind ?_)
  rintro _ nulls ⟨rfl, hnulls⟩
  refine (nullsOrder_run hnulls _).bind ?_
  rintro _ _ ⟨rfl, rfl⟩
  rw [← Tree.marked_append, Tree.leaf, Tree.append, Tree.marked_node]
  refine (Gives.finish _).weaken ?_
  rintro _ _ ⟨⟨stop, rfl⟩, rfl⟩
  exact ⟨⟨key, _, hfact, rfl, rfl, rfl⟩, rfl⟩

/-- A clause with one key. -/
theorem orderBy_run {order by' : Token} (horder : order.kind = .keyword .ORDER)
    (hby : by'.kind = .keyword .BY) (hwords : words.map Token.kind = o.kinds)
    (hkey : Gives { scope with context := some .orderByClause } e (self.expression 0) fun u r =>
      fact u ∧ r = words) :
    Gives scope (order :: by' :: e) (orderBy self) fun u r =>
      (∃ clause key item, fact key ∧ u = .node clause [.node item [key]] ∧
        clause.kind = .orderByClause ∧ item.kind = .orderByItem ∧
        item.flags = o.flags.foldl Flags.insert .empty) ∧ r = [] := by
  refine (Gives.expect _ horder).next ((Gives.expect _ hby).skip ((Gives.newNode _ _ _).bind ?_))
  rintro _ _ ⟨⟨id, rfl⟩, rfl⟩
  have hitem := orderByItem_run hwords hkey
  refine (Gives.within _ (Gives.attachList_one hitem (by simp))).bind ?_
  rintro _ _ ⟨⟨_, ⟨key, item, hfact, rfl, hitem, hflags⟩, rfl⟩, rfl⟩
  refine (Gives.finish _).weaken ?_
  rintro _ _ ⟨⟨stop, rfl⟩, rfl⟩
  exact ⟨⟨_, key, item, hfact, rfl, rfl, hitem, hflags⟩, rfl⟩

/-- A query of one number that is sorted by one key. -/
theorem sorted_run {select one order by' : Token} (hselect : select.kind = .keyword .SELECT)
    (hone : one.kind = .integer)
    (horder : order.kind = .keyword .ORDER) (hby : by'.kind = .keyword .BY)
    (hwords : words.map Token.kind = o.kinds)
    (hnumber : Gives { scope with context := some .selectList } (one :: order :: by' :: e)
      (self.expression 0) fun u r => u.shape = [.integerLiteral] ∧ r = order :: by' :: e)
    (hkey : Gives { scope with context := some .orderByClause } e (self.expression 0) fun u r =>
      fact u ∧ r = words) :
    Gives scope (select :: one :: order :: by' :: e) (Query.body self) fun u r =>
      (∃ key, fact key ∧ u.Sorts o key) ∧ r = [] := by
  have hfirst : one.BeginsItem := by constructor <;> simp [hone]
  have hstar : startsStar (one :: order :: by' :: e) = false := by simp [startsStar, horder]
  have hends : EndsCore (order :: by' :: e) := by
    rintro _ ⟨⟩
    rw [horder]
    rfl
  refine body_run_core hfirst hstar hends hselect hnumber ?_
  rintro _ item hitem ⟨id, location, span, id', location', span', rfl⟩
  refine (Gives.sees _).next ?_
  have hlimit : Omitted scope [] (Query.limit? self) :=
    fun u => (Gives.take?_nil _).next (.pure ⟨rfl, rfl⟩)
  have hclause := orderBy_run horder hby hwords hkey
  have hsorted : Gives scope (order :: by' :: e) (attachIf true (orderBy self) (.node
      { kind := .selectStmt, id, context := scope.context, location, span } [.node
        { kind := .selectList, id := id', context := some .selectList, location := location',
          span := span' } [item]])) fun u r =>
      (∃ key, fact key ∧ u.Sorts o key) ∧ r = [] := by
    refine hclause.bind ?_
    rintro _ _ ⟨⟨clause, key, node, hfact, rfl, hclause, hnode, hflags⟩, rfl⟩
    refine (Gives.attach _ _).weaken ?_
    rintro _ _ ⟨rfl, rfl⟩
    refine ⟨⟨key, hfact, _, _, clause, node, rfl, rfl, ?_, hclause, hnode, hflags⟩, rfl⟩
    rw [Tree.shape_node, List.flatMap_singleton, hitem]
  rw [List.getElem?_cons_zero, Option.map_some, horder, beq_self_eq_true]
  refine hsorted.bind ?_
  rintro _ _ ⟨⟨key, hfact, n, list, clause, node, rfl, hkinds⟩, rfl⟩
  refine (hlimit _).next ((Gives.finish _).weaken ?_)
  rintro _ _ ⟨⟨stop, rfl⟩, rfl⟩
  exact ⟨⟨key, hfact, _, list, clause, node, rfl, hkinds⟩, rfl⟩

end Runs

/-- If the key keeps the rules, so does the statement. -/
theorem Tree.Sorts.keepsRules {statement key : Tree} {o : SortOrder} (h : statement.Sorts o key)
    {source : Source} {mode : Mode} (hkey : key.KeepsRules source mode) :
    statement.KeepsRules source mode := by
  obtain ⟨n, list, clause, item, rfl, hn, hlist, hclause, hitem, -⟩ := h
  have hlistKind : list.kind = .selectList := by
    obtain ⟨m, cs⟩ := list
    rw [Tree.shape_node] at hlist
    exact (List.cons.inj hlist).1
  have hlistRules : list.KeepsRules source mode :=
    .of_unruled (.of_shape hlist (by decide))
  have hitemRules : (Tree.node item [key]).KeepsRules source mode :=
    .unruled (by rw [hitem]; rfl) (List.forall_mem_singleton.2 hkey)
  have hclauseRules : (Tree.node clause [.node item [key]]).KeepsRules source mode :=
    .unruled (by rw [hclause]; rfl) (List.forall_mem_singleton.2 hitemRules)
  have hclauseKind : (Tree.node clause [.node item [key]]).kind = .orderByClause := hclause
  refine .core hn (List.forall_mem_cons.2 ⟨by rw [hlistKind]; nofun, ?_⟩)
    (List.forall_mem_cons.2 ⟨hlistRules, List.forall_mem_singleton.2 hclauseRules⟩)
  exact List.forall_mem_singleton.2 (by rw [hclauseKind]; nofun)

/-- Words about the order stand behind an expression without a part in it, unless they go on a type
that it ends with: the one key is the expression on its own, and the words are flags of its item. -/
theorem Session.parse_order (s : Session) (source : Source) {head e words : List Token}
    {o : SortOrder} {fact : Tree → Prop} (htokens : tokenize source = head ++ (e ++ words))
    (hhead : head.map Token.kind =
      [.keyword .SELECT, .integer, .keyword .ORDER, .keyword .BY])
    (hwords : words.map Token.kind = o.kinds) (htype : ¬ EndsInType e)
    (hroom : s.HasRoom 3)
    (hkey : Gives { s.scope .one source with depth := 2, context := some .orderByClause } e
      ((Nested.forTokens e.length).expression 0) fun u r => fact u ∧ r = [])
    (hrules : ∀ u, fact u → u.KeepsRules source s.config.mode) :
    ∃ t key, (s.parse source).1 = .ok t ∧ fact key ∧ t.Sorts o key := by
  obtain ⟨select, _, rfl, hselect, hhead⟩ := List.map_eq_cons_iff.1 hhead
  obtain ⟨one, _, rfl, hone, hhead⟩ := List.map_eq_cons_iff.1 hhead
  obtain ⟨order, _, rfl, horder, hhead⟩ := List.map_eq_cons_iff.1 hhead
  obtain ⟨by', _, rfl, hby, hhead⟩ := List.map_eq_cons_iff.1 hhead
  obtain rfl := List.map_eq_nil_iff.1 hhead
  have htokens : tokenize source = select :: one :: order :: by' :: (e ++ words) := htokens
  have hread : ∀ t ∈ select :: one :: order :: by' :: (e ++ words), t.ReadFrom source :=
    fun t ht => readFrom_of_mem_tokenize (htokens ▸ ht)
  have hstops : Power.Stops 0 (order :: by' :: (e ++ words)) := by
    intro power hpower
    rw [Power.ahead?, horder] at hpower
    cases hpower
  have hstatement (k : Nat) (hk : e.length ≤ k) :
      Gives (s.scope .one source) (select :: one :: order :: by' :: (e ++ words))
        (statement (Nested.upTo (k + 1))) fun u r =>
        (∃ key, fact key ∧ u.Sorts o key) ∧ r = [] := by
    refine statement_run_body rfl ((hroom.mono (by decide)).opens source) hselect ?_
    refine sorted_run hselect hone horder hby hwords ?_ ?_
    · exact integer_run (hroom 2 (by decide)) hone hstops
    · exact hkey.expression_before (Z := o.sequel words hwords) (fun _ _ _ => htype)
        (Nat.succ_le_succ hk)
  rw [parse, htokens]
  obtain ⟨t, hparse, key, hfact, ht⟩ := s.parseTokens_statement source hread
    (by rw [hselect]; decide) (hstatement _ (by simp; omega)) (by
      rintro u ⟨key, hfact, hu⟩
      exact (hu.keepsRules (hrules key hfact)).validate)
  exact ⟨t, key, hparse, hfact, ht⟩

/-- A column is sorted from the greatest value down, with nulls at the end. -/
theorem Session.parse_order_column :
    ∃ t key, (({} : Session).parse "SELECT 1 ORDER BY a DESC NULLS LAST".toList).1 = .ok t ∧
      key.shape = [.columnRef] ∧ t.Sorts ⟨some .descending, some .last⟩ key := by
  have htokens : tokenize "SELECT 1 ORDER BY a DESC NULLS LAST".toList =
      [⟨.keyword .SELECT, "SELECT", ⟨0, 6⟩, 1, 1⟩, ⟨.integer, "1", ⟨7, 8⟩, 1, 8⟩,
        ⟨.keyword .ORDER, "ORDER", ⟨9, 14⟩, 1, 10⟩, ⟨.keyword .BY, "BY", ⟨15, 17⟩, 1, 16⟩] ++
      ([⟨.identifier, "a", ⟨18, 19⟩, 1, 19⟩] ++
        [⟨.keyword .DESC, "DESC", ⟨20, 24⟩, 1, 21⟩, ⟨.keyword .NULLS, "NULLS", ⟨25, 30⟩, 1, 26⟩,
          ⟨.keyword .LAST, "LAST", ⟨31, 35⟩, 1, 32⟩]) := by decide +kernel
  have hleaf : Gives
      { ({} : Session).scope .one "SELECT 1 ORDER BY a DESC NULLS LAST".toList with
        depth := 3, context := some .orderByClause }
      [⟨.identifier, "a", ⟨18, 19⟩, 1, 19⟩] (operand (Nested.upTo 1))
      fun u r => u.IsLeaf .columnRef (some .orderByClause) (fun _ => True) ∧ r = [] :=
    column_run rfl (fun _ => nofun) .nil (.pure ⟨trivial, rfl⟩)
  have hroom : ({} : Session).HasRoom 3 := Session.hasRoom_default (by decide)
  have hkey : Gives
      { ({} : Session).scope .one "SELECT 1 ORDER BY a DESC NULLS LAST".toList with
        depth := 2, context := some .orderByClause }
      [⟨.identifier, "a", ⟨18, 19⟩, 1, 19⟩] ((Nested.forTokens 1).expression 0)
      fun u r => u.shape = [.columnRef] ∧ r = [] := by
    refine expression_run_operand 0 (hroom 2 (by decide)) (hleaf.weaken ?_)
    rintro _ _ ⟨⟨id, text, location, span, rfl, -⟩, rfl⟩
    exact ⟨rfl, rfl⟩
  have htype : ¬ EndsInType [⟨.identifier, "a", ⟨18, 19⟩, 1, 19⟩] := by
    intro h
    obtain ⟨t, ht, hsign⟩ := h.doubleColon_mem
    rw [List.eq_of_mem_singleton ht] at hsign
    cases hsign
  exact Session.parse_order {} _ htokens rfl rfl htype hroom hkey fun u hu =>
    .of_unruled (.of_shape hu (by decide))

/-- Without the order behind it, the cast is a key; but a type goes on with the words behind it,
and so no flag of the item says that the order descends. -/
theorem Session.type_takes_direction :
    (match (Nested.forTokens 3).expression 0 (({} : Session).scope .one "a::TEXT".toList)
        (.start (tokenize "a::TEXT".toList) {} {}) with
      | .ok u r => some (u.shape, r.rest)
      | .error _ _ => none) = some ([.castExpr, .columnRef], []) ∧
    (({} : Session).parse "SELECT 1 ORDER BY a::TEXT DESC".toList).1.toOption.map
        (fun t => t.preorder.map fun u => (u.kind, u.head.flags, u.head.dataType)) =
      some [(.selectStmt, .empty, none), (.selectList, .empty, none),
        (.integerLiteral, .empty, none), (.orderByClause, .empty, none),
        (.orderByItem, .empty, none), (.castExpr, .empty, some .custom),
        (.columnRef, .empty, none)] := by
  decide +kernel

end SqlSyntax
