import SqlSyntax.Proofs.Sequel
import SqlSyntax.Proofs.Selection

/-!
# `NOT` before `EXISTS`

`NOT` is an operator before its operand, which takes all that binds more tightly than it does. But
`NOT EXISTS (query)` is read as one operand, so an operator behind it takes it as its left operand,
however tightly the operator binds (`Session.parse_not_exists`).
-/

namespace SqlSyntax

open SqlSyntax.Parser SqlSyntax.Expression

/-- The tree says that the query has no rows. -/
def Tree.Denies (context : Option Context) (u query : Tree) : Prop :=
  ∃ id location span, u = .node
    { kind := .existsExpr, id, flags := .insert .empty .negated, context, location, span } [query]

theorem Tree.Denies.keepsRules {context : Option Context} {u query : Tree}
    (h : u.Denies context query) {source : Source} {mode : Mode}
    (hquery : query.KeepsRules source mode) : u.KeepsRules source mode := by
  obtain ⟨id, location, span, rfl⟩ := h
  exact .unruled rfl (List.forall_mem_singleton.2 hquery)

theorem Tree.Applies.keepsRules {op : BinaryOp} {context : Option Context} {u left right : Tree}
    (h : u.Applies op context left right) {source : Source} {mode : Mode}
    (hleft : left.KeepsRules source mode) (hright : right.KeepsRules source mode) :
    u.KeepsRules source mode := by
  obtain ⟨id, location, span, rfl⟩ := h
  refine .unruled ?_ (List.forall_mem_cons.2 ⟨hleft, List.forall_mem_singleton.2 hright⟩)
  cases op <;> rfl

section Runs

variable {scope : Scope} {self : Nested} {denial word opening closing : Token}
  {q rest : List Token} {fact : Tree → Prop} (hdenial : denial.kind = .keyword .NOT)
  (hword : word.kind = .keyword .EXISTS) (hopening : opening.kind = .leftParen)
  (hclosing : closing.kind = .rightParen)

include hdenial hword hopening hclosing

/-- `NOT EXISTS (query)` is an operand. -/
theorem denial_run
    (hquery : Gives { scope with context := some .subquery } (q ++ closing :: rest) self.query
      fun u r => fact u ∧ r = closing :: rest) :
    Gives scope (denial :: word :: opening :: (q ++ closing :: rest)) (operand self) fun u r =>
      (∃ query, fact query ∧ u.Denies scope.context query) ∧ r = rest := by
  have hexistence : Gives scope (word :: opening :: (q ++ closing :: rest)) (existence self)
      fun u r => (∃ query id location span, fact query ∧ u = .node
        { kind := .existsExpr, id, context := scope.context, location, span } [query]) ∧
        r = rest := by
    unfold existence
    refine (Gives.expect _ hword).next ((Gives.newNode _ _ _).bind ?_)
    rintro _ _ ⟨⟨id, rfl⟩, rfl⟩
    refine (Gives.expect _ hopening).skip ((Gives.within _ hquery).bind ?_)
    rintro query _ ⟨hfact, rfl⟩
    refine (Gives.attach _ _).next ((Gives.expect _ hclosing).skip ?_)
    refine (Gives.finish _).weaken ?_
    rintro _ _ ⟨⟨stop, rfl⟩, rfl⟩
    exact ⟨⟨query, id, _, _, hfact, rfl⟩, rfl⟩
  refine Gives.current.next ?_
  dsimp only [List.head?_cons]
  rw [hdenial]
  refine Gives.advance.skip ?_
  refine (Gives.sees _).next ?_
  rw [if_pos (by simp [hword])]
  refine hexistence.bind ?_
  rintro _ _ ⟨⟨query, id, location, span, hfact, rfl⟩, rfl⟩
  refine (Gives.flag _ _).weaken ?_
  rintro _ _ ⟨rfl, rfl⟩
  exact ⟨⟨query, hfact, id, location, span, rfl⟩, rfl⟩

variable {op : BinaryOp} {sign : Token} {e more : List Token} {fact' : Tree → Prop} {power : Nat}

/-- An operator behind the parenthesis applies to the operand. -/
theorem denial_applied (hsign : sign.kind = op.tokenKind)
    (hspelling : scope.config.strictAnsi → sign.text ≠ "==" ∧ sign.text ≠ "!=")
    (hnot : op = .is → e.head?.map Token.kind ≠ some (.keyword .NOT))
    (hescape : more.head?.map Token.kind ≠ some (.keyword .ESCAPE))
    (hstops : Power.Stops power more) (hpower : power ≤ op.level)
    (hopens : scope.Opens scope.depth)
    (hquery : Gives { scope with depth := scope.depth + 1, context := some .subquery }
      (q ++ closing :: sign :: e) self.query fun u r => fact u ∧ r = closing :: sign :: e)
    (hright : Gives { scope with depth := scope.depth + 1 } e (self.expression (op.level + 1))
      fun u r => fact' u ∧ r = more) :
    Gives scope (denial :: word :: opening :: (q ++ closing :: sign :: e))
      (expression self power) fun u r =>
      (∃ left query right, fact query ∧ fact' right ∧ left.Denies scope.context query ∧
        u.Applies op scope.context left right) ∧ r = more := by
  refine .deeper hopens ?_
  refine (denial_run hdenial hword hopening hclosing hquery).bind ?_
  rintro left _ ⟨⟨query, hfact, hleft⟩, rfl⟩
  refine .iterate ((grow?_run hsign hright hspelling hnot hescape hpower).bind ?_)
  rintro _ _ ⟨⟨u, right, rfl, hfact', hu⟩, rfl⟩
  refine (iterateOver_stops hstops e).weaken ?_
  rintro _ _ ⟨rfl, rfl⟩
  exact ⟨⟨left, query, right, hfact, hfact', hleft, hu⟩, rfl⟩

end Runs

/-- A select item of `NOT EXISTS (query)` and an operator with its right operand, each of which is
what it is on its own: whatever the level of the operator, it applies to the node of `EXISTS`, which
has the mark of `NOT`. -/
theorem Session.parse_not_exists (s : Session) (source : Source) (op : BinaryOp)
    {head q e : List Token} {closing sign : Token} {fact fact' : Tree → Prop}
    (htokens : tokenize source = head ++ (q ++ closing :: sign :: e))
    (hhead : head.map Token.kind =
      [.keyword .SELECT, .keyword .NOT, .keyword .EXISTS, .leftParen])
    (hclosing : closing.kind = .rightParen) (hsign : sign.kind = op.tokenKind)
    (hspelling : s.config.strictAnsi → sign.text ≠ "==" ∧ sign.text ≠ "!=")
    (hnot : op = .is → e.head?.map Token.kind ≠ some (.keyword .NOT))
    (hroom : s.HasRoom 3)
    (hquery : Gives { s.scope .one source with depth := 3, context := some .subquery } q
      (Nested.forTokens q.length).query fun u r => fact u ∧ r = [])
    (hright : Gives { s.scope .one source with depth := 3, context := some .selectList } e
      ((Nested.forTokens e.length).expression (op.level + 1)) fun u r => fact' u ∧ r = [])
    (hrules : ∀ u, fact u ∨ fact' u → u.KeepsRules source s.config.mode) :
    ∃ t item left query right, (s.parse source).1 = .ok t ∧ t.Selects item ∧
      item.Applies op (some .selectList) left right ∧ left.Denies (some .selectList) query ∧
      fact query ∧ fact' right := by
  obtain ⟨select, _, rfl, hselect, hhead⟩ := List.map_eq_cons_iff.1 hhead
  obtain ⟨denial, _, rfl, hdenial, hhead⟩ := List.map_eq_cons_iff.1 hhead
  obtain ⟨word, _, rfl, hword, hhead⟩ := List.map_eq_cons_iff.1 hhead
  obtain ⟨opening, _, rfl, hopening, hhead⟩ := List.map_eq_cons_iff.1 hhead
  obtain rfl := List.map_eq_nil_iff.1 hhead
  have htokens : tokenize source =
    select :: denial :: word :: opening :: (q ++ closing :: sign :: e) := htokens
  have hread : ∀ t ∈ select :: denial :: word :: opening :: (q ++ closing :: sign :: e),
      t.ReadFrom source := fun t ht => readFrom_of_mem_tokenize (htokens ▸ ht)
  have hdot : (sign :: e).head?.map Token.kind ≠ some .dot := by
    rw [List.head?_cons, Option.map_some, hsign]
    cases op <;> nofun
  have hfirst : denial.BeginsItem := by constructor <;> simp [hdenial]
  have hstar : startsStar (denial :: word :: opening :: (q ++ closing :: sign :: e)) = false := by
    simp [startsStar, hword]
  have hitem (k : Nat) (hq : q.length < k) (he : e.length < k) :
      Gives { s.scope .one source with depth := 2, context := some .selectList }
        (denial :: word :: opening :: (q ++ closing :: sign :: e))
        ((Nested.upTo (k + 1)).expression 0) fun u r =>
        (∃ left query right, fact query ∧ fact' right ∧ left.Denies (some .selectList) query ∧
          u.Applies op (some .selectList) left right) ∧ r = [] :=
    denial_applied hdenial hword hopening hclosing hsign hspelling hnot (by simp)
      (Power.stops_nil 0) (Nat.zero_le _) (hroom 2 (by decide))
      (hquery.query_before (Sequel.closing_closes hclosing hdot) hq) (hright.expression_mono he)
  rw [parse, htokens]
  obtain ⟨t, hparse, item, ⟨left, query, right, hfact, hfact', hleft, hitem⟩, ht⟩ :=
    s.parseTokens_statement source hread (by rw [hselect]; decide)
      (statement_run rfl ((hroom.mono (by decide)).opens source) hselect hfirst hstar
        (hitem _ (by simp; omega) (by simp; omega))) <| by
      rintro u ⟨item, ⟨left, query, right, hfact, hfact', hleft, hitem⟩, hu⟩
      have hdenied := hleft.keepsRules (hrules query (.inl hfact))
      exact (hu.keepsRules (hitem.keepsRules hdenied (hrules right (.inr hfact')))).validate
  exact ⟨t, item, left, query, right, hparse, ht, hitem, hleft, hfact, hfact'⟩

/-- An equation behind the parenthesis. -/
theorem Session.parse_not_exists_equation :
    ∃ t item left query one two,
      (({} : Session).parse "SELECT NOT EXISTS (SELECT 1) = 2".toList).1 = .ok t ∧
      t.Selects item ∧ item.Applies .eq (some .selectList) left two ∧
      left.Denies (some .selectList) query ∧ query.SelectsIn (some .subquery) one ∧
      one.shape = [.integerLiteral] ∧ two.shape = [.integerLiteral] := by
  have htokens : tokenize "SELECT NOT EXISTS (SELECT 1) = 2".toList =
      [⟨.keyword .SELECT, "SELECT", ⟨0, 6⟩, 1, 1⟩, ⟨.keyword .NOT, "NOT", ⟨7, 10⟩, 1, 8⟩,
        ⟨.keyword .EXISTS, "EXISTS", ⟨11, 17⟩, 1, 12⟩, ⟨.leftParen, "(", ⟨18, 19⟩, 1, 19⟩] ++
      ([⟨.keyword .SELECT, "SELECT", ⟨19, 25⟩, 1, 20⟩, ⟨.integer, "1", ⟨26, 27⟩, 1, 27⟩] ++
        ⟨.rightParen, ")", ⟨27, 28⟩, 1, 28⟩ :: ⟨.eq, "=", ⟨29, 30⟩, 1, 30⟩ ::
          [⟨.integer, "2", ⟨31, 32⟩, 1, 32⟩]) := by decide +kernel
  have hroom : ({} : Session).HasRoom 5 := Session.hasRoom_default (by decide)
  have hopens := hroom.opens "SELECT NOT EXISTS (SELECT 1) = 2".toList
  have hquery : Gives
      { ({} : Session).scope .one "SELECT NOT EXISTS (SELECT 1) = 2".toList with
        depth := 3, context := some .subquery }
      [⟨.keyword .SELECT, "SELECT", ⟨19, 25⟩, 1, 20⟩, ⟨.integer, "1", ⟨26, 27⟩, 1, 27⟩]
      (Nested.forTokens 2).query fun u r =>
      (∃ one : Tree, one.shape = [.integerLiteral] ∧ u.SelectsIn (some .subquery) one) ∧
        r = [] := by
    refine query_run (hopens 3 (by decide)) (by decide) (body_run ⟨nofun, nofun, nofun⟩ rfl rfl ?_)
    exact integer_run (hopens 4 (by decide)) rfl (Power.stops_nil 0)
  have hunruled {u : Tree} (h : u.shape = [.integerLiteral]) :
      u.KeepsRules "SELECT NOT EXISTS (SELECT 1) = 2".toList .production :=
    .of_unruled (.of_shape h (by decide))
  obtain ⟨t, item, left, query, two, hparse, ht, hitem, hleft, ⟨one, hone, hquery⟩, htwo⟩ :=
    Session.parse_not_exists {} _ .eq htokens rfl rfl rfl nofun nofun (hroom.mono (by decide))
      hquery (integer_run (hopens 3 (by decide)) rfl (Power.stops_nil _)) fun u hu =>
      hu.elim (fun ⟨_, hone, hquery⟩ => hquery.keepsRules (hunruled hone)) hunruled
  exact ⟨t, item, left, query, one, two, hparse, ht, hitem, hleft, hquery, hone, htwo⟩

/-- Behind another operand the equation is negated, behind `EXISTS` only the operand is. -/
theorem Session.exists_takes_negation :
    (({} : Session).parse "SELECT NOT a = 2".toList).1.toOption.map
        (fun t => t.preorder.map fun u => (u.kind, u.head.flags, u.head.operator)) =
      some [(.selectStmt, .empty, none), (.selectList, .empty, none),
        (.unaryExpr, .empty, some (.unary .not)), (.binaryExpr, .empty, some (.binary .eq)),
        (.columnRef, .empty, none), (.integerLiteral, .empty, none)] ∧
    (({} : Session).parse "SELECT NOT EXISTS (SELECT 1) = 2".toList).1.toOption.map
        (fun t => t.preorder.map fun u => (u.kind, u.head.flags, u.head.operator)) =
      some [(.selectStmt, .empty, none), (.selectList, .empty, none),
        (.binaryExpr, .empty, some (.binary .eq)), (.existsExpr, .insert .empty .negated, none),
        (.selectStmt, .empty, none), (.selectList, .empty, none), (.integerLiteral, .empty, none),
        (.integerLiteral, .empty, none)] := by
  decide +kernel

end SqlSyntax
