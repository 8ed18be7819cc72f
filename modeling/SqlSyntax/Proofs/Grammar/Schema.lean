import SqlSyntax.Grammar.Statement
import SqlSyntax.Proofs.Grammar.Change

/-!
# The steps of schema statements and of statements as such

With these every production is put together from steps (`statement_makes`): the productions that
occur inside one another are, whatever they call.
-/

namespace SqlSyntax

open SqlSyntax.Parser

variable {T : Terms} {node statement : Tree}

namespace Schema

/-! ## Constraints -/

theorem onConflict?_extends (h : T.free node) : T.Extends node (onConflict? node) := by
  unfold onConflict?
  refine (Built.seesKeyword _).read fun b _ => (Built.kindAt 1).read fun o _ => ?_
  split
  · refine (Built.expectKeyword _).read fun on hon => Built.advance.discard.read fun _ _ => ?_
    refine Change.conflictWord_reads.read fun word hw => ?_
    exact (Change.conflictAction_makes hon hw).make fun action _ => .attachAny action h
  · exact .keep (.refl _)

theorem expectNullOrDefault_reads : T.Reads expectNullOrDefault fun _ => True := by
  unfold expectNullOrDefault
  refine (Built.consumeKeyword _).read fun b _ => ?_
  cases b
  · refine (Built.consumeKeyword _).read fun b _ => ?_
    cases b
    · exact .unexpected _
    · exact .answer trivial
  · exact .answer trivial

theorem expectSpelling_reads (word : String) : T.Reads (expectSpelling word) T.known := by
  unfold expectSpelling
  refine (Built.takeIf? _).read fun o ho => ?_
  rcases o with _ | t
  · exact .unexpected _
  · exact .answer (ho t rfl)

theorem referentialAction_grows (h : T.free node) : T.Grows node (referentialAction node) := by
  unfold referentialAction
  refine Built.current.read fun o _ => ?_
  rcases o with _ | t
  · exact .unexpected _
  dsimp only
  split_ifs
  · exact Built.advance.discard.read fun _ _ => .flag h _
  · exact Built.advance.discard.read fun _ _ => .flag h _
  · refine Built.advance.discard.read fun _ _ => ?_
    exact expectNullOrDefault_reads.read fun _ _ => .keep h
  · refine Built.advance.discard.read fun _ _ => ?_
    exact (expectSpelling_reads _).discard.read fun _ _ => .keep h
  · exact .unexpected _

theorem onChange?_grows (h : T.free node) :
    Built T [node] (onChange? node) (fun o => [o.getD node]) fun o => ∀ t ∈ o, T.free t := by
  have hnone : Built T [node] (pure none) (fun o => [o.getD node]) fun o => ∀ t ∈ o, T.free t :=
    .done (fun o : Option Tree => [o.getD node]) none nofun
  have hchange : Built T [node] (do
      discard advance
      discard advance
      return some (← referentialAction node)) (fun o => [o.getD node])
      fun o => ∀ t ∈ o, T.free t := by
    refine Built.advance.discard.read fun _ _ => Built.advance.discard.read fun _ _ => ?_
    exact (referentialAction_grows h).grow fun t ht =>
      .done (fun o : Option Tree => [o.getD node]) (some t) (by simpa using ht)
  unfold onChange?
  refine (Built.seesKeyword _).read fun b _ => ?_
  cases b
  · exact hnone
  · refine (Built.kindAt 1).read fun o _ => ?_
    split
    · exact hchange
    · exact hchange
    · exact hnone

theorem references_makes : T.Makes references := by
  unfold references
  refine (Built.expectKeyword _).discard.read fun _ _ => ?_
  refine (objectName_makes rfl).make fun node hnode => (Built.sees _).read fun b _ => ?_
  refine (Built.attachIf b columnList_makes.yields hnode).grow fun node hnode => ?_
  refine Built.grow (.iterate one (fun t ht => onChange?_grows ht) hnode) fun node hnode => ?_
  exact .finish hnode

theorem consumeKeyword_bind {α : Type} {s : Progress} {t : Token} {rest : List Token}
    (hs : s.rest = t :: rest) (word : Keyword) (k : Bool → Parser α) (scope : Scope) :
    (consumeKeyword word >>= k) scope s =
      (if t.kind == .keyword word then do discard advance; k true else k false) scope s := by
  obtain ⟨r⟩ := s
  obtain rfl : r = t :: rest := hs
  show (((if t.kind == .keyword word then advance else pure none) >>= fun o : Option Token =>
    pure o.isSome) >>= k) scope _ = _
  split <;> rfl

/-- A constraint with a name starts with `CONSTRAINT`. -/
theorem current_constraintName? {α : Type} (p : Parser α) (k : Token → Option Token → Parser α) :
    (do
      match ← current with
      | none => p
      | some start => k start (← constraintName?)) = (do
      match ← current with
      | none => p
      | some start =>
        if start.kind == .keyword .CONSTRAINT then
          discard advance
          k start (some (← expectName "constraint name"))
        else k start none) := by
  funext scope s
  rcases hs : s.rest with _ | ⟨t, rest⟩
  · obtain ⟨r⟩ := s
    obtain rfl : r = [] := hs
    rfl
  · have hname : (constraintName? >>= k t) = consumeKeyword .CONSTRAINT >>= fun b =>
        if b then do k t (some (← expectName "constraint name")) else k t none := by
      rw [constraintName?, bind_assoc]
      congr 1
      funext b
      cases b <;> simp
    have hrun := consumeKeyword_bind hs .CONSTRAINT
      (fun b => if b then do k t (some (← expectName "constraint name")) else k t none) scope
    rw [← hname] at hrun
    obtain ⟨r⟩ := s
    obtain rfl : r = t :: rest := hs
    exact hrun

theorem constraintName?_reads : T.Reads constraintName? fun o => ∀ t ∈ o, T.known t := by
  unfold constraintName?
  refine (Built.consumeKeyword _).read fun b _ => ?_
  cases b
  · exact .answer nofun
  · exact (Built.expectName _).read fun t ht => .answer (by simpa using ht)

theorem check_opens {start : Token} (hs : T.known start) : T.Opens (check T.self start) := by
  unfold check
  refine (Built.bareNode .checkConstraint hs rfl).make fun node hnode => ?_
  refine (Built.expect _ _).discard.read fun _ _ => ?_
  refine (Built.expression 0).make fun condition _ => ?_
  refine (Built.expect _ _).discard.read fun _ _ => ?_
  exact (Built.attachAny condition hnode.1).weaken fun _ => Built.bare_of_kept hnode

theorem finishConstraint_grows {name : Option Token} (hn : ∀ t ∈ name, T.known t ∧ T.writable node)
    (h : T.free node) : T.Grows node (finishConstraint name node) := by
  unfold finishConstraint
  rcases name with _ | t
  · exact .finish h
  · obtain ⟨ht, hw⟩ := hn t rfl
    exact (Built.setText hw ht).grow fun node hnode => .finish (Built.free_of_kind h hnode.kind)

theorem autoincrement?_extends (node : Tree) : T.Extends node (autoincrement? node) := by
  unfold autoincrement?
  exact (Built.consumeKeyword _).read fun b _ => .flagIfAny node b _

/-- A constraint of a column that starts with a token: without a text, or with that of a
collation. -/
def Constrains (T : Terms) (start : Token) (t : Tree) : Prop :=
  T.free t ∧ (t.head.Blank ∨
    t.kind = .collateConstraint ∧ t.head.span.start = start.span.start)

/-- A constraint of a column, if one follows. -/
abbrev constrainsPerhaps (T : Terms) (start : Token) (p : Parser (Option Tree)) : Prop :=
  Built T [] p perhaps fun o => ∀ t ∈ o, Constrains T start t

theorem collate_constrains {start name : Token} (hs : T.known start) (hn : T.known name) :
    Built T [] (do setText (← nodeAt .collateConstraint start) name) one
      (Constrains T start) := by
  refine (Built.nodeAt .collateConstraint hs).make fun node hnode => ?_
  refine (Built.setText (.inl hnode.blank) hn).weaken fun u hu => ?_
  have hk : u.kind = .collateConstraint := hu.kind.trans hnode.kind
  refine ⟨?_, .inr ⟨hk, hu.start.trans hnode.start⟩⟩
  rw [Terms.free, hk]
  exact T.bars_operators _ rfl

theorem columnConstraintBody?_perhaps {start : Token} (hs : T.known start) (kind : TokenKind) :
    constrainsPerhaps T start (columnConstraintBody? T.self start kind) := by
  have hsome : ∀ t : Tree, Constrains T start t →
      Built T [t] (pure (some t)) perhaps fun o => ∀ t ∈ o, Constrains T start t :=
    fun t ht => .done perhaps (some t) (by simpa using ht)
  have hbare : ∀ t : Tree, T.bare t →
      Built T [t] (pure (some t)) perhaps fun o => ∀ t ∈ o, Constrains T start t :=
    fun t ht => hsome t ⟨ht.1, .inl ht.2⟩
  have hkept : ∀ {t : Tree}, T.bare t → ∀ u : Tree, u.head.Kept t.head →
      Built T [u] (pure (some u)) perhaps fun o => ∀ t ∈ o, Constrains T start t :=
    fun ht u hu => hbare u (Built.bare_of_kept ht hu)
  unfold columnConstraintBody?
  split
  · refine Built.advance.discard.read fun _ _ => (Built.expectKeyword _).discard.read fun _ _ => ?_
    refine (Built.bareNode .primaryKeyConstraint hs rfl).make fun node hnode => ?_
    refine (direction_extends node).grow fun node hnode' => ?_
    have hnode := Built.bare_of_kept hnode hnode'
    refine (onConflict?_extends hnode.1).grow fun node hnode' => ?_
    have hnode := Built.bare_of_kept hnode hnode'
    exact (autoincrement?_extends node).grow (hkept hnode)
  · refine Built.advance.discard.read fun _ _ => (Built.expectKeyword _).discard.read fun _ _ => ?_
    refine (Built.bareNode .notNullConstraint hs rfl).make fun node hnode => ?_
    exact (onConflict?_extends hnode.1).grow (hkept hnode)
  · refine Built.advance.discard.read fun _ _ => ?_
    exact (Built.bareNode .nullConstraint hs rfl).make hbare
  · refine Built.advance.discard.read fun _ _ => ?_
    refine (Built.bareNode .uniqueConstraint hs rfl).make fun node hnode => ?_
    exact (onConflict?_extends hnode.1).grow (hkept hnode)
  · refine Built.advance.discard.read fun _ _ => ?_
    exact (check_opens hs).make hbare
  · refine Built.advance.discard.read fun _ _ => ?_
    refine (Built.bareNode .defaultConstraint hs rfl).make fun node hnode => ?_
    refine (Built.expression _).make fun value _ => ?_
    exact (Built.attachAny value hnode.1).join (hkept hnode)
  · refine Built.advance.discard.read fun _ _ => ?_
    refine (Built.expectNamePart _).read fun name hname => ?_
    exact (collate_constrains hs hname).make hsome
  · refine references_makes.make fun target _ => ?_
    refine (Built.bareNode .foreignKeyConstraint hs rfl).make fun node hnode => .swap ?_
    exact (Built.attachAny target hnode.1).join (hkept hnode)
  · exact .done perhaps none nofun

/-- The rest of a constraint that starts with a token, after its name. -/
theorem namedConstraint_perhaps {start : Token} {name : Option Token} (hs : T.known start)
    (hn : ∀ t ∈ name, T.known t ∧ start.kind = .keyword .CONSTRAINT) :
    Built T [] (do
      match ← current with
      | none => unexpected "constraint"
      | some t =>
        match ← columnConstraintBody? T.self start t.kind with
        | some node => return some (← finishConstraint name node)
        | none => if name.isSome then unexpected "constraint" else return none) perhaps
      fun o => ∀ t ∈ o, T.free t := by
  refine Built.current.read fun o _ => ?_
  rcases o with _ | t
  · exact .unexpected _
  · refine (columnConstraintBody?_perhaps hs t.kind).step fun o ho => ?_
    rcases o with _ | node
    · dsimp only
      split
      · exact .unexpected _
      · exact .done perhaps none nofun
    · obtain ⟨hfree, htext⟩ := ho node rfl
      have hname : ∀ t ∈ name, T.known t ∧ T.writable node := by
        intro t ht
        obtain ⟨hknown, hword⟩ := hn t ht
        exact ⟨hknown, htext.imp_right fun h => ⟨h.1, start, hs, hword, h.2⟩⟩
      refine Built.grow (finishConstraint_grows hname hfree) fun node hnode => ?_
      exact .done perhaps (some node) (by simpa using hnode)

theorem columnConstraint?_perhaps :
    Built T [] (columnConstraint? T.self) perhaps fun o => ∀ t ∈ o, T.free t := by
  have heq := current_constraintName? (pure none) fun start name => do
    match ← current with
    | none => unexpected "constraint"
    | some t =>
      match ← columnConstraintBody? T.self start t.kind with
      | some node => return some (← finishConstraint name node)
      | none => if name.isSome then unexpected "constraint" else return none
  unfold columnConstraint?
  refine heq ▸ Built.current.read fun o ho => ?_
  rcases o with _ | start
  · exact .done perhaps none nofun
  · have hs := ho start rfl
    dsimp only
    split
    · next hword =>
      refine Built.advance.discard.read fun _ _ => (Built.expectName _).read fun name hname => ?_
      refine namedConstraint_perhaps hs ?_
      rintro _ ⟨⟩
      exact ⟨hname, beq_iff_eq.1 hword⟩
    · exact namedConstraint_perhaps hs nofun

/-! ## Columns and tables -/

theorem columnType?_grows {column : Tree} (h : T.free column) :
    T.Grows column (columnType? column) := by
  have heq : columnType? column = (do
      match ← current with
      | none => return column
      | some start =>
        if start.isTypeWord then
          let (type, dataType) ← inscribeType (nodeAt .typeName start)
          let column ← attach column (← finish type)
          amend column fun n => { n with dataType := some dataType }
        else return column) := by
    unfold columnType? inscribeType
    refine bind_congr fun o => ?_
    rcases o with _ | start
    · rfl
    · dsimp only
      split
      · simp only [bind_assoc, pure_bind]
      · rfl
  rw [heq]
  refine Built.current.read fun o ho => ?_
  rcases o with _ | start
  · exact .keep h
  dsimp only
  split
  · refine Built.step (.inscribeType typeName_reads (.nodeAt .typeName (ho start rfl)) ?_) ?_
    · exact fun _ ht => ⟨ht.blank, ht.kind ▸ rfl⟩
    rintro ⟨type, dataType⟩ -
    refine (Built.finishAny type).grow fun type _ => ?_
    refine (Built.attachFree type h).join fun column h => ?_
    exact .amendFree (fun n => { n with dataType := some dataType }) h fun _ =>
      ⟨⟨rfl, rfl, rfl, rfl, rfl⟩, rfl⟩
  · exact .keep h

theorem columnDefinition_makes : T.Makes (columnDefinition T.self) := by
  unfold columnDefinition
  refine (Built.expectName _).read fun name hname => ?_
  refine (Built.namedNode .columnDef hname rfl).make fun column hcolumn => ?_
  refine (columnType?_grows hcolumn).grow fun column hcolumn => ?_
  refine (Built.attachWhile (columnConstraint?_perhaps.weaken fun _ _ => trivial) hcolumn).grow
    fun column hcolumn => ?_
  exact .finish hcolumn

theorem tableConstraintBody_opens {start t : Token} (hs : T.known start) (ht : T.known t) :
    T.Opens (tableConstraintBody T.self start t) := by
  have hkeys {kind : Kind} (hk : kind.isOperator = false) : T.Opens (do
      let node ← nodeAt kind start
      onConflict? (← attach node (← columnList))) := by
    refine (Built.bareNode kind hs hk).make fun node hnode => ?_
    refine columnList_makes.make fun columns _ => ?_
    refine (Built.attachAny columns hnode.1).join fun node hkept => ?_
    have hnode := Built.bare_of_kept hnode hkept
    exact (onConflict?_extends hnode.1).weaken fun _ => Built.bare_of_kept hnode
  unfold tableConstraintBody
  split
  · exact (Built.expectKeyword _).discard.read fun _ _ => hkeys rfl
  · exact hkeys rfl
  · exact check_opens hs
  · refine (Built.expectKeyword _).discard.read fun _ _ => ?_
    refine (Built.bareNode .foreignKeyConstraint hs rfl).make fun node hnode => ?_
    refine columnList_makes.make fun columns _ => ?_
    refine (Built.attachAny columns hnode.1).join fun node hkept => ?_
    have hnode := Built.bare_of_kept hnode hkept
    refine references_makes.make fun target _ => ?_
    exact (Built.attachAny target hnode.1).weaken fun _ => Built.bare_of_kept hnode
  · exact .fail rfl ht

theorem tableConstraint_makes : T.Makes (tableConstraint T.self) := by
  unfold tableConstraint
  refine Built.current.read fun o hstart => ?_
  rcases o with _ | start
  · exact .unexpected _
  refine constraintName?_reads.read fun name hname => Built.advance.read fun o ho => ?_
  rcases o with _ | t
  · exact .unexpected _
  refine (tableConstraintBody_opens (hstart start rfl) (ho t rfl)).make fun node hnode => ?_
  exact finishConstraint_grows (fun t ht => ⟨hname t ht, .inl hnode.2⟩) hnode.1

theorem tableElement_makes : T.Makes (tableElement T.self) := by
  unfold tableElement
  refine (Built.seesOneOf _).read fun b _ => ?_
  cases b
  · exact columnDefinition_makes
  · exact tableConstraint_makes

theorem withoutRowid?_grows (h : T.free statement) :
    T.Grows statement (withoutRowid? statement) := by
  unfold withoutRowid?
  refine (Built.takeKeyword? _).read fun o ho => ?_
  rcases o with _ | t
  · exact .keep h
  · refine (Built.takeIf? _).read fun o _ => ?_
    rcases o with _ | _
    · exact .fail rfl (ho t rfl)
    · exact .flag h _

theorem createTable_grows (h : T.free statement) :
    T.Grows statement (createTable T.self statement) := by
  unfold createTable
  refine (objectName_makes rfl).make fun name _ => ?_
  refine (Built.attachFree name h).join fun statement h => ?_
  refine (Built.consumeKeyword _).read fun b _ => ?_
  cases b
  · refine (Built.expect _ _).discard.read fun _ _ => ?_
    refine (Built.attachList tableElement_makes.yields h).grow fun statement h => ?_
    exact (Built.expect _ _).discard.read fun _ _ => withoutRowid?_grows h
  · exact Built.query.make fun query _ => .attachFree query h

/-! ## Indexes, views and triggers -/

theorem indexedColumn_makes : T.Makes (indexedColumn T.self) := by
  unfold indexedColumn
  refine (Built.expression 0).make fun key _ => ?_
  refine (Built.nodeAbove .indexedColumn key rfl).cover fun column hcolumn => ?_
  refine (Built.attachFree key hcolumn).join fun column hcolumn => ?_
  exact (direction_grows hcolumn).grow fun column hcolumn => .finish hcolumn

theorem createIndex_grows (h : T.free statement) :
    T.Grows statement (createIndex T.self statement) := by
  unfold createIndex
  refine (objectName_makes rfl).make fun name _ => ?_
  refine (Built.attachFree name h).join fun statement h => ?_
  refine (Built.expectKeyword _).discard.read fun _ _ => ?_
  refine (objectName_makes rfl).make fun table _ => ?_
  refine (Built.attachFree table h).join fun statement h => ?_
  refine (Built.expect _ _).discard.read fun _ _ => ?_
  refine (Built.attachList indexedColumn_makes.yields h).grow fun statement h => ?_
  exact (Built.expect _ _).discard.read fun _ _ => Query.whereClause?_grows h

theorem createView_grows (h : T.free statement) :
    T.Grows statement (createView T.self statement) := by
  unfold createView
  refine (objectName_makes rfl).make fun name _ => ?_
  refine (Built.attachFree name h).join fun statement h => (Built.sees _).read fun b _ => ?_
  refine (Built.attachIf b columnList_makes.yields h).grow fun statement h => ?_
  refine (Built.expectKeyword _).discard.read fun _ _ => ?_
  exact Built.query.make fun query _ => .attachFree query h

theorem triggerTime_grows (h : T.free statement) : T.Grows statement (triggerTime statement) := by
  unfold triggerTime
  refine (Built.consumeKeyword _).read fun b _ => ?_
  cases b
  · refine (Built.consumeKeyword _).read fun b _ => ?_
    cases b
    · refine (Built.consumeKeyword _).read fun b _ => ?_
      cases b
      · exact .keep h
      · exact (Built.expectKeyword _).discard.read fun _ _ => .flag h _
    · exact .flag h _
  · exact .flag h _

theorem eventColumns_makes {t : Token} (ht : T.known t) : T.Makes (eventColumns t) := by
  unfold eventColumns
  refine (Built.node .columnList ht rfl).make fun list hlist => ?_
  exact (Built.attachList columnName_makes.yields hlist).grow fun list hlist => .finish hlist

theorem hasEventColumns_reads (t : Token) : T.Reads (hasEventColumns t) fun _ => True := by
  unfold hasEventColumns
  split
  · exact Built.consumeKeyword _
  · exact .answer trivial

theorem triggerEvent_makes : T.Makes triggerEvent := by
  unfold triggerEvent
  refine (Built.takeIf? _).read fun o ho => ?_
  rcases o with _ | t
  · exact .unexpected _
  · have ht := ho t rfl
    refine (Built.namedNode .triggerEvent ht rfl).make fun event hevent => ?_
    refine (hasEventColumns_reads t).read fun b _ => ?_
    refine (Built.attachIf b (eventColumns_makes ht).yields hevent).grow fun event hevent => ?_
    exact .finish hevent

theorem eachRow?_grows (h : T.free statement) : T.Grows statement (eachRow? statement) := by
  unfold eachRow?
  refine (Built.consumeKeyword _).read fun b _ => ?_
  cases b
  · exact .keep h
  · refine (Built.expectKeyword _).discard.read fun _ _ => ?_
    exact (Built.expectKeyword _).discard.read fun _ _ => .flag h _

theorem triggerCondition?_grows (h : T.free statement) :
    T.Grows statement (triggerCondition? T.self statement) := by
  unfold triggerCondition?
  refine (Built.takeKeyword? _).read fun o ho => ?_
  rcases o with _ | t
  · exact .keep h
  · refine (Built.node .whenClause (ho t rfl) rfl).make fun clause hclause => ?_
    refine (Built.expression 0).make fun condition _ => ?_
    refine (Built.attachFree condition hclause).join fun clause hclause => ?_
    exact (Built.finish hclause).grow fun clause _ => .attachFree clause h

theorem triggerStatement?_grows {body : Tree} (h : T.free body) :
    Built T [body] (triggerStatement? T.self body) (fun o => [o.getD body])
      fun o => ∀ t ∈ o, T.free t := by
  unfold triggerStatement?
  refine (Built.seesKeyword _).read fun b _ => ?_
  cases b
  · refine Built.atEnd.read fun b _ => ?_
    cases b
    · refine Built.statement.make fun statement _ => ?_
      refine (Built.attachFree statement h).join fun body h => ?_
      refine (Built.expect _ _).discard.read fun _ _ => ?_
      exact .done (fun o : Option Tree => [o.getD _]) (some body) (by simpa using h)
    · exact .unexpected _
  · exact .done (fun o : Option Tree => [o.getD body]) none nofun

theorem triggerBody_makes : T.Makes (triggerBody T.self) := by
  unfold triggerBody
  refine (Built.expectKeyword _).read fun t ht => ?_
  refine (Built.node .triggerBody ht rfl).make fun body hbody => ?_
  refine Built.grow (.iterate one (fun t ht => triggerStatement?_grows ht) hbody)
    fun body hbody => ?_
  exact Built.advance.discard.read fun _ _ => .finish hbody

theorem createTrigger_grows (h : T.free statement) :
    T.Grows statement (createTrigger T.self statement) := by
  unfold createTrigger
  refine (objectName_makes rfl).make fun name _ => ?_
  refine (Built.attachFree name h).join fun statement h => ?_
  refine (triggerTime_grows h).grow fun statement h => ?_
  refine triggerEvent_makes.make fun event _ => ?_
  refine (Built.attachFree event h).join fun statement h => ?_
  refine (Built.expectKeyword _).discard.read fun _ _ => ?_
  refine (objectName_makes rfl).make fun table _ => ?_
  refine (Built.attachFree table h).join fun statement h => ?_
  refine (eachRow?_grows h).grow fun statement h => ?_
  refine (triggerCondition?_grows h).grow fun statement h => ?_
  exact triggerBody_makes.make fun body _ => .attachFree body h

/-! ## Creation -/

theorem creationKind?_isOperator {kind : TokenKind} {r : Kind × Bool}
    (h : creationKind? kind = some r) : r.1.isOperator = false := by
  unfold creationKind? at h
  split at h <;> cases h <;> rfl

theorem creationBody_grows (h : T.free statement) :
    T.Grows statement (creationBody T.self statement) := by
  unfold creationBody
  split
  · exact createTable_grows h
  · exact createIndex_grows h
  · exact createView_grows h
  · exact createTrigger_grows h
  · exact (objectName_makes rfl).make fun name _ => .attachFree name h

theorem temporary?_reads : T.Reads temporary? fun _ => True := by
  unfold temporary?
  refine (Built.consumeKeyword _).read fun b _ => ?_
  cases b
  · exact Built.consumeKeyword _
  · exact .answer trivial

theorem ifNotExists?_grows (h : T.free statement) :
    T.Grows statement (ifNotExists? statement) := by
  unfold ifNotExists?
  refine (Built.consumeKeyword _).read fun b _ => ?_
  cases b
  · exact .keep h
  · refine (Built.expectKeyword _).discard.read fun _ _ => ?_
    exact (Built.expectKeyword _).discard.read fun _ _ => .flag h _

theorem creationKind_reads (temporary unique : Bool) {t : Token} (ht : T.known t) :
    T.Reads (creationKind temporary unique t) (·.isOperator = false) := by
  unfold creationKind
  split
  · exact .unexpected _
  · next hkind =>
    split_ifs
    · exact .fail rfl ht
    · exact .fail rfl ht
    · exact .answer (creationKind?_isOperator hkind)

theorem create_makes : T.Makes (create T.self) := by
  unfold create
  refine (Built.expectKeyword _).read fun start hs => temporary?_reads.read fun temporary _ => ?_
  refine (Built.consumeKeyword _).read fun unique _ => Built.current.read fun o ho => ?_
  rcases o with _ | t
  · exact .unexpected _
  refine (creationKind_reads temporary unique (ho t rfl)).read fun kind hk => ?_
  refine Built.advance.discard.read fun _ _ => ?_
  refine (Built.node kind hs hk).make fun statement h => ?_
  refine (Built.flagIf h temporary _).grow fun statement h => ?_
  refine (Built.flagIf h unique _).grow fun statement h => ?_
  refine (ifNotExists?_grows h).grow fun statement h => ?_
  exact (creationBody_grows h).grow fun statement h => .finish h

/-! ## Removal and alteration -/

theorem dropBehavior?_grows (h : T.free statement) :
    T.Grows statement (dropBehavior? statement) := by
  unfold dropBehavior?
  refine (Built.consumeKeyword _).read fun b _ => ?_
  cases b
  · refine (Built.consumeKeyword _).read fun b _ => ?_
    cases b
    · exact .keep h
    · exact .flag h _
  · exact .flag h _

theorem ifExists?_grows (h : T.free statement) : T.Grows statement (ifExists? statement) := by
  unfold ifExists?
  refine (Built.consumeKeyword _).read fun b _ => ?_
  cases b
  · exact .keep h
  · exact (Built.expectKeyword _).discard.read fun _ _ => .flag h _

theorem drop_makes : T.Makes drop := by
  unfold drop
  refine (Built.expectKeyword _).read fun start hs => (Built.takeIf? _).read fun o ho => ?_
  rcases o with _ | t
  · exact .unexpected _
  · refine (Built.bareNode .dropStmt hs rfl).make fun statement h => ?_
    refine (Built.setBare h (ho t rfl)).grow fun statement h => ?_
    refine (ifExists?_grows h).grow fun statement h => ?_
    refine (Built.attachList (objectName_makes rfl).yields h).grow fun statement h => ?_
    exact (dropBehavior?_grows h).grow fun statement h => .finish h

theorem renameTable_makes {t : Token} (ht : T.known t) : T.Makes (renameTable t) := by
  unfold renameTable
  refine (Built.expectName _).read fun name hname => ?_
  exact (Built.bareNode .renameTable ht rfl).make fun node hnode => .setBare hnode hname

theorem renameColumn_makes {t : Token} (ht : T.known t) : T.Makes (renameColumn t) := by
  unfold renameColumn
  refine (Built.consumeKeyword _).discard.read fun _ _ => ?_
  refine (Built.expectName _).read fun before hbefore => ?_
  refine (Built.expectKeyword _).discard.read fun _ _ => ?_
  refine (Built.expectName _).read fun after hafter => ?_
  refine (Built.node .renameColumn ht rfl).make fun node hnode => ?_
  refine (Built.namedNode .identifier hbefore rfl).make fun before _ => ?_
  refine (Built.namedNode .identifier hafter rfl).make fun after _ => .rotate ?_
  exact (Built.attachFree before hnode).join fun node hnode => .swap (.attachFree after hnode)

theorem alteration_makes {t : Token} (ht : T.known t) : T.Makes (alteration T.self t) := by
  unfold alteration
  split
  · refine (Built.consumeKeyword _).read fun b _ => ?_
    cases b
    · exact renameColumn_makes ht
    · exact renameTable_makes ht
  · refine (Built.consumeKeyword _).discard.read fun _ _ => ?_
    refine (Built.node .addColumn ht rfl).make fun node hnode => ?_
    exact columnDefinition_makes.make fun column _ => .attachFree column hnode
  · refine (Built.consumeKeyword _).discard.read fun _ _ => ?_
    refine (Built.expectName _).read fun name hname => ?_
    exact (Built.bareNode .dropColumn ht rfl).make fun node hnode => .setBare hnode hname
  · exact .fail rfl ht

theorem alter_makes : T.Makes (alter T.self) := by
  unfold alter
  refine (Built.expectKeyword _).read fun start hs => ?_
  refine (Built.expectKeyword _).discard.read fun _ _ => ?_
  refine (Built.node .alterTableStmt hs rfl).make fun statement h => ?_
  refine (objectName_makes rfl).make fun table _ => ?_
  refine (Built.attachFree table h).join fun statement h => Built.advance.read fun o ho => ?_
  rcases o with _ | t
  · exact .unexpected _
  refine (alteration_makes (ho t rfl)).make fun change hchange => ?_
  refine (Built.finish hchange).grow fun change _ => ?_
  exact (Built.attachFree change h).join fun statement h => .finish h

theorem truncate_makes : T.Makes truncate := by
  unfold truncate
  refine (Built.expectKeyword _).read fun start hs => ?_
  refine (Built.consumeKeyword _).discard.read fun _ _ => ?_
  refine (Built.node .truncateStmt hs rfl).make fun statement h => ?_
  refine (objectName_makes rfl).make fun table _ => ?_
  exact (Built.attachFree table h).join fun statement h => .finish h

end Schema

namespace Statement

theorem afterWith_grows (clause : Tree) : T.Grows clause (afterWith T.self clause) := by
  unfold afterWith
  refine Built.currentKind.read fun o _ => ?_
  split
  · exact Change.insert_makes.make fun statement h => .swap (.prependFree clause h)
  · exact Change.insert_makes.make fun statement h => .swap (.prependFree clause h)
  · exact Change.update_makes.make fun statement h => .swap (.prependFree clause h)
  · exact Change.delete_makes.make fun statement h => .swap (.prependFree clause h)
  · exact Query.afterWith_grows clause

theorem extension_makes {t : Token} (ht : T.known t) (k : Keyword) :
    T.Makes (extension T.self t k) := by
  unfold extension
  refine .askIf (c := Config.allowExtensions) .allow (fun _ => ?_) fun _ => .fail rfl ht
  split
  · exact Utility.pragma_makes
  · exact Utility.vacuum_makes
  · exact Utility.attachDatabase_makes
  · exact Utility.detachDatabase_makes
  · exact Utility.upkeep_makes rfl _

theorem ofKeyword_makes {t : Token} (ht : T.known t) (k : Keyword) :
    T.Makes (ofKeyword T.self t k) := by
  unfold ofKeyword
  split
  · exact query_makes
  · exact query_makes
  · exact Query.withClause_makes.make fun clause _ => afterWith_grows clause
  · exact Change.insert_makes
  · exact Change.insert_makes
  · exact Change.update_makes
  · exact Change.delete_makes
  · exact Schema.create_makes
  · exact Schema.drop_makes
  · exact Schema.alter_makes
  · exact Schema.truncate_makes
  · exact Utility.begin_makes
  · exact Utility.begin_makes
  · exact Utility.commit_makes
  · exact Utility.commit_makes
  · exact Utility.rollback_makes
  · exact Utility.savepoint_makes
  · exact Utility.release_makes
  · exact Utility.explain_makes
  · exact Utility.setting_makes
  · exact extension_makes ht _
  · exact extension_makes ht _
  · exact extension_makes ht _
  · exact extension_makes ht _
  · exact extension_makes ht _
  · exact Utility.upkeep_makes rfl _
  · exact .unexpected _

end Statement

theorem statement_makes : T.Makes (SqlSyntax.statement T.self) := by
  unfold SqlSyntax.statement
  refine .deeper (Built.current.read fun o ho => ?_)
  rcases o with _ | t
  · exact .unexpected _
  dsimp only
  split
  · exact Statement.ofKeyword_makes (ho t rfl) _
  · exact .unexpected _

end SqlSyntax
