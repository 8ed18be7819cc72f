import SqlSyntax.Proofs.Sequel.Name

/-!
# Tokens behind expressions

An expression ends with one of its operands or with the last word of a type. So behind it, it looks
for what goes on that operand and for operators, none of which a sequel begins with. What stands in
parentheses, or before a keyword of the construct, has a token of the construct behind it, and may
look for anything.
-/

namespace SqlSyntax

open SqlSyntax.Parser SqlSyntax.Sequel

variable {Z : Sequel} {whole : Prop} {ahead : List Token → Prop} {self self' : Nested}

namespace Expression

theorem nullsOrder_left (hwhole : whole → Z.Closes) (item : Tree) :
    Z.Stays whole (nullsOrder item) (nullsOrder item) := by
  unfold nullsOrder
  refine (Leaves.consumeKeyword (bars_of_closes hwhole nofun)).bind fun b => ?_
  cases b
  · exact .answer item
  · refine (Leaves.consumeKeyword (bars_of_closes hwhole nofun)).bind fun b => ?_
    cases b
    · exact (Takes.expectKeyword _).discard.leaves.bind fun _ => .flag item _
    · exact .flag item _

theorem orderByItem_takes (hself : Z.Serves self self') (hwhole : whole → Z.Closes) :
    Z.Takes whole Law.anything (orderByItem self) (orderByItem self') fun _ => Law.anything := by
  unfold orderByItem
  refine (hself.expression 0).bind fun key => ?_
  refine (Leaves.nodeOver _ key).bind fun item => ?_
  refine (Leaves.attach item key).bind fun item => ?_
  refine (direction_left hwhole item).bind fun item => ?_
  exact (nullsOrder_left hwhole item).bind fun item => .finish item

theorem orderBy_takes (hself : Z.Serves self self') (hwhole : whole → Z.Closes) :
    Z.Takes whole ahead (orderBy self) (orderBy self') fun _ => Law.anything := by
  unfold orderBy
  refine (Takes.expectKeyword .ORDER).bind fun t => ?_
  refine (Takes.expectKeyword .BY).discard.leaves.bind fun _ => ?_
  refine (Leaves.nodeAt _ t).bind fun clause => ?_
  refine (Leaves.within _ ?_).bind fun clause => .finish clause
  exact .attachList (bars_of_closes hwhole nofun) (orderByItem_takes hself hwhole).leaves clause

theorem enclosedQuery_takes (hself : Z.Serves self self') (node : Tree) :
    Z.Takes whole Law.anything (enclosedQuery self node) (enclosedQuery self' node)
      fun _ => Law.anything := by
  unfold enclosedQuery
  refine ((hself.query False.elim).within _).leaves.into fun query => ?_
  refine (Leaves.attach node query).into fun node => ?_
  exact (Takes.expect _ _).discard.bind fun _ => .finish node

theorem subquery_takes (hself : Z.Serves self self') (kind : Kind) (opening : Token) :
    Z.Takes whole Law.anything (subquery self kind opening) (subquery self' kind opening)
      fun _ => Law.anything := by
  unfold subquery
  refine (Leaves.nodeAt kind opening).into fun node => ?_
  exact (Leaves.flag node _).into fun node => enclosedQuery_takes hself node

theorem row_takes (hself : Z.Serves self self') (opening : Token) (first : Tree) :
    Z.Takes whole Law.anything (row self opening first) (row self' opening first)
      fun _ => Law.anything := by
  unfold row
  refine (Leaves.nodeAt _ opening).into fun node => ?_
  refine (Leaves.attach node first).into fun node => ?_
  refine (Leaves.attachWhile (.afterComma? bars_false (hself.expression 0).leaves) node).into ?_
  exact fun node => (Takes.expect _ _).discard.bind fun _ => .finish node

theorem enclosed_left (opening : Token) (inner : Tree) :
    Z.Stays whole (enclosed opening inner) (enclosed opening inner) := by
  unfold enclosed
  refine .askIf (c := Config.compactTree) (.flag inner _) ?_
  refine (Leaves.nodeAt _ opening).bind fun node => ?_
  exact (Leaves.attach node inner).bind fun node => .finish node

theorem parenthesized_takes (hself : Z.Serves self self') :
    Z.Takes whole ahead (parenthesized self) (parenthesized self') fun _ => Law.anything := by
  unfold parenthesized
  refine .deeper ((Takes.expect _ _).bind fun opening => ?_)
  refine Takes.leaves ((Leaves.seesOneOf _).into fun b => ?_)
  cases b
  · refine (hself.expression 0).leaves.into fun first => ?_
    refine (Leaves.sees bars_false).forget.into fun b => ?_
    cases b
    · exact (Takes.expect _ _).discard.bind fun _ => enclosed_left opening first
    · exact row_takes hself opening first
  · exact subquery_takes hself _ opening

theorem literal_left (kind : Kind) (t : Token) :
    Z.Stays whole (literal kind t) (literal kind t) := by
  unfold literal
  refine (Leaves.namedNode kind t).bind fun node => ?_
  split
  · exact .amend node _
  · exact .answer node

/-! ## Calls -/

theorem partition?_left (hself : Z.Serves self self') (node : Tree) :
    Z.Stays False (partition? self node) (partition? self' node) := by
  unfold partition?
  refine (Leaves.takeKeyword? bars_false).bind fun o => ?_
  rcases o with _ | t
  · exact .answer node
  · refine (Takes.expectKeyword .BY).discard.leaves.bind fun _ => ?_
    refine (Leaves.nodeAt _ t).bind fun clause => ?_
    refine (Leaves.attachList bars_false (hself.expression 0).leaves clause).bind fun clause => ?_
    exact (Leaves.finish clause).bind fun clause => .attach node clause

theorem window_left (hself : Z.Serves self self') (word : Token) :
    Z.Stays whole (window self word) (window self' word) := by
  unfold window
  refine (Leaves.sees (bars_of_goesOn rfl)).bind fun b => ?_
  cases b
  · refine (Takes.expectName _).leaves.bind fun name => ?_
    refine (Leaves.nodeAt _ word).bind fun node => ?_
    exact (Leaves.setText node name).bind fun node => .finish node
  · have htake : Z.Leaves False (fun ts => (true = true → ts.head?.map Token.kind =
        some .leftParen) ∧ Law.anything ts) (discard advance) (discard advance)
        fun _ => Law.anything :=
      (Leaves.advance (by simp) fun _ _ _ => trivial).discard
    refine Takes.leaves (htake.into fun _ => ?_)
    refine (Leaves.nodeAt _ word).into fun node => ?_
    refine (partition?_left hself node).into fun node => ?_
    refine (Leaves.sees bars_false).forget.into fun b => ?_
    refine (Leaves.attachIf b (orderBy_takes hself False.elim).leaves node).into fun node => ?_
    exact (Takes.expect _ _).discard.bind fun _ => .finish node

theorem over?_left (hself : Z.Serves self self') (node : Tree) :
    Z.Stays whole (over? self node) (over? self' node) := by
  unfold over?
  refine (Leaves.takeKeyword? (bars_of_goesOn rfl)).bind fun o => ?_
  rcases o with _ | word
  · exact .answer node
  · exact (window_left hself word).bind fun window => .attach node window

theorem arguments_left (hself : Z.Serves self self') (node : Tree) :
    Z.Stays False (arguments self node) (arguments self' node) := by
  unfold arguments
  refine (Leaves.consume bars_false).bind fun b => ?_
  cases b
  · refine (Leaves.sees bars_false).forget.bind fun b => ?_
    cases b
    · refine (Leaves.consumeKeyword bars_false).bind fun distinct => ?_
      refine (Leaves.flagIf distinct _ node).bind fun node => ?_
      exact .within _ (.attachList bars_false (hself.expression 0).leaves node)
    · exact .answer node
  · exact .flag node _

theorem call_takes (hself : Z.Serves self self') :
    Z.Takes whole ahead (call self) (call self') fun _ => Law.anything := by
  unfold call
  refine Takes.advance (P := Law.anything) (Takes.unexpected_ne _) (fun _ _ _ => trivial) ?_
  intro name
  refine (Leaves.namedNode _ name).bind fun node => ?_
  refine (Takes.expect _ _).discard.leaves.bind fun _ => ?_
  refine Takes.leaves ((arguments_left hself node).into fun node => ?_)
  refine (Takes.expect _ _).discard.bind fun _ => ?_
  exact (over?_left hself node).bind fun node => .finish node

theorem setType_left (node : Tree) :
    Z.Leaves whole (fun ts => whole → Unspoken Z ts) (setType node) (setType node)
      fun _ => Law.anything := by
  unfold setType
  refine typeName_left.bind ?_
  rintro ⟨text, dataType⟩
  exact .amend node _

theorem cast_takes (hself : Z.Serves self self') :
    Z.Takes whole ahead (cast self) (cast self') fun _ => Law.anything := by
  unfold cast
  refine (Takes.expectKeyword .CAST).bind fun t => ?_
  refine Takes.leaves ((Leaves.nodeAt _ t).into fun node => ?_)
  refine (Takes.expect _ _).discard.leaves.into fun _ => ?_
  refine ((hself.expression 0).within _).leaves.into fun inner => ?_
  refine (Leaves.attach node inner).into fun node => ?_
  refine (Takes.expectKeyword .AS).discard.leaves.into fun _ => ?_
  refine ((setType_left node).after fun _ _ => False.elim).into fun node => ?_
  exact (Takes.expect _ _).discard.bind fun _ => .finish node

theorem extract_takes (hself : Z.Serves self self') :
    Z.Takes whole ahead (extract self) (extract self') fun _ => Law.anything := by
  unfold extract
  refine (Takes.expectKeyword .EXTRACT).bind fun t => ?_
  refine (Leaves.nodeAt _ t).bind fun node => ?_
  refine (Takes.expect _ _).discard.leaves.bind fun _ => ?_
  refine (Takes.expectNamePart _).leaves.bind fun field => ?_
  refine (Leaves.setText node field).bind fun node => ?_
  refine (Takes.expectKeyword .FROM).discard.leaves.bind fun _ => ?_
  refine ((hself.expression 0).within _).leaves.bind fun inner => ?_
  refine (Leaves.attach node inner).bind fun node => ?_
  exact (Takes.expect _ _).discard.leaves.bind fun _ => .finish node

/-! ## Cases -/

theorem whenArm?_left (hself : Z.Serves self self') (n : Nat) :
    Z.Leaves False (·.length ≤ n) (whenArm? self) (whenArm? self') fun o ts =>
      o.isSome → ts.length < n := by
  unfold whenArm?
  refine (Leaves.take?_short bars_false n).bind fun o => ?_
  rcases o with _ | t
  · exact .pure fun _ _ => nofun
  · have harm : Z.Stays False (do
        let arm ← nodeAt .whenClause t
        let condition ← self.expression 0
        discard <| expectKeyword .THEN
        let result ← self.expression 0
        return some (← finish (← attach (← attach arm condition) result))) (do
        let arm ← nodeAt .whenClause t
        let condition ← self'.expression 0
        discard <| expectKeyword .THEN
        let result ← self'.expression 0
        return some (← finish (← attach (← attach arm condition) result))) := by
      refine (Leaves.nodeAt _ t).bind fun arm => ?_
      refine (hself.expression 0).leaves.bind fun condition => ?_
      refine (Takes.expectKeyword .THEN).discard.leaves.bind fun _ => ?_
      refine (hself.expression 0).leaves.bind fun result => ?_
      refine (Leaves.attach arm condition).bind fun arm => ?_
      refine (Leaves.attach arm result).bind fun arm => ?_
      exact (Leaves.finish arm).bind fun arm => .answer _
    exact ((harm.short n).after fun _ h => ⟨trivial, h.2 rfl⟩).weaken fun _ _ h _ => h

theorem otherwise?_left (hself : Z.Serves self self') (node : Tree) :
    Z.Stays False (otherwise? self node) (otherwise? self' node) := by
  unfold otherwise?
  refine (Leaves.takeKeyword? bars_false).bind fun o => ?_
  rcases o with _ | t
  · exact .answer node
  · refine (Leaves.nodeAt _ t).bind fun clause => ?_
    refine (hself.expression 0).leaves.bind fun result => ?_
    refine (Leaves.attach clause result).bind fun clause => ?_
    exact (Leaves.finish clause).bind fun clause => .attach node clause

theorem arms_left (hself : Z.Serves self self') (node : Tree) :
    Z.Stays False (arms self node) (arms self' node) := by
  unfold arms
  refine (Leaves.ofShort (whenArm?_left hself)).bind fun o => ?_
  rcases o with _ | arm
  · exact .unexpected _
  · refine (Leaves.attach node arm).bind fun node => ?_
    exact .attachWhile (whenArm?_left hself) node

theorem caseOf_takes (hself : Z.Serves self self') :
    Z.Takes whole ahead (caseOf self) (caseOf self') fun _ => Law.anything := by
  unfold caseOf
  refine (Takes.expectKeyword .CASE).bind fun t => ?_
  refine (Leaves.nodeAt _ t).bind fun node => ?_
  refine (Leaves.within _ (Takes.leaves ?_)).bind fun node => .finish node
  refine (Leaves.sees bars_false).forget.into fun b => ?_
  refine (Leaves.attachIf _ (hself.expression 0).leaves node).into fun node => ?_
  refine (arms_left hself node).into fun node => ?_
  refine (otherwise?_left hself node).into fun node => ?_
  exact (Takes.expectKeyword .END).discard.bind fun _ => .answer node

/-! ## Calls with their own syntax -/

theorem existence_takes (hself : Z.Serves self self') :
    Z.Takes whole ahead (existence self) (existence self') fun _ => Law.anything := by
  unfold existence
  refine (Takes.expectKeyword .EXISTS).bind fun t => ?_
  refine (Leaves.nodeAt _ t).bind fun node => ?_
  refine (Takes.expect _ _).discard.leaves.bind fun _ => ?_
  exact (enclosedQuery_takes hself node).leaves

theorem position_takes (hself : Z.Serves self self') :
    Z.Takes whole ahead (position self) (position self') fun _ => Law.anything := by
  unfold position
  refine Takes.advance (P := Law.anything) (Takes.unexpected_ne _) (fun _ _ _ => trivial) ?_
  intro t
  refine (Leaves.nodeAt _ t).bind fun node => ?_
  refine (Takes.expect _ _).discard.leaves.bind fun _ => ?_
  refine Leaves.bind (?_ : Z.Stays whole _ _) fun node => ?_
  · refine .within _ ((hself.expression _).leaves.bind fun needle => ?_)
    refine (Takes.expectKeyword .IN).discard.leaves.bind fun _ => ?_
    refine (hself.expression 0).leaves.bind fun haystack => ?_
    exact (Leaves.attach node needle).bind fun node => .attach node haystack
  · exact (Takes.expect _ _).discard.leaves.bind fun _ => .finish node

theorem substringArguments_left (hself : Z.Serves self self') (node : Tree) :
    Z.Stays False (substringArguments self node) (substringArguments self' node) := by
  unfold substringArguments
  refine (hself.expression 0).leaves.bind fun text => ?_
  refine (Leaves.attach node text).bind fun node => ?_
  refine (Leaves.consumeKeyword bars_false).bind fun b => ?_
  cases b
  · refine (Takes.expect _ _).discard.leaves.bind fun _ => ?_
    refine (hself.expression 0).leaves.bind fun start => ?_
    refine (Leaves.attach node start).bind fun node => ?_
    exact (Leaves.consume bars_false).bind fun b => .attachIf b (hself.expression 0).leaves node
  · refine (hself.expression 0).leaves.bind fun start => ?_
    refine (Leaves.attach node start).bind fun node => ?_
    exact (Leaves.consumeKeyword bars_false).bind fun b =>
      .attachIf b (hself.expression 0).leaves node

theorem substring_takes (hself : Z.Serves self self') :
    Z.Takes whole ahead (substring self) (substring self') fun _ => Law.anything := by
  unfold substring
  refine Takes.advance (P := Law.anything) (Takes.unexpected_ne _) (fun _ _ _ => trivial) ?_
  intro t
  refine (Leaves.nodeAt _ t).bind fun node => ?_
  refine (Takes.expect _ _).discard.leaves.bind fun _ => ?_
  refine Takes.leaves (((substringArguments_left hself node).within _).into fun node => ?_)
  exact (Takes.expect _ _).discard.bind fun _ => .finish node

theorem named_left (hself : Z.Serves self self') (t : Token) :
    Z.Leaves whole (fun ts => ts.head? = some t ∧ ahead ts) (named self t) (named self' t)
      fun _ => Law.anything := by
  unfold named
  refine Leaves.kindAt_one (fun kind hkind => ?_) fun o => ?_
  · have hparen : kind ≠ .leftParen := by
      rintro rfl
      cases hkind
    simp [hparen]
  · split
    · exact (columnReference_takes false).leaves
    · split
      · exact (position_takes hself).leaves
      · split
        · exact (substring_takes hself).leaves
        · exact (call_takes hself).leaves

theorem primary_takes (hself : Z.Serves self self') :
    Z.Takes whole ahead (primary self) (primary self') fun _ => Law.anything := by
  have hcall (t : Token) : Z.Leaves whole (fun ts => ts.head? = some t ∧ ahead ts)
      (do if (← kindAt 1) == some .leftParen then call self else unexpected "expression")
      (do if (← kindAt 1) == some .leftParen then call self' else unexpected "expression")
      fun _ => Law.anything := by
    refine Leaves.kindAt_one (fun kind hkind => ?_) fun o => ?_
    · have hparen : kind ≠ .leftParen := by
        rintro rfl
        cases hkind
      simp [hparen]
    · split
      · exact (call_takes hself).leaves
      · exact .unexpected _
  unfold primary
  refine Leaves.current (Takes.unexpected_ne _) fun t => ?_
  dsimp only
  split
  · exact (Leaves.takeSeen fun _ _ _ => trivial).bind fun _ => literal_left _ t
  · split
    · exact (parenthesized_takes hself).leaves
    · exact (caseOf_takes hself).leaves
    · exact (cast_takes hself).leaves
    · exact (extract_takes hself).leaves
    · exact (existence_takes hself).leaves
    · exact hcall t
    · exact hcall t
    · split
      · exact named_left hself t
      · exact .unexpected _

/-! ## Operators -/

theorem unary_takes (hself : Z.Serves self self') (t : Token) (power : Nat) :
    Z.Takes whole Law.anything (unary self t power) (unary self' t power)
      fun _ => Law.anything := by
  unfold unary
  refine (hself.expression power).bind fun inner => ?_
  refine (Leaves.nodeAt _ t).bind fun node => ?_
  refine (Leaves.amend node _).bind fun node => ?_
  exact (Leaves.attach node inner).bind fun node => .finish node

theorem operand_takes (hself : Z.Serves self self') :
    Z.Takes whole ahead (operand self) (operand self') fun _ => Law.anything := by
  unfold operand
  refine Leaves.current (Takes.unexpected_ne _) fun t => ?_
  dsimp only
  split
  · exact (primary_takes hself).leaves
  · refine (Leaves.takeSeen (P := Law.anything) fun _ _ _ => trivial).bind fun _ => ?_
    refine Takes.leaves ((Leaves.sees bars_false).forget.into fun b => ?_)
    split
    · exact (existence_takes hself).bind fun node => .flag node _
    · exact unary_takes hself t _

theorem listItems_left (hself : Z.Serves self self') (list : Tree) :
    Z.Stays False (listItems self list) (listItems self' list) := by
  unfold listItems
  refine (Leaves.sees bars_false).forget.bind fun b => ?_
  cases b
  · exact .attachList bars_false (hself.expression 0).leaves list
  · exact .answer list

theorem memberList_takes (hself : Z.Serves self self') (opening : Token) :
    Z.Takes whole Law.anything (memberList self opening) (memberList self' opening)
      fun _ => Law.anything := by
  unfold memberList
  refine (Leaves.nodeAt _ opening).into fun list => ?_
  refine (listItems_left hself list).into fun list => ?_
  exact (Takes.expect _ _).discard.bind fun _ => .finish list

theorem membership_left (hself : Z.Serves self self') (left : Tree) :
    Z.Stays whole (membership self left) (membership self' left) := by
  unfold membership
  refine (Leaves.nodeOver _ left).bind fun node => ?_
  refine (Leaves.attach node left).bind fun node => ?_
  refine (Takes.expect _ _).leaves.bind fun opening => ?_
  refine Takes.leaves ((Leaves.seesOneOf _).into fun b => ?_)
  cases b
  · exact (memberList_takes hself opening).bind fun list => .attach node list
  · exact (subquery_takes hself _ opening).bind fun query => .attach node query

theorem range_left (hself : Z.Serves self self') (left : Tree) (power : Nat) :
    Z.Stays whole (range self left power) (range self' left power) := by
  unfold range
  refine (Leaves.nodeOver _ left).bind fun node => ?_
  refine (hself.expression power).leaves.bind fun low => ?_
  refine (Takes.expectKeyword .AND).discard.leaves.bind fun _ => ?_
  refine (hself.expression power).leaves.bind fun high => ?_
  refine (Leaves.attach node left).bind fun node => ?_
  exact (Leaves.attach node low).bind fun node => .attach node high

theorem setOperator_left (node : Tree) (op : BinaryOp) :
    Z.Stays whole (setOperator node op) (setOperator node op) :=
  .amend node _

theorem likeness_left (hself : Z.Serves self self') (left : Tree) (op : BinaryOp) (power : Nat) :
    Z.Stays whole (likeness self left op power) (likeness self' left op power) := by
  unfold likeness
  refine (Leaves.nodeOver _ left).bind fun node => ?_
  refine (setOperator_left node op).bind fun node => ?_
  refine (hself.expression power).leaves.bind fun pattern => ?_
  refine (Leaves.attach node left).bind fun node => ?_
  refine (Leaves.attach node pattern).bind fun node => ?_
  exact (Leaves.consumeKeyword (bars_of_goesOn rfl)).bind fun b =>
    .attachIf b (hself.expression power).leaves node

theorem identity_left (hself : Z.Serves self self') (left : Tree) (power : Nat) :
    Z.Stays whole (identity self left power) (identity self' left power) := by
  unfold identity
  refine (Leaves.nodeOver _ left).bind fun node => ?_
  refine (setOperator_left node .is).bind fun node => ?_
  refine (Leaves.consumeKeyword (bars_of_goesOn rfl)).bind fun negated => ?_
  refine (hself.expression power).leaves.bind fun right => ?_
  refine (Leaves.attach node left).bind fun node => ?_
  exact (Leaves.attach node right).bind fun node => .flagIf negated _ node

theorem binary_left (hself : Z.Serves self self') (left : Tree) (t : Token) (power : Nat) :
    Z.Stays whole (binary self left t power) (binary self' left t power) := by
  unfold binary
  refine .askIf (c := fun c => c.strictAnsi && (t.text == "==" || t.text == "!=")) (.fail _) ?_
  split
  · exact .fail _
  · next op _ =>
    refine (hself.expression power).leaves.bind fun right => ?_
    refine (Leaves.nodeOver _ left).bind fun node => ?_
    refine (setOperator_left node op).bind fun node => ?_
    exact (Leaves.attach node left).bind fun node => .attach node right

theorem application_left (hself : Z.Serves self self') (left : Tree) (op : Token) (power : Nat) :
    Z.Stays whole (application self left op power) (application self' left op power) := by
  unfold application
  split
  · exact membership_left hself left
  · exact range_left hself left power
  · exact likeness_left hself left .like power
  · exact likeness_left hself left .glob power
  · exact identity_left hself left power
  · exact binary_left hself left op power

theorem joining_left (hself : Z.Serves self self') (left : Tree) (t : Token) (power n : Nat) :
    Z.Leaves whole (fun ts => ts.head? = some t ∧ ts.length ≤ n) (joining self left t power)
      (joining self' left t power) fun _ ts => ts.length < n := by
  unfold joining
  have hjoined {p p' : Parser Tree} (h : Z.Stays whole p p') :
      Z.Leaves whole (·.length < n) p p' fun _ ts => ts.length < n :=
    (h.short n).after fun _ hless => ⟨trivial, hless⟩
  refine (Leaves.takeSeen (P := (·.length < n)) fun _ _ h => h).bind fun _ => hjoined ?_
  split
  · refine Takes.leaves (Takes.advance (P := Law.anything) (Takes.unexpected_ne _)
      (fun _ _ _ => trivial) fun op => ?_)
    refine (application_left hself left op power).bind fun node => ?_
    exact (Leaves.flag node _).bind fun node => .finish node
  · exact (application_left hself left t power).bind fun node => .finish node

theorem signCast_left (left : Tree) (t : Token) :
    Z.Leaves whole (fun ts => whole → Unspoken Z ts) (signCast left t) (signCast left t)
      fun _ => Law.anything := by
  unfold signCast
  refine .askIf (c := fun c => c.strictAnsi || !c.allowExtensions) (.fail _) ?_
  refine (Leaves.nodeOver _ left).bind fun node => ?_
  refine (Leaves.attach node left).bind fun node => ?_
  exact (setType_left node).bind fun node => .finish node

theorem collation_left (left : Tree) : Z.Stays whole (collation left) (collation left) := by
  unfold collation
  refine (Takes.expectNamePart _).leaves.bind fun name => ?_
  refine (Leaves.nodeOver _ left).bind fun node => ?_
  refine (Leaves.setText node name).bind fun node => ?_
  exact (Leaves.attach node left).bind fun node => .finish node

/-- Behind `::`, a free sequel does not go on with the words of the type. -/
theorem unspoken_of_free {t : Token} {ts : List Token} (h : Z.Free (t :: ts))
    (ht : t.kind = .doubleColon) : Unspoken Z ts :=
  fun u hu hword hall => h u hu hword ⟨[], t, ts, rfl, ht, hall⟩

theorem trailing_left (left : Tree) (t : Token) (n : Nat) :
    Z.Leaves whole (fun ts => ts.head? = some t ∧ ts.length ≤ n) (trailing left t)
      (trailing left t) fun _ ts => ts.length < n := by
  unfold trailing
  by_cases ht : t.kind = .doubleColon
  · rw [if_pos (beq_iff_eq.2 ht)]
    have hsign (whole : Prop) : Z.Leaves whole
        (fun ts => ts.head? = some t ∧ ts.length ≤ n ∧ (whole → Z.Free ts))
        (do discard advance; signCast left t) (do discard advance; signCast left t)
        fun _ ts => ts.length < n := by
      refine (Leaves.advance (by simp) ?_).discard.bind fun _ => (signCast_left left t).short n
      rintro u ts ⟨hhead, hn, hfree⟩
      obtain rfl := Option.some.inj hhead
      exact ⟨fun hwhole => unspoken_of_free (hfree hwhole) ht, hn⟩
    refine Leaves.freely ((hsign False).after ?_) ((hsign whole).after ?_)
    · rintro ts ⟨hhead, hn⟩
      exact ⟨hhead, hn, False.elim⟩
    · rintro ts ⟨⟨hhead, hn⟩, hfree⟩
      exact ⟨hhead, hn, fun _ => hfree⟩
  · rw [if_neg (by simpa using ht)]
    refine (Leaves.takeSeen (P := (·.length < n)) fun _ _ h => h).bind fun _ => ?_
    exact ((collation_left left).short n).after fun _ hless => ⟨trivial, hless⟩

theorem joining?_of_goesOn (kind : TokenKind) {next : TokenKind} (h : next.goesOn = false) :
    Power.joining? kind (some next) = Power.joining? kind none := by
  have hnegates : Power.negates (some next) = false := by
    unfold Power.negates
    split
    all_goals first
      | rfl
      | next hnext => cases hnext; cases h
  unfold Power.joining?
  split <;> first | rfl | rw [hnegates]; rfl

/-- No operator begins the sequel. -/
theorem stops_tokens (Z : Sequel) (power : Nat) : Power.Stops power Z.tokens := by
  rintro p hp
  obtain ⟨t, ts, htokens⟩ : ∃ t ts, Z.tokens = t :: ts := by
    rcases htokens : Z.tokens with _ | ⟨t, ts⟩
    · rw [htokens] at hp
      cases hp
    · exact ⟨t, ts, rfl⟩
  have hstops := Z.stops t (by rw [htokens]; rfl)
  rw [htokens, Power.ahead?, Option.mem_def, Option.or_eq_some_iff] at hp
  rcases hp with htrailing | ⟨-, hjoining⟩
  · rw [TokenKind.goesOn_of_trailing? htrailing] at hstops
    cases hstops
  · obtain ⟨powers, hpowers, -⟩ := Option.map_eq_some_iff.1 hjoining
    rw [TokenKind.goesOn_of_joining? hpowers] at hstops
    cases hstops

theorem grow?_left (hself : Z.Serves self self') (power n : Nat) (left : Tree) :
    Z.Leaves whole (·.length ≤ n) (grow? self power left) (grow? self' power left) fun o ts =>
      o.isSome → ts.length < n := by
  have hnone {ahead : List Token → Prop} : Z.Leaves whole ahead (pure (none : Option Tree))
      (pure none) fun o ts => o.isSome → ts.length < n := .pure fun _ _ => nofun
  have hsome {p p' : Parser Tree} {ahead : List Token → Prop}
      (h : Z.Leaves whole ahead p p' fun _ ts => ts.length < n) :
      Z.Leaves whole ahead (do return some (← p)) (do return some (← p')) fun o ts =>
        o.isSome → ts.length < n := h.bind fun _ => .pure fun _ hless _ => hless
  intro scope s
  rcases hs : s.rest.head? with _ | t
  · intro a r hn hrun
    have hnil : s.rest = [] := List.head?_eq_none_iff.1 hs
    rw [grow?_of_stops (hnil ▸ Power.stops_nil power)] at hrun
    cases hrun
    refine ⟨List.suffix_rfl, nofun, fun _ s' hs' => ⟨s', grow?_of_stops ?_, hs'⟩⟩
    rw [hs'.rest, hnil, List.nil_append]
    exact stops_tokens Z power
  · have hgrow : Z.Leaves whole (fun ts => ts.head? = some t ∧ ts.length ≤ n)
        (grow? self power left) (grow? self' power left) fun o ts => o.isSome → ts.length < n := by
      unfold grow?
      refine .currentSeen ?_
      dsimp only
      split
      · split
        · exact hnone
        · exact hsome (trailing_left left t n)
      · refine .kindAt_one (fun kind hkind => by rw [joining?_of_goesOn t.kind hkind]) fun o => ?_
        split
        · split
          · exact hnone
          · exact hsome (joining_left hself left t _ n)
        · exact hnone
    exact fun a r hn => hgrow scope s a r ⟨hs, hn⟩

end Expression

theorem expression_takes {Z : Sequel} {whole : Prop} {self self' : Nested}
    (hself : Z.Serves self self') (power : Nat) :
    Z.Takes whole Law.anything (expression self power) (expression self' power)
      fun _ => Law.anything := by
  unfold expression
  refine .deeper ((Expression.operand_takes hself).bind fun t => ?_)
  refine .iterate (fun n left => ?_) t
  exact ((Expression.grow?_left hself power n left).after fun _ h => h.2).weaken
    fun _ _ h => ⟨trivial, h⟩

end SqlSyntax
