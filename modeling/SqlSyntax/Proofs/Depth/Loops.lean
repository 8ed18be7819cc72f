import SqlSyntax.Grammar.Script
import SqlSyntax.Proofs.Depth.Statement

/-!
# Loops of the grammar

A loop runs its step for as long as the step finds something, at most once more than there are
tokens. Each step of the grammar that finds something takes a token (`Nested.Loop.spends`). So a
loop ends where its step finds nothing or fails, and not because its rounds are counted
(`Nested.Loop.repeats`).
-/

namespace SqlSyntax

open SqlSyntax.Parser

variable {α β : Type}

namespace Parser

/-- A step again and again, up to a round that finds nothing or fails. Rounds are not counted. -/
inductive Repeats (step : α → Parser (Option α)) (scope : Scope) :
    α → Progress → EStateM.Result Failure Progress α → Prop
  | ends {a : α} {s r : Progress} (h : step a scope s = .ok none r) :
    Repeats step scope a s (.ok a r)
  | fails {a : α} {s r : Progress} {f : Failure} (h : step a scope s = .error f r) :
    Repeats step scope a s (.error f r)
  | again {a b : α} {s r : Progress} {x : EStateM.Result Failure Progress α}
    (h : step a scope s = .ok (some b) r) (hlater : Repeats step scope b r x) :
    Repeats step scope a s x

theorem iterateOver_repeats {step : α → Parser (Option α)} (hstep : ∀ a, Spends (step a))
    (scope : Scope) : ∀ {ts : List Token} (a : α) {s : Progress}, s.rest.length ≤ ts.length →
      Repeats step scope a s (iterateOver step ts a scope s) := by
  intro ts
  induction ts with
  | nil =>
    intro a s hs
    rcases hrun : step a scope s with ⟨_ | b, r⟩ | ⟨f, r⟩
    · rw [iterateOver_none hrun]
      exact .ends hrun
    · -- the step has taken a token, so there was one
      have htaken := (hstep a).taken hrun
      exact absurd hs (Nat.not_le.2 (Nat.zero_lt_of_lt htaken))
    · rw [iterateOver_error hrun]
      exact .fails hrun
  | cons t ts ih =>
    intro a s hs
    rcases hrun : step a scope s with ⟨_ | b, r⟩ | ⟨f, r⟩
    · rw [iterateOver_none hrun]
      exact .ends hrun
    · have htaken := (hstep a).taken hrun
      rw [iterateOver_some hrun]
      exact .again hrun (ih b (Nat.le_of_lt_succ (Nat.lt_of_lt_of_le htaken hs)))
    · rw [iterateOver_error hrun]
      exact .fails hrun

/-- If each round takes a token, there are enough of them. -/
theorem iterate_repeats {step : α → Parser (Option α)} (hstep : ∀ a, Spends (step a))
    (scope : Scope) (a : α) (s : Progress) : Repeats step scope a s (iterate step a scope s) :=
  iterateOver_repeats hstep scope a (Nat.le_refl _)

/-! ## Rounds that take a token -/

section Rounds

variable {scope : Scope} {s r : Progress} {levels : Nat} {p : Parser α}

/-- The parser is confined however many tokens are ahead. -/
theorem rest_le_of_confined (hp : ∀ n, Confined n levels 0 p p) {a : α}
    (hrun : p scope s = .ok a r) : r.rest.length ≤ s.rest.length := by
  have hrest := ((hp s.rest.length).run scope s (Nat.le_refl _)).2.rest
  rwa [hrun] at hrest

theorem rest_lt_of_discard_advance {k : Unit → Parser β} {t : Token} {rest : List Token} {b : β}
    (hk : ∀ n, Confined n levels 0 (k ()) (k ())) (hrest : s.rest = t :: rest)
    (hrun : (discard advance >>= k) scope s = .ok b r) : r.rest.length < s.rest.length := by
  rw [show discard advance >>= k = (do discard advance; k ()) from rfl,
    discard_advance_run hrest] at hrun
  have hle : r.rest.length ≤ rest.length := rest_le_of_confined hk hrun
  rw [hrest]
  exact Nat.lt_succ_of_le hle

theorem rest_lt_of_consume {kind : TokenKind} (hrun : consume kind scope s = .ok true r) :
    r.rest.length < s.rest.length := by
  obtain ⟨o, q, htake, hanswer⟩ := exists_of_bind hrun
  rcases o with _ | t
  · cases hanswer
  · cases hanswer
    exact (take?_spends kind).taken htake

theorem Takes.andThen {k : α → Parser β} (levels : Nat) (hp : Takes p)
    (hk : ∀ a n, Confined n levels 0 (k a) (k a)) : Takes (p >>= k) where
  taken h := by
    obtain ⟨a, q, hfirst, h⟩ := exists_of_bind h
    exact Nat.lt_of_le_of_lt (rest_le_of_confined (hk a) h) (hp.taken hfirst)

namespace Spends

theorem nothing : Spends (pure none : Parser (Option α)) := ⟨nofun⟩

theorem unexpected (what : String) : Spends (unexpected what : Parser (Option α)) :=
  ⟨fun h => absurd h (Script.unexpected_ne_ok what)⟩

variable {k : α → Parser (Option β)}

/-- The token is taken in a later step. -/
theorem later (levels : Nat) (hp : ∀ n, Confined n levels 0 p p) (hk : ∀ a, Spends (k a)) :
    Spends (p >>= k) where
  taken h := by
    obtain ⟨a, q, hfirst, h⟩ := exists_of_bind h
    exact Nat.lt_of_lt_of_le ((hk a).taken h) (rest_le_of_confined hp hfirst)

/-- The first step takes a token in any case. -/
theorem first (levels : Nat) (hp : Takes p) (hk : ∀ a n, Confined n levels 0 (k a) (k a)) :
    Spends (p >>= k) := ⟨(hp.andThen levels hk).taken⟩

/-- If the first step finds nothing, nothing is found. -/
theorem found {p : Parser (Option α)} {k : Option α → Parser (Option β)} (levels : Nat)
    (hp : Spends p) (hsome : ∀ a n, Confined n levels 0 (k (some a)) (k (some a)))
    (hnone : k none = pure none) : Spends (p >>= k) where
  taken h := by
    obtain ⟨o, q, hfirst, h⟩ := exists_of_bind h
    rcases o with _ | a
    · rw [hnone] at h
      cases h
    · exact Nat.lt_of_le_of_lt (rest_le_of_confined (hsome a) h) (hp.taken hfirst)

/-- The first step takes a token, or a later one does. -/
theorem split {p : Parser (Option α)} {k : Option α → Parser (Option β)} (levels : Nat)
    (hp : Spends p) (hle : ∀ n, Confined n levels 0 p p)
    (hsome : ∀ a n, Confined n levels 0 (k (some a)) (k (some a))) (hnone : Spends (k none)) :
    Spends (p >>= k) where
  taken h := by
    obtain ⟨o, q, hfirst, h⟩ := exists_of_bind h
    rcases o with _ | a
    · exact Nat.lt_of_lt_of_le (hnone.taken h) (rest_le_of_confined hle hfirst)
    · exact Nat.lt_of_le_of_lt (rest_le_of_confined (hsome a) h) (hp.taken hfirst)

end Spends

/-- If a token is ahead, each answer but `none` has taken one. -/
structure SpendsNext (p : Parser (Option α)) : Prop where
  taken : ∀ {scope : Scope} {s : Progress} {a : α} {r : Progress}, s.rest ≠ [] →
    p scope s = .ok (some a) r → r.rest.length < s.rest.length

namespace SpendsNext

theorem of_spends {p : Parser (Option α)} (h : Spends p) : SpendsNext p := ⟨fun _ => h.taken⟩

theorem advance {k : Unit → Parser (Option α)} (levels : Nat)
    (hk : ∀ n, Confined n levels 0 (k ()) (k ())) : SpendsNext (discard Parser.advance >>= k) where
  taken hne hrun := by
    obtain ⟨t, rest, hrest⟩ := List.exists_cons_of_ne_nil hne
    exact rest_lt_of_discard_advance hk hrest hrun

/-- A step that takes no token. -/
theorem look {p : Parser α} {k : α → Parser (Option β)}
    (hp : ∀ scope s, ∃ a, p scope s = .ok a s) (hk : ∀ a, SpendsNext (k a)) :
    SpendsNext (p >>= k) where
  taken {scope s _ _} hne hrun := by
    obtain ⟨a, hp⟩ := hp scope s
    rw [bind_ok hp] at hrun
    exact (hk a).taken hne hrun

/-- The first step takes a token, or a later one does. -/
theorem split {p : Parser (Option α)} {k : Option α → Parser (Option β)} (levels : Nat)
    (hp : SpendsNext p) (hle : ∀ n, Confined n levels 0 p p)
    (hsome : ∀ a n, Confined n levels 0 (k (some a)) (k (some a))) (hnone : Spends (k none)) :
    SpendsNext (p >>= k) where
  taken hne h := by
    obtain ⟨o, q, hfirst, h⟩ := exists_of_bind h
    rcases o with _ | a
    · exact Nat.lt_of_lt_of_le (hnone.taken h) (rest_le_of_confined hle hfirst)
    · exact Nat.lt_of_le_of_lt (rest_le_of_confined (hsome a) h) (hp.taken hne hfirst)

end SpendsNext

namespace Spends

/-- The next token is seen before it is taken. -/
theorem seen {k : Option Token → Parser (Option α)} (hnone : Spends (k none))
    (hsome : ∀ t, SpendsNext (k (some t))) : Spends (current >>= k) where
  taken {scope s _ _} hrun := by
    rw [bind_ok (show current scope s = .ok s.rest.head? s from rfl)] at hrun
    rcases hrest : s.rest with _ | ⟨t, rest⟩ <;> rw [hrest] at hrun
    · exact hrest ▸ hnone.taken hrun
    · exact hrest ▸ (hsome t).taken (hrest ▸ List.cons_ne_nil t rest) hrun

theorem seenKeyword {w : Keyword} {k : Bool → Parser (Option α)} (hfalse : Spends (k false))
    (htrue : SpendsNext (k true)) : Spends (seesKeyword w >>= k) where
  taken {scope s _ _} hrun := by
    rw [bind_ok (show seesKeyword w scope s =
      .ok (s.rest[0]?.map Token.kind == some (.keyword w)) s from rfl)] at hrun
    rcases hsees : s.rest[0]?.map Token.kind == some (.keyword w) <;> rw [hsees] at hrun
    · exact hfalse.taken hrun
    · refine htrue.taken (fun hnil => ?_) hrun
      rw [hnil] at hsees
      cases hsees

end Spends

end Rounds

/-- The step that puts one more child under a tree. -/
def attaching (next : Parser (Option Tree)) (parent : Tree) : Parser (Option Tree) := do
  match ← next with
  | some item => return some (← attach parent item)
  | none => return none

/-- The step that finds one item more. -/
def collecting (next : Parser (Option α)) (items : List α) : Parser (Option (List α)) := do
  return (← next).map (· :: items)

end Parser

/-! ## Loops -/

namespace Nested

/-- The productions that stand in lists with commas between them. -/
inductive Listed (self : Nested) : Parser Tree → Prop
  | expression : Listed self (self.expression 0)
  | table : Listed self self.joinTree
  | orderByItem : Listed self (Expression.orderByItem self)
  | resultColumn : Listed self (Query.resultColumn self)
  | valuesRow : Listed self (Query.valuesRow self)
  | commonTable : Listed self (Query.commonTable self)
  | assignment : Listed self (Change.assignment self)
  | tableElement : Listed self (Schema.tableElement self)
  | indexedColumn : Listed self (Schema.indexedColumn self)
  | columnName : Listed self columnName
  | directedColumn : Listed self (do direction (← columnName))
  | target : Listed self Change.target
  | name : Listed self (objectName .objectName)

/-- The steps of the loops. -/
inductive Loop (self : Nested) : {α : Type} → (α → Parser (Option α)) → Prop
  | operators (power : Nat) : Loop self (Expression.grow? self power)
  | arms : Loop self (attaching (Expression.whenArm? self))
  | joins : Loop self (Query.joined? self)
  | setOperators : Loop self (Query.combined? self)
  | changes : Loop self Schema.onChange?
  | constraints : Loop self (attaching (Schema.columnConstraint? self))
  | triggerStatements : Loop self (Schema.triggerStatement? self)
  | list {item : Parser Tree} (h : self.Listed item) : Loop self (attaching (afterComma? item))
  | typeWords : Loop self (collecting (takeIf? Token.isTypeWord))
  | semicolons : Loop self (collecting (take? .semicolon))
  | statements : Loop self (collecting Script.next?)

variable {levels : Nat} {self : Nested}

theorem Listed.confined (hself : ∀ n, Nested.Confined n levels self self) {item : Parser Tree}
    (h : self.Listed item) (n : Nat) : Parser.Confined n levels 0 item item := by
  have hself := hself n
  cases h <;> infer_instance

end Nested

section Steps

set_option synthInstance.maxSize 1000

variable {levels : Nat} {self : Nested} (hself : ∀ n, Nested.Confined n levels self self)

theorem Parser.attaching_spends {next : Parser (Option Tree)} (hnext : Spends next)
    (parent : Tree) : Spends (attaching next parent) :=
  .found 0 hnext (fun _ _ => inferInstance) rfl

theorem Parser.collecting_spends {next : Parser (Option α)} (hnext : Spends next)
    (items : List α) : Spends (collecting next items) :=
  .found 0 hnext (fun _ _ => inferInstance) rfl

theorem Parser.afterComma?_spends {item : Parser Tree} (h : ∀ n, Confined n levels 0 item item) :
    Spends (afterComma? item) where
  taken hrun := by
    obtain ⟨b, q, hcomma, hrun⟩ := exists_of_bind hrun
    cases b
    · cases hrun
    · have hitem : ∀ n, Confined n levels 0 (do return some (← item)) (do return some (← item)) :=
        fun _ => inferInstance
      exact Nat.lt_of_le_of_lt (rest_le_of_confined hitem hrun) (rest_lt_of_consume hcomma)

include hself

theorem Expression.whenArm?_spends : Spends (whenArm? self) := by
  unfold whenArm?
  exact .found levels inferInstance (fun _ _ => inferInstance) rfl

theorem Query.joined?_spends (left : Tree) : Spends (joined? self left) := by
  unfold joined?
  refine .later levels (fun _ => inferInstance) fun natural => ?_
  refine .later levels (fun _ => inferInstance) fun o => ?_
  rcases o with _ | ⟨kind, outer⟩
  · dsimp only
    split
    · exact .unexpected _
    · exact .nothing
  · exact .first levels inferInstance fun _ _ => inferInstance

omit hself in
theorem Query.setOperator?_spends : Spends setOperator? := by
  unfold setOperator?
  refine .split 0 inferInstance (fun _ => inferInstance) (fun _ _ => inferInstance) ?_
  exact .found 0 inferInstance (fun _ _ => inferInstance) rfl

theorem Query.combined?_spends (left : Tree) : Spends (combined? self left) := by
  unfold combined?
  exact .found levels setOperator?_spends (fun (_, _) _ => inferInstance) rfl

theorem Schema.triggerStatement?_spends (body : Tree) : Spends (triggerStatement? self body) := by
  unfold triggerStatement?
  refine .later levels (fun _ => inferInstance) fun b => ?_
  split
  · exact .nothing
  refine .later levels (fun _ => inferInstance) fun b => ?_
  split
  · exact .unexpected _
  refine .later levels (fun n => (hself n).statement) fun statement => ?_
  refine .later levels (fun _ => inferInstance) fun body => ?_
  exact .first levels inferInstance fun _ _ => inferInstance

omit hself in
theorem Schema.onChange?_spends (node : Tree) : Spends (onChange? node) := by
  unfold onChange?
  refine .seenKeyword .nothing (.look (fun _ _ => ⟨_, rfl⟩) fun o => ?_)
  split
  · exact .advance 0 fun _ => inferInstance
  · exact .advance 0 fun _ => inferInstance
  · exact .of_spends .nothing

omit hself in
theorem Schema.references_takes : Takes references := by
  unfold references
  exact .andThen 0 inferInstance fun _ _ => inferInstance

theorem Schema.columnConstraintBody?_spends (start : Token) (kind : TokenKind) :
    SpendsNext (columnConstraintBody? self start kind) := by
  unfold columnConstraintBody?
  split
  case h_8 => exact .of_spends (.first levels references_takes fun _ _ => inferInstance)
  case h_9 => exact .of_spends .nothing
  all_goals exact .advance levels fun _ => inferInstance

theorem Schema.columnConstraint?_spends : Spends (columnConstraint? self) := by
  unfold columnConstraint?
  refine .seen .nothing fun start => .of_spends ?_
  refine .later levels (fun _ => inferInstance) fun name => ?_
  refine .seen (.unexpected _) fun t => ?_
  refine .split levels (columnConstraintBody?_spends hself start t.kind)
    (fun _ => inferInstance) (fun _ _ => inferInstance) ?_
  dsimp only
  split
  · exact .unexpected _
  · exact .nothing

end Steps

namespace Nested

/-- Each level of calls opens at most two levels. -/
theorem upTo_confined (n k : Nat) : Nested.Confined n (2 * k) (upTo k) (upTo k) := by
  induction k with
  | zero => exact ⟨fun _ => .unexpected _, .unexpected _, .unexpected _, .unexpected _⟩
  | succ k ih =>
    rw [upTo_succ]
    exact {
      expression := fun power => (expression_confined power).given
      query := (query_confined.deepen (Nat.le_succ _)).given
      joinTree := (joinTree_confined.deepen (Nat.le_succ _)).given
      statement := statement_confined.given }

/-- A step of a loop that finds something has taken a token. -/
theorem Loop.spends {k : Nat} {step : α → Parser (Option α)} (h : (upTo k).Loop step) (a : α) :
    Spends (step a) := by
  have hself := fun n => upTo_confined n k
  cases h with
  | operators power => exact ⟨Expression.grow?_takes⟩
  | arms => exact attaching_spends (Expression.whenArm?_spends hself) a
  | joins => exact Query.joined?_spends hself a
  | setOperators => exact Query.combined?_spends hself a
  | changes => exact Schema.onChange?_spends a
  | constraints => exact attaching_spends (Schema.columnConstraint?_spends hself) a
  | triggerStatements => exact Schema.triggerStatement?_spends hself a
  | list hitem => exact attaching_spends (afterComma?_spends (hitem.confined hself)) a
  | typeWords => exact collecting_spends (takeIf?_spends _) a
  | semicolons => exact collecting_spends (take?_spends _) a
  | statements => exact collecting_spends ⟨Script.next?_takes⟩ a

theorem Loop.repeats {k : Nat} {step : α → Parser (Option α)} (h : (upTo k).Loop step)
    (scope : Scope) (a : α) (s : Progress) : Repeats step scope a s (iterate step a scope s) :=
  iterate_repeats h.spends scope a s

end Nested

end SqlSyntax
