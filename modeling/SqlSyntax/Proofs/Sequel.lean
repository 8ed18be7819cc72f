import SqlSyntax.Grammar.Statement
import SqlSyntax.Proofs.Sequel.Query

/-!
# What stands before a sequel

Tokens that are an expression on their own are the same expression before any sequel that is free of
them, and a query stays the same query before a closing parenthesis. The depth to which productions
call one another makes no difference: where one is enough, so is a greater one.
-/

namespace SqlSyntax

open SqlSyntax.Parser

namespace Sequel

/-- No production takes part in the sequel, and with more calls it goes the same way. -/
theorem serves (Z : Sequel) : ∀ {k k' : Nat}, k ≤ k' → Z.Serves (Nested.upTo k) (Nested.upTo k')
  | 0, _, _ => ⟨fun _ => .unexpected _, fun _ => .unexpected _, fun _ => .unexpected _⟩
  | k + 1, k' + 1, hle => by
    have hinner := Z.serves (Nat.le_of_succ_le_succ hle)
    exact ⟨expression_takes hinner, query_takes hinner, joinTree_takes hinner⟩

/-- No tokens. -/
def none : Sequel := ⟨[], nofun, rfl⟩

/-- A closing parenthesis and more. -/
def closing (t : Token) (rest : List Token) (h : t.kind = .rightParen)
    (hdot : rest.head?.map Token.kind ≠ some .dot) : Sequel where
  tokens := t :: rest
  stops := by
    rintro _ ⟨⟩
    rw [h]
    rfl
  noStar := by
    rcases rest with _ | ⟨u, rest⟩
    · rfl
    · have hu : u.kind ≠ .dot := by simpa using hdot
      simp [startsStar, hu]

theorem closing_closes {t : Token} {rest : List Token} (h : t.kind = .rightParen)
    (hdot : rest.head?.map Token.kind ≠ some .dot) : (closing t rest h hdot).Closes := by
  rintro _ ⟨⟩
  exact h

variable {Z : Sequel} {α : Type} {scope : Scope} {ts : List Token} {p p' : Parser α}
  {fact : α → Prop}

/-- A run that takes all of its tokens takes them before the sequel too. -/
theorem Takes.gives (h : Z.Takes True Law.anything p p' fun _ => Law.anything) (hfree : Z.Free ts)
    (hp : Gives scope ts p fun a r => fact a ∧ r = []) :
    Gives scope (ts ++ Z.tokens) p' fun a r => fact a ∧ r = Z.tokens := by
  intro s hs
  obtain ⟨a, r, hrun, ha, hr⟩ := hp { s with rest := ts } rfl
  obtain ⟨-, -, hsame⟩ := h.leaves scope { s with rest := ts } a r trivial hrun
  obtain ⟨r', hr', hfollowed⟩ := hsame (.inr ⟨trivial, hfree⟩) s ⟨hs, rfl, rfl, rfl⟩
  exact ⟨a, r', hr', ha, by rw [hfollowed.rest, hr, List.nil_append]⟩

end Sequel

section Before

variable {Z : Sequel} {scope : Scope} {ts : List Token} {fact : Tree → Prop} {k k' : Nat}

/-- An expression is the same before a sequel that is free of it. -/
theorem Parser.Gives.expression_before (hfree : Z.Free ts) (hk : k ≤ k') {power : Nat}
    (h : Gives scope ts ((Nested.upTo k).expression power) fun u r => fact u ∧ r = []) :
    Gives scope (ts ++ Z.tokens) ((Nested.upTo k').expression power) fun u r =>
      fact u ∧ r = Z.tokens :=
  ((Z.serves hk).expression power).gives hfree h

/-- Where some calls are enough for an expression, so are more. -/
theorem Parser.Gives.expression_mono (hk : k ≤ k') {power : Nat}
    (h : Gives scope ts ((Nested.upTo k).expression power) fun u r => fact u ∧ r = []) :
    Gives scope ts ((Nested.upTo k').expression power) fun u r => fact u ∧ r = [] := by
  have hsame := h.expression_before (Z := .none) nofun hk
  rwa [show ts ++ Sequel.none.tokens = ts from List.append_nil ts] at hsame

/-- A query is the same before a closing parenthesis. -/
theorem Parser.Gives.query_before (hcloses : Z.Closes) (hk : k ≤ k')
    (h : Gives scope ts (Nested.upTo k).query fun u r => fact u ∧ r = []) :
    Gives scope (ts ++ Z.tokens) (Nested.upTo k').query fun u r => fact u ∧ r = Z.tokens := by
  refine ((Z.serves hk).query fun _ => hcloses).gives (fun t ht hword => ?_) h
  have hkind := hcloses t ht
  simp [Token.isTypeWord, hkind] at hword

end Before

end SqlSyntax
