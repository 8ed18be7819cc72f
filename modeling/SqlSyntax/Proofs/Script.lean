import SqlSyntax.Grammar.Script
import SqlSyntax.Proofs.Law

/-!
# Runs over scripts

The productions between the statements of a script are put together from the steps of `Built` too,
with the statement as the only production that they call. The nesting that a statement may use
depends on the tokens that are left, so what holds of it is shown for every nesting.
-/

namespace SqlSyntax

open SqlSyntax.Parser

/-- What is skipped and what is left are the tokens that there were. -/
theorem Script.skipFrom_append (depth : Nat) (first : Bool) (ts : List Token) :
    (skipFrom depth first ts).1 ++ (skipFrom depth first ts).2 = ts := by
  induction ts generalizing depth first with
  | nil => rfl
  | cons t ts ih =>
    unfold skipFrom
    split
    · rfl
    · dsimp only
      split
      · exact congrArg (t :: ·) (ih _ _)
      · exact congrArg (t :: ·) (ih _ _)
      · split
        · rfl
        · exact congrArg (t :: ·) (ih _ _)
      · exact congrArg (t :: ·) (ih _ _)

/-! ## The productions between statements -/

namespace Script

/-- What the productions between statements call. -/
def nested : Nested := { Nested.upTo 0 with statement := nextStatement }

variable {T : Terms}

theorem skipSemicolons_reads : T.Reads skipSemicolons fun _ => True :=
  (Built.many (Built.take? _)).discard

section

variable (h : T.self.statement = nextStatement)

include h

theorem nextStatement_yields : T.Yields nextStatement := h ▸ Built.statement

theorem single_yields : T.Yields single := by
  refine skipSemicolons_reads.read fun _ _ => Built.atEnd.read fun b _ => ?_
  cases b
  · refine (nextStatement_yields h).make fun root _ => ?_
    refine skipSemicolons_reads.read fun _ _ => Built.atEnd.read fun b _ => ?_
    cases b
    · exact .unexpected _
    · exact .keep trivial
  · exact .unexpected _

theorem next?_built : Built T [] next? perhaps fun _ => True := by
  refine skipSemicolons_reads.read fun _ _ => Built.atEnd.read fun b _ => ?_
  cases b
  · refine (nextStatement_yields h).make fun root _ => Built.atEnd.read fun b _ => ?_
    cases b
    · refine (Built.consume .semicolon).read fun b _ => ?_
      cases b
      · exact .unexpected _
      · exact .done perhaps (some root) trivial
    · exact .done perhaps (some root) trivial
  · exact .done perhaps none trivial

/-- The statements of a script are detached trees. -/
theorem all_built : Built T [] all id fun _ => True := by
  have hloop : Built T [] (iterate (fun items => do return (← next?).map (· :: items)) []) id
      fun _ => True := by
    refine .iterate id (fun items _ => ?_) trivial
    refine ((next?_built h).frame items).bind fun o _ => ?_
    rcases o with _ | t
    · exact .done (fun o : Option (List Tree) => id (o.getD items)) none nofun
    · exact .done (fun o : Option (List Tree) => id (o.getD items)) (some (t :: items))
        fun _ _ => trivial
  refine hloop.bind fun items _ => ?_
  have hreverse : Built T items.reverse (pure items.reverse) id fun _ => True :=
    .done id items.reverse trivial
  exact hreverse.reorder items.reverse_perm.symm

end

end Script

namespace Law

variable {L : Law} {ends : Nat → Tree → List Token → Prop} {known : Token → Prop}
  {bars : Kind → Bool} {hbars : ∀ k, k.isOperator = false → bars k = false}

section Runs

variable (hL : ∀ inner, L.Allows ⟨L.config, inner, known, bars, hbars⟩)
  (hserves : ∀ n, L.Serves ends (Nested.upTo n))

include hL hserves

/-- Whatever is put together from statements and steps keeps the law. -/
theorem keeps_of_built {α : Type} {pre : List Tree} {p : Parser α} {post : α → List Tree}
    {fact : α → Prop} (h : Built ⟨L.config, Script.nested, known, bars, hbars⟩ pre p post fact) :
    L.Keeps anything pre p post fun a _ => fact a := by
  obtain ⟨hexpression, hquery, hjoinTree, -⟩ := hserves 0
  have hnested : L.Serves ends Script.nested := ⟨hexpression, hquery, hjoinTree, ?_⟩
  · exact h.keeps (hL _) hnested
  intro scope others s hsource hconfig ha hs
  exact (hserves (s.rest.length + 1)).statement scope others s hsource hconfig ha hs

theorem single_keeps : L.Keeps anything [] Script.single one fun _ _ => True :=
  keeps_of_built hL hserves (Script.single_yields rfl)

theorem next?_keeps : L.Keeps anything [] Script.next? perhaps fun _ _ => True :=
  keeps_of_built hL hserves (Script.next?_built rfl)

theorem all_keeps : L.Keeps anything [] Script.all id fun _ _ => True :=
  keeps_of_built hL hserves (Script.all_built rfl)

end Runs

/-- Skipping tokens keeps the law. -/
theorem Allows.skipped {T : Terms} (hL : L.Allows T) {ts : List Tree} :
    ∀ (skipped left : List Token) (s : Progress), s.rest = skipped ++ left → L.Holds ts s →
      L.Holds ts { s with
        rest := left
        taken := s.taken + skipped.length
        lastEnd := (skipped.getLast?.map (·.span.stop)).getD s.lastEnd }
  | [], left, s, hrest, hs => by
    subst hrest
    exact hs
  | t :: skipped, left, s, hrest, hs => by
    have h := hL.skipped skipped left _ rfl (hL.advanced hrest hs)
    have hlast : (((t :: skipped).getLast?).map (·.span.stop)).getD s.lastEnd =
        (skipped.getLast?.map (·.span.stop)).getD t.span.stop := by
      rw [List.getLast?_cons]
      cases skipped.getLast? <;> rfl
    have htaken : s.taken + (t :: skipped).length = s.taken + 1 + skipped.length := by
      rw [List.length_cons]
      omega
    rw [hlast, htaken]
    exact h

theorem Allows.synchronize {T : Terms} (hL : L.Allows T) :
    L.Keeps anything [] Script.synchronize silent fun _ _ => True := by
  intro scope others s _ _ _ hs
  exact ⟨trivial, hL.skipped _ _ s (Script.skipFrom_append 0 true s.rest).symm hs⟩

end Law

end SqlSyntax
