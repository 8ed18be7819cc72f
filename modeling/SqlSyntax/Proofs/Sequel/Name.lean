import SqlSyntax.Grammar.Name
import SqlSyntax.Grammar.TypeName
import SqlSyntax.Proofs.Sequel.Steps

/-!
# Tokens behind names

A name looks for a dot behind it, and a type for more words and its numbers. Where a list or an
alias may come, more is looked for, but never a closing parenthesis.
-/

namespace SqlSyntax

open SqlSyntax.Parser SqlSyntax.Sequel

variable {Z : Sequel} {whole : Prop} {ahead : List Token → Prop}

theorem dottedParts_left (what : String) :
    ∀ n, Z.Stays whole (dottedParts what n) (dottedParts what n)
  | 0 => .answer _
  | n + 1 => by
    unfold dottedParts
    refine (Leaves.consume (bars_of_goesOn rfl)).bind fun b => ?_
    cases b
    · exact .answer _
    · refine (Takes.expectNamePart what).leaves.bind fun part => ?_
      exact (dottedParts_left what n).bind fun _ => .answer _

theorem objectName_takes (kind : Kind) :
    Z.Takes whole ahead (objectName kind) (objectName kind) fun _ => Law.anything := by
  unfold objectName
  refine (Takes.expectName "name").bind fun first => ?_
  refine (dottedParts_left "name" 2).bind fun others => ?_
  refine (Leaves.nodeAt kind first).bind fun node => ?_
  refine (Leaves.tokenTexts _).bind fun texts => ?_
  exact (Leaves.amend node _).bind fun node => .finish node

theorem columnStar_left (allowStar : Bool) :
    Z.Leaves whole (fun ts => ts.head?.map Token.kind = some .star) (columnStar allowStar)
      (columnStar allowStar) fun _ => Law.anything := by
  cases allowStar
  · exact .unexpected _
  · refine (Leaves.advance (P := Law.anything) (by simp) fun _ _ _ => trivial).discard.bind ?_
    exact fun _ => .answer _

theorem columnParts_left (allowStar : Bool) :
    ∀ n, Z.Stays whole (columnParts allowStar n) (columnParts allowStar n)
  | 0 => by
    unfold columnParts
    refine (Leaves.consume (bars_of_goesOn rfl)).bind fun b => ?_
    cases b
    · exact .answer _
    · refine (Leaves.sees (bars_of_goesOn rfl)).bind fun b => ?_
      cases b
      · exact .unexpected _
      · exact (columnStar_left allowStar).after fun _ h => h.1 rfl
  | n + 1 => by
    unfold columnParts
    refine (Leaves.consume (bars_of_goesOn rfl)).bind fun b => ?_
    cases b
    · exact .answer _
    · refine (Leaves.sees (bars_of_goesOn rfl)).bind fun b => ?_
      cases b
      · refine (Takes.expectNamePart _).leaves.bind fun part => ?_
        exact (columnParts_left allowStar n).bind fun _ => .answer _
      · exact (columnStar_left allowStar).after fun _ h => h.1 rfl

theorem columnReference_takes (allowStar : Bool) :
    Z.Takes whole ahead (columnReference allowStar) (columnReference allowStar)
      fun _ => Law.anything := by
  unfold columnReference
  refine (Takes.expectName _).bind fun first => ?_
  refine (columnParts_left allowStar 3).bind ?_
  rintro ⟨parts, star⟩
  dsimp only
  split
  · exact .fail _
  · refine (Leaves.tokenTexts _).bind fun texts => ?_
    refine (Leaves.nodeAt _ first).bind fun node => ?_
    exact (Leaves.amend node _).bind fun node => .finish node

/-- A sequel that has no star behind names adds none. -/
theorem startsStar_append (Z : Sequel) :
    ∀ ts : List Token, startsStar (ts ++ Z.tokens) = startsStar ts
  | [] => Z.noStar
  | [t] => by
    rw [List.singleton_append]
    rcases htokens : Z.tokens with _ | ⟨dot, rest⟩
    · rfl
    · have hdot : dot.kind ≠ .dot := by
        intro hk
        have hstops := Z.stops dot (by rw [htokens]; rfl)
        rw [hk] at hstops
        cases hstops
      simp [startsStar, hdot]
  | t :: dot :: rest => by
    rw [List.cons_append, List.cons_append, startsStar, startsStar, startsStar_append Z rest]
    rcases rest with _ | ⟨u, rest⟩
    · have hstar : (Z.tokens.head?.any fun t => t.kind == .star) = false := by
        rcases hhead : Z.tokens.head? with _ | t
        · rfl
        · have hstops := Z.stops t hhead
          rw [Option.any_some, beq_eq_false_iff_ne]
          intro hk
          rw [hk] at hstops
          cases hstops
      rw [List.nil_append, hstar]
      rfl
    · rfl

theorem seesQualifiedStar_left : Z.Stays whole seesQualifiedStar seesQualifiedStar := by
  refine (Leaves.look (f := fun ts => ts.head?.any Token.isName && startsStar ts) ?_).forget
  rintro (_ | ⟨t, ts⟩) - -
  · rw [List.nil_append, Z.noStar, Bool.and_false]
    rfl
  · rw [startsStar_append]
    rfl

theorem direction_left (hwhole : whole → Z.Closes) (node : Tree) :
    Z.Stays whole (direction node) (direction node) := by
  unfold direction
  refine (Leaves.consumeKeyword (bars_of_closes hwhole nofun)).bind fun b => ?_
  cases b
  · refine (Leaves.consumeKeyword (bars_of_closes hwhole nofun)).bind fun b => ?_
    cases b
    · exact .answer node
    · exact .flag node _
  · exact .flag node _

theorem columnName_takes :
    Z.Takes whole ahead columnName columnName fun _ => Law.anything :=
  (Takes.expectName _).bind fun t => .namedNode _ t

theorem columnList_takes :
    Z.Takes whole ahead columnList columnList fun _ => Law.anything := by
  unfold columnList
  refine (Takes.expect _ _).bind fun t => ?_
  have hitem : Z.Stays False (do direction (← columnName)) (do direction (← columnName)) :=
    columnName_takes.leaves.bind fun node => direction_left False.elim node
  refine Takes.leaves ((Leaves.nodeAt _ t).into fun list => ?_)
  refine (Leaves.attachList bars_false hitem list).into fun list => ?_
  exact (Takes.expect _ _).discard.bind fun _ => .finish list

theorem aliasName?_left (hwhole : whole → Z.Closes) : Z.Stays whole aliasName? aliasName? := by
  unfold aliasName?
  refine (Leaves.consumeKeyword (bars_of_closes hwhole nofun)).bind fun b => ?_
  cases b
  · refine ((Leaves.sees (bars_of_closes hwhole (by decide))).forget).bind fun _ => ?_
    refine ((Leaves.sees (bars_of_closes hwhole (by decide))).forget).bind fun _ => ?_
    split
    · exact (Takes.expectName _).leaves.bind fun _ => .answer _
    · exact .answer _
  · refine (Leaves.take? (bars_of_closes hwhole (by decide))).bind fun o => ?_
    cases o
    · exact (Takes.expectName _).leaves.bind fun _ => .answer _
    · exact .answer _

theorem aliased_left (t : Tree) (name : Token) :
    Z.Stays whole (aliased t name) (aliased t name) := by
  unfold aliased
  refine (Leaves.namedNode .alias name).bind fun label => ?_
  refine (Leaves.attach t label).bind fun t => ?_
  exact (Leaves.flag t _).bind fun t => .finish t

theorem withAlias_left (hwhole : whole → Z.Closes) (t : Tree) :
    Z.Stays whole (withAlias t) (withAlias t) := by
  unfold withAlias
  refine (aliasName?_left hwhole).bind fun o => ?_
  cases o
  · exact .answer t
  · exact aliased_left t _

/-! ## Type names -/

theorem typeParameter_takes :
    Z.Takes whole ahead typeParameter typeParameter fun _ => Law.anything := by
  have hnumber {k : Option Token → Parser (Option Nat)}
      (hnone : ∀ scope s n r, k none scope s ≠ .ok n r)
      (hsome : ∀ t, Z.Stays whole (k (some t)) (k (some t))) :
      Z.Takes whole Law.anything
        (takeIf? (fun t => t.kind == .integer || t.kind == .float) >>= k)
        (takeIf? (fun t => t.kind == .integer || t.kind == .float) >>= k) fun _ => Law.anything :=
    Takes.takeIf? hnone (fun _ _ _ => trivial) hsome
  unfold typeParameter
  refine ((Leaves.consume bars_false).seen).into fun negative => ?_
  dsimp only
  split
  · refine (Leaves.consume bars_false).discard.into fun _ => ?_
    exact hnumber (Takes.unexpected_ne _) fun _ => .answer _
  · exact hnumber (Takes.unexpected_ne _) fun _ => .answer _

theorem typeParameters_left : Z.Stays whole typeParameters typeParameters := by
  unfold typeParameters
  refine (Leaves.consume (bars_of_goesOn rfl)).bind fun b => ?_
  cases b
  · exact .answer _
  have hclose (first second : Option Nat) : Z.Takes whole Law.anything (do
      discard <| expect .rightParen "')'"
      return (first, second)) (do
      discard <| expect .rightParen "')'"
      return (first, second)) fun _ => Law.anything :=
    (Takes.expect _ _).discard.bind fun _ => .answer _
  refine Takes.leaves (typeParameter_takes.leaves.into fun first => ?_)
  refine (Leaves.consume bars_false).into fun b => ?_
  cases b
  · exact hclose first none
  · exact typeParameter_takes.leaves.into fun second => hclose first second

/-- More words of the type are ahead than the sequel could add to, if it begins with one. -/
def Unspoken (Z : Sequel) (ts : List Token) : Prop :=
  ∀ t ∈ Z.tokens.head?, t.isTypeWord → ¬ ∀ word ∈ ts, word.isTypeWord

theorem typeName_left :
    Z.Leaves whole (fun ts => whole → Unspoken Z ts) typeName typeName fun _ => Law.anything := by
  unfold typeName
  have hword (n : Nat) : Z.Leaves whole
      (fun ts => (whole → Unspoken Z ts) ∧ ts.length ≤ n) (takeIf? Token.isTypeWord)
      (takeIf? Token.isTypeWord) fun o ts =>
      (whole → Unspoken Z ts) ∧ (o.isSome → ts.length < n) := by
    refine (Leaves.takeIf? (P := fun ts => (whole → Unspoken Z ts) ∧ ts.length < n) ?_ ?_).weaken
      ?_
    · rintro hwhole ⟨hunspoken, -⟩ t ht
      rw [← Bool.not_eq_true]
      exact fun hword => hunspoken hwhole t ht hword (List.forall_mem_nil _)
    · rintro t ts htest ⟨hunspoken, hn⟩
      exact ⟨fun hwhole u hu hword hall => hunspoken hwhole u hu hword
        (List.forall_mem_cons.2 ⟨htest, hall⟩), hn⟩
    · rintro (_ | t) ts h
      · exact ⟨h.1, nofun⟩
      · exact ⟨h.1, fun _ => h.2⟩
  refine (Leaves.many hword).bind fun words => ?_
  rcases words with _ | ⟨first, others⟩
  · exact .unexpected _
  · refine typeParameters_left.seen.bind ?_
    rintro ⟨p, q⟩
    exact Leaves.still (fun _ _ => rfl) (fun _ _ => rfl) fun h => ⟨by rw [h.lastEnd], h⟩

end SqlSyntax
