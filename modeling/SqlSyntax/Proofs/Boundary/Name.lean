import SqlSyntax.Grammar.TypeName
import SqlSyntax.Proofs.Boundary.Steps

/-!
# Names inside a statement

Names have no parentheses; a list of columns and the numbers of a type name stand in a pair of them.
-/

namespace SqlSyntax

open SqlSyntax.Parser SqlSyntax.Boundary

variable {B : Boundary} {d : Nat}

theorem dottedParts_stays (what : String) : ∀ n, B.Stays d (dottedParts what n)
  | 0 => .answer _
  | n + 1 => by
    unfold dottedParts
    refine (Leads.consume_inner rfl).bind fun b => ?_
    cases b
    · exact .answer _
    · refine (Leads.expectNamePart what).bind fun part => ?_
      exact (dottedParts_stays what n).bind fun _ => .answer _

theorem objectName_stays (kind : Kind) : B.Stays d (objectName kind) := by
  unfold objectName
  refine (Leads.expectName "name").bind fun first => ?_
  refine (dottedParts_stays "name" 2).bind fun others => ?_
  refine (Leads.nodeAt kind first).bind fun node => ?_
  refine (Leads.tokenTexts _).bind fun texts => ?_
  exact (Leads.amend node _).bind fun node => .finish node

theorem columnStar_stays (allowStar : Bool) :
    B.Leads (B.At d .star) (columnStar allowStar) fun _ => B.Inside d := by
  cases allowStar
  · exact .unexpected _
  · exact (Leads.takeInner rfl).discard.bind fun _ => .answer _

theorem columnParts_stays (allowStar : Bool) : ∀ n, B.Stays d (columnParts allowStar n)
  | 0 => by
    unfold columnParts
    refine (Leads.consume_inner rfl).bind fun b => ?_
    cases b
    · exact .answer _
    · exact .ifSees .star (columnStar_stays allowStar) (.unexpected _)
  | n + 1 => by
    unfold columnParts
    refine (Leads.consume_inner rfl).bind fun b => ?_
    cases b
    · exact .answer _
    · refine .ifSees .star (columnStar_stays allowStar) ?_
      refine (Leads.expectNamePart _).bind fun part => ?_
      exact (columnParts_stays allowStar n).bind fun _ => .answer _

theorem columnReference_stays (allowStar : Bool) : B.Stays d (columnReference allowStar) := by
  unfold columnReference
  refine (Leads.expectName _).bind fun first => ?_
  refine (columnParts_stays allowStar 3).bind ?_
  rintro ⟨parts, star⟩
  dsimp only
  split
  · exact .fail _
  · refine (Leads.tokenTexts _).bind fun texts => ?_
    refine (Leads.nodeAt _ first).bind fun node => ?_
    exact (Leads.amend node _).bind fun node => .finish node

theorem seesQualifiedStar_stays : B.Stays d seesQualifiedStar :=
  (Leads.look fun ts => ts.head?.any Token.isName && startsStar ts).weaken fun _ _ h => h.2

theorem direction_stays (node : Tree) : B.Stays d (direction node) := by
  unfold direction
  refine (Leads.consumeKeyword .DESC).bind fun b => ?_
  cases b
  · refine (Leads.consumeKeyword .ASC).bind fun b => ?_
    cases b
    · exact .answer node
    · exact .flag node _
  · exact .flag node _

theorem columnName_stays : B.Stays d columnName :=
  (Leads.expectName _).bind fun t => .namedNode _ t

theorem columnList_stays : B.Stays d columnList := by
  unfold columnList
  refine (Leads.opens _).bind fun t => ?_
  refine (Leads.nodeAt _ t).bind fun list => ?_
  have hitem : B.Stays (d + 1) (do direction (← columnName)) :=
    columnName_stays.bind direction_stays
  refine (Leads.attachList hitem list).bind fun list => ?_
  exact (Leads.closes _).bind fun _ => .finish list

theorem aliasName?_stays : B.Stays d aliasName? := by
  unfold aliasName?
  refine (Leads.consumeKeyword .AS).bind fun b => ?_
  cases b
  · refine (Leads.sees _).bind fun _ => (Leads.sees _).bind fun _ => ?_
    split
    · exact (Leads.expectName _).bind fun _ => .answer _
    · exact .answer _
  · refine (Leads.take?_inner rfl).bind fun o => ?_
    cases o
    · exact (Leads.expectName _).bind fun _ => .answer _
    · exact .answer _

theorem aliased_stays (t : Tree) (name : Token) : B.Stays d (aliased t name) := by
  unfold aliased
  refine (Leads.namedNode .alias name).bind fun label => ?_
  refine (Leads.attach t label).bind fun t => ?_
  exact (Leads.flag t _).bind fun t => .finish t

theorem withAlias_stays (t : Tree) : B.Stays d (withAlias t) := by
  unfold withAlias
  refine aliasName?_stays.bind fun o => ?_
  cases o
  · exact .answer t
  · exact aliased_stays t _

/-! ## Type names -/

theorem isInner_of_isTypeWord {t : Token} (h : t.isTypeWord) : t.kind.isInner := by
  unfold Token.isTypeWord at h
  split at h
  · next hk => rw [hk]; rfl
  · next hk => rw [hk]; rfl
  · cases h

theorem typeParameter_stays : B.Stays d typeParameter := by
  unfold typeParameter
  refine (Leads.consume_inner rfl).bind fun negative => ?_
  have hnumber {k : Option Token → Parser (Option Nat)} (hnone : B.Stays d (k none))
      (hsome : ∀ t, B.Stays d (k (some t))) :
      B.Stays d (takeIf? (fun t => t.kind == .integer || t.kind == .float) >>= k) := by
    refine (Leads.takeIf? fun t _ htest => ?_).bind fun o => ?_
    · rcases Bool.or_eq_true_iff.1 htest with hk | hk
      · rw [eq_of_beq hk]
        rfl
      · rw [eq_of_beq hk]
        rfl
    · cases o
      · exact hnone
      · exact hsome _
  dsimp only
  split
  · exact (Leads.consume_inner rfl).discard.bind fun _ => hnumber (.unexpected _) fun _ => .answer _
  · exact hnumber (.unexpected _) fun _ => .answer _

theorem typeParameters_stays : B.Stays d typeParameters := by
  unfold typeParameters
  refine (Leads.consume .opening).bind fun b => ?_
  cases b
  · exact .answer _
  · refine typeParameter_stays.bind fun first => (Leads.consume_inner rfl).bind fun b => ?_
    have hclose (second : Option Nat) : B.Leads (B.Inside (d + 1)) (do
        discard <| expect .rightParen "')'"
        return (first, second)) fun _ => B.Inside d :=
      (Leads.closes _).bind fun _ => .answer _
    cases b
    · exact hclose none
    · exact typeParameter_stays.bind fun second => hclose second

theorem typeName_stays : B.Stays d typeName := by
  unfold typeName
  refine (Leads.many (.takeIf? fun t _ => isInner_of_isTypeWord)).bind fun words => ?_
  rcases words with _ | ⟨first, others⟩
  · exact .unexpected _
  · refine typeParameters_stays.bind ?_
    rintro ⟨p, q⟩
    exact fun _ _ _ _ _ ha hs => ⟨ha, hs⟩

end SqlSyntax
