import SqlSyntax.Proofs.Pairing.Steps

/-!
# Names in two runs

Names and type names are made of the texts of tokens, and a column list holds nodes of names.
-/

namespace SqlSyntax

open SqlSyntax.Parser SqlSyntax.Pairing

variable {W : Pairing} {t t' : Token} {u u' : Tree} {k : Kind}

theorem dottedParts_alike (hW : W.Lawful) (what : String) : ∀ n,
    W.Alike (dottedParts what n) (dottedParts what n) (List.Forall₂ W.tok)
  | 0 => .answer .nil
  | n + 1 => by
    unfold dottedParts
    refine (Runs.consume hW rfl).branch ?_ ?_
    · exact .answer .nil
    · refine (Runs.expectNamePart hW what).bind fun part part' hpart => ?_
      exact (dottedParts_alike hW what n).bind fun _ _ hparts => .answer (.cons hpart hparts)

theorem objectName_alike (hW : W.Lawful) (hk : k.isCommon) :
    W.Alike (objectName k) (objectName k) (W.Made k) := by
  unfold objectName
  refine (Runs.expectName hW "name").bind fun first first' hfirst => ?_
  refine (dottedParts_alike hW "name" 2).bind fun others others' hothers => ?_
  refine (Runs.nodeAt hW hfirst hk).bind fun node node' hnode => ?_
  refine (Runs.tokenTexts hW (.cons hfirst hothers)).bind fun texts texts' htexts => ?_
  exact (Runs.amend hW (.name htexts) hnode).bind fun _ _ hnode => .finish hW hnode

/-! ## Columns -/

/-- Like parts, and both with a star or both without one. There is one only where it is allowed. -/
def PartsAlike (W : Pairing) (allowStar : Bool) (x x' : List Token × Bool) : Prop :=
  List.Forall₂ W.tok x.1 x'.1 ∧ x.2 = x'.2 ∧ (x.2 = true → allowStar = true)

theorem columnStar_alike (hW : W.Lawful) (allowStar : Bool) :
    W.Runs (fun ts => ts[0]?.map Token.kind = some .star) (columnStar allowStar)
      (columnStar allowStar) (PartsAlike W allowStar) fun _ => anything := by
  cases allowStar
  · exact .unexpected hW _
  · exact (Runs.takeKind hW rfl).bind fun _ _ _ => .answer ⟨.nil, rfl, fun _ => rfl⟩

/-- What follows a dot: a star, or else as told. -/
theorem starOr_alike (hW : W.Lawful) (allowStar : Bool) {q : Parser (List Token × Bool)}
    (hq : W.Alike q q (PartsAlike W allowStar)) :
    W.Alike (do if ← sees .star then columnStar allowStar else q)
      (do if ← sees .star then columnStar allowStar else q) (PartsAlike W allowStar) := by
  refine (Runs.sees hW .star).branch ?_ ?_
  · exact .seen hq
  · exact .after (fun _ h => h.1 rfl) (columnStar_alike hW allowStar)

theorem columnParts_alike (hW : W.Lawful) (allowStar : Bool) (n : Nat) :
    W.Alike (columnParts allowStar n) (columnParts allowStar n) (PartsAlike W allowStar) := by
  induction n with
  | zero =>
    unfold columnParts
    refine (Runs.consume hW rfl).branch ?_ ?_
    · exact .answer ⟨.nil, rfl, fun h => absurd h Bool.false_ne_true⟩
    · exact starOr_alike hW allowStar (.unexpected hW _)
  | succ n ih =>
    unfold columnParts
    refine (Runs.consume hW rfl).branch ?_ ?_
    · exact .answer ⟨.nil, rfl, fun h => absurd h Bool.false_ne_true⟩
    · refine starOr_alike hW allowStar ?_
      refine (Runs.expectNamePart hW _).bind fun part part' hpart => ih.bind ?_
      rintro ⟨parts, star⟩ ⟨parts', star'⟩ ⟨hparts, hstar⟩
      exact .answer ⟨.cons hpart hparts, hstar⟩

theorem columnReference_alike (hW : W.Lawful) (allowStar : Bool) :
    W.Alike (columnReference allowStar) (columnReference allowStar) fun t t' =>
      W.Made .columnRef t t' ∨ allowStar = true ∧ W.Made .qualifiedWildcard t t' := by
  unfold columnReference
  refine (Runs.expectName hW _).bind fun first first' hfirst => ?_
  refine (columnParts_alike hW allowStar 3).bind ?_
  rintro ⟨parts, star⟩ ⟨parts', star'⟩ ⟨hparts, hstar, hallow⟩
  dsimp only at hparts hstar hallow ⊢
  subst hstar
  rw [← hparts.length_eq]
  split
  · exact .fail (hW.failsAt _ hfirst)
  · refine (Runs.tokenTexts hW (.cons hfirst hparts)).bind fun texts texts' htexts => ?_
    cases star
    · refine (Runs.nodeAt hW hfirst rfl).bind fun node node' hnode => ?_
      refine (Runs.amend hW (.column htexts) hnode).bind fun node node' hnode => ?_
      exact (Runs.finish hW hnode).weaken fun _ _ h => .inl h
    · have hlong : List.Forall₂ W.txt (texts ++ [.none]) (texts' ++ [.none]) :=
        List.rel_append htexts (.cons hW.noText .nil)
      refine (Runs.nodeAt hW hfirst rfl).bind fun node node' hnode => ?_
      refine (Runs.amend hW (.column hlong) hnode).bind fun node node' hnode => ?_
      exact (Runs.finish hW hnode).weaken fun _ _ h => .inr ⟨hallow rfl, h⟩

theorem seesQualifiedStar_alike (hW : W.Lawful) :
    W.Alike seesQualifiedStar seesQualifiedStar (· = ·) := by
  refine (Runs.look (f := fun ts => ts.head?.any Token.isName && startsStar ts) fun h => ?_).forget
  rw [startsStar_congr (Runs.map_kind hW h)]
  rcases h with _ | ⟨ht, _⟩
  · rfl
  · simp only [List.head?_cons, Option.any_some, Token.isName, hW.listed_kind ht]

theorem direction_alike (hW : W.Lawful) (hu : W.Made k u u') :
    W.Alike (direction u) (direction u') (W.Made k) := by
  unfold direction
  refine (Runs.consumeKeyword hW .DESC).branch ?_ ?_
  · refine (Runs.consumeKeyword hW .ASC).branch ?_ ?_
    · exact .answer hu
    · exact .flag hW _ nofun hu
  · exact .flag hW _ nofun hu

theorem columnName_alike (hW : W.Lawful) :
    W.Alike columnName columnName (W.Made .identifier) :=
  (Runs.expectName hW _).bind fun _ _ ht => .namedNode hW ht rfl

theorem columnList_alike (hW : W.Lawful) :
    W.Alike columnList columnList (W.Made .columnList) := by
  unfold columnList
  refine (Runs.expect hW rfl _).bind fun t t' ht => ?_
  refine (Runs.nodeAt hW ht rfl).bind fun list list' hlist => ?_
  have hitem : W.Alike (do direction (← columnName)) (do direction (← columnName))
      (W.Made .identifier) := (columnName_alike hW).bind fun _ _ hname => direction_alike hW hname
  refine (Runs.attachList hW hitem hlist fun _ _ h => h.fits rfl).bind fun list list' hlist => ?_
  exact (Runs.expect hW rfl _).discard.bind fun _ _ _ => .finish hW hlist

theorem aliasName?_alike (hW : W.Lawful) :
    W.Alike aliasName? aliasName? (Option.Rel W.tok) := by
  have hname : W.Alike (do return some (← expectName "alias"))
      (do return some (← expectName "alias")) (Option.Rel W.tok) :=
    (Runs.expectName hW _).bind fun _ _ ht => .answer (.some ht)
  unfold aliasName?
  refine (Runs.consumeKeyword hW .AS).branch ?_ ?_
  · refine (Runs.sees hW _).forget.thenSame fun b => ?_
    refine (Runs.sees hW _).forget.thenSame fun c => ?_
    split
    · exact hname
    · exact .answer .none
  · refine (Runs.take? hW rfl).bind fun o o' ho => ?_
    rcases ho with ⟨ht, -⟩ | _
    · exact .answer (.some ht)
    · exact hname

theorem aliased_alike (hW : W.Lawful) (hu : W.Made k u u') (ht : W.tok t t') :
    W.Alike (aliased u t) (aliased u' t') (W.Made k) := by
  unfold aliased
  refine (Runs.namedNode hW ht rfl).bind fun label label' hlabel => ?_
  refine (Runs.attach hW hu (hlabel.fits rfl)).bind fun u u' hu => ?_
  exact (Runs.flag hW .hasAlias nofun hu).bind fun _ _ hu => .finish hW hu

theorem withAlias_alike (hW : W.Lawful) (hu : W.Made k u u') :
    W.Alike (withAlias u) (withAlias u') (W.Made k) := by
  unfold withAlias
  refine (aliasName?_alike hW).bind fun o o' ho => ?_
  rcases ho with ht | _
  · exact aliased_alike hW hu ht
  · exact .answer hu

/-! ## Type names -/

theorem plain_of_isTypeWord (h : t.isTypeWord) : t.kind.isPlain := by
  unfold Token.isTypeWord at h
  split at h
  · next hk => rw [hk]; rfl
  · next hk => rw [hk]; rfl
  · cases h

theorem isTypeWord_alike (hW : W.Lawful) (ht : W.tok t t') : t.isTypeWord = t'.isTypeWord := by
  unfold Token.isTypeWord
  rw [hW.kind ht]

theorem typeParameter_alike (hW : W.Lawful) : W.Alike typeParameter typeParameter (· = ·) := by
  have hplain : ∀ {t : Token}, (t.kind == .integer || t.kind == .float) = true →
      t.kind.isPlain := by
    intro t h
    rcases Bool.or_eq_true_iff.1 h with h | h <;> rw [eq_of_beq h] <;> rfl
  have htake : W.Alike (takeIf? fun t => t.kind == .integer || t.kind == .float)
      (takeIf? fun t => t.kind == .integer || t.kind == .float) _ :=
    .takeWhere? hW (fun ht => by rw [hW.kind ht]) fun _ => hplain
  unfold typeParameter
  refine (Runs.consume hW rfl).branch ?_ ?_
  · refine (Runs.consume hW rfl).discard.bind fun _ _ _ => htake.bind fun o o' ho => ?_
    rcases ho with ⟨ht, -⟩ | _
    · exact .answer (by rw [hW.unsigned ht])
    · exact .unexpected hW _
  · refine htake.bind fun o o' ho => ?_
    rcases ho with _ | _
    · exact .answer rfl
    · exact .unexpected hW _

theorem typeParameters_alike (hW : W.Lawful) : W.Alike typeParameters typeParameters (· = ·) := by
  unfold typeParameters
  refine (Runs.consume hW rfl).branch ?_ ?_
  · exact .answer rfl
  · refine (typeParameter_alike hW).thenSame fun first => ?_
    refine (Runs.consume hW rfl).thenSame fun b => ?_
    have hclose (second : Option Nat) : W.Alike
        (do discard <| expect .rightParen "')'"; return (first, second))
        (do discard <| expect .rightParen "')'"; return (first, second)) (· = ·) :=
      (Runs.expect hW rfl _).discard.bind fun _ _ _ => .answer rfl
    cases b
    · exact hclose none
    · refine (typeParameter_alike hW).thenSame fun second => ?_
      exact hclose second

theorem typeName_alike (hW : W.Lawful) :
    W.Alike typeName typeName fun x x' => W.written x.1 x'.1 ∧ x.2 = x'.2 := by
  have hwords : W.Alike (many (takeIf? Token.isTypeWord)) (many (takeIf? Token.isTypeWord))
      (List.Forall₂ fun t t' => W.tok t t' ∧ t.isTypeWord) :=
    .many (.takeWhere? hW (isTypeWord_alike hW) fun _ => plain_of_isTypeWord)
  unfold typeName
  refine hwords.bind fun words words' hall => ?_
  have htokens := hall.imp fun _ _ h => h.1
  rcases htokens with _ | @⟨first, first', others, others', hfirst, hothers⟩
  · exact .unexpected hW _
  · refine (typeParameters_alike hW).bind ?_
    rintro ⟨p, q⟩ _ rfl scope scope' s s' hscope hs hfine -
    exact ⟨⟨hW.written hfirst hs.lastEnd, hW.dataType (.cons hfirst hothers) p q⟩, trivial, hs,
      hfine, Nat.le_refl _⟩

end SqlSyntax
