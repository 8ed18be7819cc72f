import SqlSyntax.Grammar.TypeName
import SqlSyntax.Proofs.Steps

/-!
# The steps of names and type names

A name is one node that holds all its parts. Its parts are read before the node is made, so what
the node holds is known of every token of the name.
-/

namespace SqlSyntax

open SqlSyntax.Parser

variable {T : Terms}

theorem dottedParts_reads (what : String) :
    ∀ n, T.Reads (dottedParts what n) fun ts => (∀ t ∈ ts, T.known t) ∧ ts.length ≤ n
  | 0 => .answer ⟨nofun, Nat.le_refl 0⟩
  | n + 1 => by
    unfold dottedParts
    refine (Built.consume .dot).read fun b _ => ?_
    cases b
    · exact .answer ⟨nofun, Nat.zero_le _⟩
    · refine (Built.expectNamePart what).read fun part hpart => ?_
      refine (dottedParts_reads what n).read fun ts hts => .answer ?_
      exact ⟨List.forall_mem_cons.2 ⟨hpart, hts.1⟩, Nat.succ_le_succ hts.2⟩

/-- The last parts of a name, from the last on, and nothing for those that are missing. -/
theorem perm_getD_reverse (parts : List Text) (n : Nat) (h : parts.length ≤ n) :
    ((List.range n).map (parts.reverse.getD · .none)).Perm
      (parts ++ List.replicate (n - parts.length) .none) := by
  have heq : (List.range n).map (parts.reverse.getD · .none) =
      parts.reverse ++ List.replicate (n - parts.length) .none := by
    refine List.ext_getElem (by simp; omega) fun i hi hi' => ?_
    simp only [List.getElem_map, List.getElem_range, List.getElem_append, List.getElem_replicate,
      List.length_reverse, List.getD_eq_getElem?_getD]
    split
    · next hlt => rw [List.getElem?_eq_getElem (by simpa using hlt), Option.getD_some]
    · next hge => rw [List.getElem?_eq_none (by simpa using hge), Option.getD_none]
  rw [heq]
  exact (List.reverse_perm parts).append_right _

theorem withName_inscribes {count : Nat} (h : count ≤ 3) :
    Inscribes count fun texts n => n.withName texts where
  alike _ _ := ⟨rfl, rfl, rfl, rfl, rfl⟩
  operator _ _ := rfl
  texts {texts n} hlength := by
    refine ⟨[n.qualifier], List.replicate (3 - count) .none, ?_, ?_, ?_⟩
    · exact .cons _ (.cons_cons _ (List.nil_sublist _))
    · exact fun _ => List.eq_of_mem_replicate
    · have hperm := perm_getD_reverse texts 3 (hlength ▸ h)
      rw [hlength] at hperm
      refine (List.Perm.swap n.qualifier _ _).trans ((hperm.cons n.qualifier).trans ?_)
      rw [List.append_assoc]
      exact List.perm_middle.symm

theorem withColumn_inscribes {count : Nat} (h : count ≤ 4) :
    Inscribes count fun texts n => n.withColumn texts where
  alike _ _ := ⟨rfl, rfl, rfl, rfl, rfl⟩
  operator _ _ := rfl
  texts {texts n} hlength := by
    refine ⟨[], List.replicate (4 - count) .none, List.nil_sublist _,
      fun _ => List.eq_of_mem_replicate, ?_⟩
    have hperm := perm_getD_reverse texts 4 (hlength ▸ h)
    rw [hlength] at hperm
    rw [List.append_nil]
    exact hperm

/-- The parts before a star, which is no part itself. -/
theorem withStar_inscribes {count : Nat} (h : count ≤ 3) :
    Inscribes count fun texts n => n.withColumn (texts ++ [.none]) where
  alike _ _ := ⟨rfl, rfl, rfl, rfl, rfl⟩
  operator _ _ := rfl
  texts {texts n} hlength := by
    have hcolumn : Inscribes (count + 1) fun texts n => n.withColumn texts :=
      withColumn_inscribes (Nat.succ_le_succ h)
    have hparts : (texts ++ [Text.none]).length = count + 1 := by simp [hlength]
    obtain ⟨kept, empty, hkept, hempty, hperm⟩ := hcolumn.texts (n := n) hparts
    refine ⟨kept, .none :: empty, hkept, List.forall_mem_cons.2 ⟨rfl, hempty⟩, hperm.trans ?_⟩
    rw [List.append_assoc, List.append_assoc, List.append_assoc]
    have hmiddle : (kept ++ Text.none :: empty).Perm (.none :: (kept ++ empty)) :=
      List.perm_middle
    exact hmiddle.symm.append_left texts

theorem objectName_makes {kind : Kind} (hk : kind.isOperator = false) :
    T.Makes (objectName kind) := by
  have heq : objectName kind = (do
      let first ← expectName "name"
      let others ← dottedParts "name" 2
      let node ← nodeAt kind first
      let node ← inscribe (first :: others) (pure node) fun texts n => n.withName texts
      finish node) := by
    simp only [objectName, inscribe, bind_assoc, pure_bind]
  rw [heq]
  refine (Built.expectName "name").read fun first hfirst => ?_
  refine (dottedParts_reads "name" 2).read fun others hothers => ?_
  refine (Built.bareNode kind hfirst hk).make fun node hnode => ?_
  refine Built.grow (.inscribeTree (.inl hnode.2) (List.forall_mem_cons.2 ⟨hfirst, hothers.1⟩)
    (withName_inscribes (Nat.succ_le_succ hothers.2))) fun named hnamed => ?_
  exact .finish (Built.free_of_kind hnode.1 hnamed.kind)

theorem columnStar_reads (allowStar : Bool) (n : Nat) :
    T.Reads (columnStar allowStar) fun r => (∀ t ∈ r.1, T.known t) ∧ r.1.length ≤ n := by
  cases allowStar
  · exact .unexpected _
  · exact Built.advance.discard.read fun _ _ => .answer ⟨nofun, Nat.zero_le _⟩

theorem columnParts_reads (allowStar : Bool) :
    ∀ n, T.Reads (columnParts allowStar n) fun r => (∀ t ∈ r.1, T.known t) ∧ r.1.length ≤ n
  | 0 => by
    unfold columnParts
    refine (Built.consume .dot).read fun b _ => ?_
    cases b
    · exact .answer ⟨nofun, Nat.zero_le _⟩
    · refine (Built.sees .star).read fun b _ => ?_
      cases b
      · exact .unexpected _
      · exact columnStar_reads allowStar 0
  | n + 1 => by
    unfold columnParts
    refine (Built.consume .dot).read fun b _ => ?_
    cases b
    · exact .answer ⟨nofun, Nat.zero_le _⟩
    · refine (Built.sees .star).read fun b _ => ?_
      cases b
      · refine (Built.expectNamePart _).read fun part hpart => ?_
        refine (columnParts_reads allowStar n).read fun r hr => .answer ?_
        exact ⟨List.forall_mem_cons.2 ⟨hpart, hr.1⟩, Nat.succ_le_succ hr.2⟩
      · exact columnStar_reads allowStar _

/-- The production with the texts and the node that they are written to as one step. -/
theorem columnReference_eq (allowStar : Bool) : columnReference allowStar = (do
    let first ← expectName "column name"
    let (parts, star) ← columnParts allowStar 3
    if star && parts.length ≥ 3 then fail (.atToken .tooManyQualifiers first)
    else
      let node ← inscribe (first :: parts)
        (nodeAt (if star then .qualifiedWildcard else .columnRef) first)
        fun texts n => n.withColumn (if star then texts ++ [.none] else texts)
      finish node) := by
  simp only [columnReference, inscribe, bind_assoc]

theorem columnReference_makes (allowStar : Bool) : T.Makes (columnReference allowStar) := by
  rw [columnReference_eq]
  refine (Built.expectName _).read fun first hfirst => ?_
  refine (columnParts_reads allowStar 3).read ?_
  rintro ⟨parts, star⟩ ⟨hparts, hlength⟩
  dsimp only at hparts hlength ⊢
  have hknown := List.forall_mem_cons.2 ⟨hfirst, hparts⟩
  have hnode {kind : Kind} {change : List Text → Node → Node} (hk : kind.isOperator = false)
      (hc : Inscribes (first :: parts).length change) :
      T.Makes (do finish (← inscribe (first :: parts) (nodeAt kind first) change)) := by
    refine Built.make (.inscribe hknown hc (.bareNode kind hfirst hk) fun t ht => .inl ht.2) ?_
    rintro u ⟨t, ht, hu⟩
    exact .finish (Built.free_of_kind ht.1 hu.kind)
  split
  · exact .fail rfl hfirst
  · next hmany =>
    cases star
    · exact hnode rfl (withColumn_inscribes (Nat.succ_le_succ hlength))
    · refine hnode rfl (withStar_inscribes ?_)
      simp only [Bool.true_and, decide_eq_true_eq] at hmany
      simp only [List.length_cons]
      omega

theorem startsStar_congr : ∀ {ts us : List Token}, ts.map Token.kind = us.map Token.kind →
    startsStar ts = startsStar us
  | [], us, h => by rw [List.map_eq_nil_iff.1 h.symm]
  | [_], us, h => by
    obtain ⟨u, _, rfl, -, h⟩ := List.map_eq_cons_iff.1 h.symm
    rw [List.map_eq_nil_iff.1 h]
    rfl
  | t :: dot :: ts, us, h => by
    obtain ⟨u, _, rfl, ht, h⟩ := List.map_eq_cons_iff.1 h.symm
    obtain ⟨dot', us, rfl, hdot, h⟩ := List.map_eq_cons_iff.1 h
    have hhead : ts.head?.any (·.kind == .star) = us.head?.any (·.kind == .star) := by
      cases ts <;> cases us <;> simp_all
    simp only [startsStar, Token.isNamePart, Token.isName, Token.keyword?, ht, hdot, hhead,
      startsStar_congr h.symm]

theorem seesQualifiedStar_reads : T.Reads seesQualifiedStar fun _ => True :=
  .look (fun ts _ => ts.head?.any Token.isName && startsStar ts)
    (fun _ _ _ h hk => by simp only [h, startsStar_congr hk]) fun _ _ _ => trivial

theorem direction_extends (node : Tree) : T.Extends node (direction node) := by
  unfold direction
  refine (Built.consumeKeyword .DESC).read fun b _ => ?_
  cases b
  · refine (Built.consumeKeyword .ASC).read fun b _ => ?_
    cases b
    · exact .keep (.refl _)
    · exact .flagAny node _
  · exact .flagAny node _

theorem direction_grows {node : Tree} (h : T.free node) : T.Grows node (direction node) :=
  (direction_extends node).grows h

theorem columnName_makes : T.Makes columnName :=
  (Built.expectName _).read fun _ ht => .namedNode _ ht rfl

theorem columnList_makes : T.Makes columnList := by
  unfold columnList
  refine (Built.expect _ _).read fun t ht => ?_
  refine (Built.node _ ht rfl).make fun list hlist => ?_
  have hitem : T.Yields (do direction (← columnName)) :=
    columnName_makes.make fun name hname => (direction_grows hname).yields
  refine (Built.attachList hitem hlist).grow fun list hlist => ?_
  refine (Built.expect _ _).discard.read fun _ _ => ?_
  exact .finish hlist

theorem aliasName?_reads : T.Reads aliasName? fun o => ∀ t ∈ o, T.known t := by
  unfold aliasName?
  refine (Built.consumeKeyword .AS).read fun b _ => ?_
  cases b
  · refine (Built.sees _).read fun b _ => (Built.sees _).read fun b' _ => ?_
    split
    · exact (Built.expectName _).read fun t ht => .answer (by simpa using ht)
    · exact .answer nofun
  · refine (Built.take? .string).step fun o ho => ?_
    rcases o with _ | t
    · exact (Built.expectName _).read fun t ht => .answer (by simpa using ht)
    · exact .answer ho

theorem aliased_grows {t : Tree} {name : Token} (h : T.free t) (hn : T.known name) :
    T.Grows t (aliased t name) := by
  unfold aliased
  refine (Built.namedNode .alias hn rfl).make fun label _ => ?_
  refine (Built.attachFree label h).join fun t ht => ?_
  exact (Built.flag ht _).grow fun t ht => .finish ht

theorem withAlias_grows {t : Tree} (h : T.free t) : T.Grows t (withAlias t) := by
  unfold withAlias
  refine aliasName?_reads.read fun o ho => ?_
  rcases o with _ | name
  · exact .keep h
  · exact aliased_grows h (ho name rfl)

/-! ## Type names -/

theorem typeParameter_reads : T.Reads typeParameter fun _ => True := by
  unfold typeParameter
  refine (Built.consume .minus).read fun negative _ => ?_
  have hnumber {test : Token → Bool} {k : Option Token → Parser (Option Nat)}
      (hnone : T.Reads (k none) fun _ => True) (hsome : ∀ t, T.Reads (k (some t)) fun _ => True) :
      T.Reads (takeIf? test >>= k) fun _ => True :=
    (Built.takeIf? test).read fun o _ => by
      cases o
      · exact hnone
      · exact hsome _
  dsimp only
  split
  · exact (Built.consume .plus).discard.read fun _ _ =>
      hnumber (.unexpected _) fun _ => .answer trivial
  · exact hnumber (.unexpected _) fun _ => .answer trivial

theorem typeParameters_reads : T.Reads typeParameters fun _ => True := by
  unfold typeParameters
  refine (Built.consume .leftParen).read fun b _ => ?_
  cases b
  · exact .answer trivial
  · refine typeParameter_reads.read fun first _ => (Built.consume .comma).read fun b _ => ?_
    have hclose (second : Option Nat) : T.Reads (do
        discard <| expect .rightParen "')'"
        return (first, second)) fun _ => True :=
      (Built.expect _ _).discard.read fun _ _ => .answer trivial
    cases b
    · exact hclose none
    · exact typeParameter_reads.read fun second _ => hclose second

theorem typeName_reads : T.Reads typeName fun _ => True := by
  unfold typeName
  refine (Built.many (Built.takeIf? Token.isTypeWord)).read fun words _ => ?_
  rcases words with _ | ⟨first, others⟩
  · exact .unexpected _
  · refine typeParameters_reads.read ?_
    rintro ⟨p, q⟩ -
    exact .look (fun _ stop => (Text.slice ⟨first.span.start, stop⟩,
      DataType.ofName (" ".intercalate
        (((first :: others).map Token.text).dropWhile (·.isEmpty))) p q))
      (fun _ _ _ _ _ => rfl) fun _ _ _ => trivial

end SqlSyntax
