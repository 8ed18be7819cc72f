import SqlSyntax.Proofs.Layout.Edges

/-!
# Stars that are accounted for

Every star of a statement is a multiplication, stands for the arguments of a call, or for columns in
a list of them (`Session.parse_accounts_for_stars`). A layout counts the stars of its tokens at the
nodes that stand for them, and no child brings a star of its own.
-/

namespace SqlSyntax

namespace Tree

variable {stage : Stage} {ts w : List Token} {l : Label} {t c : Tree}

/-- How many stars the nodes of a tree stand for. -/
def stars (t : Tree) : Nat := (t.preorder.map (·.head.stars)).sum

theorem stars_node (n : Node) (cs : List Tree) :
    (Tree.node n cs).stars = n.stars + (cs.map stars).sum := by
  have hflat : ((cs.flatMap preorder).map (·.head.stars)).sum = (cs.map stars).sum := by
    induction cs with
    | nil => rfl
    | cons c cs ih =>
      rw [List.flatMap_cons, List.map_append, List.sum_append, ih, List.map_cons, List.sum_cons]
      rfl
  rw [stars, preorder_node, List.map_cons, List.sum_cons, hflat]
  rfl

theorem stars_append (t : Tree) (cs : List Tree) :
    (t.append cs).stars = t.stars + (cs.map stars).sum := by
  obtain ⟨n, ds⟩ := t
  simp [append, stars_node, head, children, Nat.add_assoc]

theorem stars_prepend (t c : Tree) : (t.prepend c).stars = c.stars + t.stars := by
  obtain ⟨n, ds⟩ := t
  simp only [prepend, stars_node, head, children, List.map_cons, List.sum_cons]
  omega

theorem stars_mapHead {change : Node → Node} (h : (change t.head).stars = t.head.stars) :
    (t.mapHead change).stars = t.stars := by
  obtain ⟨n, ds⟩ := t
  have hn : (change n).stars = n.stars := h
  rw [mapHead, stars_node, stars_node, hn]

/-- The nodes stand for as many stars as there are among the tokens. -/
theorem Laid.starsOf_eq (h : t.Laid stage w) : starsOf w = t.stars := by
  induction h with
  | leaf _ stars => simp [Tree.leaf, stars_node, stars]
  | above _ _ _ stars ih =>
    rw [starsOf_append, ih, stars, stars_node]
    simp [Nat.add_comm]
  | ahead _ _ _ stars _ ih =>
    rw [ih, stars_node, stars]
    simp
  | reopen _ ih => exact ih
  | token _ unstarred ih =>
    rw [starsOf_append, ih]
    simp [unstarred]
  | behind unstarred _ ih =>
    rw [starsOf_cons, ih]
    simp [unstarred]
  | child _ _ _ ih ihc =>
    rw [starsOf_append, ih, ihc, stars_append]
    simp
  | amend _ alike ih =>
    rw [ih, stars_mapHead alike.stars]
  | @finish stage w t tree ih =>
    have hfinish : (t.mapHead fun n => { n with span := n.span.extend (stopOf w) }).stars =
        t.stars := stars_mapHead rfl
    rw [ih, hfinish]
  | «with» _ _ _ _ _ ihc ih =>
    rw [starsOf_append, ihc, ih, stars_prepend]
  | @limit stage w u v word mark t a b counted skipped count skip tree query unstarred first second
      order counts _ _ _ _ ih iha ihb =>
    have hmark : mark.kind ≠ .star := by
      rcases order with ⟨hkind, -⟩ | ⟨hkind, -⟩ <;> simp [hkind]
    have hcount : count.stars = 0 := by
      simp [Node.stars, Node.isProduct, Node.isStarCall, counts.1]
    have hskip : skip.stars = 0 := by
      simp [Node.stars, Node.isProduct, Node.isStarCall, counts.2]
    have hnumbers : counted.stars + skipped.stars = a.stars + b.stars := by
      rcases order with ⟨-, rfl, rfl⟩ | ⟨-, rfl, rfl⟩
      · exact Nat.add_comm _ _
      · rfl
    rw [starsOf_append, starsOf_cons, starsOf_append, starsOf_cons, ih, iha, ihb, stars_append]
    simp only [List.map_cons, List.map_nil, List.sum_cons, List.sum_nil, stars_node, hcount, hskip,
      beq_eq_false_iff_ne.2 hmark, beq_eq_false_iff_ne.2 unstarred, Bool.toNat_false]
    omega

/-! ## Wildcards and calls -/

/-- Stars stand for columns only in lists of columns. -/
theorem Edge.listsColumns (h : c.Edge ts l) (hc : c.kind.isWildcard = true) :
    l.kind.listsColumns = true := by
  cases h with
  | @under w v role _ _ under =>
    have hadmits := under.admits
    have htakes := under.takes
    cases hkind : c.kind <;> rw [hkind] at hc hadmits <;> cases hc <;> cases role <;>
      first | exact htakes.1 | cases hadmits
  | «with» kind => rw [kind] at hc; cases hc
  | count kind => rw [kind] at hc; cases hc
  | skip kind => rw [kind] at hc; cases hc

/-- Nothing but a window stands under a call with a star. -/
theorem Edge.window (h : c.Edge ts l) (hl : l.kind = .functionCall) (hstar : l.starred = true) :
    c.kind = .windowSpec := by
  obtain ⟨k, context, start, starred⟩ := l
  obtain rfl : k = .functionCall := hl
  obtain rfl : starred = true := hstar
  cases h with
  | @under w v role _ _ under =>
    have hadmits := under.admits
    have htakes := under.takes
    cases role with
    | window => exact eq_of_beq hadmits
    | plain => cases htakes.1
    | column => cases htakes.1
    | columns => cases htakes.1
    | query => cases htakes
    | statement => cases htakes
  | «with» _ _ takes => cases takes
  | count _ _ query => cases query
  | skip _ _ query => cases query

end Tree

/-! ## Whole statements -/

theorem starsOf_eq_zero {w : List Token} (h : ∀ x ∈ w, (x.kind == .semicolon) = true) :
    starsOf w = 0 := by
  rw [starsOf, List.countP_eq_zero]
  intro x hx
  simp [eq_of_beq (h x hx)]

/-- No star is among the semicolons around a statement. -/
theorem Source.starsOf_statementTokens (source : Source) :
    starsOf source.statementTokens = starsOf (tokenize source) := by
  generalize hp : (fun x : Token => x.kind == .semicolon) = p
  have hsemicolon {w : List Token} (h : ∀ x ∈ w, p x = true) : starsOf w = 0 :=
    starsOf_eq_zero fun x hx => by
      have hx := h x hx
      rwa [← hp] at hx
  rw [Source.statementTokens, hp]
  have hbefore : starsOf ((tokenize source).takeWhile p) = 0 :=
    hsemicolon fun x hx => List.mem_takeWhile_imp hx
  have hafter : starsOf (((tokenize source).dropWhile p).rtakeWhile p) = 0 :=
    hsemicolon fun x hx => List.mem_rtakeWhile_imp hx
  have hfront := congrArg starsOf (List.takeWhile_append_dropWhile (p := p) (l := tokenize source))
  have hback := congrArg starsOf
    (List.rdropWhile_append_rtakeWhile (p := p) (l := (tokenize source).dropWhile p))
  rw [starsOf_append] at hfront hback
  omega

theorem sum_map_stars (ts : List Tree) :
    (ts.map (·.head.stars)).sum = ts.countP (·.head.isProduct) + ts.countP (·.kind == .wildcard) +
      ts.countP (·.kind == .qualifiedWildcard) + ts.countP (·.head.isStarCall) := by
  have hbit (b : Bool) : b.toNat = if b = true then 1 else 0 := by cases b <;> rfl
  induction ts with
  | nil => rfl
  | cons t ts ih =>
    have hkind : t.kind = t.head.kind := rfl
    rw [List.map_cons, List.sum_cons, ih]
    simp only [List.countP_cons, Node.stars, hbit, hkind]
    omega

/-- The stars of a statement are its multiplications, its stars for columns and its calls with a
star. A star stands for columns only right under a list of them, and a call with a star has nothing
under it but a window. -/
theorem Session.parse_accounts_for_stars (s : Session) (source : Source) (t : Tree)
    (h : (s.parse source).1 = .ok t) :
    (tokenize source).countP (·.kind == .star) =
      t.preorder.countP (·.head.isProduct) + t.preorder.countP (·.kind == .wildcard) +
        t.preorder.countP (·.kind == .qualifiedWildcard) + t.preorder.countP (·.head.isStarCall) ∧
    t.kind.isWildcard = false ∧
    (∀ u ∈ t.preorder, ∀ c ∈ u.children, c.kind.isWildcard = true → u.kind.listsColumns = true) ∧
    ∀ u ∈ t.preorder, u.head.isStarCall = true → ∀ c ∈ u.children, c.kind = .windowSpec := by
  have hstands := parse_laid h
  have hjoins := hstands.laid.joins source.statementTokens_infix (spread_tokenize source)
  have hroot : (t.kind.isOrdinary || t.kind.isQuery) = true := hstands.admits
  refine ⟨?_, ?_, fun u hu c hc hk => (hjoins u hu c hc).listsColumns hk, fun u hu hcall c hc => ?_⟩
  · have hcount := hstands.laid.starsOf_eq
    rw [source.starsOf_statementTokens] at hcount
    exact hcount.trans (sum_map_stars _)
  · cases hk : t.kind <;> rw [hk] at hroot <;> first | rfl | cases hroot
  · obtain ⟨hkind, hstar⟩ := Bool.and_eq_true_iff.1 hcall
    exact (hjoins u hu c hc).window (eq_of_beq hkind) hstar

/-- A star of each sort, and calls with a star that have a window or not. -/
theorem Session.parse_accounts_for_stars_each :
    let text := "SELECT *, a.select.*, COUNT(*) OVER (ORDER BY 2 * b), MAX(c * - d) FROM a " ++
      "WHERE EXISTS (SELECT COUNT(*) FROM e)"
    ∃ t, (({} : Session).parse text.toList).1 = .ok t ∧
      (tokenize text.toList).countP (·.kind == .star) =
        t.preorder.countP (·.head.isProduct) + t.preorder.countP (·.kind == .wildcard) +
          t.preorder.countP (·.kind == .qualifiedWildcard) +
          t.preorder.countP (·.head.isStarCall) := by
  intro text
  have hok : (({} : Session).parse text.toList).1.isOk := by
    decide +kernel
  obtain ⟨t, h⟩ := exists_of_isOk hok
  exact ⟨t, h, (parse_accounts_for_stars _ _ t h).1⟩

end SqlSyntax
