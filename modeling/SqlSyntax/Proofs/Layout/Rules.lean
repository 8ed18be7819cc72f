import SqlSyntax.Proofs.Growth
import SqlSyntax.Proofs.Layout.Stands

/-!
# Productions along their tokens

A production is followed token by token: it has read some tokens since it began and has others
ahead, and so it goes on with more read and fewer ahead (`Parser.Lays`). Steps that take no token
leave both as they are (`Parser.Stays`). A production that another one calls starts afresh, with
nothing read, and what it has read at its end is added to what the caller had (`Lays.call`).
-/

namespace SqlSyntax

open SqlSyntax.Parser

variable {α β : Type} {c : Option Context} {w r : List Token}

/-- The marks that a word is told from are written as they are. -/
structure Token.Honest (t : Token) : Prop where
  star : t.kind = .star → t.text = "*"
  semicolon : t.kind = .semicolon → t.text = ";"

/-- Where the last of some tokens ends, or where the one before them ended. -/
def stopAfter (stop : Nat) (v : List Token) : Nat := (v.getLast?.map (·.span.stop)).getD stop

theorem stopAfter_append (stop : Nat) (v w : List Token) :
    stopAfter stop (v ++ w) = stopAfter (stopAfter stop v) w := by
  unfold stopAfter
  rcases List.eq_nil_or_concat w with rfl | ⟨w, x, rfl⟩
  · simp
  · simp [← List.append_assoc]

/-- The run has read the tokens `w` since its production began and has the tokens `r` ahead. -/
structure Progress.Stand (s : Progress) (w r : List Token) : Prop where
  rest : s.rest = r
  honest : ∀ x ∈ r, x.Honest
  lastEnd : w ≠ [] → s.lastEnd = stopOf w

/-- The run has taken the tokens `v` and has the tokens `r` ahead. -/
structure Progress.Took (s s' : Progress) (v r : List Token) : Prop where
  ahead : s.rest = v ++ r
  rest : s'.rest = r
  lastEnd : s'.lastEnd = stopAfter s.lastEnd v

namespace Progress

variable {s s' s'' : Progress} {v v' r' : List Token}

theorem Took.trans (h : s.Took s' v r) (h' : s'.Took s'' v' r') : s.Took s'' (v ++ v') r' where
  ahead := by rw [h.ahead, ← h.rest, h'.ahead, List.append_assoc]
  rest := h'.rest
  lastEnd := by rw [h'.lastEnd, h.lastEnd, stopAfter_append]

theorem Took.of_eq (hrest : s'.rest = s.rest) (hend : s'.lastEnd = s.lastEnd) :
    s.Took s' [] s.rest :=
  ⟨rfl, hrest, hend⟩

theorem Took.advanced {x : Token} (h : s.rest = x :: r) : s.Took (s.advanced x r) [x] r :=
  ⟨h, rfl, rfl⟩

theorem Stand.after (hs : s.Stand w r) (h : s.Took s' v r') : s'.Stand (w ++ v) r' where
  rest := h.rest
  honest x hx := hs.honest x (by rw [← hs.rest, h.ahead]; exact List.mem_append_right v hx)
  lastEnd hne := by
    rw [h.lastEnd]
    rcases List.eq_nil_or_concat v with rfl | ⟨v, x, rfl⟩
    · rw [List.append_nil] at hne ⊢
      exact hs.lastEnd hne
    · simp [stopAfter, ← List.append_assoc]

theorem Stand.afresh (hs : s.Stand w r) : s.Stand [] r :=
  ⟨hs.rest, hs.honest, fun h => absurd rfl h⟩

theorem Stand.behind {v : List Token} (hs : s.Stand (w ++ v) r) : s.Stand v r where
  rest := hs.rest
  honest := hs.honest
  lastEnd h := by rw [hs.lastEnd (List.append_ne_nil_of_right_ne_nil w h), stopOf_append w h]

end Progress

/-- From where the production has read `w` and has `r` ahead, an answer comes where the fact holds
of it, of what is then read, and of what is then ahead. -/
def Parser.Lays (c : Option Context) (w r : List Token) (p : Parser α)
    (fact : α → List Token → List Token → Prop) : Prop :=
  ∀ ⦃scope s a s'⦄, scope.context = c → s.Stand w r → p scope s = .ok a s' →
    ∃ v r', s.Took s' v r' ∧ fact a (w ++ v) r'

/-- The parser takes no token, and the fact holds of its answers. -/
def Parser.Stays (c : Option Context) (p : Parser α) (fact : α → Prop) : Prop :=
  ∀ ⦃scope s a s'⦄, scope.context = c → p scope s = .ok a s' →
    s'.rest = s.rest ∧ s'.lastEnd = s.lastEnd ∧ fact a

/-- The fact holds of the answers of a production and of the tokens that it reads. -/
def Parser.Yields (p : Parser α) (c : Option Context) (fact : α → List Token → Prop) : Prop :=
  ∀ r, p.Lays c [] r fun a v _ => fact a v

/-! ## Steps that take no token -/

namespace Parser.Stays

variable {p : Parser α} {fact : α → Prop}

theorem pure {a : α} (h : fact a) : Stays c (Pure.pure a) fact := by
  rintro scope s _ _ _ ⟨⟩
  exact ⟨rfl, rfl, h⟩

theorem bind {k : α → Parser β} {fact' : β → Prop} (hp : Stays c p fact)
    (hk : ∀ a, fact a → Stays c (k a) fact') : Stays c (p >>= k) fact' := by
  intro scope s b s' hc hrun
  obtain ⟨a, s₁, ha, hb⟩ := exists_of_bind hrun
  obtain ⟨hrest, hend, hfact⟩ := hp hc ha
  obtain ⟨hrest', hend', hfact'⟩ := hk a hfact hc hb
  exact ⟨hrest'.trans hrest, hend'.trans hend, hfact'⟩

theorem weaken {fact' : α → Prop} (hp : Stays c p fact) (h : ∀ a, fact a → fact' a) :
    Stays c p fact' := by
  intro scope s a s' hc hrun
  obtain ⟨hrest, hend, hfact⟩ := hp hc hrun
  exact ⟨hrest, hend, h a hfact⟩

theorem throw (f : Failure) : Stays c (MonadExcept.throw f : Parser α) fact :=
  fun _ _ _ _ _ hrun => nomatch hrun

theorem edit (step : Command) : Stays c (Parser.edit step) fun _ => True := by
  rintro scope s _ _ _ ⟨⟩
  exact ⟨s.rest_edited step, s.lastEnd_edited step, trivial⟩

/-- A change of what the run counts. -/
theorem count {f : Progress → α × Progress} (hf : ∀ s, (f s).2.rest = s.rest)
    (hend : ∀ s, (f s).2.lastEnd = s.lastEnd) : Stays c (modifyGet f) fun _ => True := by
  rintro scope s _ _ _ ⟨⟩
  exact ⟨hf s, hend s, trivial⟩

theorem peek (f : Progress → α) : Stays c (do let s ← get; return f s) fun _ => True := by
  rintro scope s _ _ _ ⟨⟩
  exact ⟨rfl, rfl, trivial⟩

theorem ask {k : Scope → Parser α} (hk : ∀ scope, Stays c (k scope) fact) :
    Stays c (read >>= k) fact :=
  fun scope _ _ _ hc hrun => hk scope hc hrun

theorem checkQuotes (t : Token) : Stays c (Parser.checkQuotes t) fun _ => True := by
  refine ask fun scope => ?_
  split
  · exact throw _
  · exact pure trivial

/-! ### Texts -/

theorem copy (text : String) : Stays c (Parser.copy text) fun _ => True :=
  (edit _).bind fun _ _ => count (fun _ => rfl) fun _ => rfl

theorem quotedText (quote : Char) (t : Token) :
    Stays c (Parser.quotedText quote t) fun _ => True := by
  refine ask fun scope => ?_
  split
  · exact throw _
  · split
    · exact copy _
    · exact pure trivial

theorem tokenText (t : Token) : Stays c (Parser.tokenText t) fun _ => True := by
  unfold Parser.tokenText
  split
  · exact quotedText _ t
  · split
    · exact pure trivial
    · exact pure trivial
    · exact quotedText _ t
  · exact pure trivial
  · exact pure trivial

theorem tokenTexts : ∀ ts : List Token, Stays c (tokenTexts ts) fun _ => True
  | [] => pure trivial
  | t :: ts => by
    unfold SqlSyntax.tokenTexts
    rw [List.mapM_cons]
    exact (tokenText t).bind fun _ _ => (tokenTexts ts).bind fun _ _ => pure trivial

/-! ### Nodes -/

variable {stage : Stage} {l : Label} {v : List Token} {t u : Tree} {kind : Kind} {x : Token}
  {role : Role} {ctx : Option Context} {span : Span}

theorem newNode (kind : Kind) (location : Location) (span : Span) :
    Stays c (Parser.newNode kind location span) (Tree.New kind c span) := by
  rintro scope s _ _ rfl ⟨⟩
  refine ⟨s.rest_edited _, s.lastEnd_edited _, _, rfl, rfl, rfl, rfl, BitVec.getLsbD_zero, ?_⟩
  exact Bool.and_false _

theorem nodeAt (kind : Kind) (x : Token) :
    Stays c (Parser.nodeAt kind x) (Tree.New kind c x.span) :=
  newNode kind _ _

theorem nodeOver (kind : Kind) (first : Tree) :
    Stays c (Parser.nodeOver kind first) (Tree.New kind c first.head.span) :=
  (edit _).bind fun _ _ => newNode kind _ _

/-- A node at the first of the tokens that were read. -/
theorem opened (hw : w.head? = some x) (hstars : HasStars kind.isWildcard.toNat w) :
    Stays c (Parser.nodeAt kind x) (Tree.Rooted .grown ⟨kind, c, x.span.start, false⟩ · w) :=
  (nodeAt kind x).weaken fun _ h => h.rooted (by rw [hw]; rfl) hstars

theorem amend (t : Tree) (change : Node → Node) :
    Stays c (Parser.amend t change) (· = t.mapHead change) :=
  (edit _).bind fun _ _ => pure rfl

/-- A change that the layout does not tell of. -/
theorem altered {change : Node → Node} (h : t.Rooted stage l w)
    (hc : ∀ n, n.kind = l.kind → (change n).Matches n) :
    Stays c (Parser.amend t change) (Tree.Rooted stage l · w) :=
  (amend t change).weaken fun _ hu => hu ▸ h.amend hc

theorem alteredNew {change : Node → Node} (h : t.New kind c span)
    (hc : ∀ n, n.kind = kind → (change n).Matches n) :
    Stays c (Parser.amend t change) (Tree.New kind c span) :=
  (amend t change).weaken fun _ hu => hu ▸ h.amend hc

theorem setText (h : t.Rooted stage l w) (x : Token) :
    Stays c (Parser.setText t x) (Tree.Rooted stage l · w) :=
  (tokenText x).bind fun _ _ => altered h fun _ _ => ⟨rfl, rfl, rfl, rfl, fun _ => rfl⟩

theorem named (hw : w.head? = some x) (hstars : HasStars kind.isWildcard.toNat w) :
    Stays c (Parser.namedNode kind x) (Tree.Rooted .grown ⟨kind, c, x.span.start, false⟩ · w) :=
  (opened hw hstars).bind fun _ h => setText h x

theorem setTextNew (h : t.New kind c span) (x : Token) :
    Stays c (Parser.setText t x) (Tree.New kind c span) :=
  (tokenText x).bind fun _ _ => alteredNew h fun _ _ => ⟨rfl, rfl, rfl, rfl, fun _ => rfl⟩

theorem namedNode (kind : Kind) (x : Token) :
    Stays c (Parser.namedNode kind x) (Tree.New kind c x.span) :=
  (nodeAt kind x).bind fun _ h => setTextNew h x

theorem flag (h : t.Rooted stage l w) {f : Flag} (hf : (f == .starArgs) = false) :
    Stays c (Parser.flag t f) (Tree.Rooted stage l · w) :=
  altered h fun _ _ => ⟨rfl, rfl, rfl, Flags.has_insert_of_ne (ne_of_beq_false hf), fun _ => rfl⟩

theorem flagIf (h : t.Rooted stage l w) (condition : Bool) {f : Flag}
    (hf : (f == .starArgs) = false) :
    Stays c (Parser.flagIf condition f t) (Tree.Rooted stage l · w) := by
  unfold Parser.flagIf
  split
  · exact flag h hf
  · exact pure h

theorem flagIfNew (h : t.New kind c span) (condition : Bool) {f : Flag}
    (hf : (f == .starArgs) = false) :
    Stays c (Parser.flagIf condition f t) (Tree.New kind c span) := by
  unfold Parser.flagIf
  split
  · have hne := ne_of_beq_false hf
    exact alteredNew h fun _ _ => ⟨rfl, rfl, rfl, Flags.has_insert_of_ne hne, fun _ => rfl⟩
  · exact pure h

theorem put (parent child : Tree) :
    Stays c (Parser.attach parent child) (· = parent.append [child]) :=
  (edit _).bind fun _ _ => pure rfl

theorem attach (h : t.Rooted stage l w) (hu : u.Stands role ctx v)
    (hl : l.Takes w role ctx) :
    Stays c (Parser.attach t u) (Tree.Rooted .growing l · (w ++ v)) :=
  (put t u).weaken fun _ heq => heq ▸ h.child hu hl

theorem attachOver (h : t.New kind c u.head.span) (hu : u.Stands role c w)
    (hl : (⟨kind, c, u.start, false⟩ : Label).Takes [] role c)
    (hk : kind.isWildcard = false) :
    Stays c (Parser.attach t u) (Tree.Rooted .growing ⟨kind, c, u.start, false⟩ · w) :=
  (put t u).weaken fun _ heq => heq ▸ h.above hu hk hl

theorem prepend (parent child : Tree) :
    Stays c (Parser.prepend parent child) (· = parent.prepend child) :=
  (edit _).bind fun _ _ => pure rfl

end Parser.Stays

/-! ## Steps along the tokens -/

namespace Parser.Lays

variable {p : Parser α} {k : α → Parser β} {fact : β → List Token → List Token → Prop}

/-! ### Control -/

theorem pure {a : β} (h : fact a w r) : Lays c w r (Pure.pure a) fact := by
  rintro scope s _ _ - hs ⟨⟩
  refine ⟨[], r, ?_, by rwa [List.append_nil]⟩
  rw [← hs.rest]
  exact .of_eq rfl rfl

theorem bind {fact' : α → List Token → List Token → Prop} (hp : Lays c w r p fact')
    (hk : ∀ a v r', r = v ++ r' → fact' a (w ++ v) r' → Lays c (w ++ v) r' (k a) fact) :
    Lays c w r (p >>= k) fact := by
  intro scope s b s' hc hs hrun
  obtain ⟨a, s₁, ha, hb⟩ := exists_of_bind hrun
  obtain ⟨v, r₁, htook, hfact'⟩ := hp hc hs ha
  have hr : r = v ++ r₁ := hs.rest ▸ htook.ahead
  obtain ⟨v', r', htook', hfact⟩ := hk a v r₁ hr hfact' hc (hs.after htook) hb
  exact ⟨v ++ v', r', htook.trans htook', by rwa [← List.append_assoc]⟩

/-- A step that takes no token. -/
theorem stay {fact' : α → Prop} (hp : Stays c p fact')
    (hk : ∀ a, fact' a → Lays c w r (k a) fact) : Lays c w r (p >>= k) fact := by
  intro scope s b s' hc hs hrun
  obtain ⟨a, s₁, ha, hb⟩ := exists_of_bind hrun
  obtain ⟨hrest, hend, hfact'⟩ := hp hc ha
  have htook : s.Took s₁ [] r := hs.rest ▸ .of_eq hrest hend
  have hs₁ := hs.after htook
  rw [List.append_nil] at hs₁
  obtain ⟨v, r', htook', hfact⟩ := hk a hfact' hc hs₁ hb
  exact ⟨v, r', htook.trans htook', hfact⟩

/-- The last step, which takes no token. -/
theorem stays {p : Parser β} {fact' : β → Prop} (hp : Stays c p fact')
    (h : ∀ a, fact' a → fact a w r) : Lays c w r p fact := by
  rw [← bind_pure p]
  exact stay hp fun a ha => pure (h a ha)

/-- A production that has read the last of the tokens itself does not know of those before. -/
theorem callFrom {u w' : List Token} {fact' : α → List Token → Prop} (hw : w' = w ++ u)
    (hp : Lays c u r p fun a v _ => fact' a v)
    (hk : ∀ a v r', fact' a v → Lays c (w ++ v) r' (k a) fact) :
    Lays c w' r (p >>= k) fact := by
  subst hw
  have hcall : Lays c (w ++ u) r p fun a w' _ => ∃ v, w' = w ++ v ∧ fact' a v := by
    intro scope s a s' hc hs hrun
    obtain ⟨v, r', htook, hfact'⟩ := hp hc hs.behind hrun
    exact ⟨v, r', htook, u ++ v, List.append_assoc _ _ _, hfact'⟩
  refine hcall.bind fun a v r' _ h => ?_
  obtain ⟨v', hv, hfact'⟩ := h
  rw [hv]
  exact hk a v' r' hfact'

/-- The last production, which has read the last of the tokens itself. -/
theorem callsFrom {p : Parser β} {u w' : List Token} {fact' : β → List Token → Prop}
    (hw : w' = w ++ u) (hp : Lays c u r p fun a v _ => fact' a v)
    (h : ∀ a v r', fact' a v → fact a (w ++ v) r') : Lays c w' r p fact := by
  rw [← bind_pure p]
  exact callFrom hw hp fun a v r' ha => pure (h a v r' ha)

/-- A production that another one calls starts afresh. -/
theorem call {fact' : α → List Token → Prop} (hp : Yields p c fact')
    (hk : ∀ a v r', r = v ++ r' → fact' a v → Lays c (w ++ v) r' (k a) fact) :
    Lays c w r (p >>= k) fact := by
  have hcall : Lays c w r p fun a w' _ => ∃ v, w' = w ++ v ∧ fact' a v := by
    intro scope s a s' hc hs hrun
    obtain ⟨v, r', htook, hfact'⟩ := hp r hc hs.afresh hrun
    exact ⟨v, r', htook, v, rfl, hfact'⟩
  refine hcall.bind fun a v r' hr h => ?_
  obtain ⟨v', hv, hfact'⟩ := h
  exact hk a v r' hr (List.append_cancel_left hv ▸ hfact')

/-- The last call. -/
theorem calls {p : Parser β} {fact' : β → List Token → Prop} (hp : Yields p c fact')
    (h : ∀ a v r', r = v ++ r' → fact' a v → fact a (w ++ v) r') : Lays c w r p fact := by
  rw [← bind_pure p]
  exact call hp fun a v r' hr ha => pure (h a v r' hr ha)

theorem weaken {p : Parser β} {fact' : β → List Token → List Token → Prop}
    (hp : Lays c w r p fact')
    (h : ∀ a v r', r = v ++ r' → fact' a (w ++ v) r' → fact a (w ++ v) r') :
    Lays c w r p fact := by
  rw [← bind_pure p]
  exact hp.bind fun a v r' hr ha => pure (h a v r' hr ha)

theorem throw (f : Failure) : Lays c w r (MonadExcept.throw f : Parser β) fact :=
  fun _ _ _ _ _ _ hrun => nomatch hrun

theorem unexpected (what : String) : Lays c w r (Parser.unexpected what : Parser β) fact := by
  intro scope s a s' _ _ hrun
  obtain ⟨o, s₁, -, hrun⟩ := exists_of_bind hrun
  rcases o with _ | x
  · obtain ⟨_, _, -, hrun⟩ := exists_of_bind hrun
    cases hrun
  · cases hrun

theorem unexpected_bind (what : String) {k : α → Parser β} :
    Lays c w r (Parser.unexpected what >>= k) fact := by
  have hnever : Lays c w r (Parser.unexpected what : Parser α) fun _ _ _ => False :=
    unexpected what
  exact hnever.bind fun _ _ _ _ h => h.elim

theorem ask {k : Scope → Parser β} (hk : ∀ scope, Lays c w r (k scope) fact) :
    Lays c w r (read >>= k) fact :=
  fun scope _ _ _ hc hs hrun => hk scope hc hs hrun

theorem within {p : Parser β} (context : Context) (hp : Lays (some context) w r p fact) :
    Lays c w r (within context p) fact :=
  fun _ _ _ _ _ hs hrun => hp rfl hs hrun

theorem deeper {p : Parser β} (hp : Lays c w r p fact) : Lays c w r (deeper p) fact := by
  intro scope s a s' hc hs hrun
  rw [deeper_run] at hrun
  split at hrun
  · cases hrun
  · split at hrun
    · cases hrun
    · obtain ⟨v, r', htook, hfact⟩ := @hp { scope with depth := scope.depth + 1 }
        { s with deepest := max s.deepest (scope.depth + 1) } a s' hc
        ⟨hs.rest, hs.honest, hs.lastEnd⟩ hrun
      exact ⟨v, r', ⟨htook.ahead, htook.rest, htook.lastEnd⟩, hfact⟩

/-- A step whose answer is not used. -/
theorem discard {k : Unit → Parser β} (h : Lays c w r (p >>= fun _ => k ()) fact) :
    Lays c w r (Functor.discard p >>= k) fact := by
  intro scope s b s' hc hs hrun
  obtain ⟨u, s₁, hu, hb⟩ := exists_of_bind hrun
  have hu : (p >>= fun _ => Pure.pure ()) scope s = .ok u s₁ := hu
  obtain ⟨a, s₂, ha, hpure⟩ := exists_of_bind hu
  cases hpure
  exact h hc hs (by rw [bind_ok ha]; exact hb)

/-! ### Tokens -/

theorem look (f : List Token → α) (h : Lays c w r (k (f r)) fact) :
    Lays c w r ((do let s ← get; return f s.rest) >>= k) fact := by
  intro scope s b s' hc hs hrun
  refine h hc hs ?_
  rw [← hs.rest]
  exact hrun

theorem current {k : Option Token → Parser β}
    (hsome : ∀ x r', r = x :: r' → Lays c w (x :: r') (k (some x)) fact)
    (hnone : r = [] → Lays c w [] (k none) fact) : Lays c w r (Parser.current >>= k) fact := by
  refine look (fun r => r.head?) ?_
  rcases r with _ | ⟨x, r⟩
  · exact hnone rfl
  · exact hsome x r rfl

theorem kindAt {k : Option TokenKind → Parser β} (n : Nat)
    (h : Lays c w r (k (r[n]?.map Token.kind)) fact) :
    Lays c w r (Parser.kindAt n >>= k) fact :=
  look (fun r => r[n]?.map Token.kind) h

theorem currentKind {k : Option TokenKind → Parser β}
    (h : Lays c w r (k (r[0]?.map Token.kind)) fact) :
    Lays c w r (Parser.currentKind >>= k) fact :=
  kindAt 0 h

theorem sees {k : Bool → Parser β} (kind : TokenKind)
    (h : Lays c w r (k (r[0]?.map Token.kind == some kind)) fact) :
    Lays c w r (Parser.sees kind >>= k) fact :=
  look (fun r => r[0]?.map Token.kind == some kind) h

theorem advance {k : Option Token → Parser β} {x : Token}
    (h : Lays c (w ++ [x]) r (k (some x)) fact) :
    Lays c w (x :: r) (Parser.advance >>= k) fact := by
  intro scope s b s' hc hs hrun
  have hadvance := advance_run hs.rest scope
  rw [bind_ok hadvance] at hrun
  have htook := Progress.Took.advanced hs.rest
  obtain ⟨v, r', htook', hfact⟩ := h hc (hs.after htook) hrun
  exact ⟨[x] ++ v, r', htook.trans htook', by rwa [← List.append_assoc]⟩

theorem advance? {k : Option Token → Parser β}
    (hsome : ∀ x r', r = x :: r' → Lays c (w ++ [x]) r' (k (some x)) fact)
    (hnone : Lays c w [] (k none) fact) : Lays c w r (Parser.advance >>= k) fact := by
  rcases r with _ | ⟨x, r⟩
  · intro scope s b s' hc hs hrun
    have hadvance : Parser.advance scope s = .ok none s := by
      obtain ⟨rest⟩ := s
      obtain rfl : rest = [] := hs.rest
      rfl
    rw [bind_ok hadvance] at hrun
    exact hnone hc hs hrun
  · exact advance (hsome x r rfl)

theorem takeIf? {k : Option Token → Parser β} {test : Token → Bool}
    (hsome : ∀ x r', r = x :: r' → test x = true → Lays c (w ++ [x]) r' (k (some x)) fact)
    (hnone : Lays c w r (k none) fact) : Lays c w r (Parser.takeIf? test >>= k) fact := by
  unfold Parser.takeIf?
  rw [bind_assoc]
  refine current (fun x r' hr => ?_) ?_
  · show Lays c w (x :: r') ((if test x then Parser.advance else Pure.pure none) >>= k) fact
    by_cases ht : test x = true
    · rw [if_pos ht]
      exact advance (hsome x r' hr ht)
    · rw [if_neg ht, pure_bind, ← hr]
      exact hnone
  · rintro rfl
    rw [pure_bind]
    exact hnone

theorem take? {k : Option Token → Parser β} {kind : TokenKind}
    (hsome : ∀ x r', r = x :: r' → x.kind = kind → Lays c (w ++ [x]) r' (k (some x)) fact)
    (hnone : Lays c w r (k none) fact) : Lays c w r (Parser.take? kind >>= k) fact :=
  takeIf? (fun x r' hr hx => hsome x r' hr (eq_of_beq hx)) hnone

theorem takeKeyword? {k : Option Token → Parser β} {keyword : Keyword}
    (hsome : ∀ x r', r = x :: r' → x.kind = .keyword keyword →
      Lays c (w ++ [x]) r' (k (some x)) fact)
    (hnone : Lays c w r (k none) fact) : Lays c w r (Parser.takeKeyword? keyword >>= k) fact :=
  take? hsome hnone

theorem consume {k : Bool → Parser β} {kind : TokenKind}
    (hyes : ∀ x r', r = x :: r' → x.kind = kind → Lays c (w ++ [x]) r' (k true) fact)
    (hno : Lays c w r (k false) fact) : Lays c w r (Parser.consume kind >>= k) fact := by
  unfold Parser.consume
  rw [bind_assoc]
  exact take? (fun x r' hr hx => by rw [pure_bind]; exact hyes x r' hr hx)
    (by rw [pure_bind]; exact hno)

theorem consumeKeyword {k : Bool → Parser β} {keyword : Keyword}
    (hyes : ∀ x r', r = x :: r' → x.kind = .keyword keyword → Lays c (w ++ [x]) r' (k true) fact)
    (hno : Lays c w r (k false) fact) : Lays c w r (Parser.consumeKeyword keyword >>= k) fact :=
  consume hyes hno

theorem expect {k : Token → Parser β} {kind : TokenKind} {what : String}
    (h : ∀ x r', r = x :: r' → x.kind = kind → Lays c (w ++ [x]) r' (k x) fact) :
    Lays c w r (Parser.expect kind what >>= k) fact := by
  unfold Parser.expect
  rw [bind_assoc]
  refine take? (fun x r' hr hx => ?_) ?_
  · show Lays c (w ++ [x]) r' (Pure.pure x >>= k) fact
    rw [pure_bind]
    exact h x r' hr hx
  · exact unexpected_bind what

theorem expectKeyword {k : Token → Parser β} {keyword : Keyword}
    (h : ∀ x r', r = x :: r' → x.kind = .keyword keyword → Lays c (w ++ [x]) r' (k x) fact) :
    Lays c w r (Parser.expectKeyword keyword >>= k) fact :=
  expect h

theorem expectWord {k : Token → Parser β} {test : Token → Bool} {what : String}
    (h : ∀ x r', r = x :: r' → test x = true → Lays c (w ++ [x]) r' (k x) fact) :
    Lays c w r (Parser.expectWord test what >>= k) fact := by
  unfold Parser.expectWord
  rw [bind_assoc]
  refine current (fun x r' hr => ?_) fun _ => ?_
  · by_cases ht : test x = true
    · show Lays c w (x :: r') ((if test x = true then _ else _) >>= k) fact
      rw [if_pos ht, bind_assoc]
      refine stay (.checkQuotes x) fun _ _ => ?_
      rw [bind_assoc]
      refine discard (advance ?_)
      rw [pure_bind]
      exact h x r' hr ht
    · show Lays c w (x :: r') ((if test x = true then _ else _) >>= k) fact
      rw [if_neg ht]
      exact unexpected_bind what
  · exact unexpected_bind what

/-- What the tokens ahead are known to keep. -/
theorem honest {p : Parser β} (h : (∀ x ∈ r, x.Honest) → Lays c w r p fact) :
    Lays c w r p fact :=
  fun _ _ _ _ hc hs hrun => h hs.honest hc hs hrun

/-! ### Repetition -/

/-- A step keeps what holds of the items and the tokens that were read. -/
theorem iterate {I : α → List Token → Prop} {step : α → Parser (Option α)}
    (hstep : ∀ a w r, I a w → Lays c w r (step a) fun o w _ => I (o.getD a) w) {a : α}
    (h : I a w) : Lays c w r (Parser.iterate step a) fun a w _ => I a w := by
  have hover : ∀ (ts : List Token) {a : α} {w r : List Token}, I a w →
      Lays c w r (iterateOver step ts a) fun a w _ => I a w := by
    intro ts
    induction ts with
    | nil =>
      intro a w r h
      exact (hstep a w r h).bind fun o v r' _ ho => pure ho
    | cons x ts ih =>
      intro a w r h
      refine (hstep a w r h).bind fun o v r' _ ho => ?_
      rcases o with _ | b
      · exact pure ho
      · exact ih ho
  intro scope s b s' hc hs hrun
  exact hover s.rest h hc hs hrun

/-- Each answer of a step takes a token, so the last step gives none, and what made it stop is
ahead. -/
theorem iterateUntil {I : α → List Token → Prop} {Q : List Token → Prop}
    {step : α → Parser (Option α)}
    (hstep : ∀ a w r, I a w → Lays c w r (step a) fun o w r' =>
      I (o.getD a) w ∧ (if o.isSome then r'.length < r.length else Q r')) {a : α} (h : I a w) :
    Lays c w r (Parser.iterate step a) fun a w r' => I a w ∧ Q r' := by
  have hover : ∀ (ts : List Token) {a : α} {w r : List Token}, I a w → r.length ≤ ts.length →
      Lays c w r (iterateOver step ts a) fun a w r' => I a w ∧ Q r' := by
    intro ts
    induction ts with
    | nil =>
      intro a w r h hle
      refine (hstep a w r h).bind fun o v r' _ ho => ?_
      rcases o with _ | b
      · exact pure ho
      · have hlt : r'.length < r.length := ho.2
        simp only [List.length_nil] at hle
        omega
    | cons x ts ih =>
      intro a w r h hle
      refine (hstep a w r h).bind fun o v r' _ ho => ?_
      rcases o with _ | b
      · exact pure ho
      · have hlt : r'.length < r.length := ho.2
        simp only [List.length_cons] at hle
        exact ih ho.1 (by omega)
  intro scope s b s' hc hs hrun
  exact hover s.rest h (hs.rest ▸ Nat.le_refl _) hc hs hrun

/-! ### Trees -/

section Trees

variable {stage : Stage} {l : Label} {t : Tree} {role : Role} {ctx : Option Context}
  {k : Tree → Parser β}

/-- A tree is carried on to the last token, whatever it is. -/
theorem carry (hw : w ≠ []) (hk : Lays c w r
    (k (t.mapHead fun n => { n with span := n.span.extend (stopOf w) })) fact) :
    Lays c w r (Parser.finish t >>= k) fact := by
  intro scope s b s' hc hs hrun
  rw [Parser.finish, bind_assoc] at hrun
  obtain ⟨p, s₁, hget, hrun⟩ := exists_of_bind hrun
  cases hget
  have hamend : Stays c (Parser.amend t fun n => { n with span := n.span.extend s.lastEnd })
      (· = t.mapHead fun n => { n with span := n.span.extend (stopOf w) }) := by
    rw [hs.lastEnd hw]
    exact .amend t _
  exact stay hamend (fun _ hu => hu ▸ hk) hc hs hrun

/-- A tree is finished that was read from the last of the tokens. -/
theorem finishPart {u : List Token} (h : t.Rooted stage l u)
    (hk : ∀ t, t.Finished l u → Lays c (w ++ u) r (k t) fact) :
    Lays c (w ++ u) r (Parser.finish t >>= k) fact := by
  refine carry (List.append_ne_nil_of_right_ne_nil w h.laid.ne_nil) (hk _ ?_)
  rw [stopOf_append w h.laid.ne_nil]
  exact h.finish

theorem finish (h : t.Rooted stage l w)
    (hk : ∀ u, u.Finished l w → Lays c w r (k u) fact) :
    Lays c w r (Parser.finish t >>= k) fact :=
  finishPart (w := []) h hk

theorem finishes {fact : Tree → List Token → List Token → Prop} (h : t.Rooted stage l w)
    (hfact : ∀ u, u.Finished l w → fact u w r) : Lays c w r (Parser.finish t) fact := by
  rw [← bind_pure (Parser.finish t)]
  exact finish h fun u hu => pure (hfact u hu)

/-- What the next production reads is put under a tree. -/
theorem under {p : Parser Tree} (h : t.Rooted stage l w) (hp : Yields p c (Tree.Stands role ctx))
    (hl : l.Takes w role ctx)
    (hk : ∀ u v r', r = v ++ r' → u.Rooted .growing l (w ++ v) →
      Lays c (w ++ v) r' (k u) fact) :
    Lays c w r (p >>= fun child => Parser.attach t child >>= k) fact :=
  call hp fun _ v r' hr hu => stay (.attach h hu hl) fun u h => hk u v r' hr h

/-- What the last production reads is put under a tree. -/
theorem unders {fact : Tree → List Token → List Token → Prop} {p : Parser Tree}
    (h : t.Rooted stage l w) (hp : Yields p c (Tree.Stands role ctx)) (hl : l.Takes w role ctx)
    (hfact : ∀ u v r', r = v ++ r' → u.Rooted .growing l (w ++ v) → fact u (w ++ v) r') :
    Lays c w r (p >>= fun child => Parser.attach t child) fact :=
  call hp fun _ v r' hr hu => stays (.attach h hu hl) fun u h => hfact u v r' hr h

/-- An optional item that takes no token where it is missing. -/
def Found (fact : α → List Token → Prop) (o : Option α) (v : List Token) : Prop :=
  match o with
  | none => v = []
  | some a => fact a v

theorem attachWhile {next : Parser (Option Tree)} (h : t.Rooted .growing l w)
    (hnext : Yields next c (Found (Tree.Stands role ctx))) (hl : ∀ w, l.Takes w role ctx) :
    Lays c w r (Parser.attachWhile next t) fun t w _ => t.Rooted .growing l w := by
  refine iterate (fun t w r h => call hnext fun o v r' _ ho => ?_) h
  rcases o with _ | u
  · obtain rfl : v = [] := ho
    rw [List.append_nil]
    exact pure h
  · exact stay (.attach h ho (hl w)) fun t ht => pure ht

theorem afterComma? {item : Parser Tree} (hitem : Yields item c (Tree.Stands role ctx))
    (hrole : role.isFramed = false) :
    Yields (Parser.afterComma? item) c (Found (Tree.Stands role ctx)) := by
  intro r
  refine consume (fun x r' _ hx => call hitem fun u v r' _ hu => pure ?_) (pure rfl)
  exact hu.behind hrole (by rw [hx]; nofun)

theorem attachList {item : Parser Tree} (h : t.Rooted stage l w)
    (hitem : Yields item c (Tree.Stands role ctx)) (hrole : role.isFramed = false)
    (hl : ∀ w, l.Takes w role ctx) :
    Lays c w r (Parser.attachList item t) fun t w _ => t.Rooted .growing l w :=
  under h hitem (hl w) fun _ _ _ _ h => attachWhile h (afterComma? hitem hrole) hl

theorem attachIf {item : Parser Tree} (condition : Bool) (h : t.Rooted stage l w)
    (hitem : Yields item c (Tree.Stands role ctx)) (hl : l.Takes w role ctx) :
    Lays c w r (Parser.attachIf condition item t) fun t w _ => t.Rooted .growing l w := by
  unfold Parser.attachIf
  split
  · exact unders h hitem hl fun _ _ _ _ h => h
  · exact pure h.growing

end Trees

end Parser.Lays

end SqlSyntax
