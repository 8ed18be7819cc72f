import SqlSyntax.Proofs.Contents.Places
import SqlSyntax.Proofs.Plain

/-!
# What parsers answer

A fact about the answers of a parser (`Parser.Answers`) says nothing of where the run comes to and
nothing of failures, so a step that makes no tree is passed over (`Answers.skip`). The rules here
are one for each kind of step; they tell which trees a step puts under which.
-/

namespace SqlSyntax

open SqlSyntax.Parser SqlSyntax.Tree

variable {α β : Type}

/-- Whatever the parser answers, the fact holds of it. -/
def Parser.Answers (p : Parser α) (fact : α → Prop) : Prop :=
  ∀ ⦃scope s a s'⦄, p scope s = .ok a s' → fact a

namespace Parser.Answers

variable {p : Parser α} {fact : α → Prop} {t c : Tree} {k : Kind} {P : Tree → Prop}
  {admits : Tree → Bool}

/-! ## Control -/

theorem pure {a : α} (h : fact a) : Answers (Pure.pure a) fact := by
  intro _ _ _ _ hrun
  cases hrun
  exact h

theorem bind {k : α → Parser β} {fact' : β → Prop} (hp : Answers p fact)
    (hk : ∀ a, fact a → Answers (k a) fact') : Answers (p >>= k) fact' := by
  intro scope s b s' hrun
  obtain ⟨a, s₁, ha, hb⟩ := exists_of_bind hrun
  exact hk a (hp ha) hb

/-- A step of which nothing is known. -/
theorem skip {k : α → Parser β} {fact' : β → Prop} (hk : ∀ a, Answers (k a) fact') :
    Answers (p >>= k) fact' := by
  intro scope s b s' hrun
  obtain ⟨a, s₁, -, hb⟩ := exists_of_bind hrun
  exact hk a hb

/-- A choice between two parsers, whichever is chosen. -/
theorem either {p : Parser Bool} {yes no : Parser α} (hyes : Answers yes fact)
    (hno : Answers no fact) : Answers (do if ← p then yes else no) fact := by
  refine skip fun b => ?_
  cases b
  · exact hno
  · exact hyes

theorem weaken {fact' : α → Prop} (hp : Answers p fact) (h : ∀ a, fact a → fact' a) :
    Answers p fact' :=
  fun _ _ _ _ hrun => h _ (hp hrun)

/-- An answer that is found. -/
theorem found (hp : Answers p fact) :
    Answers (do return some (← p)) fun o => ∀ a ∈ o, fact a := by
  refine hp.bind fun a ha => .pure ?_
  rintro _ ⟨⟩
  exact ha

theorem throw (f : Failure) : Answers (MonadExcept.throw f : Parser α) fact :=
  fun _ _ _ _ hrun => nomatch hrun

theorem unexpected (what : String) : Answers (Parser.unexpected what : Parser α) fact := by
  unfold Parser.unexpected
  refine .skip fun o => ?_
  rcases o with _ | u
  · exact .skip fun _ => .throw _
  · exact .throw _

theorem deeper (hp : Answers p fact) : Answers (deeper p) fact := by
  intro scope s a s' hrun
  rw [deeper_run] at hrun
  split at hrun
  · cases hrun
  · split at hrun
    · cases hrun
    · exact hp hrun

theorem within (context : Context) (hp : Answers p fact) : Answers (within context p) fact :=
  fun _ _ _ _ hrun => hp hrun

theorem iterateOver {step : α → Parser (Option α)}
    (h : ∀ a, fact a → Answers (step a) fun o => ∀ b ∈ o, fact b) (ts : List Token) {a : α}
    (ha : fact a) : Answers (iterateOver step ts a) fact := by
  induction ts generalizing a with
  | nil =>
    refine (h a ha).bind fun o ho => .pure ?_
    rcases o with _ | b
    · exact ha
    · exact ho b rfl
  | cons t ts ih =>
    refine (h a ha).bind fun o ho => ?_
    rcases o with _ | b
    · exact .pure ha
    · exact ih (ho b rfl)

theorem iterate {step : α → Parser (Option α)} {a : α}
    (h : ∀ a, fact a → Answers (step a) fun o => ∀ b ∈ o, fact b) (ha : fact a) :
    Answers (iterate step a) fact :=
  fun _ s _ _ hrun => iterateOver h s.rest ha hrun

/-! ## Nodes -/

theorem unstarred (kind : Kind) (token : Token) :
    Answers (nodeAt kind token) fun t => t.Begun kind [] ∧ t.head.has .starArgs = false := by
  intro _ _ _ _ hrun
  cases hrun
  exact ⟨⟨⟨rfl, nofun⟩, .nil⟩, BitVec.getLsbD_zero⟩

theorem nodeAt (kind : Kind) (token : Token) :
    Answers (Parser.nodeAt kind token) (Tree.Begun kind []) :=
  (unstarred kind token).weaken fun _ => And.left

theorem nodeOver (kind : Kind) (first : Tree) :
    Answers (nodeOver kind first) (Tree.Begun kind []) := by
  intro _ _ _ _ hrun
  cases hrun
  exact ⟨⟨rfl, nofun⟩, .nil⟩

theorem amend (t : Tree) (change : Node → Node) :
    Answers (amend t change) (· = t.mapHead change) := by
  intro _ _ _ _ hrun
  cases hrun
  rfl

/-- A change that the places of a node do not depend on. -/
theorem amendLasting (hP : Lasting P) (h : P t) {change : Node → Node}
    (hc : ∀ n, (change n).Agrees n) : Answers (Parser.amend t change) P := by
  refine (amend t change).weaken fun u hu => ?_
  exact hP (hu ▸ .mapHead hc t) h

theorem flag (hP : Lasting P) (h : P t) {f : Flag} (hf : f ≠ .starArgs) :
    Answers (flag t f) P :=
  amendLasting hP h fun _ => ⟨rfl, rfl, rfl, Flags.has_insert_of_ne hf⟩

theorem flagIf (hP : Lasting P) (h : P t) (condition : Bool) {f : Flag} (hf : f ≠ .starArgs) :
    Answers (flagIf condition f t) P := by
  unfold Parser.flagIf
  split
  · exact flag hP h hf
  · exact pure h

theorem finish (hP : Lasting P) (h : P t) : Answers (finish t) P :=
  .skip fun _ => amendLasting hP h fun _ => ⟨rfl, rfl, rfl, rfl⟩

theorem setText (hP : Lasting P) (h : P t) (token : Token) : Answers (setText t token) P :=
  .skip fun _ => amendLasting hP h fun _ => ⟨rfl, rfl, rfl, rfl⟩

theorem namedNode (kind : Kind) (token : Token) :
    Answers (namedNode kind token) (Tree.Begun kind []) :=
  (nodeAt kind token).bind fun _ ht => setText lasting_begun ht token

/-- A change that keeps the kind. -/
theorem amendOver (h : t.Over k) {change : Node → Node}
    (hc : ∀ n, (change n).kind = n.kind) : Answers (Parser.amend t change) (Tree.Over k) := by
  refine (amend t change).weaken ?_
  rintro _ rfl
  cases t
  exact ⟨(hc _).trans h.kind, h.below⟩

/-! ## Trees under trees -/

theorem attach (t : Tree) (hc : c.Fit admits) :
    Answers (attach t c) (Gains (.exactly 1 admits) t) := by
  intro _ _ _ _ hrun
  cases hrun
  exact .of_fit t hc

theorem prepend (t c : Tree) : Answers (prepend t c) (· = t.prepend c) := by
  intro _ _ _ _ hrun
  cases hrun
  rfl

theorem attachIf {item : Parser Tree} (condition : Bool) (t : Tree)
    (hitem : Answers item (Tree.Fit admits)) :
    Answers (attachIf condition item t) (Gains (.optional admits) t) := by
  unfold Parser.attachIf
  split
  · exact hitem.bind fun c hc => (attach t hc).weaken fun _ h => h.optional
  · exact pure (.none (.refl t) rfl)

/-- One more tree that is found is put under a tree. -/
theorem attachNext {next : Parser (Option Tree)}
    (hnext : Answers next fun o => ∀ c ∈ o, c.Fit admits) (u : Tree)
    (hu : Gains (.atLeast 0 admits) t u) :
    Answers (do
      match ← next with
      | some item => return some (← Parser.attach u item)
      | none => return none) fun o => ∀ v ∈ o, Gains (.atLeast 0 admits) t v := by
  refine hnext.bind fun o ho => ?_
  rcases o with _ | c
  · exact pure nofun
  · refine (attach u (ho c rfl)).bind fun v hv => pure ?_
    rintro _ ⟨⟩
    exact (hu.append hv).relax (Nat.zero_le _) nofun

theorem attachWhile {next : Parser (Option Tree)} (t : Tree)
    (hnext : Answers next fun o => ∀ c ∈ o, c.Fit admits) :
    Answers (attachWhile next t) (Gains (.atLeast 0 admits) t) :=
  iterate (attachNext hnext) (.none (.refl t) rfl)

theorem afterComma? {item : Parser Tree} (hitem : Answers item P) :
    Answers (afterComma? item) fun o => ∀ c ∈ o, P c := by
  unfold Parser.afterComma?
  exact .either hitem.found (.pure nofun)

theorem attachList {item : Parser Tree} (t : Tree) (hitem : Answers item (Tree.Fit admits)) :
    Answers (attachList item t) (Gains (.atLeast 1 admits) t) := by
  unfold Parser.attachList
  refine hitem.bind fun c hc => (attach t hc).bind fun u hu => ?_
  exact (attachWhile u (.afterComma? hitem)).weaken fun v hv => hu.append hv

/-- Where a comma comes next, an item follows. -/
theorem attachWhile_comma {item : Parser Tree} (hitem : Answers item (Tree.Fit admits))
    {scope : Scope} {s s' : Progress} {comma : Token} {rest : List Token} {u : Tree}
    (hs : s.rest = comma :: rest) (hcomma : comma.kind = .comma)
    (h : Parser.attachWhile (Parser.afterComma? item) t scope s = .ok u s') :
    Gains (.atLeast 1 admits) t u := by
  have hconsume : consume .comma scope s = .ok true (s.advanced comma rest) := by
    rw [consume_run .comma hs, hcomma, beq_self_eq_true, if_pos rfl]
  unfold Parser.attachWhile Parser.iterate at h
  change Parser.iterateOver _ s.rest t scope s = _ at h
  rw [hs] at h
  -- the first round finds an item, since it takes the comma
  obtain ⟨o, s₁, hstep, hmore⟩ := exists_of_bind h
  obtain ⟨found, s₂, hfound, hattach⟩ := exists_of_bind hstep
  unfold Parser.afterComma? at hfound
  rw [bind_ok hconsume] at hfound
  obtain ⟨c, s₃, hc, hanswer⟩ := exists_of_bind hfound
  cases hanswer
  obtain ⟨v, s₄, hv, hanswer⟩ := exists_of_bind hattach
  cases hanswer
  have hgain := attach t (hitem hc) hv
  exact hgain.append (iterateOver (attachNext (afterComma? hitem)) rest (.none (.refl v) rfl) hmore)

/-! ## Complete trees under trees -/

section

variable {item : Parser Tree} {next : Parser (Option Tree)}

theorem complete (h : Answers item (Tree.Fit admits)) : Answers item Tree.Complete :=
  h.weaken fun _ => Tree.Fit.complete

theorem complete_fit (hc : c.Complete) : c.Fit fun _ => true := ⟨hc, rfl⟩

theorem under (ht : t.Over k) (hc : c.Complete) : Answers (Parser.attach t c) (Tree.Over k) :=
  (attach t (complete_fit hc)).weaken fun _ h => h.over ht

theorem underIf (ht : t.Over k) (hitem : Answers item Tree.Complete) (condition : Bool) :
    Answers (Parser.attachIf condition item t) (Tree.Over k) :=
  (attachIf condition t (hitem.weaken fun _ => complete_fit)).weaken fun _ h => h.over ht

theorem underWhile (ht : t.Over k) (hnext : Answers next fun o => ∀ c ∈ o, c.Complete) :
    Answers (Parser.attachWhile next t) (Tree.Over k) :=
  (attachWhile t (hnext.weaken fun _ h c hc => complete_fit (h c hc))).weaken fun _ h => h.over ht

theorem underList (ht : t.Over k) (hitem : Answers item Tree.Complete) :
    Answers (Parser.attachList item t) (Tree.Over k) :=
  (attachList t (hitem.weaken fun _ => complete_fit)).weaken fun _ h => h.over ht

end

end Parser.Answers

end SqlSyntax
