import SqlSyntax.Proofs.Selection

/-!
# How a formula is read

The induction is on the formula, and its claim is about an operand with whatever operators go on
after it (`Formula.Reads`): the left operand of an operator is not read by a call of its own, but
grows in the call that reads the operator. That call goes on with the tokens after the formula, as
long as they do not bind more tightly than the last operator of the formula.
-/

namespace SqlSyntax

open SqlSyntax.Parser SqlSyntax.Expression

/-- What the productions of an expression are told where a formula is read. -/
structure Scope.Ready (scope : Scope) (levels : Nat) : Prop where
  compact : scope.config.compactTree = true
  stack : scope.config.stackBudget = 0
  fits : scope.source.Fits
  item : scope.context = some .selectList
  room : scope.depth + levels ≤ scope.config.depthLimit

namespace Scope.Ready

variable {scope : Scope} {levels fewer : Nat}

theorem mono (h : scope.Ready levels) (hle : fewer ≤ levels) : scope.Ready fewer :=
  { h with room := Nat.le_trans (Nat.add_le_add_left hle _) h.room }

theorem deeper (h : scope.Ready (levels + 1)) :
    Ready { scope with depth := scope.depth + 1 } levels :=
  { h with room := by have := h.room; dsimp only; omega }

theorem opens (h : scope.Ready (levels + 1)) : scope.Opens scope.depth := by
  have := h.room
  exact ⟨by omega, fun _ => Config.exceedsStack_of_unbounded h.stack _⟩

end Scope.Ready

/-- The tokens that write some symbols. -/
abbrev Scope.Writes (scope : Scope) (ss : List Symbol) (ts : List Token) : Prop :=
  List.Forall₂ (Symbol.Written scope.source scope.config) ss ts

namespace Scope.Writes

variable {scope : Scope} {ss ss' : List Symbol} {ts : List Token}

theorem begins {e : Formula} (h : scope.Writes e.symbols ts) :
    ∃ t rest, ts = t :: rest ∧ t.Begins := by
  obtain ⟨symbol, ss, hsymbols, hbinary⟩ := e.symbols_head
  rw [hsymbols] at h
  rcases h with _ | ⟨hwritten, hrest⟩
  exact ⟨_, _, rfl, hwritten.1.begins hbinary⟩

theorem no_dot (h : scope.Writes ss ts) : ∀ t ∈ ts, t.kind ≠ .dot := by
  induction h with
  | nil => exact List.forall_mem_nil _
  | cons ht _ ih => exact List.forall_mem_cons.2 ⟨ht.1.no_dot, ih⟩

theorem split : ∀ {ss : List Symbol} {ts : List Token}, scope.Writes (ss ++ ss') ts →
    ∃ before after, ts = before ++ after ∧ scope.Writes ss before ∧ scope.Writes ss' after
  | [], ts, h => ⟨[], ts, rfl, .nil, h⟩
  | symbol :: ss, _, .cons (b := t) ht h => by
    obtain ⟨before, after, rfl, hbefore, hafter⟩ := split h
    exact ⟨t :: before, after, rfl, .cons ht hbefore, hafter⟩

end Scope.Writes

/-! ## Operands -/

namespace Formula

variable {scope : Scope} {ts rest : List Token} {t : Token} {self : Nested}

/-- An operand without operators is read as its leaf. -/
theorem leaf_run {levels : Nat} (hready : scope.Ready levels) (l : Leaf)
    (ht : Symbol.Written scope.source scope.config (.leaf l) t) (hfollow : AfterOperand rest) :
    Gives scope (t :: rest) (operand self) fun u r =>
      u.erased scope.source = (leaf l).tree ∧ r = rest := by
  obtain ⟨hwrites, hread, haccepted⟩ := ht
  have hcontent (hblob : t.kind ≠ .blob) (hl : t.content = l.text) :
      Gives scope rest (tokenText t) fun text r =>
        text.resolve scope.source = some l.text ∧ r = rest :=
    (Gives.tokenText hready.fits hread).weaken fun _ _ h => ⟨hl ▸ h.1 hblob, h.2⟩
  have herased {u : Tree} {r : List Token}
      (h : u.IsLeaf l.kind scope.context (·.resolve scope.source = some l.text) ∧ r = rest) :
      u.erased scope.source = (leaf l).tree ∧ r = rest := by
    obtain ⟨⟨id, text, location, span, rfl, htext⟩, rfl⟩ := h
    rw [hready.item]
    exact ⟨erased_leaf l htext, rfl⟩
  have hliteral {kind : TokenKind} (hk : t.kind = kind) (hleading : Power.leading? kind = none)
      (hkind : literalKind? kind = some l.kind) (hblob : kind ≠ .blob) (hl : t.content = l.text) :
      Gives scope (t :: rest) (operand self) fun u r =>
        u.erased scope.source = (leaf l).tree ∧ r = rest :=
    (literal_run (hk ▸ hleading) (hk ▸ hkind) (by cases l <;> rintro ⟨⟩)
      (hcontent (hk ▸ hblob) hl)).weaken fun _ _ => herased
  rcases l with text | name | text
  · obtain ⟨hkind, rfl⟩ := hwrites
    exact hliteral hkind rfl rfl (by decide) (by rw [Token.content, hkind, Leaf.text])
  · obtain ⟨hname, rfl⟩ := hwrites
    have hblob : t.kind ≠ .blob := by
      intro hk
      simp [Token.isName, hk] at hname
    exact (column_run hname haccepted.quotes hfollow (hcontent hblob rfl)).weaken fun _ _ => herased
  · obtain ⟨hkind, rfl⟩ := hwrites
    exact hliteral hkind rfl rfl (by decide) (by rw [Token.content, hkind, Leaf.text])

/-! ## Operators -/

/-- Tokens that write the symbols are read as an operand that stands for the formula, and what comes
of the operators after it is what comes of the whole. -/
def Reads (ss : List Symbol) (e : Formula) (levels power bound : Nat) : Prop :=
  ∀ ⦃scope : Scope⦄ ⦃k p : Nat⦄ ⦃ts rest : List Token⦄ ⦃fact : Tree → List Token → Prop⦄,
    scope.Ready levels → scope.Writes ss ts → ts.length ≤ k + 1 → p ≤ power →
    Power.Stops bound rest → AfterOperand rest →
    (∀ (u : Tree) (rounds : List Token), u.erased scope.source = e.tree →
      rest.length ≤ rounds.length →
      Gives scope rest (iterateOver (grow? (Nested.upTo k) p) rounds u) fact) →
    Gives scope (ts ++ rest)
      (operand (Nested.upTo k) >>= Parser.iterate (grow? (Nested.upTo k) p)) fact

variable {ss : List Symbol} {e : Formula} {levels power bound k p : Nat}

/-- An operand that is known goes on with the operators after it. -/
theorem goes_on {fact : Tree → List Token → Prop} {self : Nested}
    (hoperand : Gives scope ts (operand self) fun u r => u.erased scope.source = e.tree ∧ r = rest)
    (hnext : ∀ (u : Tree) (rounds : List Token), u.erased scope.source = e.tree →
      rest.length ≤ rounds.length → Gives scope rest (iterateOver (grow? self p) rounds u) fact) :
    Gives scope ts (operand self >>= Parser.iterate (grow? self p)) fact := by
  refine hoperand.bind ?_
  rintro u _ ⟨hu, rfl⟩
  exact .iterate (hnext u _ hu (Nat.le_refl _))

/-- A formula is read as an expression up to the operators that bind less tightly. -/
theorem Reads.expression (h : Reads ss e levels power bound) (hready : scope.Ready (levels + 1))
    (hts : scope.Writes ss ts) (hlength : ts.length ≤ k + 1) (hp : p ≤ power)
    (hbound : Power.Stops bound rest) (hstops : Power.Stops p rest) (hfollow : AfterOperand rest) :
    Gives scope (ts ++ rest) (SqlSyntax.expression (Nested.upTo k) p) fun u r =>
      u.erased scope.source = e.tree ∧ r = rest := by
  refine .deeper hready.opens ?_
  refine h hready.deeper hts hlength hp hbound hfollow fun u rounds hu _ s hs => ?_
  exact ⟨u, s, iterateOver_none (grow?_of_stops (hs ▸ hstops)) rounds, hu, hs⟩

theorem reads_leaf (l : Leaf) : Reads [.leaf l] (leaf l) 0 power bound := by
  rintro scope k p ts rest fact hready (_ | ⟨ht, _ | _⟩) hlength - - hfollow hnext
  exact goes_on (leaf_run hready l ht hfollow) hnext

/-- A sign or `NOT` is read with its operand. -/
theorem reads_unary (op : UnaryOp) {x : Formula}
    (hx : Reads ss x levels op.level op.level) (hbegins : ∀ {scope : Scope} {ts : List Token},
      scope.Writes ss ts → ∃ t rest, ts = t :: rest ∧ t.Begins) :
    Reads (.unary op :: ss) (unary op x) (levels + 1) op.level op.level := by
  rintro scope k p _ rest fact hready (_ | @⟨_, t, _, ts, ht, hts⟩) hlength hp hbound hfollow hnext
  have hkind : t.kind = op.tokenKind := ht.1
  obtain ⟨first, more, rfl, hfirst⟩ := hbegins hts
  obtain ⟨k, rfl⟩ : ∃ j, k = j + 1 := Nat.exists_eq_add_one.2 (by simp at hlength; omega)
  refine goes_on ?_ hnext
  refine Gives.current.next ?_
  dsimp only [List.cons_append, List.head?_cons]
  rw [hkind, op.leading?_tokenKind]
  dsimp only
  refine Gives.advance.skip ?_
  have hunary : Gives scope (first :: more ++ rest)
      (Expression.unary (Nested.upTo (k + 1)) t op.level) fun u r =>
      u.erased scope.source = (unary op x).tree ∧ r = rest := by
    have hx := hx.expression hready hts (by simpa using hlength) (Nat.le_refl _) hbound hbound
      hfollow
    refine hx.bind ?_
    rintro inner _ ⟨hinner, rfl⟩
    refine (Gives.newNode _ _ _).bind ?_
    rintro _ _ ⟨⟨id, rfl⟩, rfl⟩
    refine (Gives.amend _ _).next ((Gives.attach _ _).next ?_)
    refine (Gives.finish _).weaken ?_
    rintro _ _ ⟨⟨stop, rfl⟩, rfl⟩
    refine ⟨?_, rfl⟩
    rw [hready.item, hkind, op.ofToken?_tokenKind]
    exact erased_unary op hinner
  refine (Gives.sees _).next ?_
  have hexists : first.kind ≠ .keyword .EXISTS := hfirst.ne_keyword rfl nofun
  rw [if_neg]
  · exact hunary
  · simp [hexists]

/-- Whatever is asked for, a formula in parentheses is read up to the closing one. -/
theorem reads_enclosed (h : Reads e.symbols e levels e.level e.bound) :
    Reads (.opening :: (e.symbols ++ [.closing])) e (levels + 2) power bound := by
  rintro scope k p _ rest fact hready (_ | @⟨_, opening, _, ts, hopening, hts⟩) hlength - - hfollow
    hnext
  obtain ⟨inner, _, rfl, hinner, _ | @⟨_, closing, _, _, hclosing, _ | _⟩⟩ :=
    Scope.Writes.split hts
  obtain ⟨first, more, rfl, hfirst⟩ := Scope.Writes.begins hinner
  obtain ⟨k, rfl⟩ : ∃ j, k = j + 1 := Nat.exists_eq_add_one.2 (by simp at hlength; omega)
  have hopening : opening.kind = .leftParen := hopening.1
  have hclosing : closing.kind = .rightParen := hclosing.1
  refine goes_on ?_ hnext
  rw [List.cons_append, List.append_assoc, List.singleton_append]
  refine Gives.current.next ?_
  dsimp only [List.head?_cons]
  rw [hopening]
  refine Gives.current.next ?_
  dsimp only [List.head?_cons]
  rw [hopening]
  refine Gives.deeper hready.opens ?_
  refine (Gives.expect _ hopening).next ?_
  refine (Gives.seesOneOf _ first).next ?_
  rw [if_neg]
  · have hstops (power : Nat) : Power.Stops power (closing :: rest) :=
      AfterOperand.stops_closing hclosing power
    have hexpression := h.expression (k := k) hready.deeper hinner (by simp at hlength ⊢; omega)
      (Nat.zero_le _) (hstops _) (hstops _) (.closing hclosing)
    refine hexpression.bind ?_
    rintro u _ ⟨hu, rfl⟩
    refine (Gives.sees _).next ?_
    rw [if_neg (by simp [hclosing])]
    refine (Gives.expect _ hclosing).skip ?_
    refine .askIf (c := Config.compactTree) (fun _ => ?_) fun hfull =>
      absurd (hready.compact.symm.trans hfull) (by decide)
    refine (Gives.flag _ _).weaken ?_
    rintro _ _ ⟨rfl, rfl⟩
    exact ⟨(Tree.erased_mapHead (erased_mark scope.source) u).trans hu, rfl⟩
  · rw [hfirst.seesOneOf]
    · nofun
    · decide

/-- An operand is read whether it has parentheses or needs none. -/
theorem reads_enclosedIf {condition : Bool} (h : Reads e.symbols e levels e.level e.bound)
    (hpower : condition = false → power ≤ e.level) (hbound : condition = false → bound ≤ e.bound) :
    Reads (enclosedIf condition e.symbols) e (levels + 2) power bound := by
  cases condition
  · intro scope k p ts rest fact hready hts hlength hp hstops
    exact h (hready.mono (Nat.le_add_right _ _)) hts hlength (Nat.le_trans hp (hpower rfl))
      (hstops.mono (hbound rfl))
  · exact reads_enclosed h

theorem enclosedIf_begins {condition : Bool}
    (h : scope.Writes (enclosedIf condition e.symbols) ts) :
    ∃ t rest, ts = t :: rest ∧ t.Begins := by
  cases condition
  · exact Scope.Writes.begins h
  · rcases h with _ | ⟨hopening, hrest⟩
    exact ⟨_, _, rfl, hopening.1.begins nofun⟩

/-- An operator that comes next is read with the operand to its right. -/
theorem grow?_operator (op : PlainOp) {x y : Formula} {left : Tree}
    (hy : Reads ss y levels (op.1.level + 1) (op.1.level + 1)) (hready : scope.Ready (levels + 1))
    (ht : Symbol.Written scope.source scope.config (.binary op) t) (hts : scope.Writes ss ts)
    (hlength : ts.length ≤ k + 1) (hstops : Power.Stops (op.1.level + 1) rest)
    (hfollow : AfterOperand rest) (hleft : left.erased scope.source = x.tree)
    (hp : p ≤ op.1.level) :
    Gives scope (t :: (ts ++ rest)) (grow? (Nested.upTo (k + 1)) p left) fun o r =>
      (∃ u, o = some u ∧ u.erased scope.source = (binary op x y).tree) ∧ r = rest := by
  obtain ⟨op, hplain⟩ := op
  have hright := hy.expression hready hts hlength (Nat.le_refl _) hstops hstops hfollow
  have hnot (his : op = .is) : (ts ++ rest).head?.map Token.kind ≠ some (.keyword .NOT) := by
    rw [his] at hplain
    cases hplain
  have hescape : rest.head?.map Token.kind ≠ some (.keyword .ESCAPE) :=
    hfollow.ne nofun fun op => by cases op <;> nofun
  refine (grow?_run ht.1 hright ht.2.2.spelling hnot hescape hp).weaken ?_
  rintro _ _ ⟨⟨_, right, rfl, hy, id, location, span, rfl⟩, rfl⟩
  rw [op.nodeKind_of_isPlain hplain, hready.item]
  exact ⟨⟨_, rfl, erased_binary ⟨op, hplain⟩ hleft hy⟩, rfl⟩

/-- An operator does not take the last operand of a formula of no lesser level. -/
theorem lt_bound {op : BinaryOp} : ∀ {e : Formula}, op.level ≤ e.level → op.level < e.bound
  | leaf _, _ => op.level_lt_primary
  | unary op' _, h => by
    have hne : op.level ≠ op'.level := by cases op <;> cases op' <;> nofun
    exact Nat.lt_of_le_of_ne h hne
  | binary _ _ _, h => Nat.lt_succ_of_le h

theorem reads_binary (op : PlainOp) {x y : Formula}
    (hx : Reads x.symbols x (3 * x.operators) x.level x.bound)
    (hy : Reads y.symbols y (3 * y.operators) y.level y.bound) :
    Reads (binary op x y).symbols (binary op x y) (3 * (binary op x y).operators) op.1.level
      (op.1.level + 1) := by
  intro scope k p ts rest fact hready hts hlength hp hstops hfollow hnext
  obtain ⟨before, _, rfl, hbefore, _ | @⟨_, t, _, after, ht, hafter⟩⟩ := Scope.Writes.split hts
  have hx : Reads (enclosedIf (x.level < op.1.level) x.symbols) x (3 * x.operators + 2) op.1.level
      (op.1.level + 1) :=
    reads_enclosedIf hx (fun h => by simpa using h) fun h => lt_bound (by simpa using h)
  have hy : Reads (enclosedIf (y.level ≤ op.1.level) y.symbols) y (3 * y.operators + 2)
      (op.1.level + 1) (op.1.level + 1) :=
    reads_enclosedIf hy (fun h => Nat.succ_le_of_lt (by simpa using h)) fun h =>
      Nat.le_trans (Nat.succ_le_of_lt (by simpa using h)) y.level_le_bound
  obtain ⟨first, more, rfl, -⟩ := enclosedIf_begins hbefore
  obtain ⟨k, rfl⟩ : ∃ j, k = j + 1 := Nat.exists_eq_add_one.2 (by simp at hlength; omega)
  have hkind : t.kind = op.1.tokenKind := ht.1
  simp only [List.length_append, List.length_cons] at hlength
  rw [List.append_assoc]
  refine hx (hready.mono (by rw [operators]; omega)) hbefore (by simp; omega) hp ?_
    (.operator hkind) fun u rounds hu hrounds => ?_
  · intro l hl
    rw [List.cons_append, AfterOperand.ahead?_operator hkind] at hl
    cases hl
    exact Nat.lt_succ_self _
  · rcases rounds with _ | ⟨round, rounds⟩
    · cases hrounds
    refine (grow?_operator op hy (hready.mono (by rw [operators]; omega)) ht hafter (by omega)
      hstops hfollow hu hp).bind ?_
    rintro _ _ ⟨⟨v, rfl, hv⟩, rfl⟩
    exact hnext v rounds hv (by simp at hrounds; omega)

/-- What a formula is written with is read back. -/
theorem reads : ∀ e : Formula, Reads e.symbols e (3 * e.operators) e.level e.bound
  | leaf l => reads_leaf l
  | unary op x => by
    have hx : Reads (enclosedIf (x.level < op.level) x.symbols) x (3 * x.operators + 2) op.level
        op.level :=
      reads_enclosedIf (reads x) (fun h => by simpa using h) fun h =>
        Nat.le_trans (by simpa using h) x.level_le_bound
    exact reads_unary op hx enclosedIf_begins
  | binary op x y => reads_binary op (reads x) (reads y)

end Formula

end SqlSyntax
