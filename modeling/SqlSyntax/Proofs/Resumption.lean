import SqlSyntax.Proofs.Boundary.Schema
import SqlSyntax.Proofs.Recovery

/-!
# Attempts after a semicolon

Whatever is wrong with the tokens before a semicolon, statements are looked for behind it: an
attempt that succeeds takes the semicolon as its last token, and after one that fails, skipping
stops at a word inside or right behind the semicolon (`Boundary.skipFrom_stops`). The count of open
parentheses while tokens are skipped is never more than the tokens still close, so it is zero at
the semicolon, wherever skipping began. Each failure leaves fewer tokens, so the attempts come to
the semicolon in the end (`Boundary.reached`).
-/

namespace SqlSyntax

open SqlSyntax.Parser

namespace Script

variable {scope : Scope} {start p q r : Progress} {ts : List Tree}

/-- Where the attempts of a run over a script begin: at its start, behind a statement that was
found, and where tokens are skipped to after an error. -/
inductive Attempt (scope : Scope) (start : Progress) : Progress → Prop
  | first : Attempt scope start start
  | found {p q : Progress} {root : Tree} (h : Attempt scope start p)
    (hnext : next? scope p = .ok (some root) q) :
    Attempt scope start q
  | failed {p q r : Progress} {f : Failure} (h : Attempt scope start p)
    (hnext : next? scope p = .error f q)
    (hskip : synchronize scope q = .ok () r) : Attempt scope start r

theorem Attempt.trans (h : Attempt scope start p) (h' : Attempt scope p q) :
    Attempt scope start q := by
  induction h' with
  | first => exact h
  | found _ hnext ih => exact .found ih hnext
  | failed _ hnext hskip ih => exact .failed ih hnext hskip

end Script

namespace Boundary

variable {B : Boundary} {scope : Scope} {p : Progress}

/-- The next token is one before the semicolon. -/
def Before (B : Boundary) (ts : List Token) : Prop :=
  B.Inside 0 ts ∧ ts.head?.map Token.kind ≠ some .semicolon

theorem Before.pastSemicolons (h : B.Before p.rest) : p.pastSemicolons.rest = p.rest := by
  obtain ⟨t, rest, hrest, -⟩ := h.1.exists_cons
  have hhead := h.2
  rw [hrest] at hhead
  rw [Script.rest_pastSemicolons, hrest, List.dropWhile_cons_of_neg]
  simpa using hhead

/-- An attempt ends behind the semicolon, or fails before it. -/
theorem next?_stops (hsource : scope.source = B.source) (hconfig : scope.config = B.config)
    (h : B.Before p.rest) :
    (∃ root q, Script.next? scope p = .ok (some root) q ∧ q.rest = B.after) ∨
    ∃ f q, Script.next? scope p = .error f q ∧ B.Inside 0 q.rest := by
  have hpast := h.pastSemicolons
  have hinside : B.Inside 0 p.pastSemicolons.rest := hpast ▸ h.1
  obtain ⟨t, rest, hrest, -⟩ := hinside.exists_cons
  have hstays : B.Stays 0 (Nested.upTo (p.pastSemicolons.rest.length + 1)).statement :=
    (B.serves _).statement
  rw [Script.next?_run, if_neg (by rw [hrest]; exact List.cons_ne_nil _ _)]
  rcases hrun : Script.nextStatement scope p.pastSemicolons with ⟨root, q⟩ | ⟨f, q⟩
  · have hq : B.Inside 0 q.rest := hstays.ok hsource hconfig hinside hinside hrun
    obtain ⟨u, us, hus, -⟩ := hq.exists_cons
    dsimp only
    rw [hus]
    by_cases hu : u.kind = .semicolon
    · exact .inl ⟨root, q.advanced u us, if_pos hu, (hus ▸ hq).eq_after hu⟩
    · exact .inr ⟨_, q, if_neg hu, hq⟩
  · exact .inr ⟨f, q, rfl, hstays.error hsource hconfig hinside hinside hrun⟩

/-! ## Skipping -/

/-- Skipping stops at a word before the semicolon or right behind it: the count of open parentheses
never exceeds the number of those that the tokens still close. -/
theorem skipFrom_stops {us : List Token} {n depth : Nat} (hsuffix : us <:+ B.before)
    (hcloses : closes n us) (hdepth : depth ≤ n) (first : Bool) :
    (Script.skipFrom depth first (us ++ B.mark :: B.after)).2 = B.after ∨
      B.Before (Script.skipFrom depth first (us ++ B.mark :: B.after)).2 := by
  induction us generalizing n depth first with
  | nil =>
    obtain rfl : n = 0 := by simpa [closes] using hcloses
    obtain rfl : depth = 0 := Nat.le_zero.1 hdepth
    refine .inl ?_
    simp [Script.skipFrom, Token.keyword?, B.semicolon]
  | cons t us ih =>
    have hus := (List.suffix_cons t us).trans hsuffix
    have hsemicolon := B.whole t (hsuffix.subset List.mem_cons_self)
    rw [List.cons_append, Script.skipFrom]
    split
    · refine .inr ⟨⟨t :: us, n, hsuffix, rfl, hcloses, Nat.zero_le n⟩, ?_⟩
      exact fun heq => hsemicolon (Option.some.inj heq)
    · dsimp only
      split
      · next hopen =>
        exact ih hus (closes_opening hopen ▸ hcloses) (Nat.succ_le_succ hdepth) false
      · next hclose =>
        obtain ⟨m, rfl, hm⟩ := closes_closing hclose hcloses
        exact ih hus hm (Nat.sub_le_of_le_add hdepth) false
      · contradiction
      · next hopen hclose _ =>
        exact ih hus (closes_other hopen hclose ▸ hcloses) hdepth false

theorem synchronized_stops (h : B.Inside 0 p.rest) :
    p.synchronized.rest = B.after ∨ B.Before p.synchronized.rest := by
  obtain ⟨us, n, hsuffix, hrest, hcloses, hle⟩ := h
  have hstops := B.skipFrom_stops hsuffix hcloses hle true
  rw [← hrest] at hstops
  exact hstops

/-! ## Attempts -/

/-- From a token before the semicolon on, the attempts come to the token behind it. -/
theorem reached (hsource : scope.source = B.source) (hconfig : scope.config = B.config) :
    ∀ (k : Nat) {p : Progress}, p.rest.length ≤ k → B.Before p.rest →
      ∃ q, Script.Attempt scope p q ∧ q.rest = B.after := by
  intro k
  induction k with
  | zero =>
    intro p hk h
    obtain ⟨t, rest, hrest, -⟩ := h.1.exists_cons
    rw [hrest] at hk
    cases hk
  | succ k ih =>
    intro p hk h
    rcases B.next?_stops hsource hconfig h with ⟨root, q, hnext, hq⟩ | ⟨f, q, hnext, hq⟩
    · exact ⟨q, .found .first hnext, hq⟩
    · have hfailed : Script.Attempt scope p q.synchronized := .failed .first hnext rfl
      rcases B.synchronized_stops hq with hafter | hbefore
      · exact ⟨q.synchronized, hfailed, hafter⟩
      · obtain ⟨t, rest, hrest, -⟩ := hq.exists_cons
        have hpos : 0 < q.rest.length := hrest ▸ Nat.succ_pos _
        have hle := Script.next?_length_le hnext
        have hsync := Script.length_synchronized q
        obtain ⟨r, hr, hafter⟩ := ih (by omega) hbefore
        exact ⟨r, hfailed.trans hr, hafter⟩

end Boundary

end SqlSyntax
