import SqlSyntax.Proofs.Plain

/-!
# How expressions grow

An expression grows by one operator after the other, until the next token is no operator or one
that binds less tightly than it must (`Power.Stops`). Each operator takes a token (`grow?_takes`),
so the rounds that `iterate` allows are never used up: where it ends, the tokens ahead stop it.
-/

namespace SqlSyntax

open SqlSyntax.Parser

namespace Power

/-- The power with which the operator that comes next binds what is before it. -/
def ahead? : List Token → Option Nat
  | [] => none
  | t :: ts =>
    (trailing? t.kind).or ((joining? t.kind (ts[0]?.map Token.kind)).map Prod.fst)

/-- No operator goes on an expression whose operators must bind at least that tightly. -/
def Stops (power : Nat) (ts : List Token) : Prop := ∀ p ∈ ahead? ts, p < power

theorem Stops.mono {power more : Nat} {ts : List Token} (h : Stops power ts) (hle : power ≤ more) :
    Stops more ts :=
  fun p hp => Nat.lt_of_lt_of_le (h p hp) hle

theorem stops_nil (power : Nat) : Stops power [] := nofun

end Power

/-! ## Tokens that are taken -/

/-- No production ends with more tokens than it began with. -/
theorem Built.length_le {k : Nat} {config : Config} {α : Type} {pre : List Tree} {p : Parser α}
    {post : α → List Tree} {fact : α → Prop} {scope : Scope} {s s' : Progress} {a : α}
    (h : Built (Law.openTerms config (Nested.upTo k)) pre p post fact)
    (hconfig : scope.config = config) (hrun : p scope s = .ok a s') :
    s'.rest.length ≤ s.rest.length := by
  have hkeeps := h.keeps (Law.shorter_allows scope.source config s.rest.length _)
    (Law.shorter_serves scope.source config s.rest.length k)
  have hout := hkeeps scope [] s rfl hconfig trivial (Nat.le_refl _)
  rw [hrun] at hout
  exact hout.2

/-! ## Rounds -/

namespace Parser

variable {α β : Type} {scope : Scope} {s s' : Progress}

theorem bind_ok {p : Parser α} {a : α} (h : p scope s = .ok a s') (k : α → Parser β) :
    (p >>= k) scope s = k a scope s' := by
  show EStateM.bind (p scope) (fun a => k a scope) s = _
  unfold EStateM.bind
  rw [h]

theorem bind_error {p : Parser α} {f : Failure} (h : p scope s = .error f s') (k : α → Parser β) :
    (p >>= k) scope s = .error f s' := by
  show EStateM.bind (p scope) (fun a => k a scope) s = _
  unfold EStateM.bind
  rw [h]

theorem exists_of_bind {p : Parser α} {k : α → Parser β} {b : β}
    (h : (p >>= k) scope s = .ok b s') : ∃ a r, p scope s = .ok a r ∧ k a scope r = .ok b s' := by
  rcases hp : p scope s with ⟨a, r⟩ | ⟨f, r⟩
  · exact ⟨a, r, rfl, by rwa [bind_ok hp] at h⟩
  · rw [bind_error hp] at h
    cases h

variable {step : α → Parser (Option α)} {a b : α}

theorem iterateOver_none (h : step a scope s = .ok none s') (ts : List Token) :
    iterateOver step ts a scope s = .ok a s' := by
  cases ts <;> exact bind_ok h _

theorem iterateOver_some (h : step a scope s = .ok (some b) s') (t : Token) (ts : List Token) :
    iterateOver step (t :: ts) a scope s = iterateOver step ts b scope s' :=
  bind_ok h _

theorem iterateOver_error {f : Failure} (h : step a scope s = .error f s') (ts : List Token) :
    iterateOver step ts a scope s = .error f s' := by
  cases ts <;> exact bind_error h _

end Parser

namespace Expression

variable {inner : Nested} {power : Nat} {left t : Tree} {scope : Scope} {s s' : Progress}

/-- An expression stops, or an operator after it or between two operands goes on. -/
theorem grow?_cases (inner : Nested) (power : Nat) (left : Tree) (scope : Scope) (s : Progress) :
    (Power.Stops power s.rest ∧ grow? inner power left scope s = .ok none s) ∨
    (∃ t rest, s.rest = t :: rest ∧ ¬ Power.Stops power s.rest ∧
      grow? inner power left scope s = (do return some (← trailing left t)) scope s) ∨
    ∃ t rest l r, s.rest = t :: rest ∧
      Power.joining? t.kind (rest[0]?.map Token.kind) = some (l, r) ∧ power ≤ l ∧
      Power.ahead? s.rest = some l ∧
      grow? inner power left scope s = (do return some (← joining inner left t r)) scope s := by
  rcases hs : s.rest with _ | ⟨t, rest⟩
  · refine .inl ⟨Power.stops_nil power, ?_⟩
    obtain ⟨r⟩ := s
    obtain rfl : r = [] := hs
    rfl
  have hcurrent : ∀ k : Option Token → Parser (Option Tree),
      (current >>= k) scope s = k (some t) scope s := by
    intro k
    obtain ⟨r⟩ := s
    obtain rfl : r = t :: rest := hs
    rfl
  have hnext : ∀ k : Option TokenKind → Parser (Option Tree),
      (kindAt 1 >>= k) scope s = k (rest[0]?.map Token.kind) scope s := by
    intro k
    obtain ⟨r⟩ := s
    obtain rfl : r = t :: rest := hs
    rfl
  unfold grow?
  rw [hcurrent]
  dsimp only
  rcases htrailing : Power.trailing? t.kind with _ | p
  · dsimp only
    rw [hnext]
    rcases hjoining : Power.joining? t.kind (rest[0]?.map Token.kind) with _ | ⟨l, r⟩
    · refine .inl ⟨?_, rfl⟩
      simp [Power.Stops, Power.ahead?, htrailing, hjoining]
    · by_cases hl : l < power
      · refine .inl ⟨?_, by simp only [hl, if_true]; rfl⟩
        simp [Power.Stops, Power.ahead?, htrailing, hjoining, hl]
      · refine .inr (.inr ⟨t, rest, l, r, rfl, hjoining, Nat.le_of_not_lt hl, ?_, ?_⟩)
        · simp [Power.ahead?, htrailing, hjoining]
        · simp only [hl, if_false]
  · by_cases hp : p < power
    · refine .inl ⟨?_, by simp only [hp, if_true]; rfl⟩
      simp [Power.Stops, Power.ahead?, htrailing, hp]
    · refine .inr (.inl ⟨t, rest, rfl, fun h => hp (h p ?_), ?_⟩)
      · simp [Power.ahead?, htrailing]
      · simp only [hp, if_false]

theorem exists_of_some {p : Parser Tree} {o : Option Tree}
    (h : (do return some (← p)) scope s = .ok o s') :
    ∃ t, o = some t ∧ p scope s = .ok t s' := by
  rcases hp : p scope s with ⟨t, s₁⟩ | ⟨f, s₁⟩
  · rw [bind_ok hp] at h
    injection h with ht hs
    exact ⟨t, ht.symm, by rw [hs]⟩
  · rw [bind_error hp] at h
    cases h

/-- Where the tokens ahead stop an expression, it takes no more operators. -/
theorem grow?_of_stops (h : Power.Stops power s.rest) :
    grow? inner power left scope s = .ok none s := by
  rcases grow?_cases inner power left scope s with
    ⟨-, hrun⟩ | ⟨t, rest, -, hgoes, -⟩ | ⟨t, rest, l, r, -, -, hle, hahead, -⟩
  · exact hrun
  · exact absurd h hgoes
  · exact absurd (h l hahead) (Nat.not_lt.2 hle)

/-- An expression that takes no more operators stops there. -/
theorem stops_of_grow? (h : grow? inner power left scope s = .ok none s') :
    s' = s ∧ Power.Stops power s.rest := by
  rcases grow?_cases inner power left scope s with
    ⟨hstops, hrun⟩ | ⟨t, rest, -, -, hrun⟩ | ⟨t, rest, l, r, -, -, -, -, hrun⟩
  · rw [hrun] at h
    injection h with _ hs
    exact ⟨hs.symm, hstops⟩
  · rw [hrun] at h
    obtain ⟨u, hu, -⟩ := exists_of_some h
    cases hu
  · rw [hrun] at h
    obtain ⟨u, hu, -⟩ := exists_of_some h
    cases hu

/-- Each operator takes a token. -/
theorem grow?_takes {k : Nat} (h : grow? (Nested.upTo k) power left scope s = .ok (some t) s') :
    s'.rest.length < s.rest.length := by
  have htake : ∀ {p : Parser Tree} {token : Token} {rest : List Token},
      Built (Law.openTerms scope.config (Nested.upTo k)) [left] p one (fun _ => True) →
      s.rest = token :: rest → p scope (s.advanced token rest) = .ok t s' →
      s'.rest.length < s.rest.length := by
    intro p token rest hp hrest hrun
    have hle := hp.length_le rfl hrun
    rw [hrest]
    exact Nat.lt_succ_of_le hle
  rcases grow?_cases (Nested.upTo k) power left scope s with
    ⟨-, hrun⟩ | ⟨token, rest, hrest, -, hrun⟩ | ⟨token, rest, l, r, hrest, -, -, -, hrun⟩
  · rw [hrun] at h
    cases h
  · rw [hrun] at h
    obtain ⟨_, ⟨⟩, hp⟩ := exists_of_some h
    unfold trailing at hp
    rw [discard_advance_run hrest] at hp
    exact htake (afterTrailing_grows left trivial).yields hrest hp
  · rw [hrun] at h
    obtain ⟨_, ⟨⟩, hp⟩ := exists_of_some h
    unfold joining at hp
    rw [discard_advance_run hrest] at hp
    exact htake (afterJoining_grows (fun _ => rfl) left trivial r).yields hrest hp

end Expression

end SqlSyntax
