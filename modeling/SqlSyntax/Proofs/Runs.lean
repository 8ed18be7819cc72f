import SqlSyntax.Proofs.Growth
import SqlSyntax.Proofs.Tokens

/-!
# Runs that give an answer

What a parser makes of some tokens, told as its answer and the tokens that are left. The stored
nodes are no part of it: an edit that is refused is remembered, and the run goes on.
-/

namespace SqlSyntax

open SqlSyntax.Parser

/-- One more level may be opened below so many, whatever tokens were taken before. -/
def Scope.Opens (scope : Scope) (depth : Nat) : Prop :=
  depth < scope.config.depthLimit ∧
    ∀ taken, scope.config.exceedsStack (scope.stack taken depth) = false

/-- The token is not refused for its quotes. -/
def Token.QuotesPass (config : Config) (t : Token) : Prop :=
  config.strictAnsi → t.kind = .quotedIdentifier → t.text.toList.head? = some '"'

/-- What the text of a token stands for, without quotes. -/
def Token.content (t : Token) : String :=
  match t.kind, t.text.toList with
  | .string, _ :: body => String.ofList (undouble '\'' body.dropLast)
  | .quotedIdentifier, '[' :: body => String.ofList body.dropLast
  | .quotedIdentifier, quote :: body => String.ofList (undouble quote body.dropLast)
  | _, _ => t.text

/-- The text is kept as a copy. -/
def Text.isCopied : Text → Bool
  | .copied _ => true
  | _ => false

/-- A node with nothing but such a text and nothing under it. -/
def Tree.IsLeaf (kind : Kind) (context : Option Context) (P : Text → Prop) (u : Tree) : Prop :=
  ∃ id text location span, u = .leaf { kind, id, text, context, location, span } ∧ P text

/-- With these tokens ahead, the parser gives an answer that the fact tells of, with the tokens that
are then ahead. -/
def Parser.Gives {α : Type} (scope : Scope) (ts : List Token) (p : Parser α)
    (fact : α → List Token → Prop) : Prop :=
  ∀ s : Progress, s.rest = ts → ∃ a s', p scope s = .ok a s' ∧ fact a s'.rest

namespace Parser.Gives

variable {α β : Type} {scope : Scope} {ts rest : List Token} {t : Token} {p : Parser α}
  {fact : α → List Token → Prop} {a : α}

theorem pure (h : fact a ts) : Gives scope ts (pure a) fact := by
  rintro s rfl
  exact ⟨a, s, rfl, h⟩

theorem bind {k : α → Parser β} {fact' : β → List Token → Prop} (hp : Gives scope ts p fact)
    (hk : ∀ a r, fact a r → Gives scope r (k a) fact') : Gives scope ts (p >>= k) fact' := by
  intro s hs
  obtain ⟨a, s₁, hrun, ha⟩ := hp s hs
  obtain ⟨b, s₂, hrun', hb⟩ := hk a _ ha s₁ rfl
  exact ⟨b, s₂, by rw [bind_ok hrun, hrun'], hb⟩

/-- The step whose answer and tokens are known goes on there. -/
theorem next {k : α → Parser β} {fact' : β → List Token → Prop}
    (hp : Gives scope ts p fun b r => b = a ∧ r = rest) (hk : Gives scope rest (k a) fact') :
    Gives scope ts (p >>= k) fact' := by
  refine hp.bind ?_
  rintro _ _ ⟨rfl, rfl⟩
  exact hk

theorem weaken {fact' : α → List Token → Prop} (hp : Gives scope ts p fact)
    (h : ∀ a r, fact a r → fact' a r) : Gives scope ts p fact' := by
  intro s hs
  obtain ⟨a, s', hrun, ha⟩ := hp s hs
  exact ⟨a, s', hrun, h _ _ ha⟩

theorem discard (hp : Gives scope ts p fun _ r => r = rest) :
    Gives scope ts (discard p) fun _ r => r = rest := by
  show Gives scope ts (p >>= fun _ => Pure.pure ()) _
  exact hp.bind fun _ _ h => pure h

/-- A step whose answer is not used. -/
theorem skip {k : Unit → Parser β} {fact' : β → List Token → Prop}
    (hp : Gives scope ts p fun b r => b = a ∧ r = rest) (hk : Gives scope rest (k ()) fact') :
    Gives scope ts (Functor.discard p >>= k) fact' := by
  refine (discard (hp.weaken fun _ _ h => h.2)).bind ?_
  rintro _ _ rfl
  exact hk

/-! ## Tokens -/

theorem look (f : List Token → α) :
    Gives scope ts (do let p ← get; return f p.rest) fun a r => a = f ts ∧ r = ts := by
  rintro s rfl
  exact ⟨f s.rest, s, rfl, rfl, rfl⟩

theorem current : Gives scope ts Parser.current fun o r => o = ts.head? ∧ r = ts := look _

theorem kindAt (n : Nat) :
    Gives scope ts (Parser.kindAt n) fun o r => o = ts[n]?.map Token.kind ∧ r = ts :=
  look fun ts => ts[n]?.map Token.kind

theorem sees (kind : TokenKind) :
    Gives scope ts (Parser.sees kind) fun b r =>
      b = (ts[0]?.map Token.kind == some kind) ∧ r = ts :=
  look fun ts => ts[0]?.map Token.kind == some kind

theorem seesOneOf (ks : List Keyword) (t : Token) :
    Gives scope (t :: ts) (Parser.seesOneOf ks) fun b r =>
      b = t.keyword?.any ks.contains ∧ r = t :: ts :=
  current.next (pure ⟨rfl, rfl⟩)

theorem advance : Gives scope (t :: ts) Parser.advance fun o r => o = some t ∧ r = ts := by
  intro s hs
  exact ⟨_, _, advance_run hs scope, rfl, rfl⟩

theorem takeIf? {test : Token → Bool} (h : test t) :
    Gives scope (t :: ts) (Parser.takeIf? test) fun o r => o = some t ∧ r = ts := by
  refine current.next ?_
  show Gives scope (t :: ts) (if test t then Parser.advance else Pure.pure none) _
  rw [if_pos h]
  exact advance

theorem takeIf?_none {test : Token → Bool} (h : ∀ t ∈ ts.head?, test t = false) :
    Gives scope ts (Parser.takeIf? test) fun o r => o = none ∧ r = ts := by
  refine current.next ?_
  rcases ts with _ | ⟨t, ts⟩
  · exact pure ⟨rfl, rfl⟩
  · show Gives scope (t :: ts) (if test t then Parser.advance else Pure.pure none) _
    rw [h t rfl]
    exact pure ⟨rfl, rfl⟩

theorem take? {kind : TokenKind} (h : t.kind = kind) :
    Gives scope (t :: ts) (Parser.take? kind) fun o r => o = some t ∧ r = ts :=
  takeIf? (beq_iff_eq.2 h)

/-- No token of the kind comes next. -/
theorem take?_none {kind : TokenKind} (h : ts.head?.map Token.kind ≠ some kind) :
    Gives scope ts (Parser.take? kind) fun o r => o = none ∧ r = ts :=
  takeIf?_none fun t ht => beq_eq_false_iff_ne.2 fun hk => h (by rw [ht, ← hk]; rfl)

theorem take?_nil (kind : TokenKind) :
    Gives scope [] (Parser.take? kind) fun o r => o = none ∧ r = [] :=
  take?_none (by simp)

theorem consume_true {kind : TokenKind} (h : t.kind = kind) :
    Gives scope (t :: ts) (Parser.consume kind) fun b r => b = true ∧ r = ts :=
  (take? h).next (pure ⟨rfl, rfl⟩)

theorem consume_false {kind : TokenKind} (h : ts.head?.map Token.kind ≠ some kind) :
    Gives scope ts (Parser.consume kind) fun b r => b = false ∧ r = ts :=
  (take?_none h).next (pure ⟨rfl, rfl⟩)

theorem expect {kind : TokenKind} (what : String) (h : t.kind = kind) :
    Gives scope (t :: ts) (Parser.expect kind what) fun u r => u = t ∧ r = ts :=
  (take? h).next (pure ⟨rfl, rfl⟩)

/-! ## Levels and contexts -/

theorem deeper (hopens : scope.Opens scope.depth)
    (hp : Gives { scope with depth := scope.depth + 1 } ts p fact) :
    Gives scope ts (Parser.deeper p) fact := by
  intro s hs
  rw [deeper_run, if_neg (Nat.not_le.2 hopens.1), if_neg (ne_true_of_eq_false (hopens.2 s.taken))]
  exact hp _ hs

theorem within (context : Context) (hp : Gives { scope with context := some context } ts p fact) :
    Gives scope ts (Parser.within context p) fact :=
  hp

theorem askIf {c : Config → Bool} {q : Parser α}
    (hp : c scope.config = true → Gives scope ts p fact)
    (hq : c scope.config = false → Gives scope ts q fact) :
    Gives scope ts (do if c (← read).config then p else q) fact := by
  show Gives scope ts (fun scope => (if c scope.config then p else q) scope) fact
  intro s hs
  dsimp only
  cases hc : c scope.config
  · exact hq hc s hs
  · exact hp hc s hs

theorem iterate {step : α → Parser (Option α)} (h : Gives scope ts (iterateOver step ts a) fact) :
    Gives scope ts (Parser.iterate step a) fact := by
  rintro s rfl
  exact h s rfl

/-- A step that finds nothing is not repeated. -/
theorem iterate_none {step : α → Parser (Option α)}
    (h : Gives scope ts (step a) fun o r => o = none ∧ r = ts) :
    Gives scope ts (Parser.iterate step a) fun b r => b = a ∧ r = ts := by
  intro s hs
  obtain ⟨_, s', hrun, rfl, hs'⟩ := h s hs
  exact ⟨a, s', iterateOver_none hrun s.rest, rfl, hs'⟩

/-! ## Words -/

theorem checkQuotes (h : t.QuotesPass scope.config) :
    Gives scope ts (Parser.checkQuotes t) fun _ r => r = ts := by
  refine .askIf (c := fun c => c.strictAnsi && t.kind == .quotedIdentifier &&
    t.text.toList.head? != some '"') (fun hrefused => ?_) fun _ => pure rfl
  simp only [Bool.and_eq_true, beq_iff_eq, bne_iff_ne] at hrefused
  exact absurd (h hrefused.1.1 hrefused.1.2) hrefused.2

theorem expectWord {test : Token → Bool} (what : String) (htest : test t)
    (hquotes : t.QuotesPass scope.config) :
    Gives scope (t :: ts) (Parser.expectWord test what) fun u r => u = t ∧ r = ts := by
  refine current.next ?_
  show Gives scope (t :: ts) (if test t then _ else _) _
  rw [if_pos htest]
  refine (checkQuotes hquotes).bind ?_
  rintro _ _ rfl
  exact advance.skip (pure ⟨rfl, rfl⟩)

/-! ## Nodes -/

theorem edit (c : Command) : Gives scope ts (Parser.edit c) fun _ r => r = ts := by
  intro s hs
  exact ⟨(), s.edited c, rfl, hs ▸ s.rest_edited c⟩

theorem newNode (kind : Kind) (location : Location) (span : Span) :
    Gives scope ts (Parser.newNode kind location span) fun u r =>
      (∃ id, u = .leaf { kind, id, context := scope.context, location, span }) ∧ r = ts := by
  intro s hs
  exact ⟨_, _, rfl, ⟨_, rfl⟩, hs ▸ s.rest_edited _⟩

theorem nodeOver (kind : Kind) (first : Tree) :
    Gives scope ts (Parser.nodeOver kind first) fun u r =>
      (∃ id location span, u = .leaf { kind, id, context := scope.context, location, span }) ∧
        r = ts := by
  refine (edit _).bind ?_
  rintro _ _ rfl
  refine (newNode kind _ _).weaken ?_
  rintro _ _ ⟨⟨id, rfl⟩, rfl⟩
  exact ⟨⟨id, _, _, rfl⟩, rfl⟩

theorem amend (t : Tree) (change : Node → Node) :
    Gives scope ts (Parser.amend t change) fun u r => u = t.mapHead change ∧ r = ts := by
  refine (edit _).bind ?_
  rintro _ _ rfl
  exact pure ⟨rfl, rfl⟩

theorem flag (u : Tree) (f : Flag) :
    Gives scope ts (Parser.flag u f) fun v r => v = u.mapHead (·.mark f) ∧ r = ts :=
  amend u _

theorem attach (parent child : Tree) :
    Gives scope ts (Parser.attach parent child) fun u r => u = parent.append [child] ∧ r = ts := by
  refine (edit _).bind ?_
  rintro _ _ rfl
  exact pure ⟨rfl, rfl⟩

theorem finish (t : Tree) : Gives scope ts (Parser.finish t) fun u r =>
    (∃ stop, u = t.mapHead fun n => { n with span := n.span.extend stop }) ∧ r = ts := by
  rintro s rfl
  have hamend : Gives scope s.rest (Parser.amend t fun n =>
    { n with span := n.span.extend s.lastEnd }) _ := amend t _
  obtain ⟨u, s', hrun, hu, hr⟩ := hamend s rfl
  exact ⟨u, s', hrun, ⟨s.lastEnd, hu⟩, hr⟩

/-! ## Texts -/

theorem copy (text : String) :
    Gives scope ts (Parser.copy text) fun u r => u = .copied text ∧ r = ts := by
  refine (edit _).bind ?_
  rintro _ _ rfl s hs
  exact ⟨_, _, rfl, rfl, hs⟩

theorem undouble_of_contains {quote : Char} {body : List Char} (h : body.contains quote = false) :
    undouble quote body = body := by
  have hmem : quote ∉ body := by simpa using h
  clear h
  fun_induction undouble quote body with
  | case1 => rfl
  | case2 => rfl
  | case3 c d cs hquotes => exact absurd List.mem_cons_self (hquotes.1 ▸ hmem)
  | case4 c d cs _ ih => rw [ih fun h => hmem (List.mem_cons_of_mem c h)]

/-- A body is copied if it has quotes. -/
theorem quotedText (quote : Char) {body : List Char}
    (h : scope.source.slice? (t.span.inner 1).start (t.span.inner 1).stop = some body) :
    Gives scope ts (Parser.quotedText quote t) fun u r =>
      (u.resolve scope.source = some (String.ofList (undouble quote body)) ∧
        (u.isCopied = true ↔ quote ∈ body)) ∧ r = ts := by
  intro s hs
  unfold Parser.quotedText
  dsimp only
  rw [read_run, h]
  by_cases hquote : body.contains quote
  · simp only [hquote, if_true]
    obtain ⟨u, s', hrun, rfl, hs'⟩ := copy (String.ofList (undouble quote body)) s hs
    exact ⟨_, s', hrun, ⟨rfl, by simpa [Text.isCopied] using hquote⟩, hs'⟩
  · rw [Bool.not_eq_true] at hquote
    simp only [hquote, undouble_of_contains hquote]
    exact ⟨_, s, rfl, ⟨by simp [Text.resolve, Source.at?, h],
      by simpa [Text.isCopied] using hquote⟩, hs⟩

/-- The text of a token of the source can be read, and but for blobs it is the content. -/
theorem tokenText (hfits : scope.source.Fits) (h : t.ReadFrom scope.source) :
    Gives scope ts (Parser.tokenText t) fun u r =>
      (t.kind ≠ .blob → u.resolve scope.source = some t.content) ∧ r = ts := by
  unfold Parser.tokenText
  split
  · next hk =>
    obtain ⟨c, close, body, htext, hbody⟩ := h.body hfits (by rw [hk]; rfl)
    refine (quotedText _ hbody).weaken fun u r hu => ⟨fun _ => ?_, hu.2⟩
    rw [hu.1.1, Token.content, hk, htext]
    simp
  · next hk =>
    obtain ⟨c, close, body, htext, hbody⟩ := h.body hfits (by rw [hk]; rfl)
    split
    · next hnil => simp [htext] at hnil
    · next hcons =>
      refine pure ⟨fun _ => ?_, rfl⟩
      rw [Token.content, hk, hcons]
      simp only [htext, String.toList_ofList, List.cons.injEq] at hcons
      obtain ⟨-, rfl⟩ := hcons
      simp [Text.resolve, Source.at?, hbody]
    · next quote more hquote hcons =>
      refine (quotedText _ hbody).weaken fun u r hu => ⟨fun _ => ?_, hu.2⟩
      rw [hu.1.1, Token.content, hk, hcons]
      simp only [htext, String.toList_ofList, List.cons.injEq] at hcons
      obtain ⟨-, rfl⟩ := hcons
      simp
  · next hk => exact pure ⟨fun hblob => absurd hk hblob, rfl⟩
  · next hstring hquoted hblob =>
    have hcontent : t.content = t.text := by
      unfold Token.content
      split <;> simp_all
    exact pure ⟨fun _ => hcontent ▸ h.text, rfl⟩

theorem tokenTexts (hfits : scope.source.Fits) {us : List Token}
    (h : ∀ u ∈ us, u.ReadFrom scope.source) :
    Gives scope ts (SqlSyntax.tokenTexts us) fun _ r => r = ts := by
  unfold SqlSyntax.tokenTexts
  induction us with
  | nil =>
    rw [List.mapM_nil]
    exact pure rfl
  | cons u us ih =>
    rw [List.mapM_cons]
    refine (tokenText hfits (h u List.mem_cons_self)).bind ?_
    rintro _ _ ⟨-, rfl⟩
    refine (ih fun v hv => h v (List.mem_cons_of_mem u hv)).bind ?_
    rintro _ _ rfl
    exact pure rfl

section Named

variable {P : Text → Prop}
  (htext : Gives scope ts (Parser.tokenText t) fun text r => P text ∧ r = ts)

include htext

/-- The text of a token alone. -/
theorem tokenTexts_one :
    Gives scope ts (SqlSyntax.tokenTexts [t]) fun us r =>
      (∃ text, us = [text] ∧ P text) ∧ r = ts := by
  unfold SqlSyntax.tokenTexts
  rw [List.mapM_cons, List.mapM_nil]
  refine htext.bind ?_
  rintro text _ ⟨hP, rfl⟩
  exact pure ⟨⟨text, rfl, hP⟩, rfl⟩

/-- A node that keeps the text of its token. -/
theorem namedNode (kind : Kind) :
    Gives scope ts (Parser.namedNode kind t) fun u r =>
      u.IsLeaf kind scope.context P ∧ r = ts := by
  refine (newNode kind t.location t.span).bind ?_
  rintro _ _ ⟨⟨id, rfl⟩, rfl⟩
  refine htext.bind ?_
  rintro text _ ⟨hP, rfl⟩
  refine (amend _ _).weaken ?_
  rintro _ _ ⟨rfl, rfl⟩
  exact ⟨⟨id, text, _, _, rfl, hP⟩, rfl⟩

end Named

/-! ## Lists -/

theorem afterComma?_none {item : Parser Tree} (h : ts.head?.map Token.kind ≠ some .comma) :
    Gives scope ts (afterComma? item) fun o r => o = none ∧ r = ts :=
  (consume_false h).next (pure ⟨rfl, rfl⟩)

/-- A list ends after an item that no comma follows. -/
theorem attachList_one {item : Parser Tree} {parent : Tree} {fact : Tree → Prop}
    (hitem : Gives scope ts item fun u r => fact u ∧ r = rest)
    (hcomma : rest.head?.map Token.kind ≠ some .comma) :
    Gives scope ts (Parser.attachList item parent) fun v r =>
      (∃ u, fact u ∧ v = parent.append [u]) ∧ r = rest := by
  refine hitem.bind ?_
  rintro u _ ⟨hu, rfl⟩
  refine (attach parent u).next ?_
  refine (iterate_none ?_).weaken ?_
  · exact (afterComma?_none hcomma).next (pure ⟨rfl, rfl⟩)
  · rintro _ _ ⟨rfl, rfl⟩
    exact ⟨⟨u, hu, rfl⟩, rfl⟩

end Parser.Gives

/-! ## Runs that fail -/

/-- With these tokens ahead, the parser fails like that, with so many tokens left. -/
def Parser.Fails {α : Type} (scope : Scope) (ts : List Token) (p : Parser α) (f : Failure)
    (left : List Token) : Prop :=
  ∀ s : Progress, s.rest = ts → ∃ s', p scope s = .error f s' ∧ s'.rest = left

namespace Parser.Fails

variable {α β : Type} {scope : Scope} {ts left : List Token} {t : Token} {p : Parser α}
  {f : Failure}

theorem bind {k : α → Parser β} (hp : Fails scope ts p f left) :
    Fails scope ts (p >>= k) f left := by
  intro s hs
  obtain ⟨s', hrun, hs'⟩ := hp s hs
  exact ⟨s', bind_error hrun k, hs'⟩

/-- A parser that fails once another has given an answer. -/
theorem after {k : α → Parser β} {fact : α → List Token → Prop} (hp : Gives scope ts p fact)
    (hk : ∀ a r, fact a r → Fails scope r (k a) f left) : Fails scope ts (p >>= k) f left := by
  intro s hs
  obtain ⟨a, s₁, hrun, ha⟩ := hp s hs
  obtain ⟨s₂, hrun', hs₂⟩ := hk a _ ha s₁ rfl
  exact ⟨s₂, by rw [bind_ok hrun, hrun'], hs₂⟩

theorem fail (e : ParseError) : Fails scope ts (Parser.fail e : Parser α) (.error e) ts :=
  fun s hs => ⟨s, rfl, hs⟩

theorem deeper (hopens : scope.Opens scope.depth)
    (hp : Fails { scope with depth := scope.depth + 1 } ts p f left) :
    Fails scope ts (Parser.deeper p) f left := by
  intro s hs
  rw [deeper_run, if_neg (Nat.not_le.2 hopens.1), if_neg (ne_true_of_eq_false (hopens.2 s.taken))]
  exact hp _ hs

end Parser.Fails

end SqlSyntax
