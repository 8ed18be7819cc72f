import SqlSyntax.Proofs.Law
import SqlSyntax.Proofs.Trees

/-!
# Laws about trees and tokens

Many laws speak of the detached trees and of the tokens ahead, and of nothing else of a run. Such a
law is kept by the steps if it is kept by what the steps do to the trees (`Law.Steps.allows`); the
stored nodes and the counts of a run have no part in it, and a run may fail in any way.

The first of them is that no production gives a token back (`shorter_serves`). So each operator
that an expression grows by has taken a token (`grow?_takes`), and an expression ends where no
operator goes on, not because its rounds are used up.
-/

namespace SqlSyntax

open SqlSyntax.Parser

theorem Progress.rest_edited (c : Command) (s : Progress) : (s.edited c).rest = s.rest := by
  unfold edited
  split
  · rfl
  · split <;> rfl

theorem Progress.lastEnd_edited (c : Command) (s : Progress) :
    (s.edited c).lastEnd = s.lastEnd := by
  unfold edited
  split
  · rfl
  · split <;> rfl

theorem Progress.taken_edited (c : Command) (s : Progress) : (s.edited c).taken = s.taken := by
  unfold edited
  split
  · rfl
  · split <;> rfl

theorem Progress.nodes_edited (c : Command) (s : Progress) : (s.edited c).nodes = s.nodes := by
  unfold edited
  split
  · rfl
  · split <;> rfl

/-- The progress once the next token is taken. -/
def Progress.advanced (s : Progress) (t : Token) (rest : List Token) : Progress :=
  { s with rest, taken := s.taken + 1, lastEnd := t.span.stop }

namespace Parser

variable {α : Type} {scope : Scope} {s s' : Progress} {t : Token} {rest : List Token}

theorem advance_run (h : s.rest = t :: rest) (scope : Scope) :
    advance scope s = .ok (some t) (s.advanced t rest) := by
  obtain ⟨r⟩ := s
  obtain rfl : r = t :: rest := h
  rfl

theorem discard_advance_run (h : s.rest = t :: rest) (scope : Scope) (k : Parser α) :
    (do discard advance; k) scope s = k scope (s.advanced t rest) := by
  obtain ⟨r⟩ := s
  obtain rfl : r = t :: rest := h
  rfl

theorem consume_run (kind : TokenKind) (h : s.rest = t :: rest) (scope : Scope) :
    consume kind scope s =
      if t.kind == kind then .ok true (s.advanced t rest) else .ok false s := by
  obtain ⟨r⟩ := s
  obtain rfl : r = t :: rest := h
  show ((if t.kind == kind then advance else pure none : Parser (Option Token)) >>= fun o =>
    pure o.isSome) scope _ = _
  split <;> rfl

end Parser

namespace Law

variable {H : List Tree → List Token → Prop} {F : Failure → List Token → Prop} {source : Source}
  {T : Terms} {ahead : List Token → Prop} {α : Type}

/-- A law about the detached trees and the tokens ahead, where a run may fail in some ways. -/
def plainly (source : Source) (config : Config) (H : List Tree → List Token → Prop)
    (F : Failure → List Token → Prop) : Law :=
  ⟨source, config, fun ts s => H ts s.rest, F⟩

/-- A law about the detached trees and the tokens ahead. -/
def plain (source : Source) (config : Config) (H : List Tree → List Token → Prop) : Law :=
  plainly source config H fun _ _ => True

/-- What the steps do to trees and tokens keeps the law. -/
structure Steps (T : Terms) (H : List Tree → List Token → Prop) : Prop where
  perm : ∀ {ts us r}, ts.Perm us → H ts r → H us r
  known : ∀ {ts r}, H ts r → ∀ t ∈ r, T.known t
  advanced : ∀ {ts t r}, H ts (t :: r) → H ts r
  leaf : ∀ {ts r} n, H ts r → H (.leaf n :: ts) r
  amended : ∀ {t ts r change}, (∀ n, (change n).Alike n) →
    (T.free t ∨ ∀ n, (change n).operator = n.operator) → H (t :: ts) r →
      H (t.mapHead change :: ts) r
  attached : ∀ {parent child ts r}, T.free parent → H (child :: parent :: ts) r →
    H (parent.append [child] :: ts) r
  prepended : ∀ {parent child ts r}, T.free parent → H (child :: parent :: ts) r →
    H (parent.prepend child :: ts) r

/-- An edit of the stored nodes has no part in the law. -/
theorem plain_edit {config : Config} {ts : List Tree} (c : Command) :
    (plainly source config H F).Keeps ahead ts (edit c) (fun _ => ts) fun _ => ahead := by
  intro scope others s _ _ ha hs
  have hrest := s.rest_edited c
  refine ⟨hrest.symm ▸ ha, ?_⟩
  show H (ts ++ others) (s.edited c).rest
  rw [hrest]
  exact hs

/-- A tree is made of others by an edit and as a value. -/
theorem plain_make {config : Config} {pre : List Tree} {t : Tree} (c : Command)
    (h : ∀ ts r, H (pre ++ ts) r → H (t :: ts) r) :
    (plainly source config H F).Keeps ahead pre (do edit c; return t) one fun u r =>
      u = t ∧ ahead r :=
  (plain_edit c).bind fun _ _ others s _ _ ha hs => ⟨⟨rfl, ha⟩, h others s.rest hs⟩

theorem plain_copy {config : Config} (text : String) :
    (plainly source config H F).Keeps ahead [] (copy text) silent fun _ => ahead :=
  Keeps.bind (plain_edit _) fun _ _ _ _ _ _ ha hs => ⟨ha, hs⟩

theorem plain_quotedText {config : Config} (hF : ∀ t r, F (.noBody t) r) (quote : Char)
    (t : Token) :
    (plainly source config H F).Keeps ahead [] (quotedText quote t) silent fun _ => ahead := by
  intro scope others s hsource hconfig ha hs
  unfold Parser.quotedText
  generalize t.span.inner 1 = inner
  rw [read_run]
  rcases scope.source.slice? inner.start inner.stop with _ | body
  · exact ⟨hF t s.rest, [], hs⟩
  · by_cases hquote : body.contains quote
    · simp only [hquote, if_true]
      exact plain_copy _ scope others s hsource hconfig ha hs
    · simp only [hquote]
      exact ⟨ha, hs⟩

theorem plain_tokenText {config : Config} (hF : ∀ t r, F (.noBody t) r) (t : Token) :
    (plainly source config H F).Keeps ahead [] (tokenText t) silent fun _ => ahead := by
  unfold Parser.tokenText
  split
  · exact plain_quotedText hF _ t
  · split
    · exact .pure silent fun _ h => h
    · exact .pure silent fun _ h => h
    · exact plain_quotedText hF _ t
  · exact .pure silent fun _ h => h
  · exact .pure silent fun _ h => h

namespace Steps

theorem newNode (hH : Steps T H) (kind : Kind) (location : Location) (span : Span) :
    (plain source T.config H).Keeps ahead [] (newNode kind location span) one fun u r =>
      (u.Fresh kind span.start ∧ ∃ n, u = .leaf n) ∧ ahead r := by
  intro scope others s hsource hconfig ha hs
  have hedit : (plain source T.config H).Keeps ahead []
      (edit (.alloc kind location span scope.context)) (fun _ => []) fun _ => ahead :=
    plain_edit _
  obtain ⟨ha, hs⟩ := hedit scope others s hsource hconfig ha hs
  exact ⟨⟨⟨.leaf kind _ _ _ span, _, rfl⟩, ha⟩, hH.leaf _ hs⟩

theorem nodeOver (hH : Steps T H) (kind : Kind) (first : Tree) :
    (plain source T.config H).Keeps ahead [first] (nodeOver kind first) (fun t => [first, t])
      fun u r => (u.Fresh kind first.head.span.start ∧ ∃ n, u = .leaf n) ∧ ahead r := by
  refine (plain_edit _).bind fun _ => ?_
  have hnew : (plain source T.config H).Keeps ahead [first] _ _ _ :=
    (hH.newNode kind first.head.location first.head.span).frame [first]
  exact hnew.relax hH.perm (fun _ h => h) (.refl _) (fun t _ _ => .swap first t [])
    fun _ _ h => h

theorem amends (hH : Steps T H) {change : Node → Node} (hc : ∀ n, (change n).Alike n)
    (hop : ∀ n, (change n).operator = n.operator) :
    (plain source T.config H).Amends change :=
  ⟨hc, fun _ => plain_make _ fun _ _ => hH.amended hc (.inr hop)⟩

theorem allows (hH : Steps T H) : (plain source T.config H).Allows T where
  config := rfl
  perm := hH.perm
  known := hH.known
  advanced := by
    intro ts s t rest hrest hs
    have hs : H ts s.rest := hs
    rw [hrest] at hs
    exact hH.advanced hs
  deepened hs := hs
  fairAt _ _ := trivial
  fairEnd _ := trivial
  nodeAt kind _ := (hH.newNode kind _ _).weaken fun _ _ h => ⟨h.1.1, h.2⟩
  nodeOver kind first := (hH.nodeOver kind first).weaken fun _ _ h => ⟨h.1.1, h.2⟩
  amend hc ht := plain_make _ fun _ _ => hH.amended (fun n => (hc n).toAlike) ht
  attach _ h := plain_make _ fun _ _ => hH.attached h
  prepend _ h := plain_make _ fun _ _ => hH.prepended h
  inscribe _ hc hbase _ := .inscribe (fun _ _ => plain_tokenText (fun _ _ => trivial) _) hbase
    fun texts => hH.amends (hc.alike texts) (hc.operator texts)
  inscribeType hname hbase _ := .inscribeType hname hbase fun _ _ =>
    hH.amends (fun _ => ⟨rfl, rfl, rfl, rfl, rfl⟩) fun _ => rfl

/-- A token that is not of the kind stays ahead. -/
theorem consume (hH : Steps T H) (kind : TokenKind) :
    (plain source T.config H).Keeps ahead [] (consume kind) silent fun b r =>
      b = false → ahead r := by
  intro scope others s _ _ ha hs
  rcases hs' : s.rest with _ | ⟨t, rest⟩
  · obtain ⟨r⟩ := s
    obtain rfl : r = [] := hs'
    exact ⟨fun _ => ha, hs⟩
  · rw [consume_run kind hs']
    split
    · exact ⟨nofun, hH.allows.advanced hs' hs⟩
    · exact ⟨fun _ => ha, hs⟩

end Steps

/-! ## Tokens are never given back -/

/-- Not more than so many tokens are ahead. -/
def shorter (source : Source) (config : Config) (n : Nat) : Law :=
  plain source config fun _ r => r.length ≤ n

/-- What productions may rely on if nothing is asked of tokens and trees. -/
def openTerms (config : Config) (inner : Nested) : Terms :=
  ⟨config, inner, fun _ => True, fun _ => false, fun _ _ => rfl⟩

theorem shorter_allows (source : Source) (config : Config) (n : Nat) (inner : Nested) :
    (shorter source config n).Allows (openTerms config inner) :=
  Steps.allows (T := openTerms config inner) {
    perm := fun _ h => h
    known := fun _ _ _ => trivial
    advanced := fun h => Nat.le_of_succ_le h
    leaf := fun _ h => h
    amended := fun _ _ h => h
    attached := fun _ h => h
    prepended := fun _ h => h }

theorem shorter_serves (source : Source) (config : Config) (n : Nat) :
    ∀ k, (shorter source config n).Serves (fun _ _ _ => True) (Nested.upTo k) :=
  Allows.serves (shorter_allows source config n) fun _ hinner power =>
    (expression_yields (fun _ => rfl) power).keeps (shorter_allows source config n _) hinner

end Law

end SqlSyntax
