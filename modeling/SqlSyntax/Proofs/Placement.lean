import SqlSyntax.Proofs.Twins

/-!
# Where nodes and errors are

A node starts where a token starts that was read, and an error is at such a token, at the next one,
or at the end of the source (`Law.placed`). So nothing is placed before the tokens that a run began
with.

Nor is anything placed behind the next token, though a step that looks at a token says nothing of
those after it. But those matter by their kinds only (`Built.inStep`): the run would go the same way
if they all stood at the place of the next token, and then nothing could be placed behind that.
-/

namespace SqlSyntax

open SqlSyntax.Parser

/-- Everything in the tree starts at such a place, told by its location and by where its span
starts. -/
def Tree.Placed (P : Location → Nat → Prop) (t : Tree) : Prop :=
  t.Everywhere fun u => P u.head.location u.head.span.start

/-- If the failure is an error, it is none of a rule for whole statements, it shows no line yet, and
it is at such a place or at the end of the source. -/
def Failure.Placed (source : Source) (P : Location → Nat → Prop) (f : Failure) (ts : List Token) :
    Prop :=
  ∀ e, f = .error e → e.kind ≠ .invalid ∧ e.context = none ∧
    (P e.location e.span.start ∨
      ts = [] ∧ e.location = .atOffset source source.byteSize ∧ e.span.start = e.location.offset)

/-- Places that are not before an offset. -/
def NotBefore (b : Nat) (l : Location) (_ : Nat) : Prop := b ≤ l.offset

/-- Places that are not behind an offset. -/
def NotBehind (b : Nat) (l : Location) (_ : Nat) : Prop := l.offset ≤ b

namespace Law

variable {source : Source} {config : Config} {P : Location → Nat → Prop} {ahead : List Token → Prop}

/-- The tokens ahead are at such places, and so is everything that was made of tokens. -/
def AllPlaced (P : Location → Nat → Prop) (ts : List Tree) (r : List Token) : Prop :=
  (∀ t ∈ r, P t.location t.span.start) ∧ ∀ t ∈ ts, t.Placed P

/-- What is made of tokens is placed where they are. -/
def placed (source : Source) (config : Config) (P : Location → Nat → Prop) : Law :=
  plainly source config (AllPlaced P) (Failure.Placed source P)

/-- What productions may rely on: the tokens are at such places. -/
def placedTerms (config : Config) (P : Location → Nat → Prop) (inner : Nested) : Terms :=
  ⟨config, inner, fun t => P t.location t.span.start, fun _ => false, fun _ _ => rfl⟩

theorem placed_newNode (kind : Kind) {location : Location} {span : Span}
    (h : P location span.start) :
    (placed source config P).Keeps ahead [] (newNode kind location span) one fun u r =>
      u.Fresh kind span.start ∧ ahead r := by
  intro scope others s hsource hconfig ha hs
  have hedit : (placed source config P).Keeps ahead []
      (edit (.alloc kind location span scope.context)) (fun _ => []) fun _ => ahead :=
    plain_edit _
  obtain ⟨ha, hs⟩ := hedit scope others s hsource hconfig ha hs
  exact ⟨⟨.leaf kind _ _ _ span, ha⟩, hs.1, List.forall_mem_cons.2 ⟨.leaf h, hs.2⟩⟩

theorem placed_nodeOver (kind : Kind) (first : Tree) :
    (placed source config P).Keeps ahead [first] (nodeOver kind first) (fun t => [first, t])
      fun u r => u.Fresh kind first.head.span.start ∧ ahead r := by
  refine Keeps.bind (plain_edit _) fun _ => ?_
  intro scope others s hsource hconfig ha hs
  have hs : AllPlaced P (first :: others) s.rest := hs
  obtain ⟨hfirst, hothers⟩ := List.forall_mem_cons.1 hs.2
  have hnode : (placed source config P).Keeps ahead [] _ one _ :=
    placed_newNode kind hfirst.root
  obtain ⟨hk, hrest, hmade⟩ := hnode scope others s hsource hconfig ha ⟨hs.1, hothers⟩
  obtain ⟨hnew, hothers⟩ := List.forall_mem_cons.1 hmade
  exact ⟨hk, hrest, List.forall_mem_cons.2 ⟨hfirst, List.forall_mem_cons.2 ⟨hnew, hothers⟩⟩⟩

theorem placed_amended {t : Tree} {change : Node → Node} {ts : List Tree} {r : List Token}
    (hc : ∀ n, (change n).Alike n) (h : AllPlaced P (t :: ts) r) :
    AllPlaced P (t.mapHead change :: ts) r := by
  obtain ⟨ht, hts⟩ := List.forall_mem_cons.1 h.2
  refine ⟨h.1, List.forall_mem_cons.2 ⟨ht.mapHead ?_, hts⟩⟩
  obtain ⟨n, cs⟩ := t
  show P (change n).location (change n).span.start
  rw [(hc n).location, (hc n).start]
  exact ht.root

theorem placed_amends {change : Node → Node} (hc : ∀ n, (change n).Alike n) :
    (placed source config P).Amends change :=
  ⟨hc, fun _ => plain_make _ fun _ _ => placed_amended hc⟩

theorem placed_attached {parent child : Tree} {ts : List Tree} {r : List Token}
    (h : AllPlaced P (child :: parent :: ts) r) : AllPlaced P (parent.append [child] :: ts) r := by
  obtain ⟨hchild, hts⟩ := List.forall_mem_cons.1 h.2
  obtain ⟨hparent, hts⟩ := List.forall_mem_cons.1 hts
  exact ⟨h.1, List.forall_mem_cons.2 ⟨hparent.append hchild hparent.root, hts⟩⟩

theorem placed_prepended {parent child : Tree} {ts : List Tree} {r : List Token}
    (h : AllPlaced P (child :: parent :: ts) r) : AllPlaced P (parent.prepend child :: ts) r := by
  obtain ⟨hchild, hts⟩ := List.forall_mem_cons.1 h.2
  obtain ⟨hparent, hts⟩ := List.forall_mem_cons.1 hts
  exact ⟨h.1, List.forall_mem_cons.2 ⟨hparent.prepend hchild hparent.root, hts⟩⟩

theorem placed_allows (source : Source) (config : Config) (P : Location → Nat → Prop)
    (inner : Nested) :
    (placed source config P).Allows (placedTerms config P inner) where
  config := rfl
  perm hp hs := ⟨hs.1, fun t ht => hs.2 t (hp.mem_iff.2 ht)⟩
  known hs := hs.1
  advanced hrest hs := ⟨fun t ht => hs.1 t (hrest ▸ List.mem_cons_of_mem _ ht), hs.2⟩
  deepened hs := hs
  fairAt hc ht := by
    rintro _ ⟨⟩
    exact ⟨hc, rfl, .inl ht⟩
  fairEnd hc := by
    intro _
    rintro _ ⟨⟩
    exact ⟨hc, rfl, .inr ⟨rfl, rfl, rfl⟩⟩
  nodeAt kind ht := placed_newNode kind ht
  nodeOver := placed_nodeOver
  amend hc _ := plain_make _ fun _ _ => placed_amended fun n => (hc n).toAlike
  attach _ _ := plain_make _ fun _ _ => placed_attached
  prepend _ _ := plain_make _ fun _ _ => placed_prepended
  inscribe _ hc hbase _ := .inscribe (fun _ _ => plain_tokenText (fun _ _ => nofun) _) hbase
    fun texts => placed_amends (hc.alike texts)
  inscribeType hname hbase _ := .inscribeType hname hbase fun _ _ =>
    placed_amends fun _ => ⟨rfl, rfl, rfl, rfl, rfl⟩

theorem placed_serves (source : Source) (config : Config) (P : Location → Nat → Prop) :
    ∀ k, (placed source config P).Serves (fun _ _ _ => True) (Nested.upTo k) :=
  Allows.serves (placed_allows source config P) fun _ hinner power =>
    (expression_yields (fun _ => rfl) power).keeps (placed_allows source config P _) hinner

/-- The tokens ahead are the last of some tokens. -/
def lastOf (source : Source) (config : Config) (all : List Token) : Law :=
  plain source config fun _ r => r <:+ all

theorem lastOf_allows (source : Source) (config : Config) (all : List Token) (inner : Nested) :
    (lastOf source config all).Allows (openTerms config inner) :=
  Steps.allows (T := openTerms config inner) {
    perm := fun _ h => h
    known := fun _ _ _ => trivial
    advanced := fun h => (List.suffix_cons _ _).trans h
    leaf := fun _ h => h
    amended := fun _ _ h => h
    attached := fun _ h => h
    prepended := fun _ h => h }

theorem lastOf_serves (source : Source) (config : Config) (all : List Token) :
    ∀ k, (lastOf source config all).Serves (fun _ _ _ => True) (Nested.upTo k) :=
  Allows.serves (lastOf_allows source config all) fun _ hinner power =>
    (expression_yields (fun _ => rfl) power).keeps (lastOf_allows source config all _) hinner

end Law

/-! ## Attempts at statements -/

namespace Script

variable {source : Source} {scope : Scope} {s p : Progress} {root : Tree} {f : Failure}
  {v : Token} {left : List Token}

/-- Nothing is placed where no token ahead is. -/
theorem placed_next? (scope : Scope) (P : Location → Nat → Prop)
    (h : ∀ t ∈ s.rest, P t.location t.span.start) :
    (Law.placed scope.source scope.config P).Outcome perhaps (fun _ _ => True) []
      (next? scope s) :=
  Law.next?_keeps (Law.placed_allows scope.source scope.config P)
    (Law.placed_serves scope.source scope.config P)
    scope [] s rfl rfl trivial ⟨h, List.forall_mem_nil _⟩

theorem suffix_next? (scope : Scope) (s : Progress) :
    (Law.lastOf scope.source scope.config s.rest).Outcome perhaps (fun _ _ => True) []
      (next? scope s) :=
  Law.next?_keeps (Law.lastOf_allows scope.source scope.config s.rest)
    (Law.lastOf_serves scope.source scope.config s.rest)
    scope [] s rfl rfl trivial (List.suffix_refl s.rest)

theorem suffix_of_next?_ok (h : next? scope s = .ok (some root) p) :
    p.rest <:+ s.rest := by
  have hout := suffix_next? scope s
  rw [h] at hout
  exact hout.2

theorem suffix_of_next?_error (h : next? scope s = .error f p) :
    p.rest <:+ s.rest := by
  have hout := suffix_next? scope s
  rw [h] at hout
  obtain ⟨-, _, hsuffix⟩ := hout
  exact hsuffix

/-- The tokens up to one, and those after it moved to its place. -/
def gathered (before : List Token) (v : Token) (left : List Token) : List Token :=
  before ++ v :: left.map fun t => { t with span := v.span }

theorem gathered_twin {before : List Token} (hs : s.rest = before ++ v :: left) :
    s.Twin left.length { s with rest := gathered before v left } where
  kinds := by
    rw [hs]
    simp [gathered, Function.comp_def]
  ahead := by
    have hlength : (gathered before v left).length - left.length = (before ++ [v]).length := by
      simp [gathered]
      omega
    have hlength' : (before ++ v :: left).length - left.length = (before ++ [v]).length := by
      simp
      omega
    show s.rest.take _ = (gathered before v left).take _
    rw [hs, hlength, hlength', gathered, List.append_cons before v left,
      List.append_cons before v (left.map _), List.take_left, List.take_left]
  taken := rfl
  lastEnd := rfl
  nodes := rfl
  copied := rfl
  deepest := rfl

theorem start_le_of_gathered {before : List Token}
    (hsorted : (before ++ v :: left).Pairwise (·.span.start < ·.span.start)) :
    ∀ t ∈ gathered before v left, t.span.start ≤ v.span.start := by
  rw [List.pairwise_append] at hsorted
  refine List.forall_mem_append.2 ⟨fun t ht => ?_, List.forall_mem_cons.2 ⟨Nat.le_refl _, ?_⟩⟩
  · exact Nat.le_of_lt (hsorted.2.2 t ht v List.mem_cons_self)
  · intro t ht
    obtain ⟨u, -, rfl⟩ := List.mem_map.1 ht
    exact Nat.le_refl _

/-- A statement is not placed behind the next token. -/
theorem placed_of_next?_ok (hsorted : s.rest.Pairwise (·.span.start < ·.span.start))
    (h : next? scope s = .ok (some root) p) (hp : p.rest = v :: left) :
    root.Placed (NotBehind v.span.start) := by
  obtain ⟨before, hs⟩ := suffix_of_next?_ok h
  rw [hp] at hs
  rw [← hs] at hsorted
  have hfollows := next?_inStep scope s _ rfl (gathered_twin hs.symm)
  rw [h] at hfollows
  obtain ⟨p', hrun, htwin⟩ := hfollows.2.2 (.inr (by rw [hp]; exact Nat.lt_succ_self _))
  have hout := placed_next? scope (NotBehind v.span.start)
    (s := { s with rest := gathered before v left }) (start_le_of_gathered hsorted)
  rw [hrun] at hout
  exact hout.2.2 root List.mem_cons_self

/-- An error is not placed behind the next token. -/
theorem offset_le_of_next?_error {e : ParseError}
    (hsorted : s.rest.Pairwise (·.span.start < ·.span.start))
    (h : next? scope s = .error (.error e) p) (hp : p.rest = v :: left) :
    e.location.offset ≤ v.span.start := by
  obtain ⟨before, hs⟩ := suffix_of_next?_error h
  rw [hp] at hs
  rw [← hs] at hsorted
  have hfollows := next?_inStep scope s _ rfl (gathered_twin hs.symm)
  rw [h] at hfollows
  obtain ⟨p', hrun, htwin⟩ := hfollows.2 (.inr (by rw [hp]; exact Nat.lt_succ_self _))
  have hout := placed_next? scope (NotBehind v.span.start)
    (s := { s with rest := gathered before v left }) (start_le_of_gathered hsorted)
  rw [hrun] at hout
  rcases (hout.1 e rfl).2.2 with hle | ⟨hrest, -⟩
  · exact hle
  · have hlength := htwin.length_eq
    rw [hp, hrest] at hlength
    cases hlength

/-! ## All attempts -/

/-- If both failures are errors, the first is not behind the second. -/
def Precedes (f g : Failure) : Prop :=
  ∀ e e', f = .error e → g = .error e' → e.location.offset ≤ e'.location.offset

/-- Nothing in the first tree is behind anything in the second. -/
def Before (t u : Tree) : Prop :=
  ∀ v ∈ t.preorder, ∀ w ∈ u.preorder, v.head.location.offset ≤ w.head.location.offset

/-- What is found among some tokens is where they are, and it is found in order. -/
structure InOrder (source : Source) (ts : List Token) (roots : List Tree)
    (failures : List Failure) : Prop where
  rootsFrom : ∀ b, (∀ t ∈ ts, b ≤ t.span.start) → ∀ root ∈ roots, root.Placed (NotBefore b)
  failuresFrom : ∀ b ≤ source.byteSize, (∀ t ∈ ts, b ≤ t.span.start) → ∀ f ∈ failures,
    ∀ e, f = .error e → b ≤ e.location.offset
  rootsSorted : roots.Pairwise Before
  failuresSorted : failures.Pairwise Precedes
  kinds : ∀ f ∈ failures, ∀ e, f = .error e → e.kind ≠ .invalid

namespace InOrder

variable {ts us : List Token} {roots : List Tree} {failures : List Failure}

theorem nil (source : Source) (ts : List Token) : InOrder source ts [] [] :=
  ⟨fun _ _ => List.forall_mem_nil _, fun _ _ _ => List.forall_mem_nil _, .nil, .nil,
    List.forall_mem_nil _⟩

/-- A statement before what is found after it. -/
theorem consRoot (h : InOrder source us roots failures) (hsuffix : us <:+ ts)
    (hsorted : us.Pairwise (·.span.start < ·.span.start))
    (hroot : ∀ b, (∀ t ∈ ts, b ≤ t.span.start) → root.Placed (NotBefore b))
    (hnext : ∀ v left, us = v :: left → root.Placed (NotBehind v.span.start)) :
    InOrder source ts (root :: roots) failures where
  rootsFrom b hb := List.forall_mem_cons.2
    ⟨hroot b hb, h.rootsFrom b fun t ht => hb t (hsuffix.subset ht)⟩
  failuresFrom b hb hts := h.failuresFrom b hb fun t ht => hts t (hsuffix.subset ht)
  rootsSorted := by
    refine .cons (fun u hu v hv w hw => ?_) h.rootsSorted
    rcases us with _ | ⟨t, left⟩
    · -- no tokens are left, so there is no other statement
      have hplaced := h.rootsFrom (w.head.location.offset + 1) (List.forall_mem_nil _) u hu w hw
      exact absurd hplaced (Nat.not_succ_le_self _)
    · have hle := hnext t left rfl v hv
      have hge := h.rootsFrom t.span.start (List.forall_mem_cons.2 ⟨Nat.le_refl _, fun u hu =>
        Nat.le_of_lt ((List.pairwise_cons.1 hsorted).1 u hu)⟩) u hu w hw
      exact Nat.le_trans hle hge
  failuresSorted := h.failuresSorted
  kinds := h.kinds

/-- A failure before what is found after it. -/
theorem consFailure (h : InOrder source us roots failures) (hsuffix : us <:+ ts)
    (hsize : ∀ t ∈ ts, t.span.start ≤ source.byteSize)
    (hsorted : ts.Pairwise (·.span.start < ·.span.start))
    {vs : List Token} (hvs : vs <:+ ts) (hus : us <:+ vs)
    (hf : ∀ b ≤ source.byteSize, (∀ t ∈ ts, b ≤ t.span.start) → ∀ e, f = .error e →
      b ≤ e.location.offset)
    (hnext : ∀ e, f = .error e → ∀ v left, vs = v :: left → e.location.offset ≤ v.span.start)
    (hend : ∀ e, f = .error e → e.location.offset ≤ source.byteSize)
    (hkind : ∀ e, f = .error e → e.kind ≠ .invalid) :
    InOrder source ts roots (f :: failures) where
  rootsFrom b hb := h.rootsFrom b fun t ht => hb t (hsuffix.subset ht)
  failuresFrom b hb hts := List.forall_mem_cons.2
    ⟨hf b hb hts, h.failuresFrom b hb fun t ht => hts t (hsuffix.subset ht)⟩
  rootsSorted := h.rootsSorted
  failuresSorted := by
    refine .cons (fun g hg e e' he he' => ?_) h.failuresSorted
    rcases vs with _ | ⟨v, left⟩
    · obtain rfl := List.suffix_nil.1 hus
      exact Nat.le_trans (hend e he)
        (h.failuresFrom _ (Nat.le_refl _) (List.forall_mem_nil _) g hg e' he')
    · have hsorted := hsorted.sublist hvs.sublist
      have hfrom : ∀ t ∈ us, v.span.start ≤ t.span.start := by
        intro t ht
        rcases List.mem_cons.1 (hus.subset ht) with rfl | ht
        · exact Nat.le_refl _
        · exact Nat.le_of_lt ((List.pairwise_cons.1 hsorted).1 t ht)
      exact Nat.le_trans (hnext e he v left rfl) (h.failuresFrom v.span.start
        (hsize v (hvs.subset List.mem_cons_self)) hfrom g hg e' he')
  kinds := List.forall_mem_cons.2 ⟨hkind, h.kinds⟩

end InOrder

/-- A statement that is found keeps the order. -/
theorem inOrder_found {roots : List Tree} {failures : List Failure}
    (hsorted : s.rest.Pairwise (·.span.start < ·.span.start))
    (hnext : next? scope s = .ok (some root) p)
    (h : InOrder scope.source p.rest roots failures) :
    InOrder scope.source s.rest (root :: roots) failures := by
  have hsuffix := suffix_of_next?_ok hnext
  refine h.consRoot hsuffix (hsorted.sublist hsuffix.sublist) (fun b hb => ?_)
    fun v left hv => placed_of_next?_ok hsorted hnext hv
  have hout := placed_next? scope (NotBefore b) hb
  rw [hnext] at hout
  exact hout.2.2 root List.mem_cons_self

/-- An error that is found keeps the order. -/
theorem inOrder_failed {f : Failure} {roots : List Tree} {failures : List Failure}
    (hsorted : s.rest.Pairwise (·.span.start < ·.span.start))
    (hsize : ∀ t ∈ s.rest, t.span.start ≤ scope.source.byteSize)
    (hnext : next? scope s = .error f p)
    (h : InOrder scope.source p.synchronized.rest roots failures) :
    InOrder scope.source s.rest roots (f :: failures) := by
  have hsuffix := suffix_of_next?_error hnext
  have hskip := suffix_synchronized p
  have hlower : ∀ b, (∀ t ∈ s.rest, b ≤ t.span.start) →
      (Law.placed scope.source scope.config (NotBefore b)).Outcome perhaps (fun _ _ => True) []
        (next? scope s) := fun b hb => placed_next? scope (NotBefore b) hb
  have hupper := placed_next? scope (NotBehind scope.source.byteSize) hsize
  rw [hnext] at hlower hupper
  refine h.consFailure (hskip.trans hsuffix) hsize hsorted hsuffix hskip ?_ ?_ ?_ ?_
  · intro b hb hts e he
    rcases ((hlower b hts).1 e he).2.2 with hplace | ⟨-, hplace, -⟩
    · exact hplace
    · rw [hplace, Location.offset_atOffset_byteSize]
      exact hb
  · intro e he v left hv
    subst he
    exact offset_le_of_next?_error hsorted hnext hv
  · intro e he
    rcases (hupper.1 e he).2.2 with hplace | ⟨-, hplace, -⟩
    · exact hplace
    · exact Nat.le_of_eq (hplace ▸ Location.offset_atOffset_byteSize scope.source)
  · exact fun e he => (hupper.1 e he).1

/-- Statements and errors are found in the order of their places. -/
theorem recover_inOrder (scope : Scope) (hs : s.Sound scope.source ts) :
    s.rest.Pairwise (·.span.start < ·.span.start) →
    (∀ t ∈ s.rest, t.span.start ≤ scope.source.byteSize) →
      InOrder scope.source s.rest (recover scope s).1 (recover scope s).2.1 := by
  refine attempts_induction (s := s) scope ?done ?found ?failed hs
  case done =>
    intro s p ts hs _ hnext _ _
    rw [recover_eq scope hs, hnext]
    exact .nil scope.source s.rest
  case found =>
    intro s p ts root hs _ hnext ih hsorted hsize
    have hsuffix := suffix_of_next?_ok hnext
    rw [recover_eq scope hs, hnext]
    exact inOrder_found hsorted hnext
      (ih (hsorted.sublist hsuffix.sublist) fun t ht => hsize t (hsuffix.subset ht))
  case failed =>
    intro s p ts left f hs _ hnext ih hsorted hsize
    have hsuffix := (suffix_synchronized p).trans (suffix_of_next?_error hnext)
    rw [recover_eq scope hs, hnext]
    exact inOrder_failed hsorted hsize hnext
      (ih (hsorted.sublist hsuffix.sublist) fun t ht => hsize t (hsuffix.subset ht))

end Script

end SqlSyntax
