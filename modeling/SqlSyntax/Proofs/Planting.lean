import SqlSyntax.Proofs.Contents.Answers

/-!
# What parsers plant

`Parser.Plants Γ p σ` says that the trees of an answer of `p` are of the sort `σ`, if what `Γ` tells
of other trees holds. What the sorts tell differs (`TreeSort`): of which kind the root is, or what
it still wants. The judgement is a class whose instances are the rules for steps that are put
together and one for each step and each production, and the sort is found with the instance. So the
proof about a production goes along its text: what a step plants is among the facts for those after
it, and a choice plants what either side plants.
-/

namespace SqlSyntax

open SqlSyntax.Parser

variable {α β γ S : Type}

/-! ## Sorts of trees -/

/-- Sorts of trees. Of the root nothing but its kind may matter. -/
class TreeSort (S : Type) where
  Of : S → Tree → Prop
  mapHead : ∀ {σ t} {change : Node → Node}, Of σ t → (∀ n, (change n).kind = n.kind) →
    Of σ (t.mapHead change)

section

variable [TreeSort S]

namespace TreeSort

/-- What is of the one sort is of the other. -/
class Sub (σ ρ : S) : Prop where
  le : ∀ {t}, Of σ t → Of ρ t

/-- What is of the one sort or of the other is of a third. -/
class Join (σ ρ : S) (τ : outParam S) : Prop where
  left : Sub σ τ
  right : Sub ρ τ

/-- The sort of an answer without trees. -/
class Void (σ : outParam S) : Prop where

/-- What is of the one sort becomes, with a child of the other, of a third. -/
class Takes (σ ρ : S) (τ : outParam S) : Prop where
  append : ∀ {t c}, Of σ t → Of ρ c → Of τ (t.append [c])
  prepend : ∀ {t c}, Of σ t → Of ρ c → Of τ (t.prepend c)

end TreeSort

open TreeSort

/-! ## What is known of some trees -/

abbrev Facts (S : Type) := List (Tree × S)

def Facts.Hold (Γ : Facts S) : Prop := ∀ f ∈ Γ, Of f.2 f.1

/-- A tree is among the facts. -/
class Facts.Knows (Γ : Facts S) (t : Tree) (σ : outParam S) : Prop where
  of : Γ.Hold → Of σ t

/-- Answers that have trees. -/
class Bundle (α : Type) where
  trees : α → List Tree

instance : Bundle Tree := ⟨fun t => [t]⟩

instance : Bundle (Option Tree) := ⟨Option.toList⟩

instance : Bundle (Tree × Option Tree) := ⟨fun x => x.1 :: x.2.toList⟩

/-- If the facts hold, the trees of an answer are of the sort. -/
class Parser.Plants [Bundle α] (Γ : Facts S) (p : Parser α) (σ : outParam S) : Prop where
  answers : Γ.Hold → Answers p fun a => ∀ t ∈ Bundle.trees a, Of σ t

variable {Γ : Facts S} {σ ρ τ υ : S} {t u c : Tree}

namespace Facts

theorem Hold.cons (h : Γ.Hold) (ht : Of σ t) : Facts.Hold ((t, σ) :: Γ) :=
  List.forall_mem_cons.2 ⟨ht, h⟩

instance first : Knows ((t, σ) :: Γ) t σ := ⟨fun h => h _ List.mem_cons_self⟩

instance (priority := low) later [h : Knows Γ t σ] : Knows ((u, ρ) :: Γ) t σ :=
  ⟨fun hΓ => h.of fun f hf => hΓ f (List.mem_cons_of_mem _ hf)⟩

end Facts

open SqlSyntax.Facts

theorem Parser.Answers.attach_eq (t c : Tree) :
    Answers (Parser.attach t c) (· = t.append [c]) := by
  intro _ _ _ _ hrun
  cases hrun
  rfl

namespace Parser.Plants

/-! ## Steps put together -/

section Control

variable [Bundle α] [Bundle β] {p q : Parser α}

theorem sub (hp : Plants Γ p σ) (hσ : Sub σ ρ) : Plants Γ p ρ where
  answers hΓ := (hp.answers hΓ).weaken fun _ ha t ht => hσ.le (ha t ht)

/-- What is known to be of one sort is of one that says less. -/
theorem widen [hp : Plants Γ p σ] [hσ : Sub σ ρ] : Plants Γ p ρ := hp.sub hσ

/-- Further facts are not in the way. -/
theorem later (hp : Plants Γ p σ) : Plants ((u, ρ) :: Γ) p σ :=
  ⟨fun hΓ => hp.answers fun f hf => hΓ f (List.mem_cons_of_mem _ hf)⟩

instance pure [h : Knows Γ t σ] : Plants Γ (pure t) σ :=
  ⟨fun hΓ => .pure (List.forall_mem_singleton.2 (h.of hΓ))⟩

instance pure_some [h : Knows Γ t σ] : Plants Γ (Pure.pure (some t)) σ :=
  ⟨fun hΓ => .pure (List.forall_mem_singleton.2 (h.of hΓ))⟩

/-- What has no trees is of every sort. -/
theorem of_none : Plants Γ (Pure.pure (none : Option Tree)) σ :=
  ⟨fun _ => .pure (List.forall_mem_nil _)⟩

instance pure_none [Void σ] : Plants Γ (Pure.pure (none : Option Tree)) σ := of_none

instance pure_pair [h : Knows Γ t σ] [hu : Knows Γ u ρ] [hτ : Join σ ρ τ] :
    Plants Γ (Pure.pure (t, some u)) τ :=
  ⟨fun hΓ => .pure (List.forall_mem_cons.2 ⟨hτ.left.le (h.of hΓ),
    List.forall_mem_singleton.2 (hτ.right.le (hu.of hΓ))⟩)⟩

instance pure_single [h : Knows Γ t σ] : Plants Γ (Pure.pure (t, (none : Option Tree))) σ :=
  ⟨fun hΓ => .pure (List.forall_mem_singleton.2 (h.of hΓ))⟩

/-- What a step plants is known to those after it. -/
instance (priority := 1200) bind {p : Parser Tree} {k : Tree → Parser β} [h : Plants Γ p σ]
    [hk : ∀ t, Plants ((t, σ) :: Γ) (k t) ρ] : Plants Γ (p >>= k) ρ where
  answers hΓ := (h.answers hΓ).bind fun t ht =>
    (hk t).answers (hΓ.cons (List.forall_mem_singleton.1 ht))

theorem branch {p : Parser (Option Tree)} {k : Option Tree → Parser β} (hp : Plants Γ p σ)
    (hsome : ∀ t, Plants ((t, σ) :: Γ) (k (some t)) ρ) (hnone : Plants Γ (k none) ρ) :
    Plants Γ (p >>= k) ρ where
  answers hΓ := (hp.answers hΓ).bind fun o ho => by
    rcases o with _ | t
    · exact hnone.answers hΓ
    · exact (hsome t).answers (hΓ.cons (ho t (List.mem_singleton_self t)))

instance (priority := 1200) bind_option {p : Parser (Option Tree)} {k : Option Tree → Parser β}
    [hp : Plants Γ p σ] [hsome : ∀ t, Plants ((t, σ) :: Γ) (k (some t)) ρ]
    [hnone : Plants Γ (k none) τ] [h : Join ρ τ υ] : Plants Γ (p >>= k) υ :=
  branch hp (fun t => (hsome t).sub h.left) (hnone.sub h.right)

instance (priority := 1200) bind_pair {p : Parser (Tree × Option Tree)}
    {k : Tree × Option Tree → Parser β} [h : Plants Γ p σ]
    [hpair : ∀ t u, Plants ((u, σ) :: (t, σ) :: Γ) (k (t, some u)) ρ]
    [hsingle : ∀ t, Plants ((t, σ) :: Γ) (k (t, none)) τ] [hυ : Join ρ τ υ] :
    Plants Γ (p >>= k) υ where
  answers hΓ := (h.answers hΓ).bind fun x hx => by
    obtain ⟨t, _ | u⟩ := x
    · exact ((hsingle t).sub hυ.right).answers (hΓ.cons (List.forall_mem_singleton.1 hx))
    · have hx := List.forall_mem_cons.1 hx
      have hu := List.forall_mem_singleton.1 hx.2
      exact ((hpair t u).sub hυ.left).answers ((hΓ.cons hx.1).cons hu)

/-- A step of which something else is known. -/
theorem bind_fact {p : Parser γ} {k : γ → Parser β} {fact : γ → Prop} (hp : Answers p fact)
    (hk : ∀ a, fact a → Plants Γ (k a) σ) : Plants Γ (p >>= k) σ :=
  ⟨fun hΓ => hp.bind fun a ha => (hk a ha).answers hΓ⟩

/-- A step that plants nothing. -/
instance skip {p : Parser γ} {k : γ → Parser β} [h : ∀ a, Plants Γ (k a) σ] :
    Plants Γ (p >>= k) σ :=
  ⟨fun hΓ => .skip fun a => (h a).answers hΓ⟩

instance (priority := 1100) skip_option {p : Parser (Option γ)} {k : Option γ → Parser β}
    [hsome : ∀ a, Plants Γ (k (some a)) σ] [hnone : Plants Γ (k none) ρ] [hτ : Join σ ρ τ] :
    Plants Γ (p >>= k) τ :=
  skip (h := fun o => by
    cases o with
    | none => exact hnone.sub hτ.right
    | some a => exact (hsome a).sub hτ.left)

instance (priority := 1100) skip_pair {δ : Type} {p : Parser (γ × δ)} {k : γ × δ → Parser β}
    [h : ∀ a b, Plants Γ (k (a, b)) σ] : Plants Γ (p >>= k) σ :=
  skip (h := fun x => h x.1 x.2)

instance (priority := 1100) skip_bool {p : Parser Bool} {k : Bool → Parser β}
    [htrue : Plants Γ (k true) σ] [hfalse : Plants Γ (k false) ρ] [hτ : Join σ ρ τ] :
    Plants Γ (p >>= k) τ :=
  skip (h := fun b => by
    cases b
    · exact hfalse.sub hτ.right
    · exact htrue.sub hτ.left)

instance ite {c : Prop} [Decidable c] [hp : Plants Γ p σ] [hq : Plants Γ q ρ] [hτ : Join σ ρ τ] :
    Plants Γ (if c then p else q) τ := by
  split
  · exact hp.sub hτ.left
  · exact hq.sub hτ.right

instance within {context : Context} [hp : Plants Γ p σ] : Plants Γ (within context p) σ :=
  ⟨fun hΓ => .within context (hp.answers hΓ)⟩

instance deeper [h : Plants Γ p σ] : Plants Γ (deeper p) σ :=
  ⟨fun hΓ => .deeper (h.answers hΓ)⟩

theorem of_unexpected (what : String) : Plants Γ (Parser.unexpected what : Parser α) σ :=
  ⟨fun _ => .unexpected what⟩

instance unexpected (what : String) [Void σ] : Plants Γ (unexpected what : Parser α) σ :=
  of_unexpected what

instance fail (e : ParseError) [Void σ] : Plants Γ (fail e : Parser α) σ := ⟨fun _ => .throw _⟩

end Control

instance iterate {step : Tree → Parser (Option Tree)} [ht : Knows Γ t σ]
    [h : ∀ u, Plants ((u, σ) :: Γ) (step u) ρ] [hρ : Sub ρ σ] :
    Plants Γ (iterate step t) σ where
  answers hΓ := by
    have hround : ∀ u, Of σ u → Answers (step u) fun o => ∀ v ∈ o, Of σ v := by
      refine fun u hu => ((h u).answers (hΓ.cons hu)).weaken fun o ho v hv => ?_
      exact hρ.le (ho v (Option.mem_toList.2 hv))
    exact (Answers.iterate hround (ht.of hΓ)).weaken fun _ => List.forall_mem_singleton.2

/-! ## Nodes -/

/-- The kind stays when something else of a node is changed. -/
theorem amend [h : Knows Γ t σ] {change : Node → Node} (hc : ∀ n, (change n).kind = n.kind) :
    Plants Γ (amend t change) σ where
  answers hΓ := (Answers.amend t change).weaken fun _ hu =>
    List.forall_mem_singleton.2 (hu ▸ TreeSort.mapHead (h.of hΓ) hc)

section

variable [Knows Γ t σ]

instance flag (f : Flag) : Plants Γ (flag t f) σ := amend fun _ => rfl

instance flagIf (condition : Bool) (f : Flag) : Plants Γ (flagIf condition f t) σ := by
  cases condition
  · exact pure
  · exact flag f

instance finish : Plants Γ (finish t) σ := skip (h := fun _ => amend fun _ => rfl)

instance setText (token : Token) : Plants Γ (setText t token) σ :=
  skip (h := fun _ => amend fun _ => rfl)

instance amend_name (texts : List Text) : Plants Γ (Parser.amend t (·.withName texts)) σ :=
  amend fun _ => rfl

instance amend_column (texts : List Text) : Plants Γ (Parser.amend t (·.withColumn texts)) σ :=
  amend fun _ => rfl

instance amend_operator (operator : Option Operator) :
    Plants Γ (Parser.amend t fun n => { n with operator }) σ := amend fun _ => rfl

instance amend_dataType (dataType : Option DataType) :
    Plants Γ (Parser.amend t fun n => { n with dataType }) σ := amend fun _ => rfl

instance amend_type (text : Text) (dataType : Option DataType) :
    Plants Γ (Parser.amend t fun n => { n with text, dataType }) σ := amend fun _ => rfl

end

section

variable {kind : Kind} (h : ∀ {n : Node}, n.kind = kind → Of σ (.leaf n))

include h

theorem newNode_of (location : Location) (span : Span) :
    Plants Γ (newNode kind location span) σ where
  answers _ := by
    intro _ _ _ _ hrun
    cases hrun
    exact List.forall_mem_singleton.2 (h rfl)

theorem nodeAt_of (token : Token) : Plants Γ (nodeAt kind token) σ := newNode_of h ..

theorem nodeOver_of (first : Tree) : Plants Γ (nodeOver kind first) σ :=
  skip (h := fun _ => newNode_of h ..)

theorem namedNode_of (token : Token) : Plants Γ (namedNode kind token) σ :=
  bind (h := nodeAt_of h token)

end

/-! ## Trees under trees -/

section

variable {item : Parser Tree} {next : Parser (Option Tree)} [ht : Knows Γ t σ]

instance attach [hc : Knows Γ c ρ] [hσ : Takes σ ρ τ] : Plants Γ (attach t c) τ where
  answers hΓ := (Answers.attach_eq t c).weaken fun _ hu =>
    List.forall_mem_singleton.2 (hu ▸ hσ.append (ht.of hΓ) (hc.of hΓ))

instance prepend [hc : Knows Γ c ρ] [hσ : Takes σ ρ τ] : Plants Γ (prepend t c) τ where
  answers hΓ := (Answers.prepend t c).weaken fun _ hu =>
    List.forall_mem_singleton.2 (hu ▸ hσ.prepend (ht.of hΓ) (hc.of hΓ))

instance attachIf (condition : Bool) [Plants Γ item ρ] [Takes σ ρ σ] :
    Plants Γ (attachIf condition item t) σ := by
  cases condition
  · exact pure
  · exact bind

instance attachWhile [hnext : Plants Γ next ρ] [Takes σ ρ σ] : Plants Γ (attachWhile next t) σ := by
  have hσ : Sub σ σ := ⟨id⟩
  exact iterate (h := fun u => branch hnext.later (fun c => bind) of_none)

omit ht in
instance afterComma? [hitem : Plants Γ item ρ] : Plants Γ (afterComma? item) ρ := by
  unfold Parser.afterComma?
  refine skip (h := fun b => ?_)
  cases b
  · exact of_none
  · exact bind

instance attachList [hitem : Plants Γ item ρ] [Takes σ ρ σ] : Plants Γ (attachList item t) σ := by
  have hcomma (c u : Tree) : Plants ((u, σ) :: (c, ρ) :: Γ) item ρ := hitem.later.later
  unfold Parser.attachList
  infer_instance

end

end Parser.Plants

end

end SqlSyntax
