import SqlSyntax.Proofs.Built
import SqlSyntax.Proofs.Children
import SqlSyntax.Proofs.Memory.Copies
import SqlSyntax.Proofs.Slots.Places
import SqlSyntax.Store

/-!
# Stores follow forests

A store represents a forest if each node of the forest is there, at the place that its number tells:
with the same links, under the handles of the arena, and with the same texts, where copies lie in
the arena of bytes (`Store.Represents`).

`Tracks` relates a step on a forest and one on a store: from a store that represents the forest,
where the first step is made, the second one is made too and comes to a store that represents the
new forest, or the system has no storage for it. The rules are those of the steps that edits are
made of, so that an edit on a store follows the one on a forest line by line.
-/

namespace SqlSyntax

/-! ## What is represented -/

/-- What stays as it is while the nodes of a store are edited. -/
structure Frame where
  /-- Bytes of a stored node. -/
  unit : Nat
  /-- The generation of the handles of the store. -/
  tag : UInt32
  /-- The generation of the forest. -/
  generation : UInt32
  strings : ByteArena
  copies : List (String × ByteHandle)
  holds : strings.HoldsCopies copies

/-- A stored text is one of these copies, or it is the same where nothing was copied. -/
inductive StoredText.Is (copies : List (String × ByteHandle)) : StoredText → Text → Prop
  | none : Is copies .none .none
  | slice (span : Span) : Is copies (.slice span) (.slice span)
  | copied {range : ByteHandle} {value : String} (h : (value, range) ∈ copies) :
    Is copies (.copied range) (.copied value)

/-- A stored node is that of a number. -/
structure StoredNode.Is (copies : List (String × ByteHandle)) (n : StoredNode) (m : Node) :
    Prop where
  kind : n.kind = m.kind
  id : n.id = .ofNat m.id
  text : n.text.Is copies m.text
  qualifier : n.qualifier.Is copies m.qualifier
  schema : n.schema.Is copies m.schema
  catalog : n.catalog.Is copies m.catalog
  flags : n.flags = m.flags
  dataType : n.dataType = m.dataType
  operator : n.operator = m.operator
  context : n.context = m.context
  location : n.location = m.location
  span : n.span = m.span

namespace Frame

variable (S : Frame)

/-- The handle of the store for the node with a number. -/
def place (i : Nat) : SlotHandle :=
  ⟨(SlotArena.place S.unit i).1, (SlotArena.place S.unit i).2, S.tag⟩

/-- A handle of a forest and one of a store name the node of one number. -/
def Names (h h' : SlotHandle) : Prop := ∃ i, h = ⟨0, i, S.generation⟩ ∧ h' = S.place i

/-- The links of a stored node. -/
structure Linked (n : StoredNode) (l : Links) : Prop where
  parent : Option.Rel S.Names l.parent n.parent
  firstChild : Option.Rel S.Names l.firstChild n.firstChild
  lastChild : Option.Rel S.Names l.lastChild n.lastChild
  nextSibling : Option.Rel S.Names l.nextSibling n.nextSibling
  childCount : n.childCount = .ofNat l.childCount

/-- A stored node with its links is that of an entry. -/
structure Shows (n : StoredNode) (e : Entry) : Prop where
  node : n.Is S.copies e.node
  links : S.Linked n e.links

end Frame

/-- A store holds the nodes of a forest at their places, and what is the same for all of them. -/
structure Store.Represents (S : Frame) (s : Store) (f : Forest) : Prop where
  generation : f.generation = S.generation
  unit : s.nodes.unit = S.unit
  tag : s.nodes.generation = S.tag
  strings : s.strings = S.strings
  copies : s.copies = S.copies
  holds : s.nodes.Holds f.entries.size
  nextId : s.nextId = .ofNat f.entries.size
  handles : s.handles.toList = (List.range f.entries.size).map S.place
  entries : ∀ {i : Nat} {e : Entry}, f.entries[i]? = some e →
    ∃ n, s.nodes.get? (S.place i) = some n ∧ S.Shows n e
  numbered : ∀ {i : Nat} {e : Entry}, f.entries[i]? = some e → e.node.id = i
  granted : s.failed = none

/-- The arenas are in order, and a node takes so many bytes. -/
structure Store.Wellkept (unit : Nat) (s : Store) : Prop where
  nodes : ∃ n, s.nodes.Holds n
  unit : s.nodes.unit = unit
  strings : s.strings.HoldsCopies []

section

variable {S : Frame} {s s' : Store} {f f' : Forest} {n : StoredNode} {m : Node} {l : Links}
  {h h' k k' : SlotHandle} {a b : Option SlotHandle} {e : Entry} {i : Nat}

/-! ## Texts -/

theorem StoredText.Is.load_eq {t : StoredText} {text : Text} (ht : t.Is S.copies text) :
    t.load S.strings = text := by
  cases ht with
  | none => rfl
  | slice span => rfl
  | copied h =>
    rw [StoredText.load, S.holds.text? h]
    rfl

theorem StoredText.Is.mono {copies more : List (String × ByteHandle)} (hsub : copies ⊆ more)
    {t : StoredText} {text : Text} (ht : t.Is copies text) : t.Is more text := by
  cases ht with
  | none => exact .none
  | slice span => exact .slice span
  | copied h => exact .copied (hsub h)

theorem StoredNode.Is.mono {copies more : List (String × ByteHandle)} (hsub : copies ⊆ more)
    (hn : n.Is copies m) : n.Is more m :=
  { hn with
    text := hn.text.mono hsub
    qualifier := hn.qualifier.mono hsub
    schema := hn.schema.mono hsub
    catalog := hn.catalog.mono hsub }

theorem StoredNode.Is.load_eq (hn : n.Is S.copies m) : n.load S.strings m.id = m := by
  obtain ⟨kind, id, text, qualifier, schema, catalog, flags, dataType, operator, context, location,
    span⟩ := m
  unfold StoredNode.load
  rw [hn.text.load_eq, hn.qualifier.load_eq, hn.schema.load_eq, hn.catalog.load_eq, hn.kind,
    hn.flags, hn.dataType, hn.operator, hn.context, hn.location, hn.span]

/-- The store can write a text: if it is a copy, then one of its own. -/
def Store.Knows (s : Store) (text : Text) : Prop := ∃ t : StoredText, t.Is s.copies text

/-- A text is written as one that is the same. -/
theorem Store.save_is (hs : s.Represents S f) {old : StoredText} {was text : Text}
    (hold : old.Is S.copies was) (hk : s.Knows text) : (s.save old text).Is S.copies text := by
  unfold Store.save
  rw [hs.strings, hold.load_eq]
  split
  · next heq => exact heq ▸ hold
  · obtain ⟨t, ht⟩ := hk
    rw [hs.copies] at ht
    cases ht with
    | none => exact .none
    | slice span => exact .slice span
    | @copied range value h =>
      have hfound : (S.copies.find? (·.1 == value)).isSome :=
        List.find?_isSome.2 ⟨_, h, beq_self_eq_true value⟩
      obtain ⟨⟨value', range'⟩, hfind⟩ := Option.isSome_iff_exists.1 hfound
      have hvalue := List.find?_some hfind
      obtain rfl : value' = value := LawfulBEq.eq_of_beq hvalue
      dsimp only
      rw [Store.range?, hs.copies, hfind]
      exact .copied (List.mem_of_find?_eq_some hfind)

/-- A changed node is that of the change, if its texts were there or the store knows them. -/
theorem Store.amended_is (hs : s.Represents S f) (hn : n.Is S.copies m) {change : Node → Node}
    (hid : (change m).id = m.id)
    (htexts : ∀ text ∈ (change m).texts, text ∈ m.texts ∨ s.Knows text) :
    (s.amended m.id change n).Is S.copies (change m) := by
  have hload : change (n.load s.strings m.id) = change m := by rw [hs.strings, hn.load_eq]
  have hknown : ∀ text ∈ (change m).texts, s.Knows text := by
    intro text htext
    refine (htexts text htext).elim (fun hwas => ?_) id
    unfold Store.Knows
    rw [hs.copies]
    simp only [Node.texts, List.mem_cons, List.not_mem_nil, or_false] at hwas
    rcases hwas with rfl | rfl | rfl | rfl
    · exact ⟨_, hn.text⟩
    · exact ⟨_, hn.qualifier⟩
    · exact ⟨_, hn.schema⟩
    · exact ⟨_, hn.catalog⟩
  simp only [Node.texts, List.forall_mem_cons] at hknown
  obtain ⟨htext, hqualifier, hschema, hcatalog, -⟩ := hknown
  unfold Store.amended
  rw [hload]
  exact {
    kind := rfl
    id := hn.id.trans (congrArg _ hid.symm)
    text := Store.save_is hs hn.text htext
    qualifier := Store.save_is hs hn.qualifier hqualifier
    schema := Store.save_is hs hn.schema hschema
    catalog := Store.save_is hs hn.catalog hcatalog
    flags := rfl
    dataType := rfl
    operator := rfl
    context := rfl
    location := rfl
    span := rfl }

/-! ## Handles -/

namespace Frame

theorem injective (S : Frame) : Function.Injective S.place :=
  fun _ _ h => (SlotArena.place_strictMono S.unit).injective
    (congrArg (toLex ∘ SlotHandle.place) h)

theorem Names.eq_iff (hh : S.Names h h') (hk : S.Names k k') : h = k ↔ h' = k' := by
  obtain ⟨i, rfl, rfl⟩ := hh
  obtain ⟨j, rfl, rfl⟩ := hk
  exact ⟨fun heq => congrArg S.place (congrArg SlotHandle.slot heq),
    fun heq => by rw [S.injective heq]⟩

theorem rel_eq_some_iff (hab : Option.Rel S.Names a b) (hh : S.Names h h') :
    a = some h ↔ b = some h' := by
  cases hab with
  | none => exact ⟨nofun, nofun⟩
  | some hk => rw [Option.some_inj, Option.some_inj, hk.eq_iff hh]

theorem rel_isSome (hab : Option.Rel S.Names a b) : a.isSome = b.isSome := by
  cases hab <;> rfl

theorem rel_or {c d : Option SlotHandle} (hab : Option.Rel S.Names a b)
    (hcd : Option.Rel S.Names c d) : Option.Rel S.Names (a.or c) (b.or d) := by
  cases hab with
  | none => exact hcd
  | some hk => exact .some hk

end Frame

namespace Store.Represents

theorem place (hs : s.Represents S f) : s.nodes.handleAfter = S.place := by
  funext i
  rw [SlotArena.handleAfter, hs.unit, hs.tag, Frame.place]

/-- A node of the forest is stored under the handle that names it. -/
theorem get? (hs : s.Represents S f) (hname : S.Names h h') (he : f.get? h = some e) :
    ∃ n, s.nodes.get? h' = some n ∧ S.Shows n e := by
  obtain ⟨i, rfl, rfl⟩ := hname
  rw [Forest.get?, if_pos ⟨hs.generation.symm, rfl⟩] at he
  exact hs.entries he

/-- Where the forest has no node, neither has the store. -/
theorem get?_eq_none (hs : s.Represents S f) (hname : S.Names h h') (he : f.get? h = none) :
    s.nodes.get? h' = none := by
  obtain ⟨i, rfl, rfl⟩ := hname
  rw [Forest.get?, if_pos ⟨hs.generation.symm, rfl⟩, Array.getElem?_eq_none_iff] at he
  rw [← hs.place]
  exact hs.holds.get?_handleAfter_of_le he

theorem wellkept (hs : s.Represents S f) : s.Wellkept S.unit :=
  ⟨⟨_, hs.holds⟩, hs.unit, (hs.strings ▸ S.holds).subset (List.nil_subset _)⟩

theorem siblings (hs : s.Represents S f) (count : Nat) (hab : Option.Rel S.Names a b) :
    List.Forall₂ S.Names (f.siblings count a) (s.siblings count b) := by
  induction count generalizing a b with
  | zero => exact .nil
  | succ count ih =>
    cases hab with
    | none => exact .nil
    | @some h h' hname =>
      refine .cons hname (ih ?_)
      rcases he : f.get? h with _ | e
      · rw [hs.get?_eq_none hname he]
        exact .none
      · obtain ⟨n, hn, hshows⟩ := hs.get? hname he
        rw [hn]
        exact hshows.links.nextSibling

theorem children (hs : s.Represents S f) (hname : S.Names h h') :
    List.Forall₂ S.Names (f.children h) (s.children h') := by
  unfold Forest.children Store.children
  rw [hs.holds.size_eq]
  refine hs.siblings _ ?_
  rcases he : f.get? h with _ | e
  · rw [hs.get?_eq_none hname he]
    exact .none
  · obtain ⟨n, hn, hshows⟩ := hs.get? hname he
    rw [hn]
    exact hshows.links.firstChild

end Store.Represents

theorem Frame.previousIn {hs hs' : List SlotHandle} (hk : S.Names k k')
    (hall : List.Forall₂ S.Names hs hs') (hab : Option.Rel S.Names a b) :
    Option.Rel (Option.Rel S.Names) (Forest.previousIn k a hs) (Forest.previousIn k' b hs') := by
  induction hall generalizing a b with
  | nil => exact .none
  | @cons h h' hs hs' hname _ ih =>
    rw [Forest.previousIn, Forest.previousIn]
    by_cases heq : h = k
    · rw [if_pos heq, if_pos ((hname.eq_iff hk).1 heq)]
      exact .some hab
    · rw [if_neg heq, if_neg fun heq' => heq ((hname.eq_iff hk).2 heq')]
      exact ih (.some hname)

end

/-! ## Steps -/

theorem StoreEdit.get_run {α : Type} (k : Store → StoreEdit α) (s : Store) :
    (get >>= k) s = k s s := rfl

theorem Store.node_eq (s : Store) (h : SlotHandle) :
    node h s = (s.nodes.get? h).elim (.error (.edit (.stale h)) s) (.ok · s) := by
  unfold node
  rw [StoreEdit.get_run]
  cases s.nodes.get? h <;> rfl

theorem Store.handle_eq (s : Store) (number : Nat) :
    handle number s = s.handles[number]?.elim
      (.error (.edit (.stale ⟨0, number, s.nodes.generation⟩)) s) (.ok · s) := by
  unfold handle
  rw [StoreEdit.get_run]
  cases s.handles[number]? <;> rfl

theorem Store.alloc_eq (s : Store) (kind : Kind) (location : Location) (span : Span) :
    alloc kind location span s =
      match s.nodes.allocate { kind, id := s.nextId, location, span } with
      | (.ok h, nodes) =>
        .ok h { s with nodes, nextId := s.nextId + 1, handles := s.handles.push h }
      | (.error e, nodes) => .error (.storage e) { s with nodes } := by
  unfold alloc
  rw [StoreEdit.get_run]
  rcases s.nodes.allocate { kind, id := s.nextId, location, span } with ⟨e | h, nodes⟩ <;> rfl

theorem Store.copy_eq (s : Store) (text : String) : copy text s =
    match s.strings.allocateText text with
    | (.ok range, strings) => .ok () { s with strings, copies := (text, range) :: s.copies }
    | (.error e, strings) => .error (.storage e) { s with strings } := by
  unfold copy
  rw [StoreEdit.get_run]
  rcases s.strings.allocateText text with ⟨e | range, strings⟩ <;> rfl

/-- How a step on a store ends: it is made, or the system has no storage for it. -/
def Store.Ends {α : Type} (unit : Nat) (made : α → Store → Prop) :
    EStateM.Result StoreError Store α → Prop
  | .ok a s => made a s
  | .error (.storage _) s => s.Wellkept unit
  | .error (.edit _) _ => False

/-- From a store that represents a forest, where a step on the forest is made, the one on the store
is made too and they come to such a store again, unless the system has no storage for it. -/
def Tracks (S : Frame) (pre : Forest → Prop) {α β : Type} (x : Edit α) (y : StoreEdit β)
    (post : α → β → Forest → Prop) : Prop :=
  ∀ (s : Store) (f : Forest) (a : α) (f' : Forest), pre f → s.Represents S f → x f = .ok a f' →
    Store.Ends S.unit (fun b s' => s'.Represents S f' ∧ post a b f') (y s)

namespace Tracks

variable {S : Frame} {pre : Forest → Prop} {α β γ δ : Type} {x : Edit α} {y : StoreEdit β}
  {post : α → β → Forest → Prop} {h h' : SlotHandle}

theorem pure {a : α} {b : β} (hpost : ∀ f, pre f → post a b f) :
    Tracks S pre (pure a) (pure b) post := by
  intro s f a' f' hpre hs hrun
  cases hrun
  exact ⟨hs, hpost f hpre⟩

theorem bind {mid : α → β → Forest → Prop} {k : α → Edit γ} {k' : β → StoreEdit δ}
    {post : γ → δ → Forest → Prop} (hx : Tracks S pre x y mid)
    (hk : ∀ a b, Tracks S (mid a b) (k a) (k' b) post) :
    Tracks S pre (x >>= k) (y >>= k') post := by
  intro s f c f' hpre hs hrun
  obtain ⟨a, f₁, hrun₁, hrun₂⟩ := SqlSyntax.exists_of_bind hrun
  have hends := hx s f a f₁ hpre hs hrun₁
  show Store.Ends _ _ (EStateM.bind y k' s)
  unfold EStateM.bind
  generalize y s = r at hends ⊢
  obtain ⟨b, s₁⟩ | ⟨e | e, s₁⟩ := r
  · exact hk a b s₁ f₁ c f' hends.2 hends.1 hrun₂
  · exact hends
  · exact hends

/-- What is known of the forest before and after the step. -/
theorem strengthen {post' : α → β → Forest → Prop} (hx : Tracks S pre x y post)
    (hpost : ∀ f a b f', pre f → x f = .ok a f' → post a b f' → post' a b f') :
    Tracks S pre x y post' := by
  intro s f a f' hpre hs hrun
  have hends := hx s f a f' hpre hs hrun
  generalize y s = r at hends ⊢
  obtain ⟨b, s₁⟩ | ⟨e | e, s₁⟩ := r
  · exact ⟨hends.1, hpost f a b f' hpre hrun hends.2⟩
  · exact hends
  · exact hends

/-- The step on the forest is known beside. -/
theorem record (hx : Tracks S pre x y fun _ _ _ => True) :
    Tracks S pre x y fun a _ f' => ∃ f, pre f ∧ x f = .ok a f' :=
  hx.strengthen fun f _ _ _ hpre hrun _ => ⟨f, hpre, hrun⟩

theorem weaken {pre' : Forest → Prop} (hx : Tracks S pre x y post) (hpre : ∀ f, pre' f → pre f) :
    Tracks S pre' x y post :=
  fun s f a f' h => hx s f a f' (hpre f h)

theorem get {k : Forest → Edit α} {k' : Store → StoreEdit β}
    (hk : ∀ f s, pre f → s.Represents S f →
      Tracks S (fun f' => f' = f ∧ pre f') (k f) (k' s) post) :
    Tracks S pre (get >>= k) (get >>= k') post :=
  fun s f a f' hpre hs hrun => hk f s hpre hs s f a f' ⟨rfl, hpre⟩ hs hrun

theorem discard (hx : Tracks S pre x y post) :
    Tracks S pre (discard x) (discard y) fun _ _ f => ∃ a b, post a b f := by
  intro s f _ f' hpre hs hrun
  change EStateM.map _ x f = _ at hrun
  change Store.Ends _ _ (EStateM.map _ y s)
  unfold EStateM.map at hrun ⊢
  rcases hx' : x f with ⟨a, f₁⟩ | ⟨e, f₁⟩ <;> rw [hx'] at hrun <;> cases hrun
  have hends := hx s f a f' hpre hs hx'
  generalize y s = r at hends ⊢
  obtain ⟨b, s₁⟩ | ⟨e | e, s₁⟩ := r
  · exact ⟨hends.1, a, b, hends.2⟩
  · exact hends
  · exact hends

theorem forM {x : SlotHandle → Edit PUnit} {y : SlotHandle → StoreEdit PUnit}
    (hx : ∀ {h h'}, S.Names h h' → Tracks S pre (x h) (y h') fun _ _ => pre)
    {hs hs' : List SlotHandle} (hall : List.Forall₂ S.Names hs hs') :
    Tracks S pre (hs.forM x) (hs'.forM y) fun _ _ => pre := by
  induction hall with
  | nil => exact pure fun _ h => h
  | cons hname _ ih => exact (hx hname).bind fun _ _ => ih

/-! ### Nodes -/

theorem entry (hname : S.Names h h') :
    Tracks S pre (Forest.entry h) (Store.node h') fun e n f =>
      pre f ∧ f.get? h = some e ∧ S.Shows n e := by
  intro s f e f' hpre hs hrun
  obtain ⟨he, rfl⟩ := Forest.get?_of_entry hrun
  obtain ⟨n, hn, hshows⟩ := hs.get? hname he
  rw [Store.node_eq, hn]
  exact ⟨hs, hpre, he, hshows⟩

/-- A node is changed on both sides. -/
theorem modifyEntry {change : Entry → Entry} {change' : StoredNode → StoredNode}
    (hname : S.Names h h') (hid : ∀ e, (change e).node.id = e.node.id)
    (hchange : ∀ f e n, pre f → f.get? h = some e → e.node.id = h.slot → S.Shows n e →
      S.Shows (change' n) (change e)) :
    Tracks S pre (Forest.modifyEntry h change) (Store.modifyNode h' change') fun _ _ f' =>
      ∃ f, pre f ∧ Forest.modifyEntry h change f = .ok () f' := by
  intro s f _ f' hpre hs hrun
  have hrun' := hrun
  obtain ⟨_, f₁, hentry, hmodify⟩ := SqlSyntax.exists_of_bind hrun
  obtain ⟨hlive, rfl⟩ := Forest.get?_of_discard hentry
  injection hmodify with _ hf'
  obtain ⟨e, he⟩ := Option.isSome_iff_exists.1 hlive
  obtain ⟨n, hn, hshows⟩ := hs.get? hname he
  have hstore : Store.modifyNode h' change' s =
      .ok () { s with nodes := s.nodes.set h' (change' n) } := by
    change EStateM.bind (Store.node h') _ s = _
    rw [EStateM.bind, Store.node_eq, hn]
    rfl
  rw [hstore]
  refine ⟨?_, f₁, hpre, hrun'⟩
  obtain ⟨i, rfl, rfl⟩ := hname
  rw [Forest.get?, if_pos ⟨hs.generation.symm, rfl⟩] at he
  subst hf'
  refine { hs with
    unit := ?_, tag := ?_, holds := ?_, nextId := ?_, handles := ?_, entries := ?_, numbered := ?_ }
  · exact (s.nodes.unit_set _ _).trans hs.unit
  · exact (s.nodes.generation_set _ _).trans hs.tag
  · rw [Array.size_modify]
    exact hs.holds.set _ _
  · rw [Array.size_modify]
    exact hs.nextId
  · rw [Array.size_modify]
    exact hs.handles
  · intro j e' he'
    rw [Array.getElem?_modify] at he'
    rw [SlotArena.get?_set]
    split at he'
    · next hij =>
      obtain rfl : i = j := hij
      rw [he] at he'
      obtain rfl := Option.some.inj he'
      rw [if_pos ⟨rfl, by rw [hn]; rfl⟩]
      have hget : f₁.get? ⟨0, i, S.generation⟩ = some e := by
        rw [Forest.get?, if_pos ⟨hs.generation.symm, rfl⟩, he]
      exact ⟨_, rfl, hchange f₁ e n hpre hget (hs.numbered he) hshows⟩
    · next hij =>
      rw [if_neg fun heq => hij (S.injective heq.1).symm]
      exact hs.entries he'
  · intro j e' he'
    rw [Array.getElem?_modify] at he'
    split at he'
    · obtain ⟨e₀, he₀, rfl⟩ := Option.map_eq_some_iff.1 he'
      exact (hid e₀).trans (hs.numbered he₀)
    · exact hs.numbered he'

theorem relink {change : Links → Links} {change' : StoredNode → StoredNode}
    (hname : S.Names h h') (hsame : ∀ n m, n.Is S.copies m → (change' n).Is S.copies m)
    (hchange : ∀ f l n, pre f → f.links? h = some l → S.Linked n l →
      S.Linked (change' n) (change l)) :
    Tracks S pre (Forest.relink h change) (Store.modifyNode h' change') fun _ _ f' =>
      ∃ f, pre f ∧ Forest.relink h change f = .ok () f' := by
  refine modifyEntry hname (fun _ => rfl) fun f e n hpre he _ hshows => ?_
  exact ⟨hsame n e.node hshows.node,
    hchange f e.links n hpre (by rw [Forest.links?, he]; rfl) hshows.links⟩

/-- What is known beside the forest. -/
theorem given {φ : Prop} (hφ : ∀ f, pre f → φ) (hx : φ → Tracks S pre x y post) :
    Tracks S pre x y post :=
  fun s f a f' hpre => hx (hφ f hpre) s f a f' hpre

theorem throw {e : EditError} : Tracks S pre (throw e : Edit α) y post :=
  fun _ _ _ _ _ _ hrun => nomatch hrun

/-! ### Edits -/

variable {parent parent' child child' : SlotHandle}

theorem addChild (hp : S.Names parent parent') (hc : S.Names child child') :
    Tracks S pre (Forest.addChild parent child) (Store.addChild parent' child') fun _ _ f' =>
      ∃ f, pre f ∧ Forest.addChild parent child f = .ok () f' := by
  refine record ?_
  unfold Forest.addChild Store.addChild
  by_cases hne : parent = child
  · rw [if_pos hne]
    exact throw
  rw [if_neg hne, if_neg (mt (hp.eq_iff hc).2 hne)]
  refine (entry hc).bind fun e n => ?_
  refine given (φ := S.Shows n e) (fun _ h => h.2.2) fun hshows => ?_
  dsimp only
  rw [Frame.rel_isSome hshows.links.parent, Frame.rel_isSome hshows.links.nextSibling]
  split
  · exact throw
  have happend : Tracks S (fun _ => True)
      (Forest.relink parent fun l =>
        { l with
          firstChild := l.firstChild.or (some child)
          lastChild := some child
          childCount := l.childCount + 1 })
      (Store.modifyNode parent' fun n =>
        { n with
          firstChild := n.firstChild.or (some child')
          lastChild := some child'
          childCount := n.childCount + 1 }) fun _ _ _ => True := by
    refine strengthen (relink hp ?_ ?_) fun _ _ _ _ _ _ _ => trivial
    · exact fun _ _ hn => { hn with }
    · exact fun _ l n _ _ hl => { hl with
        firstChild := Frame.rel_or hl.firstChild (.some hc)
        lastChild := .some hc
        childCount := by rw [hl.childCount, UInt32.ofNat_add]; rfl }
  refine (relink hc ?_ ?_).bind fun _ _ => ?_
  · exact fun _ _ hn => { hn with }
  · exact fun _ _ _ _ _ hl => { hl with parent := .some hp }
  refine (entry hp).bind fun e n => given (φ := S.Shows n e) (fun _ h => h.2.2) fun hshows => ?_
  have hlast := hshows.links.lastChild
  generalize e.links.lastChild = last, n.lastChild = last' at hlast ⊢
  cases hlast with
  | none => exact happend.weaken fun _ _ => trivial
  | some hq =>
    refine (relink hq ?_ ?_).bind fun _ _ => happend.weaken fun _ _ => trivial
    · exact fun _ _ hn => { hn with }
    · exact fun _ _ _ _ _ hl => { hl with nextSibling := .some hc }

/-- The node has children, if it is there. -/
def Counted (parent : SlotHandle) (f : Forest) : Prop :=
  ∀ l, f.links? parent = some l → 0 < l.childCount

/-- To change other links keeps the number of children. -/
theorem counted_of_relink {f f' : Forest} {change : Links → Links} {u : Unit}
    (hf : Counted parent f) (hrun : Forest.relink h change f = .ok u f')
    (hsame : ∀ l, (change l).childCount = l.childCount) : Counted parent f' := by
  obtain ⟨_, f₁, hentry, -⟩ := SqlSyntax.exists_of_bind hrun
  obtain ⟨f'', hrun', hlinks⟩ := Forest.relink_run (Forest.get?_of_discard hentry).1 change
  rw [hrun'] at hrun
  injection hrun with _ hf'
  intro l hl
  rw [← hf', hlinks] at hl
  obtain ⟨before, hbefore, rfl⟩ := Option.map_eq_some_iff.1 hl
  split
  · rw [hsame]
    exact hf before hbefore
  · exact hf before hbefore

theorem removeChild (hp : S.Names parent parent') (hc : S.Names child child') :
    Tracks S (fun f => ∃ ls, f.Lists ls) (Forest.removeChild parent child)
      (Store.removeChild parent' child') fun _ _ f => ∃ ls, f.Lists ls := by
  refine (record ?_).strengthen fun _ _ _ _ _ _ ⟨f, ⟨ls, hf⟩, hrun⟩ =>
    ⟨_, hf.call (show (Forest.Call.removeChild parent child).edit f = _ from hrun)⟩
  unfold Forest.removeChild Store.removeChild
  have hlook : Tracks S (fun f => ∃ ls, f.Lists ls) (Forest.entry parent) (Store.node parent')
    fun _ _ f => ∃ ls, f.Lists ls := (entry hp).strengthen fun _ _ _ _ _ _ h => h.1
  refine hlook.discard.bind fun _ _ => get fun f s ⟨_, _, ls, hf⟩ hs => ?_
  have hprevious := Frame.previousIn (S := S) hc (hs.children hp) .none
  have hmem : (Forest.previousIn child none (f.children parent)).isSome →
    child ∈ f.children parent := Forest.mem_of_previousIn
  generalize Forest.previousIn child none (f.children parent) = o,
    Forest.previousIn child' none (s.children parent') = o' at hprevious hmem ⊢
  cases hprevious with
  | none => exact throw
  | @some previous previous' hprevious =>
    have hcounted : Counted parent f := fun l hl => by
      rw [(hf.fits hl).childCount, ← hf.children_eq]
      exact List.length_pos_of_mem (hmem rfl)
    refine ((entry hc).weaken fun f' hf' => hf'.1 ▸ hcounted).bind fun e n => ?_
    refine given (φ := S.Shows n e) (fun _ h => h.2.2) fun hshows => ?_
    have hnext := hshows.links.nextSibling
    dsimp only
    have hfree : Tracks S (Counted parent)
        (do
          Forest.relink parent fun l =>
            { l with
              lastChild := if l.lastChild = some child then previous else l.lastChild
              childCount := l.childCount - 1 }
          Forest.relink child fun l => { l with parent := none, nextSibling := none })
        (do
          Store.modifyNode parent' fun n =>
            { n with
              lastChild := if n.lastChild = some child' then previous' else n.lastChild
              childCount := n.childCount - 1 }
          Store.modifyNode child' fun n => { n with parent := none, nextSibling := none })
        fun _ _ _ => True := by
      refine (relink hp ?_ ?_).bind fun _ _ =>
        (relink hc ?_ ?_).strengthen fun _ _ _ _ _ _ _ => trivial
      · exact fun _ _ hn => { hn with }
      · refine fun f l n hcounted hl hn => { hn with lastChild := ?_, childCount := ?_ }
        · have hiff := Frame.rel_eq_some_iff hn.lastChild hc
          by_cases hlast : l.lastChild = some child
          · rw [if_pos hlast, if_pos (hiff.1 hlast)]
            exact hprevious
          · rw [if_neg hlast, if_neg (mt hiff.2 hlast)]
            exact hn.lastChild
        · obtain ⟨count, hcount⟩ := Nat.exists_eq_add_one.2 (hcounted l hl)
          rw [hn.childCount, hcount, UInt32.ofNat_add]
          exact UInt32.add_sub_cancel _ _
      · exact fun _ _ hn => { hn with }
      · exact fun _ _ _ _ _ hl => { hl with parent := .none, nextSibling := .none }
    cases hprevious with
    | none =>
      refine (relink hp ?_ ?_).bind fun _ _ => hfree.weaken ?_
      · exact fun _ _ hn => { hn with }
      · exact fun _ _ _ _ _ hl => { hl with firstChild := hnext }
      · exact fun _ ⟨_, hpre, hrun⟩ => counted_of_relink hpre.1 hrun fun _ => rfl
    | some hq =>
      refine (relink hq ?_ ?_).bind fun _ _ => hfree.weaken ?_
      · exact fun _ _ hn => { hn with }
      · exact fun _ _ _ _ _ hl => { hl with nextSibling := hnext }
      · exact fun _ ⟨_, hpre, hrun⟩ => counted_of_relink hpre.1 hrun fun _ => rfl

theorem prependChild (hp : S.Names parent parent') (hc : S.Names child child') :
    Tracks S (fun f => ∃ ls, f.Lists ls) (Forest.prependChild parent child)
      (Store.prependChild parent' child') fun _ _ f => ∃ ls, f.Lists ls := by
  have hadd {h h' : SlotHandle} (hname : S.Names h h') :
      Tracks S (fun f => ∃ ls, f.Lists ls) (Forest.addChild parent h) (Store.addChild parent' h')
        fun _ _ f => ∃ ls, f.Lists ls :=
    (addChild hp hname).strengthen fun _ _ _ _ _ _ ⟨f, ⟨ls, hf⟩, hrun⟩ =>
      ⟨_, hf.call (show (Forest.Call.addChild parent h).edit f = _ from hrun)⟩
  unfold Forest.prependChild Store.prependChild
  refine get fun f s _ hs => ?_
  have hothers := hs.children hp
  refine ((forM (fun hname => removeChild hp hname) hothers).weaken fun _ h => h.2).bind
    fun _ _ => (hadd hc).bind fun _ _ => forM (fun hname => hadd hname) hothers

/-! ### Steps at numbers -/

theorem numbered {number : Nat} {x : SlotHandle → Edit α} {y : SlotHandle → StoreEdit β}
    (hx : ∀ {h h'}, S.Names h h' → h.slot = number → Tracks S pre (x h) (y h') post) :
    Tracks S pre (Forest.numbered number x) (do y (← Store.handle number)) post := by
  intro s f a f' hpre hs hrun
  obtain ⟨_, f₁, hget, hrest⟩ := SqlSyntax.exists_of_bind hrun
  obtain ⟨_, f₂, hentry, hedit⟩ := SqlSyntax.exists_of_bind hrest
  injection hget with hh hf
  subst hh hf
  obtain ⟨hlive, rfl⟩ := Forest.get?_of_discard hentry
  have hlt : number < f₂.entries.size := (Forest.eq_handle_of_live hlive).2
  have hhandle : Store.handle number s = .ok (S.place number) s := by
    rw [Store.handle_eq, ← Array.getElem?_toList, hs.handles, List.getElem?_map,
      List.getElem?_range hlt]
    rfl
  show Store.Ends _ _ (EStateM.bind (Store.handle number) y s)
  rw [EStateM.bind, hhandle]
  refine hx ⟨number, ?_, rfl⟩ rfl s f₂ a f' hpre hs hedit
  rw [Forest.handle, hs.generation]

theorem getStore {k : Store → StoreEdit β}
    (hk : ∀ s f, pre f → s.Represents S f → Tracks S pre x (k s) post) :
    Tracks S pre x (MonadState.get >>= k) post :=
  fun s f a f' hpre hs hrun => hk s f hpre hs s f a f' hpre hs hrun

theorem modifyNode {change : Node → Node} {change' : StoredNode → StoredNode}
    (hname : S.Names h h') (hid : ∀ n, (change n).id = n.id)
    (hnode : ∀ n m, m.id = h.slot → n.Is S.copies m → (change' n).Is S.copies (change m))
    (hlinks : ∀ n l, S.Linked n l → S.Linked (change' n) l) :
    Tracks S (fun f => ∃ ls, f.Lists ls) (Forest.modifyNode h change)
      (Store.modifyNode h' change') fun _ _ f => ∃ ls, f.Lists ls := by
  refine (modifyEntry hname (fun e => hid e.node) fun f e n _ _ hslot hshows => ?_).strengthen
    fun _ _ _ f' _ _ ⟨f, ⟨ls, hf⟩, hrun⟩ => ⟨ls, hf.modifyNode hrun⟩
  exact ⟨hnode n e.node hslot hshows.node, hlinks n e.links hshows.links⟩

theorem amend {number : Nat} {change : Node → Node}
    (hchange : ∀ n, (change n).id = n.id ∧
      ∀ text ∈ (change n).texts, text ∈ n.texts ∨ ∃ t : StoredText, t.Is S.copies text) :
    Tracks S (fun f => ∃ ls, f.Lists ls)
      (Forest.numbered number fun h => Forest.modifyNode h change) (Store.amend number change)
      fun _ _ f => ∃ ls, f.Lists ls := by
  refine numbered fun {h h'} hname hslot => getStore fun s _ _ hs => ?_
  refine modifyNode hname (fun n => (hchange n).1) (fun n m hid hn => ?_) fun _ _ hl => { hl with }
  obtain ⟨hsame, htexts⟩ := hchange m
  have hamended := Store.amended_is hs hn hsame (by
    unfold Store.Knows
    rwa [hs.copies])
  rwa [hid, hslot] at hamended

/-- A new node goes to the next place on both sides. -/
theorem alloc (kind : Kind) (location : Location) (span : Span) :
    Tracks S pre (Forest.alloc kind location span) (Store.alloc kind location span)
      fun h h' _ => S.Names h h' := by
  intro s f h f' hpre hs hrun
  injection hrun with hh hf
  subst hh hf
  have hanswers := hs.holds.allocate { kind, id := s.nextId, location, span }
  have hunit := s.nodes.unit_allocate { kind, id := s.nextId, location, span }
  have hgeneration := s.nodes.generation_allocate { kind, id := s.nextId, location, span }
  rw [Store.alloc_eq]
  generalize s.nodes.allocate { kind, id := s.nextId, location, span } = r
    at hanswers hunit hgeneration ⊢
  cases hanswers with
  | refused full holds => exact ⟨⟨_, holds⟩, hunit.trans hs.unit, hs.wellkept.strings⟩
  | @stored nodes storable holds get? =>
    have hnew : S.Shows { kind, id := s.nextId, location, span }
        { node := { kind, id := f.entries.size, location, span } } :=
      ⟨⟨rfl, hs.nextId, .none, .none, .none, .none, rfl, rfl, rfl, rfl, rfl, rfl⟩,
        ⟨.none, .none, .none, .none, rfl⟩⟩
    have hget : ∀ i, nodes.get? (S.place i) = if i = f.entries.size then
        some { kind, id := s.nextId, location, span } else s.nodes.get? (S.place i) := by
      intro i
      rw [get?, hs.place]
      exact if_congr S.injective.eq_iff rfl rfl
    refine ⟨{ hs with
      unit := hunit.trans hs.unit
      tag := hgeneration.trans hs.tag
      holds := by rwa [Array.size_push]
      nextId := by rw [Array.size_push, UInt32.ofNat_add, hs.nextId]; rfl
      handles := ?_
      entries := fun {i e} he => ?_
      numbered := fun {i e} he => ?_ }, f.entries.size, ?_, congrFun hs.place _⟩
    · rw [Array.toList_push, hs.handles, Array.size_push, List.range_succ, List.map_append,
        hs.place]
      rfl
    · rw [Array.getElem?_push] at he
      rw [hget]
      split at he
      · next hi =>
        obtain rfl := Option.some.inj he
        exact ⟨_, if_pos hi, hnew⟩
      · next hi =>
        rw [if_neg hi]
        exact hs.entries he
    · rw [Array.getElem?_push] at he
      split at he
      · next hi =>
        obtain rfl := Option.some.inj he
        exact hi.symm
      · exact hs.numbered he
    · rw [Forest.handle, hs.generation]

end Tracks

/-! ## Commands -/

/-- A change of a node keeps its number, and the texts that it writes were there or can be had of
these copies. -/
def Command.Told (copies : List (String × ByteHandle)) : Command → Prop
  | .amend _ change => ∀ n, (change n).id = n.id ∧
      ∀ text ∈ (change n).texts, text ∈ n.texts ∨ ∃ t : StoredText, t.Is copies text
  | _ => True

theorem Tracks.command {S : Frame} {c : Command} (hcopy : ∀ text, c ≠ .copy text)
    (htold : c.Told S.copies) :
    Tracks S (fun f => ∃ ls, f.Lists ls) c.onForest c.onStore fun _ _ f => ∃ ls, f.Lists ls := by
  cases c with
  | alloc kind location span context =>
    have halloc : Tracks S (fun f => ∃ ls, f.Lists ls) (Forest.alloc kind location span)
        (Store.alloc kind location span) fun h h' f => S.Names h h' ∧ ∃ ls, f.Lists ls :=
      (alloc kind location span).strengthen fun f h h' f' ⟨ls, hf⟩ hrun hname =>
        ⟨hname, ls, hf.alloc hrun⟩
    refine halloc.bind fun h h' => ?_
    refine given (φ := S.Names h h') (fun _ h => h.1) fun hname => ?_
    refine weaken (modifyNode hname (fun _ => rfl) ?_ ?_) ?_
    · exact fun _ _ _ hn => { hn with context := rfl }
    · exact fun _ _ hl => { hl with }
    · exact fun _ h => h.2
  | look number =>
    exact numbered fun hname _ => ((entry hname).strengthen fun _ _ _ _ _ _ h => h.1).discard
      |>.strengthen fun _ _ _ _ _ _ ⟨_, _, h⟩ => h
  | amend number change => exact amend htold
  | attach parent child =>
    refine numbered fun {p p'} hp _ => numbered fun {c c'} hc _ => ?_
    exact (addChild hp hc).strengthen fun _ _ _ _ _ _ ⟨f, ⟨ls, hf⟩, hrun⟩ =>
      ⟨_, hf.call (show (Forest.Call.addChild p c).edit f = _ from hrun)⟩
  | prepend parent child => exact numbered fun hp _ => numbered fun hc _ => prependChild hp hc
  | copy text => exact absurd rfl (hcopy text)

/-- The store has no more room, but its arenas are in order. -/
def Store.Exhausted (unit : Nat) (s : Store) : Prop :=
  (∃ e, s.failed = some (.storage e)) ∧ s.Wellkept unit

theorem Store.after_eq {s : Store} (h : s.failed = none) (c : Command) :
    s.after c = match c.onStore s with
      | .ok _ s => s
      | .error e s => { s with failed := some e } := by
  unfold Store.after
  rw [h]
  rfl

theorem Store.Exhausted.after_eq {unit : Nat} {s : Store} (h : s.Exhausted unit) (c : Command) :
    s.after c = s := by
  obtain ⟨⟨e, he⟩, -⟩ := h
  rw [Store.after, he]
  rfl

namespace Store.Represents

variable {S : Frame} {s : Store} {f f' : Forest}

/-- A command that the forest takes is taken by the store. -/
theorem after {c : Command} (hs : s.Represents S f) (hf : ∃ ls, f.Lists ls)
    (hcopy : ∀ text, c ≠ .copy text) (htold : c.Told s.copies)
    (hrun : c.onForest f = .ok () f') :
    (s.after c).Represents S f' ∧ (∃ ls, f'.Lists ls) ∨ (s.after c).Exhausted S.unit := by
  rw [hs.copies] at htold
  have hends := Tracks.command hcopy htold s f () f' hf hs hrun
  rw [Store.after_eq hs.granted]
  generalize c.onStore s = r at hends ⊢
  obtain ⟨_, s'⟩ | ⟨e | e, s'⟩ := r
  · exact .inl hends
  · exact absurd hends id
  · exact .inr ⟨⟨e, rfl⟩, hends.nodes, hends.unit, hends.strings⟩

/-- A copy is added to those that the store has. -/
theorem after_copy (hs : s.Represents S f) (text : String) (copied : Nat) (holdsStorage : Bool) :
    (∃ S' range, (s.after (.copy text)).Represents S' { f with copied, holdsStorage } ∧
      S'.unit = S.unit ∧
      (s.after (.copy text)).copies = (text, range) :: s.copies ∧
      (s.after (.copy text)).strings.used = s.strings.used + max text.utf8ByteSize 1) ∨
    (s.after (.copy text)).Exhausted S.unit := by
  have holds : s.strings.HoldsCopies s.copies := by
    rw [hs.strings, hs.copies]
    exact S.holds
  rw [Store.after_eq hs.granted, show Command.onStore (.copy text) s = _ from Store.copy_eq s text]
  rcases hcopy : s.strings.allocateText text with ⟨e | range, strings⟩
  · exact .inr ⟨⟨e, rfl⟩, hs.wellkept.nodes, hs.unit,
      (holds.allocateText_error hcopy).subset (List.nil_subset _)⟩
  · obtain ⟨hcopies, hused⟩ := holds.allocateText_ok hcopy
    have hsub : S.copies ⊆ (text, range) :: s.copies := by
      rw [hs.copies]
      exact List.subset_cons_self _ _
    refine .inl ⟨{ S with strings, copies := (text, range) :: s.copies, holds := hcopies }, range,
      { hs with strings := rfl, copies := rfl, entries := fun {i e} he => ?_ }, rfl, rfl, hused⟩
    obtain ⟨n, hn, hshows⟩ := hs.entries he
    exact ⟨n, hn, hshows.node.mono hsub, { hshows.links with }⟩

end Store.Represents

end SqlSyntax
