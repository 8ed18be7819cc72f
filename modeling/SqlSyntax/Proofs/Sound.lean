import SqlSyntax.Proofs.Law
import SqlSyntax.Proofs.Ownership
import SqlSyntax.Proofs.Tokens
import SqlSyntax.Proofs.Trees

/-!
# The invariant of a run

At each point of a run the forest owns the trees that are detached then, no edit of it was refused,
and the tokens that are left can be read from the source (`Progress.Sound`). The steps keep this,
so every production does (`sound_serves`): a parser never asks for an edit that cannot be made,
and it fails only by errors that the source has a line for.
-/

namespace SqlSyntax

open SqlSyntax.Parser

/-- The subtree begins where the source has a line. -/
def Tree.HasLine (source : Source) (t : Tree) : Prop := source.HasLine t.head.location.offset

/-- A point of a run at which some trees are detached. -/
structure Progress.Sound (source : Source) (ts : List Tree) (s : Progress) : Prop where
  accepted : s.refused = none
  nodes : s.nodes = (ts.map Tree.size).sum
  owns : s.forest.Owns ts
  hasLine : ∀ t ∈ ts, t.Everywhere (Tree.HasLine source)
  readFrom : ∀ t ∈ s.rest, t.ReadFrom source

/-- A failure that is none of the program itself: an error at a place that has a line, or a source
too long for its offsets. -/
def Failure.Fair (source : Source) : Failure → Prop
  | .error e => source.HasLine e.location.offset
  | .noBody _ => ¬ source.Fits
  | .noLine _ | .refused _ => False

/-- The points of the runs over a source are sound. -/
def Law.sound (source : Source) (config : Config) : Law :=
  ⟨source, config, fun ts s => s.Sound source ts, fun f _ => f.Fair source⟩

theorem Edits.numbered {g : UInt32} {es es' : List Entry} {fact : α → Prop} {t : Tree}
    {e : SlotHandle → Edit α} (ht : t.entry g none none ∈ es)
    (h : Edits g (e (t.handle g)) es es' fact) :
    Edits g (Forest.numbered t.head.id e) es es' fact := by
  refine .get fun f hg _ => ?_
  subst hg
  exact (Edits.discardEntry ht).bind fun _ _ => h

namespace Progress

variable {source : Source} {ts us : List Tree} {s : Progress}

theorem exists_edited {c : Command} {fact : Unit → Prop} (hs : s.refused = none)
    (howns : s.forest.Owns ts)
    (hc : ∀ g, Edits g c.onForest (ts.flatMap (Tree.entries g)) (us.flatMap (Tree.entries g))
      fact) :
    ∃ forest : Forest, s.edited c = { s with forest, store := s.store.after c } ∧
      forest.Owns us := by
  obtain ⟨_, forest, hrun, hg, hforest, -⟩ := hc _ s.forest rfl howns
  refine ⟨forest, ?_, ?_⟩
  · simp [edited, hs, EStateM.run, hrun]
  · rw [Forest.Owns, hg]
    exact hforest

namespace Sound

theorem perm (h : s.Sound source ts) (hp : ts.Perm us) : s.Sound source us where
  accepted := h.accepted
  nodes := h.nodes.trans (hp.map _).sum_nat
  owns := h.owns.perm hp
  hasLine t ht := h.hasLine t (hp.mem_iff.2 ht)
  readFrom := h.readFrom

/-- An edit of the stored nodes that makes other trees of the same size. -/
theorem edited {c : Command} {fact : Unit → Prop} (h : s.Sound source ts)
    (hc : ∀ g, Edits g c.onForest (ts.flatMap (Tree.entries g)) (us.flatMap (Tree.entries g)) fact)
    (hsize : (us.map Tree.size).sum = (ts.map Tree.size).sum)
    (hline : ∀ t ∈ us, t.Everywhere (Tree.HasLine source)) :
    (s.edited c).Sound source us ∧ (s.edited c).rest = s.rest := by
  obtain ⟨forest, hedited, howns⟩ := exists_edited h.accepted h.owns hc
  rw [hedited]
  exact ⟨⟨h.accepted, h.nodes.trans hsize.symm, howns, hline, h.readFrom⟩, rfl⟩

end Sound

end Progress

/-! ## The steps -/

namespace Law

variable {source : Source} {config : Config} {ahead : List Token → Prop}

theorem sound_newNode (kind : Kind) {location : Location} (span : Span)
    (hline : source.HasLine location.offset) :
    (sound source config).Keeps ahead [] (newNode kind location span) one fun u r =>
      u.Fresh kind span.start ∧ ahead r := by
  intro scope others s _ _ ha hs
  have hs : s.Sound source others := hs
  have hid : ∀ g, (others.flatMap (Tree.entries g)).length = s.nodes := fun g =>
    (Tree.length_flatMap_entries g others).trans hs.nodes.symm
  have he : ∀ g, Edits g (Command.alloc kind location span scope.context).onForest
      (others.flatMap (Tree.entries g))
      ((.leaf { kind, id := s.nodes, context := scope.context, location, span } :: others).flatMap
        (Tree.entries g)) fun _ => True :=
    fun g => hid g ▸ Edits.newLeaf others kind location span scope.context
  obtain ⟨forest, hedited, howns⟩ := Progress.exists_edited hs.accepted hs.owns he
  have hrun : newNode kind location span scope s =
      (fun s => .ok (.leaf { kind, id := s.nodes, context := scope.context, location, span })
        { s with nodes := s.nodes + 1 }) (s.edited (.alloc kind location span scope.context)) := rfl
  rw [hedited] at hrun
  rw [hrun]
  refine ⟨⟨.leaf kind _ _ _ span, ha⟩, hs.accepted, ?_, howns, ?_, hs.readFrom⟩
  · have hsize := hs.nodes
    simp only [one, List.singleton_append, List.map_cons, List.sum_cons, Tree.size_leaf]
    omega
  · refine List.forall_mem_cons.2 ⟨.leaf hline, hs.hasLine⟩

theorem sound_amend {t : Tree} {change : Node → Node} (hc : ∀ n, (change n).Alike n) :
    (sound source config).Keeps ahead [t] (amend t change) one fun u r =>
      u = t.mapHead change ∧ ahead r := by
  intro scope others s _ _ ha hs
  have hs : s.Sound source (t :: others) := hs
  obtain ⟨ht, hothers⟩ := List.forall_mem_cons.1 hs.hasLine
  have hroot : Tree.HasLine source (t.mapHead change) := by
    obtain ⟨n, cs⟩ := t
    show source.HasLine (change n).location.offset
    rw [(hc n).location]
    exact ht.root
  have he : ∀ g, Edits g (Command.amend t.head.id change).onForest
      ((t :: others).flatMap (Tree.entries g))
      ((t.mapHead change :: others).flatMap (Tree.entries g))
      fun _ => True :=
    fun g => .numbered (e := (Forest.modifyNode · change)) (Edits.rootEntry_mem t others)
      (Edits.modifyNode t others fun n => (hc n).id)
  obtain ⟨hsound, hrest⟩ := hs.edited he
    (by simp only [List.map_cons, Tree.size_mapHead])
    (List.forall_mem_cons.2 ⟨ht.mapHead hroot, hothers⟩)
  exact ⟨⟨rfl, hrest ▸ ha⟩, hsound⟩

theorem sound_amends {change : Node → Node} (hc : ∀ n, (change n).Alike n) :
    (sound source config).Amends change :=
  ⟨hc, fun _ => sound_amend hc⟩

theorem childEntry_mem {g : UInt32} (parent child : Tree) (ts : List Tree) :
    child.entry g none none ∈ (parent :: child :: ts).flatMap (Tree.entries g) := by
  rw [List.flatMap_cons]
  exact List.mem_append_right _ (Edits.rootEntry_mem child ts)

theorem sound_attach (parent child : Tree) :
    (sound source config).Keeps ahead [child, parent] (attach parent child) one fun u r =>
      u = parent.append [child] ∧ ahead r := by
  intro scope others s _ _ ha hs
  have hs : s.Sound source (parent :: child :: others) :=
    Progress.Sound.perm hs (.swap parent child others)
  obtain ⟨hp, hs'⟩ := List.forall_mem_cons.1 hs.hasLine
  obtain ⟨hc, hothers⟩ := List.forall_mem_cons.1 hs'
  have he : ∀ g, Edits g (Command.attach parent.head.id child.head.id).onForest
      ((parent :: child :: others).flatMap (Tree.entries g))
      ((parent.append [child] :: others).flatMap (Tree.entries g)) fun _ => True :=
    fun g => .numbered (e := fun p => Forest.numbered child.head.id (Forest.addChild p))
      (Edits.rootEntry_mem parent _) (.numbered (childEntry_mem parent child others)
        (Edits.addChild parent child others))
  obtain ⟨hsound, hrest⟩ := hs.edited he
    (by simp only [List.map_cons, List.sum_cons, Tree.size_append]; omega)
    (List.forall_mem_cons.2 ⟨hp.append hc hp.root, hothers⟩)
  exact ⟨⟨rfl, hrest ▸ ha⟩, hsound⟩

theorem sound_prepend (parent child : Tree) :
    (sound source config).Keeps ahead [child, parent] (prepend parent child) one fun u r =>
      u = parent.prepend child ∧ ahead r := by
  intro scope others s _ _ ha hs
  have hs : s.Sound source (parent :: child :: others) :=
    Progress.Sound.perm hs (.swap parent child others)
  obtain ⟨hp, hs'⟩ := List.forall_mem_cons.1 hs.hasLine
  obtain ⟨hc, hothers⟩ := List.forall_mem_cons.1 hs'
  have he : ∀ g, Edits g (Command.prepend parent.head.id child.head.id).onForest
      ((parent :: child :: others).flatMap (Tree.entries g))
      ((parent.prepend child :: others).flatMap (Tree.entries g)) fun _ => True :=
    fun g => .numbered (e := fun p => Forest.numbered child.head.id (Forest.prependChild p))
      (Edits.rootEntry_mem parent _) (.numbered (childEntry_mem parent child others)
        (Edits.prependChild parent child others))
  obtain ⟨hsound, hrest⟩ := hs.edited he
    (by simp only [List.map_cons, List.sum_cons, Tree.size_prepend]; omega)
    (List.forall_mem_cons.2 ⟨hp.prepend hc hp.root, hothers⟩)
  exact ⟨⟨rfl, hrest ▸ ha⟩, hsound⟩

theorem sound_nodeOver (kind : Kind) (first : Tree) :
    (sound source config).Keeps ahead [first] (nodeOver kind first) (fun t => [first, t])
      fun u r => u.Fresh kind first.head.span.start ∧ ahead r := by
  intro scope others s hsource hconfig ha hs
  have hs : s.Sound source (first :: others) := hs
  have he : ∀ g, Edits g (Command.look first.head.id).onForest
      ((first :: others).flatMap (Tree.entries g)) ((first :: others).flatMap (Tree.entries g))
      fun _ => True :=
    fun g => .numbered (e := fun h => discard (Forest.entry h)) (Edits.rootEntry_mem first others)
      (Edits.discardEntry (Edits.rootEntry_mem first others))
  obtain ⟨hsound, hrest⟩ := hs.edited he rfl hs.hasLine
  have hline := (hs.hasLine first List.mem_cons_self).root
  have hnew : (sound source config).Keeps ahead [first] _ _ _ :=
    (sound_newNode kind first.head.span hline).frame [first]
  have h : (sound source config).Keeps ahead [first] _ (fun t => [first, t]) _ :=
    hnew.relax (fun hp hs => hs.perm hp) (fun _ h => h) (.refl _) (fun t _ _ => .swap first t [])
      fun _ _ h => h
  exact h scope others _ hsource hconfig (hrest ▸ ha) hsound

/-- A copy of a text leaves the nodes alone. -/
theorem sound_copy (text : String) :
    (sound source config).Keeps ahead [] (copy text) silent fun _ => ahead := by
  intro scope others s _ _ ha hs
  have he : ∀ g, Edits g (Command.copy text).onForest (others.flatMap (Tree.entries g))
      (others.flatMap (Tree.entries g)) fun _ => True :=
    fun g f hg hf => ⟨(), _, rfl, hg, ⟨hf.numbered, hf.stored⟩, trivial⟩
  have hs : s.Sound source others := hs
  obtain ⟨hsound, hrest⟩ := hs.edited he rfl hs.hasLine
  refine ⟨hrest ▸ ha, hsound.accepted, hsound.nodes, hsound.owns, hsound.hasLine, hsound.readFrom⟩

theorem sound_quotedText {t : Token} (quote : Char) (h : t.ReadFrom source)
    (hq : Lexeme.isQuoted t.kind) :
    (sound source config).Keeps ahead [] (quotedText quote t) silent fun _ => ahead := by
  intro scope others s hsource hconfig ha hs
  have hslice := fun hfits => h.body hfits hq
  unfold quotedText
  generalize t.span.inner 1 = inner at hslice ⊢
  rw [read_run, show scope.source = source from hsource]
  rcases hbody : source.slice? inner.start inner.stop with _ | body
  · refine ⟨fun hfits => ?_, [], hs⟩
    obtain ⟨_, _, body, -, h⟩ := hslice hfits
    exact absurd (h.symm.trans hbody) nofun
  · by_cases hquote : body.contains quote
    · simp only [hquote, if_true]
      exact sound_copy _ scope others s hsource hconfig ha hs
    · simp only [hquote]
      exact ⟨ha, hs⟩

theorem sound_tokenText {t : Token} (h : t.ReadFrom source) :
    (sound source config).Keeps ahead [] (tokenText t) silent fun _ => ahead := by
  unfold tokenText
  split
  · next hkind => exact sound_quotedText _ h (by rw [hkind]; rfl)
  · next hkind =>
    split
    · exact .pure silent fun _ h => h
    · exact .pure silent fun _ h => h
    · exact sound_quotedText _ h (by rw [hkind]; rfl)
  · exact .pure silent fun _ h => h
  · exact .pure silent fun _ h => h

/-- What a production of a run may rely on: its tokens can be read from the source. -/
def soundTerms (source : Source) (config : Config) (inner : Nested) : Terms :=
  ⟨config, inner, Token.ReadFrom source, fun _ => false, fun _ _ => rfl⟩

theorem sound_allows (source : Source) (config : Config) (inner : Nested) :
    (sound source config).Allows (soundTerms source config inner) where
  config := rfl
  perm hp hs := hs.perm hp
  known hs := hs.readFrom
  advanced hrest hs :=
    { hs with readFrom := fun t ht => hs.readFrom t (hrest ▸ List.mem_cons_of_mem _ ht) }
  deepened hs := { hs with }
  fairAt _ h := h.hasLine
  fairEnd := by
    intro cause _
    show source.HasLine (Location.atOffset source source.byteSize).offset
    rw [Location.offset_atOffset_byteSize]
    exact source.hasLine_byteSize
  nodeAt kind h := sound_newNode kind _ h.hasLine
  nodeOver := sound_nodeOver
  amend hc _ := sound_amend fun n => (hc n).toAlike
  attach child _ := sound_attach _ child
  prepend child _ := sound_prepend _ child
  inscribe h hc hbase _ := .inscribe (fun t ht => sound_tokenText (h t ht)) hbase fun texts =>
    sound_amends (hc.alike texts)
  inscribeType hname hbase _ := .inscribeType hname hbase fun _ _ =>
    sound_amends fun _ => ⟨rfl, rfl, rfl, rfl, rfl⟩

/-- Every production leaves a sound point, also where it fails. -/
theorem sound_serves (source : Source) (config : Config) :
    ∀ n, (sound source config).Serves (fun _ _ _ => True) (Nested.upTo n) :=
  Allows.serves (sound_allows source config) fun _ hinner power =>
    (expression_yields (fun _ => rfl) power).keeps (sound_allows source config _) hinner

end Law

end SqlSyntax
