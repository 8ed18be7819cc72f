import SqlSyntax.Proofs.Fidelity
import SqlSyntax.Proofs.Stores.Steps

/-!
# What a run stores

At each point of a run its store represents its forest, and has copies of the texts that will be
written into nodes, unless the system had no storage for a step (`Progress.Stored`). The steps of
productions keep this (`Law.stored_allows`), and a call starts from an emptied store, which
represents an emptied forest (`Session.start_stored`).
-/

namespace SqlSyntax

open SqlSyntax.Parser

/-! ## Points of a run -/

/-- The store has what the run has stored, where a node takes so many bytes, and it can write some
texts into nodes. -/
structure Progress.Backed (unit : Nat) (s : Progress) (texts : List Text) : Prop where
  represents : ∃ S : Frame, S.unit = unit ∧ s.store.Represents S s.forest
  lists : ∃ ls, s.forest.Lists ls
  used : s.store.strings.used = s.copied
  known : ∀ text ∈ texts, s.store.Knows text

/-- The arenas are in order; and if no edit was refused, the store has what the run has stored or
the system has no storage. -/
structure Progress.Stored (unit : Nat) (s : Progress) (texts : List Text) : Prop where
  wellkept : s.store.Wellkept unit
  backed : s.refused = none → s.Backed unit texts ∨ s.store.Exhausted unit

namespace Progress

variable {unit : Nat} {s r : Progress} {texts : List Text}

theorem Stored.congr (h : s.Stored unit texts) (hstore : r.store = s.store)
    (hforest : r.forest = s.forest) (hcopied : r.copied = s.copied)
    (hrefused : r.refused = s.refused) : r.Stored unit texts := by
  refine ⟨hstore ▸ h.wellkept, fun hnone => ?_⟩
  rw [hstore]
  refine (h.backed (hrefused ▸ hnone)).imp_left fun hb => ⟨?_, ?_, ?_, ?_⟩
  · rw [hstore, hforest]
    exact hb.represents
  · rw [hforest]
    exact hb.lists
  · rw [hstore, hcopied]
    exact hb.used
  · rw [hstore]
    exact hb.known

theorem Stored.subset {fewer : List Text} (h : s.Stored unit texts) (hsub : fewer ⊆ texts) :
    s.Stored unit fewer :=
  ⟨h.wellkept, fun hnone => (h.backed hnone).imp_left fun hb =>
    { hb with known := fun text htext => hb.known text (hsub htext) }⟩

/-- Texts that are no copies can always be written. -/
theorem Stored.uncopied (h : s.Stored unit texts) (more : List Text)
    (hmore : ∀ text ∈ more, text ∈ texts ∨ text.isCopied = false) : s.Stored unit more := by
  refine ⟨h.wellkept, fun hnone => (h.backed hnone).imp_left fun hb =>
    { hb with known := fun text htext => ?_ }⟩
  rcases hmore text htext with hmem | hslice
  · exact hb.known text hmem
  · cases text with
    | none => exact ⟨_, .none⟩
    | slice span => exact ⟨_, .slice span⟩
    | copied value => cases hslice

/-- A command that copies nothing. -/
theorem Stored.edited {c : Command} (h : s.Stored unit texts) (hcopy : ∀ text, c ≠ .copy text)
    (htold : s.Backed unit texts → c.Told s.store.copies) : (s.edited c).Stored unit texts := by
  unfold Progress.edited
  split
  · exact h
  · next hrefused =>
    have hnone : s.refused = none := by simpa using hrefused
    rcases hrun : c.onForest.run s.forest with ⟨_, f⟩ | ⟨e, f⟩
    · obtain hb | hexhausted := h.backed hnone
      · obtain ⟨S, rfl, hs⟩ := hb.represents
        obtain ⟨hs', hlists⟩ | hexhausted := hs.after hb.lists hcopy (htold hb) hrun
        · refine ⟨hs'.wellkept, fun _ => .inl ⟨⟨S, rfl, hs'⟩, hlists, ?_, fun text htext => ?_⟩⟩
          · show (s.store.after c).strings.used = s.copied
            rw [hs'.strings, ← hs.strings, hb.used]
          · have hknown := hb.known text htext
            unfold Store.Knows at hknown ⊢
            rwa [hs'.copies, ← hs.copies]
        · exact ⟨hexhausted.2, fun _ => .inr hexhausted⟩
      · dsimp only
        rw [hexhausted.after_eq]
        exact ⟨h.wellkept, fun _ => .inr hexhausted⟩
    · exact ⟨h.wellkept, nofun⟩

/-- A copy of a text is known and counted. -/
theorem Stored.copied (h : s.Stored unit texts) (text : String) :
    { s.edited (.copy text) with
      copied := (s.edited (.copy text)).copied + max text.utf8ByteSize 1 }.Stored unit
        (.copied text :: texts) := by
  rw [s.copied_edited]
  unfold Progress.edited
  split
  · next hrefused => exact ⟨h.wellkept, fun hnone => by rw [hnone] at hrefused; cases hrefused⟩
  · next hrefused =>
    have hnone : s.refused = none := by simpa using hrefused
    let forest := { s.forest with
      copied := s.forest.copied + max text.utf8ByteSize 1
      holdsStorage := true }
    have hcopy : (Command.copy text).onForest.run s.forest = .ok () forest := rfl
    rw [hcopy]
    obtain hb | hexhausted := h.backed hnone
    · obtain ⟨S, rfl, hs⟩ := hb.represents
      obtain ⟨ls, hlists⟩ := hb.lists
      obtain ⟨S', range, hs', hunit, hcopies, hused⟩ | hexhausted :=
        hs.after_copy text forest.copied forest.holdsStorage
      · refine ⟨hunit ▸ hs'.wellkept, fun _ =>
          .inl ⟨⟨S', hunit, hs'⟩, ⟨ls, hlists.congr fun _ => rfl⟩, ?_, ?_⟩⟩
        · exact hused.trans (congrArg (· + _) hb.used)
        · refine List.forall_mem_cons.2 ⟨⟨_, .copied (hcopies ▸ List.mem_cons_self)⟩, ?_⟩
          intro known hknown
          obtain ⟨t, ht⟩ := hb.known known hknown
          exact ⟨t, ht.mono (hcopies ▸ List.subset_cons_self _ _)⟩
      · exact ⟨hexhausted.2, fun _ => .inr hexhausted⟩
    · dsimp only
      rw [hexhausted.after_eq]
      exact ⟨h.wellkept, fun _ => .inr hexhausted⟩

end Progress

/-! ## The steps -/

namespace Law

variable {unit : Nat} {source : Source} {config : Config} {ahead : List Token → Prop}
  {pre : List Tree}

/-- The texts at the roots of some trees. -/
def rootTexts (ts : List Tree) : List Text := ts.flatMap (·.head.texts)

theorem rootTexts_cons (t : Tree) (ts : List Tree) :
    rootTexts (t :: ts) = t.head.texts ++ rootTexts ts :=
  List.flatMap_cons

theorem rootTexts_append (ts us : List Tree) :
    rootTexts (ts ++ us) = rootTexts ts ++ rootTexts us :=
  List.flatMap_append

theorem text_of_mem_held {texts : List Text} {text : Text} (h : text ∈ rootTexts (held texts)) :
    text ∈ texts ∨ text.isCopied = false := by
  rw [rootTexts, held, List.flatMap_map] at h
  obtain ⟨known, hknown, hmem⟩ := List.mem_flatMap.1 h
  simp only [Tree.leaf, Tree.head, Node.holding, Node.texts, List.mem_cons, List.not_mem_nil,
    or_false] at hmem
  rcases hmem with rfl | rfl | rfl | rfl
  · exact .inl hknown
  all_goals exact .inr rfl

/-- The store has what a run over a source has stored. -/
def stored (unit : Nat) (source : Source) (config : Config) : Law :=
  ⟨source, config, fun ts s => s.Stored unit (rootTexts ts), fun _ _ => True⟩

theorem stored_perm {ts us : List Tree} {s : Progress} (hp : ts.Perm us)
    (h : (stored unit source config).Holds ts s) : (stored unit source config).Holds us s :=
  Progress.Stored.subset h (hp.flatMap_right _).symm.subset

/-- A command that copies nothing. -/
theorem stored_edit {ts : List Tree} {c : Command} (hcopy : ∀ text, c ≠ .copy text)
    (htold : ∀ copies, (∀ text ∈ rootTexts ts, ∃ t : StoredText, t.Is copies text) →
      c.Told copies) :
    (stored unit source config).Keeps ahead ts (edit c) (fun _ => ts) fun _ => ahead := by
  intro scope others s _ _ ha hs
  have hs : s.Stored unit (rootTexts (ts ++ others)) := hs
  refine ⟨(s.rest_edited c).symm ▸ ha, hs.edited hcopy fun hb => htold _ fun text htext => ?_⟩
  exact hb.known text (rootTexts_append ts others ▸ List.mem_append_left _ htext)

/-- A tree is made of others by a command and as a value, and its texts were theirs or are no
copies. -/
theorem stored_make {t : Tree} {c : Command} (hcopy : ∀ text, c ≠ .copy text)
    (htold : ∀ copies, (∀ text ∈ rootTexts pre, ∃ t : StoredText, t.Is copies text) →
      c.Told copies)
    (htexts : ∀ text ∈ t.head.texts, text ∈ rootTexts pre ∨ text.isCopied = false) :
    (stored unit source config).Keeps ahead pre (do edit c; return t) one fun u r =>
      u = t ∧ ahead r := by
  refine (stored_edit hcopy htold).bind fun _ _ others s _ _ ha hs => ⟨⟨rfl, ha⟩, ?_⟩
  have hs : s.Stored unit (rootTexts (pre ++ others)) := hs
  rw [rootTexts_append] at hs
  refine Progress.Stored.uncopied hs _ fun text htext => ?_
  rw [rootTexts_append, one, rootTexts_cons, rootTexts, List.flatMap_nil, List.append_nil] at htext
  rcases List.mem_append.1 htext with hroot | hother
  · exact (htexts text hroot).imp_left (List.mem_append_left _)
  · exact .inl (List.mem_append_right _ hother)

theorem stored_newNode (kind : Kind) (location : Location) (span : Span) :
    (stored unit source config).Keeps ahead [] (newNode kind location span) one fun u r =>
      u.Fresh kind span.start ∧ ahead r := by
  intro scope others s hsource hconfig ha hs
  have hedit : (stored unit source config).Keeps ahead []
      (edit (.alloc kind location span scope.context)) (fun _ => []) fun _ => ahead :=
    stored_edit nofun fun _ _ => trivial
  obtain ⟨ha, hs⟩ := hedit scope others s hsource hconfig ha hs
  have hs : (s.edited (.alloc kind location span scope.context)).Stored unit
      (rootTexts others) := hs
  have hfresh := fun id => Tree.Fresh.leaf kind id scope.context location span
  refine ⟨⟨hfresh _, ha⟩, ?_⟩
  have hnew := hs.uncopied (rootTexts (one (.leaf
    { kind, id := (s.edited (.alloc kind location span scope.context)).nodes
      context := scope.context, location, span }) ++ others)) ?_
  · exact hnew.congr rfl rfl rfl rfl
  · intro text htext
    rcases List.mem_append.1 (rootTexts_append _ _ ▸ htext) with hroot | hother
    · rw [one, rootTexts, List.flatMap_singleton] at hroot
      exact .inr (by rw [(hfresh _).blank text hroot]; rfl)
    · exact .inl hother

theorem stored_nodeOver (kind : Kind) (first : Tree) :
    (stored unit source config).Keeps ahead [first] (nodeOver kind first) (fun t => [first, t])
      fun u r => u.Fresh kind first.head.span.start ∧ ahead r := by
  refine (stored_edit (c := .look first.head.id) nofun fun _ _ => trivial).bind fun _ => ?_
  have hnew : (stored unit source config).Keeps ahead [first] _ _ _ :=
    (stored_newNode kind first.head.location first.head.span).frame [first]
  exact hnew.relax stored_perm (fun _ h => h) (.refl _) (fun t _ _ => .swap first t [])
    fun _ _ h => h

/-- A change writes texts that the node had, some that stand alone, or no copies. -/
theorem stored_write {t : Tree} {change : Node → Node} (texts : List Text)
    (hid : ∀ n, (change n).id = n.id)
    (htexts : ∀ n, ∀ text ∈ (change n).texts,
      text ∈ n.texts ∨ text ∈ texts ∨ text.isCopied = false) :
    (stored unit source config).Keeps ahead (t :: held texts) (amend t change) one fun u r =>
      u = t.mapHead change ∧ ahead r := by
  have hheld : ∀ text ∈ texts, text ∈ rootTexts (t :: held texts) := by
    intro text htext
    rw [rootTexts_cons, rootTexts, held, List.flatMap_map]
    exact List.mem_append_right _ (List.mem_flatMap.2 ⟨text, htext, List.mem_cons_self⟩)
  refine stored_make (fun _ h => by cases h)
    (fun copies hknown n => ⟨hid n, fun text htext => ?_⟩) ?_
  · refine (htexts n text htext).imp_right fun h => ?_
    rcases h with hmem | hslice
    · exact hknown text (hheld text hmem)
    · cases text with
      | none => exact ⟨_, .none⟩
      | slice span => exact ⟨_, .slice span⟩
      | copied value => cases hslice
  · intro text htext
    obtain ⟨n, cs⟩ := t
    rcases htexts n text htext with hwas | hmem | hslice
    · exact .inl (List.mem_append_left _ hwas)
    · exact .inl (hheld text hmem)
    · exact .inr hslice

theorem stored_amend {t : Tree} {change : Node → Node} (hc : ∀ n, (change n).Kept n) :
    (stored unit source config).Keeps ahead [t] (amend t change) one fun u r =>
      u = t.mapHead change ∧ ahead r :=
  stored_write [] (fun n => (hc n).id) fun n _ htext =>
    .inl ((hc n).texts ▸ htext)

theorem stored_attach (parent child : Tree) :
    (stored unit source config).Keeps ahead [child, parent] (attach parent child) one fun u r =>
      u = parent.append [child] ∧ ahead r := by
  refine stored_make nofun (fun _ _ => trivial) fun text htext => .inl ?_
  rw [rootTexts_cons, rootTexts_cons]
  exact List.mem_append_right _ (List.mem_append_left _ htext)

theorem stored_prepend (parent child : Tree) :
    (stored unit source config).Keeps ahead [child, parent] (prepend parent child) one fun u r =>
      u = parent.prepend child ∧ ahead r := by
  refine stored_make nofun (fun _ _ => trivial) fun text htext => .inl ?_
  rw [rootTexts_cons, rootTexts_cons]
  exact List.mem_append_right _ (List.mem_append_left _ htext)

/-! ### Texts of tokens -/

/-- While a node is made, the texts that it will get stand alone. -/
theorem stored_copy (text : String) :
    (stored unit source config).Keeps ahead [] (copy text) (fun text => held [text])
      fun _ => ahead := by
  intro scope others s _ _ ha hs
  have hcopied := Progress.Stored.copied hs text
  refine ⟨(s.rest_edited _).symm ▸ ha, hcopied.uncopied _ fun known hknown => ?_⟩
  rcases List.mem_append.1 (rootTexts_append _ _ ▸ hknown) with hheld | hother
  · refine (text_of_mem_held hheld).imp_left fun h => ?_
    exact List.mem_cons.2 (.inl (List.eq_of_mem_singleton h))
  · exact .inl (List.mem_cons_of_mem _ hother)

/-- A text that is no copy can be written as it is. -/
theorem stored_uncopied {text : Text} (h : text.isCopied = false) :
    (stored unit source config).Keeps ahead [] (pure text) (fun text => held [text])
      fun _ => ahead := by
  intro scope others s _ _ ha hs
  refine ⟨ha, Progress.Stored.uncopied hs _ fun known hknown => ?_⟩
  rcases List.mem_append.1 (rootTexts_append _ _ ▸ hknown) with hheld | hother
  · refine .inr ((text_of_mem_held hheld).elim (fun hmem => ?_) id)
    rw [List.eq_of_mem_singleton hmem, h]
  · exact .inl hother

theorem stored_quotedText (quote : Char) (t : Token) :
    (stored unit source config).Keeps ahead [] (quotedText quote t) (fun text => held [text])
      fun _ => ahead := by
  intro scope others s hsource hconfig ha hs
  unfold Parser.quotedText
  generalize t.span.inner 1 = inner
  rw [read_run]
  rcases scope.source.slice? inner.start inner.stop with _ | body
  · exact ⟨trivial, [], hs⟩
  · by_cases hquote : body.contains quote
    · simp only [hquote, if_true]
      exact stored_copy _ scope others s hsource hconfig ha hs
    · simp only [hquote]
      exact stored_uncopied rfl scope others s hsource hconfig ha hs

theorem stored_tokenText (t : Token) :
    (stored unit source config).Keeps ahead [] (tokenText t) (fun text => held [text])
      fun _ => ahead := by
  unfold Parser.tokenText
  split
  · exact stored_quotedText _ t
  · split
    · exact stored_uncopied rfl
    · exact stored_uncopied rfl
    · exact stored_quotedText _ t
  · exact stored_uncopied rfl
  · exact stored_uncopied rfl

theorem stored_tokenTexts : ∀ tokens : List Token,
    (stored unit source config).Keeps anything [] (tokenTexts tokens) held
      fun texts _ => texts.length = tokens.length
  | [] => by
    unfold tokenTexts
    rw [List.mapM_nil]
    exact Keeps.pure (a := []) held fun _ _ => rfl
  | t :: tokens => by
    unfold tokenTexts
    rw [List.mapM_cons]
    refine Keeps.bind (stored_tokenText t) fun text => ?_
    refine ((stored_tokenTexts tokens).frame (held [text])).bind fun texts => ?_
    have hdone : (stored unit source config).Keeps (fun _ => texts.length = tokens.length)
        (held (text :: texts)) (pure (text :: texts)) held
        fun texts _ => texts.length = (t :: tokens).length :=
      Keeps.pure (a := text :: texts) held fun _ hlength => congrArg (· + 1) hlength
    exact hdone.relax stored_perm (fun _ h => h) List.perm_append_comm (fun _ _ _ => .refl _)
      fun _ _ h => h

/-- The texts of tokens are written into a node that was made in between. -/
theorem stored_inscribe {base : Parser Tree} {tokens : List Token}
    {change : List Text → Node → Node} {fact : Tree → Prop}
    (hc : Inscribes tokens.length change)
    (hbase : (stored unit source config).Keeps anything pre base one fun t _ => fact t) :
    (stored unit source config).Keeps anything pre (inscribe tokens base change) one fun u _ =>
      ∃ t, fact t ∧ u.head.Alike t.head := by
  refine Keeps.step (stored_tokenTexts tokens) fun texts => ?_
  refine .given (fun r hlength => ⟨hlength, trivial⟩) fun hlength => ?_
  have hmade : (stored unit source config).Keeps anything (held texts ++ pre) base
      (fun t => t :: held texts) fun t _ => fact t :=
    (hbase.frame (held texts)).relax stored_perm (fun _ h => h) List.perm_append_comm
      (fun _ _ _ => .refl _) fun _ _ h => h
  refine hmade.bind fun t => .given (fun r ht => ⟨ht, trivial⟩) fun ht => ?_
  have hwrite : (stored unit source config).Keeps anything (t :: held texts)
      (amend t (change texts)) one fun u r => u = t.mapHead (change texts) ∧ anything r := by
    refine stored_write texts (fun n => (hc.alike texts n).id) fun n text htext => ?_
    obtain ⟨kept, empty, hkept, hempty, hperm⟩ := hc.texts (n := n) hlength
    rcases List.mem_append.1 (hperm.mem_iff.1 htext) with hmem | hmem
    · exact (List.mem_append.1 hmem).symm.imp (fun h => hkept.subset h) .inl
    · rw [hempty text hmem]
      exact .inr (.inr rfl)
  exact hwrite.weaken fun u _ hu => ⟨t, ht, hu.1 ▸ t.alike_mapHead (hc.alike texts)⟩

theorem stored_inscribeType {base : Parser Tree} {fact : Tree → Prop}
    (hname : (stored unit source config).Keeps anything [] typeName silent fun _ _ => True)
    (hbase : (stored unit source config).Keeps anything pre base one fun t _ => fact t) :
    (stored unit source config).Keeps anything pre (inscribeType base) (fun r => one r.1) fun r _ =>
      ∃ t, fact t ∧ r.1.head.Alike t.head := by
  have htext : (stored unit source config).Keeps anything [] typeName silent
      fun r _ => r.1.isCopied = false := by
    intro scope others s hsource hconfig ha hs
    have hnamed := hname scope others s hsource hconfig ha hs
    rcases hrun : typeName scope s with ⟨⟨text, dataType⟩, p⟩ | ⟨f, p⟩ <;> rw [hrun] at hnamed
    · obtain ⟨_, _, -, -, rfl⟩ := exists_of_typeName hrun
      exact ⟨rfl, hnamed.2⟩
    · exact hnamed
  refine htext.read fun r => .given (fun _ h => ⟨h, trivial⟩) fun huncopied => ?_
  refine hbase.bind fun t => .given (fun _ ht => ⟨ht, trivial⟩) fun ht => ?_
  have hwrite : (stored unit source config).Keeps anything [t]
      (amend t fun n => { n with text := r.1, dataType := some r.2 }) one fun u _ =>
        u = t.mapHead (fun n => { n with text := r.1, dataType := some r.2 }) ∧ True := by
    refine stored_write [] (fun _ => rfl) fun n text htext => ?_
    rcases List.mem_cons.1 htext with rfl | hother
    · exact .inr (.inr huncopied)
    · exact .inl (List.mem_cons_of_mem _ hother)
  refine hwrite.bind fun u => Keeps.pure (a := (u, r.2)) (fun r => one r.1) fun _ hu => ⟨t, ht, ?_⟩
  rw [hu.1]
  cases t
  exact ⟨rfl, rfl, rfl, rfl, rfl⟩

theorem stored_allows (unit : Nat) (source : Source) (config : Config) (inner : Nested) :
    (stored unit source config).Allows (openTerms config inner) where
  config := rfl
  perm := stored_perm
  known _ _ _ := trivial
  advanced _ hs := Progress.Stored.congr hs rfl rfl rfl rfl
  deepened hs := Progress.Stored.congr hs rfl rfl rfl rfl
  fairAt _ _ := trivial
  fairEnd _ := trivial
  nodeAt kind _ := stored_newNode kind _ _
  nodeOver := stored_nodeOver
  amend hc _ := stored_amend hc
  attach child _ := stored_attach _ child
  prepend child _ := stored_prepend _ child
  inscribe _ hc hbase _ := stored_inscribe hc hbase
  inscribeType hname hbase _ := stored_inscribeType hname hbase

theorem stored_serves (unit : Nat) (source : Source) (config : Config) :
    ∀ n, (stored unit source config).Serves (fun _ _ _ => True) (Nested.upTo n) :=
  Allows.serves (stored_allows unit source config) fun _ hinner power =>
    (expression_yields (fun _ => rfl) power).keeps (stored_allows unit source config _) hinner

end Law

/-! ## Runs -/

variable {unit : Nat} {scope : Scope} {s : Progress} {α : Type}

theorem Parser.run_stored {p : Parser α} {post : α → List Tree} {fact : α → List Token → Prop}
    (h : (Law.stored unit scope.source scope.config).Keeps Law.anything [] p post fact)
    (hs : s.Stored unit []) : (p.run scope s).progress.Stored unit [] := by
  have hout := h scope [] s rfl rfl trivial hs
  unfold Parser.run
  rcases hrun : p scope s with ⟨a, r⟩ | ⟨f, r⟩ <;> rw [hrun] at hout
  · have hr : r.Stored unit [] := Progress.Stored.subset hout.2 (List.nil_subset _)
    dsimp only
    split <;> exact hr
  · obtain ⟨-, left, hr⟩ := hout
    exact Progress.Stored.subset hr (List.nil_subset _)

namespace Script

theorem single_stored (scope : Scope) (hs : s.Stored unit []) :
    (single.run scope s).progress.Stored unit [] :=
  run_stored (Law.single_keeps (Law.stored_allows unit scope.source scope.config)
    (Law.stored_serves unit scope.source scope.config)) hs

theorem all_stored (scope : Scope) (hs : s.Stored unit []) :
    (all.run scope s).progress.Stored unit [] :=
  run_stored (Law.all_keeps (Law.stored_allows unit scope.source scope.config)
    (Law.stored_serves unit scope.source scope.config)) hs

theorem next?_stored (scope : Scope) (hs : s.Stored unit []) :
    (next?.run scope s).progress.Stored unit [] :=
  run_stored (Law.next?_keeps (Law.stored_allows unit scope.source scope.config)
    (Law.stored_serves unit scope.source scope.config)) hs

theorem synchronize_stored (scope : Scope) (hs : s.Stored unit []) :
    (synchronize.run scope s).progress.Stored unit [] :=
  run_stored (Law.stored_allows unit scope.source scope.config (Nested.upTo 0)).synchronize hs

theorem recoverFor_stored (scope : Scope) (n : Nat) (hs : s.Stored unit []) :
    (recoverFor scope n s).2.2.Stored unit [] := by
  induction n generalizing s with
  | zero => exact hs
  | succ n ih =>
    have hnext := next?_stored scope hs
    rw [recoverFor]
    generalize next?.run scope s = r at hnext ⊢
    obtain ⟨f | _ | root, p⟩ := r
    · exact ih (synchronize_stored scope hnext)
    · exact hnext
    · exact ih hnext

end Script

/-! ## Calls -/

theorem Store.Wellkept.reset {s : Store} (h : s.Wellkept unit) : s.reset.Wellkept unit :=
  ⟨⟨0, h.nodes.elim fun _ holds => holds.reset⟩, h.unit, h.strings.reset⟩

/-- An emptied store represents an emptied forest. -/
theorem Store.Wellkept.represents_reset {s : Store} (h : s.Wellkept unit) (f : Forest) :
    ∃ S : Frame, S.unit = unit ∧ s.reset.Represents S f.reset := by
  let S : Frame := {
    unit
    tag := s.reset.nodes.generation
    generation := f.reset.generation
    strings := s.reset.strings
    copies := []
    holds := h.reset.strings }
  have hempty : ∀ {i : Nat} {e : Entry}, f.reset.entries[i]? = some e → False :=
    fun he => by simp [Forest.reset] at he
  refine ⟨S, rfl, ?_⟩
  exact {
    generation := rfl
    unit := h.unit
    tag := rfl
    strings := rfl
    copies := rfl
    holds := h.nodes.elim fun _ holds => holds.reset
    nextId := rfl
    handles := rfl
    entries := fun he => (hempty he).elim
    numbered := fun he => (hempty he).elim
    granted := rfl }

theorem Session.start_stored {session : Session} (h : session.last.store.Wellkept unit)
    (tokens : List Token) : (session.start tokens).Stored unit [] :=
  ⟨h.reset, fun _ => .inl {
    represents := h.represents_reset session.last.forest
    lists := ⟨fun _ => [], Forest.lists_of_empty rfl⟩
    used := session.last.store.strings.used_reset
    known := List.forall_mem_nil _ }⟩

end SqlSyntax
