import SqlSyntax.Proofs.Limits
import SqlSyntax.Proofs.Texts

/-!
# What becomes of texts

The texts of a node are taken from tokens before the node is made, and written into it after that.
At each point of a run the nodes hold all copies that were made so far (`Law.faithful`), if a text
that is taken, but not written yet, counts as a node of its own. No step takes a copy away, but one
that gives a constraint for a collation a name of its own: it writes over the name of the collation.
-/

namespace SqlSyntax

open SqlSyntax.Parser

/-! ## The nodes of trees -/

/-- The root nodes of the subtrees, each before those of its children. -/
def Tree.heads (t : Tree) : List Node := t.preorder.map Tree.head

theorem Tree.heads_node (n : Node) (cs : List Tree) :
    heads (.node n cs) = n :: cs.flatMap heads := by
  rw [heads, preorder_node, List.map_cons, List.map_flatMap]
  rfl

theorem Tree.heads_leaf (n : Node) : heads (leaf n) = [n] := heads_node n []

theorem Tree.heads_eq (t : Tree) : t.heads = t.head :: t.children.flatMap heads := by
  cases t
  exact heads_node _ _

theorem Tree.heads_mapHead (f : Node → Node) (t : Tree) :
    (t.mapHead f).heads = f t.head :: t.children.flatMap heads := by
  cases t
  exact heads_node _ _

theorem Tree.heads_append (t child : Tree) :
    (t.append [child]).heads = t.heads ++ child.heads := by
  rw [append, heads_node, heads_eq t, List.flatMap_append, List.cons_append]
  simp

theorem Tree.heads_prepend (t child : Tree) :
    (t.prepend child).heads.Perm (child.heads ++ t.heads) := by
  rw [prepend, heads_node, heads_eq t, List.flatMap_cons]
  exact List.perm_middle.symm

/-! ## Texts of nodes -/

theorem Text.sum_none {texts : List Text} (h : ∀ text ∈ texts, text = .none) :
    (texts.map copiedBytes).sum = 0 := by
  refine List.sum_eq_zero_iff_forall_eq_nat.2 fun k hk => ?_
  obtain ⟨text, htext, rfl⟩ := List.mem_map.1 hk
  rw [h text htext]
  rfl

theorem Text.sum_isCopied (texts : List Text) :
    ((texts.filter isCopied).map copiedBytes).sum = (texts.map copiedBytes).sum := by
  induction texts with
  | nil => rfl
  | cons text texts ih =>
    cases text <;> simp [List.filter_cons, Text.isCopied, Text.copiedBytes, ih]

/-- The bytes of the texts of a node that are copies. -/
def Node.copiedBytes (n : Node) : Nat := (n.texts.map Text.copiedBytes).sum

/-- The bytes of the texts of a tree that are copies. -/
def Tree.copiedBytes (t : Tree) : Nat := (t.heads.map Node.copiedBytes).sum

/-- The text reaches from one token of the source to the end of another. -/
def Text.Reaches (source : Source) (text : Text) : Prop :=
  ∃ first ∈ tokenize source, ∃ last ∈ tokenize source,
    first.span.start ≤ last.span.stop ∧ text = .slice ⟨first.span.start, last.span.stop⟩

/-- Each text of the node comes from a token, but for the name of a type. -/
def Node.Told (source : Source) (n : Node) : Prop :=
  ∀ text ∈ n.texts, text = .none ∨ (∃ t ∈ tokenize source, text.TakenFrom source t) ∨
    n.kind.namesType ∧ text.Reaches source

/-- The node is for a collation and starts with `CONSTRAINT`, so it has a name of its own. -/
def Node.Renamed (source : Source) (n : Node) : Prop :=
  n.kind = .collateConstraint ∧
    ∃ word ∈ tokenize source, word.kind = .keyword .CONSTRAINT ∧ n.span.start = word.span.start

namespace Node

variable {source : Source} {m n : Node}

theorem Blank.told (h : n.Blank) : n.Told source := fun text htext => .inl (h text htext)

theorem Blank.copiedBytes (h : n.Blank) : n.copiedBytes = 0 := Text.sum_none h

theorem Kept.told (h : m.Kept n) (hn : n.Told source) : m.Told source := by
  unfold Told
  rw [h.texts, h.kind]
  exact hn

theorem Kept.copiedBytes (h : m.Kept n) : m.copiedBytes = n.copiedBytes := by
  unfold Node.copiedBytes
  rw [h.texts]

theorem Renamed.alike (h : n.Renamed source) (hm : m.Alike n) : m.Renamed source := by
  unfold Renamed
  rw [hm.kind, hm.start]
  exact h

/-- The name of a type is the first text of its node. -/
theorem Blank.typed {text : Text} (h : n.Blank) (hkind : n.kind.namesType)
    (htext : text.Reaches source) (dataType : Option DataType) :
    ({ n with text, dataType } : Node).Told source ∧
      ({ n with text, dataType } : Node).copiedBytes = 0 := by
  have hothers := (List.forall_mem_cons.1 h).2
  refine ⟨List.forall_mem_cons.2 ⟨.inr (.inr ⟨hkind, htext⟩), fun u hu => .inl (hothers u hu)⟩, ?_⟩
  obtain ⟨_, -, _, -, -, rfl⟩ := htext
  exact (Nat.zero_add _).trans (Text.sum_none hothers)

end Node

/-! ## What a run keeps of its texts -/

namespace Progress

/-- So far the run has come in the tokens of the source. -/
def Reads (source : Source) (s : Progress) : Prop :=
  ∃ passed, tokenize source = passed ++ s.rest ∧ ∀ t ∈ passed.getLast?, s.lastEnd = t.span.stop

/-- The nodes hold all texts that were copied, but for lost ones. These were names of collations,
each in a constraint that then was given a name of its own. -/
structure Holds (source : Source) (ns : List Node) (s : Progress) (lost : List Text) : Prop where
  copies : ∀ text ∈ lost, text.isCopied = true ∧ ∃ t ∈ tokenize source, text.TakenFrom source t
  copied : s.copied = (ns.map Node.copiedBytes).sum + (lost.map Text.copiedBytes).sum
  renamed : lost ≠ [] → ∃ n ∈ ns, n.Renamed source

/-- The nodes hold what the run took from the tokens of the source. -/
structure Faithful (source : Source) (ns : List Node) (s : Progress) : Prop where
  reads : s.Reads source
  told : ∀ n ∈ ns, n.Told source
  holds : ∃ lost, s.Holds source ns lost

/-- What lies between two points of a run is a text of the source. -/
theorem Reads.reaches {source : Source} {s r : Progress} {first : Token} {rest : List Token}
    (hs : s.Reads source) (hr : r.Reads source) (hrest : s.rest = first :: rest)
    (hsuffix : r.rest <:+ rest) :
    Text.Reaches source (.slice ⟨first.span.start, r.lastEnd⟩) := by
  obtain ⟨before, hbefore, -⟩ := hs
  obtain ⟨passed, hpassed, hlast⟩ := hr
  obtain ⟨between, rfl⟩ := hsuffix
  have htokens : tokenize source = before ++ first :: between ++ r.rest := by
    rw [hbefore, hrest, List.append_assoc, List.cons_append]
  obtain rfl := List.append_cancel_right (hpassed.symm.trans htokens)
  have hmem : ∀ t ∈ first :: between, t ∈ tokenize source := fun t ht => by
    rw [htokens]
    exact List.mem_append_left _ (List.mem_append_right _ ht)
  have hne := List.cons_ne_nil first between
  have hend := List.getLast_mem hne
  have hlast := hlast _ (by
    rw [List.getLast?_append_of_ne_nil _ hne]
    exact List.getLast_mem_getLast? hne)
  refine ⟨first, hmem first List.mem_cons_self, _, hmem _ hend, ?_, by rw [hlast]⟩
  have hstop := start_lt_stop_of_mem_tokenize (hmem _ hend)
  rcases List.mem_cons.1 hend with hfirst | hbetween
  · rw [hfirst] at hstop ⊢
    exact Nat.le_of_lt hstop
  · have hsublist : (first :: between).Sublist (tokenize source) := by
      rw [htokens]
      exact (List.sublist_append_right _ _).trans (List.sublist_append_left _ _)
    have hstart := (List.pairwise_cons.1 ((tokenize_pairwise source).sublist hsublist)).1 _ hbetween
    exact Nat.le_of_lt (Nat.lt_trans hstart hstop)

namespace Faithful

variable {source : Source} {m n : Node} {ns ms : List Node} {s r : Progress} {t : Token}
  {rest : List Token} {texts : List Text}

theorem perm (h : s.Faithful source ns) (hp : ns.Perm ms) : s.Faithful source ms where
  reads := h.reads
  told n hn := h.told n (hp.mem_iff.2 hn)
  holds := by
    obtain ⟨lost, hlost⟩ := h.holds
    refine ⟨lost, hlost.copies, ?_, fun hne => ?_⟩
    · rw [hlost.copied, (hp.map _).sum_nat]
    · obtain ⟨n, hn, hrenamed⟩ := hlost.renamed hne
      exact ⟨n, hp.mem_iff.1 hn, hrenamed⟩

/-- A step that copies nothing. -/
theorem stored (h : s.Faithful source ns) (hr : s.Copies 0 r) : r.Faithful source ns where
  reads := by
    unfold Reads
    rw [hr.rest, hr.lastEnd]
    exact h.reads
  told := h.told
  holds := by
    obtain ⟨lost, hlost⟩ := h.holds
    exact ⟨lost, hlost.copies, hr.copied.trans hlost.copied, hlost.renamed⟩

theorem advanced (h : s.Faithful source ns) (hrest : s.rest = t :: rest) :
    (s.advanced t rest).Faithful source ns where
  reads := by
    obtain ⟨passed, hpassed, -⟩ := h.reads
    refine ⟨passed ++ [t], ?_, fun u hu => ?_⟩
    · rw [hpassed, hrest]
      simp [Progress.advanced]
    · rw [List.getLast?_concat] at hu
      obtain rfl := Option.some.inj hu
      rfl
  told := h.told
  holds := by
    obtain ⟨lost, hlost⟩ := h.holds
    exact ⟨lost, hlost.copies, hlost.copied, hlost.renamed⟩

/-- A new node takes nothing away. -/
theorem blank (h : s.Faithful source ns) (hn : n.Blank) : s.Faithful source (n :: ns) where
  reads := h.reads
  told := List.forall_mem_cons.2 ⟨hn.told, h.told⟩
  holds := by
    obtain ⟨lost, hlost⟩ := h.holds
    refine ⟨lost, hlost.copies, ?_, fun hne => ?_⟩
    · rw [hlost.copied, List.map_cons, List.sum_cons, hn.copiedBytes, Nat.zero_add]
    · obtain ⟨m, hm, hrenamed⟩ := hlost.renamed hne
      exact ⟨m, List.mem_cons_of_mem n hm, hrenamed⟩

/-- A change of a node that neither adds copies to it nor takes any away. -/
theorem amended (h : s.Faithful source (n :: ns)) (ha : m.Alike n) (hm : m.Told source)
    (hbytes : m.copiedBytes = n.copiedBytes) : s.Faithful source (m :: ns) where
  reads := h.reads
  told := List.forall_mem_cons.2 ⟨hm, (List.forall_mem_cons.1 h.told).2⟩
  holds := by
    obtain ⟨lost, hlost⟩ := h.holds
    refine ⟨lost, hlost.copies, ?_, fun hne => ?_⟩
    · rw [hlost.copied, List.map_cons, List.map_cons, List.sum_cons, List.sum_cons, hbytes]
    · obtain ⟨k, hk, hrenamed⟩ := hlost.renamed hne
      rcases List.mem_cons.1 hk with rfl | hk
      · exact ⟨m, List.mem_cons_self, hrenamed.alike ha⟩
      · exact ⟨k, List.mem_cons_of_mem m hk, hrenamed⟩

end Faithful

end Progress

/-! ## Texts on their way into a node -/

/-- A node that holds only a text: it stands for one that is taken from its token, but not yet
written into its node. -/
def Node.holding (text : Text) : Node :=
  { kind := .identifier, id := 0, text, location := {}, span := ⟨0, 0⟩ }

theorem Node.sum_holding (texts : List Text) :
    ((texts.map holding).map copiedBytes).sum = (texts.map Text.copiedBytes).sum := by
  rw [List.map_map]
  exact congrArg List.sum (List.map_congr_left fun text _ => Nat.add_zero text.copiedBytes)

theorem Node.told_holding {source : Source} {text : Text}
    (h : ∃ t ∈ tokenize source, text.TakenFrom source t) : (holding text).Told source := by
  intro u hu
  rcases List.mem_cons.1 hu with rfl | hu
  · exact .inr (.inl h)
  · exact .inl (List.eq_of_mem_replicate (show u ∈ List.replicate 3 Text.none from hu))

theorem Node.Told.of_holding {source : Source} {text : Text} (h : (holding text).Told source) :
    text = .none ∨ ∃ t ∈ tokenize source, text.TakenFrom source t :=
  (h text List.mem_cons_self).imp_right fun h => h.resolve_right nofun

theorem Node.Told.exists_from {source : Source} {n : Node} {text : Text} (h : n.Told source)
    (htext : text ∈ n.texts) (hcopied : text.isCopied = true) :
    ∃ t ∈ tokenize source, text.TakenFrom source t := by
  rcases h text htext with rfl | hfrom | ⟨-, _, -, _, -, -, rfl⟩
  · cases hcopied
  · exact hfrom
  · cases hcopied

namespace Inscribes

variable {source : Source} {count : Nat} {change : List Text → Node → Node} {texts : List Text}
  {n : Node}

theorem told (hc : Inscribes texts.length change) (hn : n.Told source)
    (htexts : ∀ text ∈ texts, text = .none ∨ ∃ t ∈ tokenize source, text.TakenFrom source t) :
    (change texts n).Told source := by
  obtain ⟨kept, empty, hkept, hempty, hperm⟩ := hc.texts (n := n) rfl
  intro text htext
  rw [(hc.alike texts n).kind]
  rcases List.mem_append.1 (hperm.mem_iff.1 htext) with htext | htext
  · rcases List.mem_append.1 htext with htext | htext
    · exact (htexts text htext).imp_right .inl
    · exact hn text (hkept.subset htext)
  · exact .inl (hempty text htext)

/-- The copies that a node has no more come from the texts that it held. -/
theorem exists_dropped (hc : Inscribes texts.length change) (n : Node) :
    ∃ dropped : List Text, (∀ text ∈ dropped, text ∈ n.texts ∧ text.isCopied = true) ∧
      n.copiedBytes + (texts.map Text.copiedBytes).sum =
        (change texts n).copiedBytes + (dropped.map Text.copiedBytes).sum := by
  obtain ⟨kept, empty, hkept, hempty, hperm⟩ := hc.texts (n := n) rfl
  obtain ⟨dropped, hdropped⟩ := hkept.exists_perm_append
  refine ⟨dropped.filter Text.isCopied, fun text htext => ?_, ?_⟩
  · obtain ⟨htext, hcopied⟩ := List.mem_filter.1 htext
    exact ⟨hdropped.mem_iff.2 (List.mem_append_right _ htext), hcopied⟩
  · have hbefore : n.copiedBytes =
        (kept.map Text.copiedBytes).sum + (dropped.map Text.copiedBytes).sum := by
      rw [Node.copiedBytes, (hdropped.map _).sum_nat, List.map_append, List.sum_append_nat]
    have hafter : (change texts n).copiedBytes =
        (texts.map Text.copiedBytes).sum + (kept.map Text.copiedBytes).sum := by
      rw [Node.copiedBytes, (hperm.map _).sum_nat, List.map_append, List.map_append,
        List.sum_append_nat, List.sum_append_nat, Text.sum_none hempty, Nat.add_zero]
    rw [hbefore, hafter, Text.sum_isCopied]
    omega

end Inscribes

/-- A text that is there can be read. -/
theorem Node.Told.isSome_resolve {source : Source} {n : Node} {text : Text} (h : n.Told source)
    (hfits : source.Fits) (htext : text ∈ n.texts) (hne : text ≠ .none) :
    (text.resolve source).isSome := by
  rcases (h text htext).resolve_left hne with ⟨t, ht, hfrom⟩ | ⟨-, t, ht, u, hu, hle, rfl⟩
  · exact (hfrom.tells hfits ht).1
  · exact isSome_at?_between ht hu hle

namespace Progress.Faithful

variable {source : Source} {n : Node} {ns : List Node} {s r : Progress} {texts : List Text}

/-- Texts of tokens are taken, and stand alone. -/
theorem taken (h : s.Faithful source ns)
    (hfrom : ∀ text ∈ texts, ∃ t ∈ tokenize source, text.TakenFrom source t)
    (hr : s.Copies (texts.map Text.copiedBytes).sum r) :
    r.Faithful source (texts.map Node.holding ++ ns) where
  reads := by
    unfold Reads
    rw [hr.rest, hr.lastEnd]
    exact h.reads
  told := by
    refine List.forall_mem_append.2 ⟨fun n hn => ?_, h.told⟩
    obtain ⟨text, htext, rfl⟩ := List.mem_map.1 hn
    exact Node.told_holding (hfrom text htext)
  holds := by
    obtain ⟨lost, hlost⟩ := h.holds
    refine ⟨lost, hlost.copies, ?_, fun hne => ?_⟩
    · rw [hr.copied, hlost.copied, List.map_append, List.sum_append_nat, Node.sum_holding]
      omega
    · obtain ⟨n, hn, hrenamed⟩ := hlost.renamed hne
      exact ⟨n, List.mem_append_right _ hn, hrenamed⟩

/-- Texts that stand alone are written into a node. Copies that it held in their places are lost,
but it holds none if it is not a collation that gets a name of its own. -/
theorem inscribed {change : List Text → Node → Node}
    (h : s.Faithful source (n :: (texts.map Node.holding ++ ns)))
    (hc : Inscribes texts.length change) (hn : n.Blank ∨ n.Renamed source) :
    s.Faithful source (change texts n :: ns) := by
  obtain ⟨htold, hrest⟩ := List.forall_mem_cons.1 h.told
  obtain ⟨htaken, hothers⟩ := List.forall_mem_append.1 hrest
  obtain ⟨lost, hlost⟩ := h.holds
  obtain ⟨dropped, hdropped, hbytes⟩ := hc.exists_dropped n
  have halike := hc.alike texts n
  have hfrom : ∀ text ∈ texts, text = .none ∨ ∃ t ∈ tokenize source, text.TakenFrom source t :=
    fun _ htext => (htaken _ (List.mem_map_of_mem htext)).of_holding
  refine ⟨h.reads, List.forall_mem_cons.2 ⟨hc.told htold hfrom, hothers⟩, lost ++ dropped, ?_, ?_,
    fun hne => ?_⟩
  · refine List.forall_mem_append.2 ⟨hlost.copies, fun text htext => ?_⟩
    obtain ⟨htext, hcopied⟩ := hdropped text htext
    exact ⟨hcopied, htold.exists_from htext hcopied⟩
  · rw [hlost.copied, List.map_cons, List.map_cons, List.sum_cons, List.sum_cons, List.map_append,
      List.sum_append_nat, Node.sum_holding, List.map_append, List.sum_append_nat]
    omega
  · rcases List.eq_nil_or_concat' dropped with rfl | ⟨texts', text, rfl⟩
    · rw [List.append_nil] at hne
      obtain ⟨m, hm, hrenamed⟩ := hlost.renamed hne
      rcases List.mem_cons.1 hm with rfl | hm
      · exact ⟨_, List.mem_cons_self, hrenamed.alike halike⟩
      · rcases List.mem_append.1 hm with hm | hm
        · obtain ⟨text, -, rfl⟩ := List.mem_map.1 hm
          cases hrenamed.1
        · exact ⟨m, List.mem_cons_of_mem _ hm, hrenamed⟩
    · obtain ⟨htext, hcopied⟩ := hdropped text List.mem_concat_self
      refine ⟨_, List.mem_cons_self, (hn.resolve_left fun hblank => ?_).alike halike⟩
      rw [hblank text htext] at hcopied
      cases hcopied

end Progress.Faithful

/-! ## The steps -/

/-- The texts of tokens are taken one after the other. -/
theorem exists_tokenTexts {source : Source} {scope : Scope} (hfits : source.Fits)
    (hscope : scope.source = source) : ∀ {tokens : List Token},
      (∀ t ∈ tokens, t ∈ tokenize source) → ∀ s : Progress,
        ∃ texts r, tokenTexts tokens scope s = .ok texts r ∧ texts.length = tokens.length ∧
          (∀ text ∈ texts, ∃ t ∈ tokenize source, text.TakenFrom source t) ∧
          s.Copies (texts.map Text.copiedBytes).sum r
  | [], _, s => ⟨[], s, by unfold tokenTexts; rw [List.mapM_nil]; rfl, rfl, nofun, .refl s⟩
  | t :: tokens, h, s => by
    obtain ⟨ht, htokens⟩ := List.forall_mem_cons.1 h
    obtain ⟨text, p, hrun, hfrom, hp⟩ := exists_tokenText hfits ht hscope s
    obtain ⟨texts, r, hruns, hlength, hfroms, hr⟩ := exists_tokenTexts hfits hscope htokens p
    refine ⟨text :: texts, r, ?_, congrArg (· + 1) hlength,
      List.forall_mem_cons.2 ⟨⟨t, ht, hfrom⟩, hfroms⟩, hp.trans hr⟩
    unfold tokenTexts at hruns ⊢
    rw [List.mapM_cons, bind_ok hrun, bind_ok hruns]
    rfl

namespace Law

variable {source : Source} {config : Config} {ahead : List Token → Prop} {pre : List Tree}

/-- The nodes of the detached trees hold what a run took from the tokens. -/
def faithful (source : Source) (config : Config) : Law :=
  ⟨source, config, fun ts s => s.Faithful source (ts.flatMap Tree.heads), fun _ _ => True⟩

/-- What a production may rely on: its tokens are those of the source. -/
def sourceTerms (source : Source) (config : Config) (inner : Nested) : Terms :=
  ⟨config, inner, (· ∈ tokenize source), fun _ => false, fun _ _ => rfl⟩

theorem faithful_perm {ts us : List Tree} {s : Progress} (hp : ts.Perm us)
    (h : (faithful source config).Holds ts s) : (faithful source config).Holds us s :=
  Progress.Faithful.perm h (hp.flatMap_right _)

/-- An edit of the stored nodes has no part in the law. -/
theorem faithful_edit (ts : List Tree) (c : Command) :
    (faithful source config).Keeps ahead ts (edit c) (fun _ => ts) fun _ => ahead := by
  intro scope others s _ _ ha hs
  exact ⟨(s.rest_edited c).symm ▸ ha, hs.stored (.edited s c)⟩

/-- A tree is made of others by an edit and as a value. -/
theorem faithful_make {t : Tree} (c : Command) (h : ∀ {ns} {s : Progress},
      s.Faithful source (pre.flatMap Tree.heads ++ ns) → s.Faithful source (t.heads ++ ns)) :
    (faithful source config).Keeps ahead pre (do edit c; return t) one fun u r =>
      u = t ∧ ahead r := by
  refine (faithful_edit pre c).bind fun _ _ others s _ _ ha hs => ⟨⟨rfl, ha⟩, ?_⟩
  have hs : s.Faithful source ((pre ++ others).flatMap Tree.heads) := hs
  rw [List.flatMap_append] at hs
  show s.Faithful source ((t :: others).flatMap Tree.heads)
  rw [List.flatMap_cons]
  exact h hs

theorem faithful_newNode (kind : Kind) (location : Location) (span : Span) :
    (faithful source config).Keeps ahead [] (newNode kind location span) one fun u r =>
      u.Fresh kind span.start ∧ ahead r := by
  intro scope others s hsource hconfig ha hs
  have hedit : (faithful source config).Keeps ahead []
      (edit (.alloc kind location span scope.context)) (fun _ => []) fun _ => ahead :=
    faithful_edit [] _
  obtain ⟨ha, hs⟩ := hedit scope others s hsource hconfig ha hs
  have hfresh := fun id => Tree.Fresh.leaf kind id scope.context location span
  have hnew := fun id => Progress.Faithful.blank hs (hfresh id).blank
  exact ⟨⟨hfresh _, ha⟩, (hnew _).stored ⟨rfl, rfl, rfl⟩⟩

theorem faithful_nodeOver (kind : Kind) (first : Tree) :
    (faithful source config).Keeps ahead [first] (nodeOver kind first) (fun t => [first, t])
      fun u r => u.Fresh kind first.head.span.start ∧ ahead r := by
  refine (faithful_edit [first] _).bind fun _ => ?_
  have hnew : (faithful source config).Keeps ahead [first] _ _ _ :=
    (faithful_newNode kind first.head.location first.head.span).frame [first]
  exact hnew.relax faithful_perm (fun _ h => h) (.refl _) (fun t _ _ => .swap first t [])
    fun _ _ h => h

theorem faithful_amend {t : Tree} {change : Node → Node} (hc : ∀ n, (change n).Kept n) :
    (faithful source config).Keeps ahead [t] (amend t change) one fun u r =>
      u = t.mapHead change ∧ ahead r := by
  refine faithful_make _ fun {ns s} hs => ?_
  rw [List.flatMap_singleton, Tree.heads_eq] at hs
  rw [Tree.heads_mapHead]
  have htold := hs.told t.head List.mem_cons_self
  exact hs.amended (hc t.head).toAlike ((hc t.head).told htold) (hc t.head).copiedBytes

theorem faithful_attach (parent child : Tree) :
    (faithful source config).Keeps ahead [child, parent] (attach parent child) one fun u r =>
      u = parent.append [child] ∧ ahead r := by
  refine faithful_make _ fun {ns s} hs => hs.perm (List.Perm.append_right ns ?_)
  rw [Tree.heads_append, List.flatMap_cons, List.flatMap_singleton]
  exact List.perm_append_comm

theorem faithful_prepend (parent child : Tree) :
    (faithful source config).Keeps ahead [child, parent] (prepend parent child) one fun u r =>
      u = parent.prepend child ∧ ahead r := by
  refine faithful_make _ fun {ns s} hs => hs.perm (List.Perm.append_right ns ?_)
  rw [List.flatMap_cons, List.flatMap_singleton]
  exact (parent.heads_prepend child).symm

/-- Trees for texts that stand alone. -/
def held (texts : List Text) : List Tree := texts.map fun text => .leaf (.holding text)

theorem heads_held (texts : List Text) :
    (held texts).flatMap Tree.heads = texts.map Node.holding := by
  rw [held, List.flatMap_map, List.map_eq_flatMap]
  exact List.flatMap_congr fun text _ => Tree.heads_leaf _

/-- While a node is made, the texts that it will get stand alone. -/
theorem faithful_inscribe (hfits : source.Fits) {base : Parser Tree} {tokens : List Token}
    {change : List Text → Node → Node} {fact : Tree → Prop} {inner : Nested}
    (htokens : ∀ t ∈ tokens, t ∈ tokenize source) (hc : Inscribes tokens.length change)
    (hbase : (faithful source config).Keeps anything pre base one fun t _ => fact t)
    (hfact : ∀ t, fact t → (sourceTerms source config inner).writable t) :
    (faithful source config).Keeps anything pre (inscribe tokens base change) one fun u _ =>
      ∃ t, fact t ∧ u.head.Alike t.head := by
  intro scope others s hsource hconfig _ hs
  obtain ⟨texts, p, htexts, hlength, hfrom, hp⟩ := exists_tokenTexts hfits hsource htokens s
  rw [← hlength] at hc
  have hheld : (faithful source config).Holds (held texts ++ (pre ++ others)) p := by
    have hs := Progress.Faithful.taken hs hfrom hp
    rw [← heads_held, ← List.flatMap_append] at hs
    exact hs
  have hmade := hbase scope (held texts ++ others) p hsource hconfig trivial
    (faithful_perm (List.perm_append_comm_assoc _ _ _) hheld)
  unfold inscribe
  rw [bind_ok htexts]
  rcases hrun : base scope p with ⟨t, q⟩ | ⟨f, q⟩ <;> rw [hrun] at hmade
  · obtain ⟨ht, hq⟩ := hmade
    have hq : q.Faithful source ((t :: (held texts ++ others)).flatMap Tree.heads) := hq
    rw [List.flatMap_cons, List.flatMap_append, heads_held, Tree.heads_eq] at hq
    have hwritten := (hq.perm ((List.perm_append_comm_assoc _ _ _).cons _)).inscribed hc
      (hfact t ht)
    rw [bind_ok hrun]
    refine ⟨⟨t, ht, t.alike_mapHead (hc.alike texts)⟩, ?_⟩
    rw [← List.cons_append, ← Tree.heads_mapHead, ← List.flatMap_cons] at hwritten
    exact hwritten.stored (.edited _ _)
  · obtain ⟨-, left, hleft⟩ := hmade
    rw [bind_error hrun]
    exact ⟨trivial, left ++ held texts, by rwa [List.append_assoc]⟩

theorem faithful_setType {t : Tree} {text : Text} (dataType : DataType) (ht : t.head.Blank)
    (hkind : t.kind.namesType) (htext : text.Reaches source) :
    (faithful source config).Keeps ahead [t]
      (amend t fun n => { n with text, dataType := some dataType }) one fun u r =>
      u.head.Alike t.head ∧ ahead r := by
  obtain ⟨htold, hbytes⟩ := ht.typed hkind htext (some dataType)
  refine Keeps.weaken (faithful_make _ fun {ns s} hs => ?_) fun u r hu => ⟨?_, hu.2⟩
  · rw [List.flatMap_singleton, Tree.heads_eq] at hs
    rw [Tree.heads_mapHead]
    exact hs.amended ⟨rfl, rfl, rfl, rfl, rfl⟩ htold (hbytes.trans ht.copiedBytes.symm)
  · rw [hu.1]
    cases t
    exact ⟨rfl, rfl, rfl, rfl, rfl⟩

/-- The name of a type is written into a node that has no text. -/
theorem faithful_inscribeType {base : Parser Tree} {fact : Tree → Prop}
    (hname : (faithful source config).Keeps anything [] typeName silent fun _ _ => True)
    (hbase : (faithful source config).Keeps anything pre base one fun t _ => fact t)
    (hfact : ∀ t, fact t → t.head.Blank ∧ t.kind.namesType) :
    (faithful source config).Keeps anything pre (inscribeType base) (fun r => one r.1) fun r _ =>
      ∃ t, fact t ∧ r.1.head.Alike t.head := by
  intro scope others s hsource hconfig _ hs
  have hnamed := hname scope (pre ++ others) s hsource hconfig trivial hs
  unfold inscribeType
  rcases hrun : typeName scope s with ⟨⟨text, dataType⟩, p⟩ | ⟨f, p⟩ <;> rw [hrun] at hnamed
  · obtain ⟨-, hp⟩ := hnamed
    obtain ⟨first, rest, hrest, hsuffix, rfl⟩ := exists_of_typeName hrun
    have hreaches := hs.reads.reaches hp.reads hrest hsuffix
    rw [bind_ok hrun]
    dsimp only
    refine (hbase.bind fun t => ?_) scope others p hsource hconfig trivial hp
    refine .given (fun r ht => (⟨ht, trivial⟩ : fact t ∧ anything r)) fun ht => ?_
    obtain ⟨hblank, hkind⟩ := hfact t ht
    exact (faithful_setType dataType hblank hkind hreaches).bind fun _ _ _ _ _ _ hu hs =>
      ⟨⟨t, ht, hu.1⟩, hs⟩
  · obtain ⟨-, left, hleft⟩ := hnamed
    rw [bind_error hrun]
    exact ⟨trivial, left ++ pre, by rwa [List.append_assoc]⟩

theorem faithful_allows (hfits : source.Fits) (config : Config) (inner : Nested) :
    (faithful source config).Allows (sourceTerms source config inner) where
  config := rfl
  perm := faithful_perm
  known {ts s} hs t ht := by
    obtain ⟨passed, hpassed, -⟩ := hs.reads
    show t ∈ tokenize source
    rw [hpassed]
    exact List.mem_append_right _ ht
  advanced hrest hs := hs.advanced hrest
  deepened hs := hs.stored ⟨rfl, rfl, rfl⟩
  fairAt _ _ := trivial
  fairEnd _ := trivial
  nodeAt kind _ := faithful_newNode kind _ _
  nodeOver := faithful_nodeOver
  amend hc _ := faithful_amend hc
  attach child _ := faithful_attach _ child
  prepend child _ := faithful_prepend _ child
  inscribe htokens hc hbase hfact := faithful_inscribe hfits htokens hc hbase hfact
  inscribeType := faithful_inscribeType

theorem faithful_serves (hfits : source.Fits) (config : Config) :
    ∀ k, (faithful source config).Serves (fun _ _ _ => True) (Nested.upTo k) :=
  Allows.serves (faithful_allows hfits config) fun _ hinner power =>
    (expression_yields (fun _ => rfl) power).keeps (faithful_allows hfits config _) hinner

end Law

/-! ## Whole statements -/

namespace Session

variable {source : Source} {root : Tree}

/-- A tree that is answered holds what the run took from the tokens. -/
theorem parse_faithful (s : Session) (hfits : source.Fits) (h : (s.parse source).1 = .ok root) :
    (s.parse source).2.last.Faithful source root.heads := by
  have hstart : (s.start (tokenize source)).Faithful source [] := {
    reads := ⟨[], rfl, nofun⟩
    told := List.forall_mem_nil _
    holds := ⟨[], List.forall_mem_nil _, rfl, absurd rfl⟩ }
  have hout := Law.single_keeps (Law.faithful_allows hfits s.config)
    (Law.faithful_serves hfits s.config) (s.scope .one source) []
    (s.start (tokenize source)) rfl rfl trivial hstart
  rw [parse_eq] at h
  rw [parse_last]
  rcases hrun : Script.single (s.scope .one source) (s.start (tokenize source)) with
    ⟨t, p⟩ | ⟨f, p⟩ <;> rw [hrun] at h hout
  · obtain rfl := checked_eq h
    have hp : p.Faithful source ([root].flatMap Tree.heads) := hout.2
    rwa [List.flatMap_singleton] at hp
  · cases h

/-- Texts are true to the source. Each text of a node of a tree that is answered can be read. It is
a copy just if it was taken from a token in quotes with its quote doubled in the body; if it is
taken from no token, it is the name of a type, from the start of a token to the end of one. What
was copied is in the texts of the tree, but for names of collations: where a constraint for one is
given a name of its own, that replaces the name of the collation, whose copy is lost. -/
theorem parse_keeps_texts (s : Session) (hfits : source.Fits)
    (h : (s.parse source).1 = .ok root) :
    (∀ n ∈ root.heads, ∀ text ∈ n.texts, text ≠ .none →
      (∃ value, text.resolve source = some value) ∧
      (text.isCopied = true ↔
        ∃ t ∈ tokenize source, text.TakenFrom source t ∧ t.HasDoubled) ∧
      ((∃ t ∈ tokenize source, text.TakenFrom source t) ∨
        n.kind.namesType = true ∧ text.Reaches source)) ∧
    ∃ lost : List Text,
      (∀ text ∈ lost, text.isCopied = true ∧ ∃ t ∈ tokenize source, text.TakenFrom source t) ∧
      (s.parse source).2.last.copied =
        root.copiedBytes + (lost.map Text.copiedBytes).sum ∧
      ((∀ n ∈ root.heads, ¬ n.Renamed source) → lost = []) := by
  have hroot := s.parse_faithful hfits h
  refine ⟨fun n hn text htext hne => ?_, ?_⟩
  · have hread := (hroot.told n hn text htext).resolve_left hne
    refine ⟨?_, ⟨fun hcopied => ?_, ?_⟩, hread.imp_left ?_⟩
    · exact Option.isSome_iff_exists.1 ((hroot.told n hn).isSome_resolve hfits htext hne)
    · obtain ⟨t, ht, hfrom⟩ := (hroot.told n hn).exists_from htext hcopied
      exact ⟨t, ht, hfrom, (hfrom.tells hfits ht).2.1 hcopied⟩
    · rintro ⟨t, ht, htaken, hdoubled⟩
      exact (htaken.tells hfits ht).2.2 hdoubled
    · rintro ⟨t, ht, hfrom⟩
      exact ⟨t, ht, hfrom⟩
  · obtain ⟨lost, hlost⟩ := hroot.holds
    refine ⟨lost, fun text htext => ?_, hlost.copied, fun hnone => ?_⟩
    · obtain ⟨hcopied, t, ht, hfrom⟩ := hlost.copies text htext
      exact ⟨hcopied, t, ht, hfrom⟩
    · by_contra hne
      obtain ⟨n, hn, hrenamed⟩ := hlost.renamed hne
      exact hnone n hn hrenamed

/-- The copy of a name in quotes is in the tree. -/
theorem parse_keeps_texts_name :
    Source.Fits "SELECT \"a\"\"b\" FROM [t]".toList ∧
    ∃ root, (({} : Session).parse "SELECT \"a\"\"b\" FROM [t]".toList).1 = .ok root ∧
      (({} : Session).parse "SELECT \"a\"\"b\" FROM [t]".toList).2.last.copied =
        root.copiedBytes ∧
      root.copiedBytes = 3 := by
  have hfits : Source.Fits "SELECT \"a\"\"b\" FROM [t]".toList := by
    unfold Source.Fits
    decide +kernel
  have hfound : (match (({} : Session).parse "SELECT \"a\"\"b\" FROM [t]".toList).1 with
      | .ok root => decide ((∀ n ∈ root.heads, n.kind ≠ .collateConstraint) ∧
          root.copiedBytes = 3)
      | .error _ => false) = true := by
    decide +kernel
  rcases hparse : (({} : Session).parse "SELECT \"a\"\"b\" FROM [t]".toList).1 with f | root
  · rw [hparse] at hfound
    cases hfound
  · rw [hparse] at hfound
    obtain ⟨hkinds, hbytes⟩ := of_decide_eq_true hfound
    obtain ⟨-, lost, -, hcopied, hnone⟩ := parse_keeps_texts {} hfits hparse
    rw [hnone fun n hn hrenamed => hkinds n hn hrenamed.1] at hcopied
    exact ⟨hfits, root, rfl, hcopied, hbytes⟩

/-- A collation is copied, but the name of its constraint replaces it in the tree. Without that name
the copy is in the tree. -/
theorem named_collation_loses_copy :
    (({} : Session).parse
        "CREATE TABLE t (a TEXT CONSTRAINT c COLLATE \"x\"\"y\")".toList).1.toOption.map
        Tree.copiedBytes = some 0 ∧
      (({} : Session).parse
        "CREATE TABLE t (a TEXT CONSTRAINT c COLLATE \"x\"\"y\")".toList).2.last.copied = 3 ∧
      (({} : Session).parse
        "CREATE TABLE t (a TEXT COLLATE \"x\"\"y\")".toList).1.toOption.map
        Tree.copiedBytes = some 3 := by
  decide +kernel

end Session

end SqlSyntax
