import SqlSyntax.Proofs.Pairing.Parse
import SqlSyntax.Proofs.Pairing.Same
import SqlSyntax.Proofs.Relabelling
import SqlSyntax.Proofs.Spacing

/-!
# Runs over tokens with spaces between them

A run over a source and one over the texts of its tokens with single spaces between them read the
same tokens at other places. No production looks at a place, and what a node keeps of a token is
the same piece of its text in both. So both runs go the same way (`Pairing.spacing_lawful`): both
fail, or they make trees that hold the same texts, but for the names of types, which are pieces of
the source with all that stands between their words (`Session.parse_spaced`).
-/

namespace SqlSyntax

open SqlSyntax.Parser

/-! ## Pieces of a token -/

namespace Span

theorem inner_short {start n : Nat} (hn : n < 2) :
    (⟨start, start + n⟩ : Span).inner 1 = ⟨start, start⟩ := by
  have hlength : (⟨start, start + n⟩ : Span).length = n := by
    unfold length wordSub
    dsimp only
    omega
  have htwo : wordAdd 1 1 = 2 := rfl
  rw [inner, if_pos (by rw [hlength, htwo]; exact hn)]

/-- A span further on shrinks as one at the start does. -/
theorem inner_past {start n : Nat} (h : start + n < 2 ^ 64) :
    (⟨start, start + n⟩ : Span).inner 1 =
      ⟨start + ((⟨0, 0 + n⟩ : Span).inner 1).start,
        start + ((⟨0, 0 + n⟩ : Span).inner 1).stop⟩ := by
  by_cases hn : n < 2
  · rw [inner_short hn, inner_short hn, Nat.add_zero]
  · rw [inner_one (by dsimp only; omega) (by dsimp only; omega),
      inner_one (by dsimp only; omega) (by dsimp only; omega), mk.injEq]
    dsimp only
    omega

theorem inner_le {n : Nat} (hn : 0 < n) (h : n < 2 ^ 64) :
    ((⟨0, 0 + n⟩ : Span).inner 1).start < n ∧ ((⟨0, 0 + n⟩ : Span).inner 1).stop ≤ n := by
  by_cases hshort : n < 2
  · rw [inner_short hshort]
    exact ⟨hn, Nat.zero_le n⟩
  · rw [inner_one (by dsimp only; omega) (by dsimp only; omega)]
    dsimp only
    omega

end Span

/-- Spans of two sources that cut out the same. -/
def Span.Reads (source source' : Source) (span span' : Span) : Prop :=
  source'.slice? span'.start span'.stop = source.slice? span.start span.stop

section Pieces

variable {source source' : Source} {t t' : Token}

/-- Two tokens that say the same have the same pieces at the same distances from their starts. -/
theorem reads_of_text (ht : t ∈ tokenize source) (ht' : t' ∈ tokenize source')
    (htext : t.text = t'.text) {i j : Nat} (hj : j ≤ Source.byteSize t.text.toList) :
    Span.Reads source source' ⟨t.span.start + i, t.span.start + j⟩
      ⟨t'.span.start + i, t'.span.start + j⟩ := by
  obtain ⟨before, after, hsource, hspan, -⟩ := exists_piece_of_mem_tokenize ht
  obtain ⟨before', after', hsource', hspan', -⟩ := exists_piece_of_mem_tokenize ht'
  rw [← htext] at hsource'
  rw [Span.Reads, hspan, hspan', hsource, hsource']
  exact (Source.slice?_within before' after' hj).trans (Source.slice?_within before after hj).symm

/-- The pieces that may be kept of a token are cut at the same distances from its start, wherever it
stands. -/
theorem cuts_of_mem_tokenize (ht : t ∈ tokenize source) (hfits : source.Fits) :
    let inner := (⟨0, 0 + Source.byteSize t.text.toList⟩ : Span).inner 1
    t.span.inner 1 = ⟨t.span.start + inner.start, t.span.start + inner.stop⟩ ∧
      wordAdd (t.span.inner 1).start 1 = t.span.start + (inner.start + 1) ∧
      inner.stop ≤ Source.byteSize t.text.toList := by
  obtain ⟨before, after, rfl, hspan, hpos⟩ := exists_piece_of_mem_tokenize ht
  rw [Source.Fits, Source.byteSize_append, Source.byteSize_append] at hfits
  obtain ⟨hstart, hstop⟩ := Span.inner_le hpos (by omega)
  have hinner := @Span.inner_past before.byteSize (Source.byteSize t.text.toList) (by omega)
  rw [hspan]
  refine ⟨hinner, ?_, hstop⟩
  rw [hinner, wordAdd]
  dsimp only
  omega

/-- Each piece that may be kept of two tokens that say the same. -/
theorem pieces_of_text (ht : t ∈ tokenize source) (ht' : t' ∈ tokenize source')
    (htext : t.text = t'.text) (hfits : source.Fits) (hfits' : source'.Fits) :
    Span.Reads source source' t.span t'.span ∧
      Span.Reads source source' (t.span.inner 1) (t'.span.inner 1) ∧
      Span.Reads source source' ⟨wordAdd (t.span.inner 1).start 1, (t.span.inner 1).stop⟩
        ⟨wordAdd (t'.span.inner 1).start 1, (t'.span.inner 1).stop⟩ := by
  have hreads {i j : Nat} (hj : j ≤ Source.byteSize t.text.toList) :=
    reads_of_text ht ht' htext (i := i) hj
  obtain ⟨hinner, hdigits, hstop⟩ := cuts_of_mem_tokenize ht hfits
  obtain ⟨hinner', hdigits', -⟩ := cuts_of_mem_tokenize ht' hfits'
  rw [← htext] at hinner' hdigits'
  refine ⟨?_, ?_, ?_⟩
  · obtain ⟨_, _, -, hspan, -⟩ := exists_piece_of_mem_tokenize ht
    obtain ⟨_, _, -, hspan', -⟩ := exists_piece_of_mem_tokenize ht'
    have hwhole := hreads (i := 0) (Nat.le_refl _)
    rw [← htext] at hspan'
    rw [hspan, hspan'] at hwhole ⊢
    exact hwhole
  · rw [hinner, hinner']
    exact hreads hstop
  · rw [hdigits, hdigits', hinner, hinner']
    exact hreads hstop

end Pieces

/-! ## Nodes -/

/-- Texts of two sources that read the same. -/
structure Text.Reads (source source' : Source) (text text' : Text) : Prop where
  none_iff : text' = .none ↔ text = .none
  resolve : text'.resolve source' = text.resolve source

/-- Nodes of two sources that hold the same, if their texts are not names of types. -/
structure Node.Respaced (source source' : Source) (n n' : Node) : Prop where
  kind : n'.kind = n.kind
  id : n'.id = n.id
  flags : n'.flags = n.flags
  dataType : n'.dataType = n.dataType
  operator : n'.operator = n.operator
  context : n'.context = n.context
  text : n.kind.namesType = false → n.text.Reads source source' n'.text
  qualifier : n.qualifier.Reads source source' n'.qualifier
  schema : n.schema.Reads source source' n'.schema
  catalog : n.catalog.Reads source source' n'.catalog

namespace Text.Reads

variable {source source' : Source} {texts texts' : List Text}

theorem none : Text.none.Reads source source' .none := ⟨Iff.rfl, rfl⟩

theorem copied (value : String) : (Text.copied value).Reads source source' (.copied value) :=
  ⟨iff_of_false nofun nofun, rfl⟩

theorem slice {span span' : Span} (h : span.Reads source source' span') :
    (Text.slice span).Reads source source' (.slice span') :=
  ⟨iff_of_false nofun nofun, congrArg (Option.map String.ofList) h⟩

theorem getD (h : List.Forall₂ (Text.Reads source source') texts texts') (i : Nat) :
    (texts.reverse.getD i .none).Reads source source' (texts'.reverse.getD i .none) := by
  have h := List.rel_reverse h
  generalize texts.reverse = ts at h
  generalize texts'.reverse = ts' at h
  induction h generalizing i with
  | nil => exact .none
  | cons h _ ih =>
    cases i with
    | zero => exact h
    | succ i => exact ih i

end Text.Reads

namespace Node.Respaced

variable {source source' : Source} {n n' : Node}

/-- Nodes that were just made. -/
theorem fresh (kind : Kind) (id : Nat) (context : Option Context) (l l' : Location) (s s' : Span) :
    Respaced source source' { kind, id, context, location := l, span := s }
      { kind, id, context, location := l', span := s' } :=
  ⟨rfl, rfl, rfl, rfl, rfl, rfl, fun _ => .none, .none, .none, .none⟩

theorem mark (h : n.Respaced source source' n') (f : Flag) :
    (n.mark f).Respaced source source' (n'.mark f) :=
  { h with flags := congrArg (Flags.insert · f) h.flags }

end Node.Respaced

/-! ## Trees -/

namespace Tree

/-- The children of a `WITH` name no types. -/
def ListsTables (t : Tree) : Prop :=
  t.kind = .withClause → ∀ c ∈ t.children, c.kind.namesType = false

/-- Trees that hold the same, in which no child of a `WITH` names a type. -/
structure Respaced (source source' : Source) (t t' : Tree) : Prop where
  related : t.Related (Node.Respaced source source') t'
  lists : t.Everywhere ListsTables
  lists' : t'.Everywhere ListsTables

variable {source source' : Source} {t t' c c' : Tree}

theorem Everywhere.mapHead_lists {f : Node → Node} (h : t.Everywhere ListsTables)
    (hf : (f t.head).kind = t.kind) : (t.mapHead f).Everywhere ListsTables := by
  refine h.mapHead fun hk => ?_
  obtain ⟨n, cs⟩ := t
  exact h.root (hf.symm.trans hk)

theorem Everywhere.append_lists (h : t.Everywhere ListsTables) (hc : c.Everywhere ListsTables)
    (hnames : t.kind = .withClause → c.kind.namesType = false) :
    (t.append [c]).Everywhere ListsTables := by
  refine h.append hc fun hk d hd => ?_
  rcases List.mem_append.1 hd with hd | hd
  · exact h.root hk d hd
  · rw [List.mem_singleton.1 hd]
    exact hnames hk

theorem Everywhere.prepend_lists (h : t.Everywhere ListsTables) (hc : c.Everywhere ListsTables)
    (hnames : t.kind = .withClause → c.kind.namesType = false) :
    (t.prepend c).Everywhere ListsTables :=
  h.prepend hc fun hk => List.forall_mem_cons.2 ⟨hnames hk, h.root hk⟩

namespace Respaced

theorem leaf {n n' : Node} (h : n.Respaced source source' n') :
    Respaced source source' (Tree.leaf n) (Tree.leaf n') :=
  ⟨.leaf h, .leaf nofun, .leaf nofun⟩

theorem mapHead {f f' : Node → Node} (h : Respaced source source' t t')
    (hroot : (f t.head).Respaced source source' (f' t'.head))
    (hf : ∀ n, (f n).kind = n.kind ∧ (f' n).kind = n.kind) :
    Respaced source source' (t.mapHead f) (t'.mapHead f') :=
  ⟨h.related.mapHead hroot, h.lists.mapHead_lists (hf _).1, h.lists'.mapHead_lists (hf _).2⟩

theorem append (h : Respaced source source' t t') (hc : Respaced source source' c c')
    (hnames : t.kind = .withClause → c.kind.namesType = false)
    (hnames' : t'.kind = .withClause → c'.kind.namesType = false) :
    Respaced source source' (t.append [c]) (t'.append [c']) :=
  ⟨h.related.append hc.related, h.lists.append_lists hc.lists hnames,
    h.lists'.append_lists hc.lists' hnames'⟩

theorem prepend (h : Respaced source source' t t') (hc : Respaced source source' c c')
    (hnames : t.kind = .withClause → c.kind.namesType = false)
    (hnames' : t'.kind = .withClause → c'.kind.namesType = false) :
    Respaced source source' (t.prepend c) (t'.prepend c') :=
  ⟨h.related.prepend hc.related, h.lists.prepend_lists hc.lists hnames,
    h.lists'.prepend_lists hc.lists' hnames'⟩

end Respaced

end Tree

/-! ## Two runs -/

namespace Pairing

variable {source : Source} {config : Config}

/-- The run over a source, and the one over the texts of its tokens with spaces between them. -/
def spacing (source : Source) (config : Config) : Pairing where
  source := source
  source' := spaced (tokenize source)
  config := config
  config' := config
  listed t t' := t ∈ tokenize source ∧ t' ∈ tokenize (spaced (tokenize source)) ∧ t.said = t'.said
  stop _ _ := True
  txt := Text.Reads source (spaced (tokenize source))
  written _ _ := True
  tree := Tree.Respaced source (spaced (tokenize source))
  number := Eq
  fails _ _ := True
  fine _ := True
  sets := True

theorem spacing_takes : (spacing source config).Takes :=
  takes_of_next trivial fun _ _ => trivial

theorem tok_spacing {t t' : Token} (h : (spacing source config).tok t t') :
    t ∈ tokenize source ∧ t' ∈ tokenize (spaced (tokenize source)) ∧ t.kind = t'.kind ∧
      t.text = t'.text := by
  obtain ⟨⟨ht, ht', hsaid⟩, -⟩ := h
  exact ⟨ht, ht', congrArg Prod.fst hsaid, congrArg Prod.snd hsaid⟩

theorem texts_of_spacing {ts ts' : List Token}
    (h : List.Forall₂ (spacing source config).tok ts ts') :
    ts.map Token.text = ts'.map Token.text := by
  induction h with
  | nil => rfl
  | cons h _ ih =>
    obtain ⟨-, -, -, htext⟩ := tok_spacing h
    rw [List.map_cons, List.map_cons, ih, htext]

theorem tokenText_spacing {ahead : List Token → Prop} {t t' : Token}
    (hfits : source.Fits) (hfits' : (spaced (tokenize source)).Fits)
    (h : (spacing source config).tok t t') :
    (spacing source config).Runs ahead (tokenText t) (tokenText t')
      (spacing source config).txt fun _ => ahead := by
  obtain ⟨ht, ht', hkind, htext⟩ := tok_spacing h
  obtain ⟨hwhole, hinner, hdigits⟩ := pieces_of_text ht ht' htext hfits hfits'
  refine Runs.tokenText hkind (fun _ => by rw [htext]) .none (.slice hwhole) (.slice hinner)
    (.slice hdigits) fun quote _ => ?_
  exact Runs.quotedText (f := id) (hinner.trans Option.map_id'.symm) (fun _ => rfl)
    (fun _ => .copied _) (.slice hinner) trivial

theorem respaced_of_amends {k : Kind} {change change' : Node → Node} {n n' : Node}
    (h : (spacing source config).Amends k change change') (hk : n.kind = k)
    (hn : n.Respaced source (spaced (tokenize source)) n') :
    (change n).Respaced source (spaced (tokenize source)) (change' n') := by
  cases h with
  | @mark f _ => exact hn.mark f
  | extend _ => exact ⟨hn.1, hn.2, hn.3, hn.4, hn.5, hn.6, hn.7, hn.8, hn.9, hn.10⟩
  | text htext => exact { hn with text := fun _ => htext }
  | typed hnames _ d =>
    refine { hn with dataType := rfl, text := fun hfree => ?_ }
    rw [show n.kind.namesType = true from hk ▸ hnames] at hfree
    cases hfree
  | dataType d => exact { hn with dataType := rfl }
  | operator op => exact { hn with operator := rfl }
  | name htexts =>
    exact { hn with
      text := fun _ => Text.Reads.getD htexts 0
      schema := Text.Reads.getD htexts 1
      catalog := Text.Reads.getD htexts 2 }
  | column htexts =>
    exact { hn with
      text := fun _ => Text.Reads.getD htexts 0
      qualifier := Text.Reads.getD htexts 1
      schema := Text.Reads.getD htexts 2
      catalog := Text.Reads.getD htexts 3 }

/-- What stands under a `WITH` names no type. -/
theorem names_of_fits {k : Kind} {t t' c c' : Tree} (ht : (spacing source config).Made k t t')
    (hc : (spacing source config).Fits k c c') :
    (t.kind = .withClause → c.kind.namesType = false) ∧
      (t'.kind = .withClause → c'.kind.namesType = false) := by
  have hchild (hk : k = .withClause) :
      c.kind.namesType = false ∧ c'.kind.namesType = false := by
    obtain ⟨j, hj, hchild⟩ := hc.2 (by rw [hk]; rfl)
    rw [hchild.kind, hchild.kind']
    exact ⟨(Kind.isAnchored_spec hj).2, (Kind.isAnchored_spec hj).2⟩
  rw [ht.kind, ht.kind']
  exact ⟨fun hk => (hchild hk).1, fun hk => (hchild hk).2⟩

theorem spacing_builds : (spacing source config).Builds where
  next h := congrArg (· + 1) h
  leaf context _ hi _ _ := by
    obtain rfl := hi
    exact .leaf (.fresh ..)
  spans context _ _ hi _ := by
    obtain rfl := hi
    exact .leaf (.fresh ..)
  amend h ht := ht.tree.mapHead (respaced_of_amends h ht.kind ht.tree.related.root) h.kind
  attach ht hc := ht.tree.append hc.1 (names_of_fits ht hc).1 (names_of_fits ht hc).2
  prepend ht hc := ht.tree.prepend hc.1 (names_of_fits ht hc).1 (names_of_fits ht hc).2
  enclosed {t t' u u' i i' stop stop'} context _ hu hi _ := by
    obtain rfl := hi
    unfold Expression.surrounded
    show (spacing source config).Operand (if config.compactTree then _ else _)
      (if config.compactTree then _ else _)
    split
    · refine ⟨hu.1.mapHead (hu.1.related.root.mark _) fun _ => ⟨rfl, rfl⟩, ?_⟩
      obtain ⟨n, cs⟩ := u
      exact hu.2
    · have hnode : Node.Respaced source (spaced (tokenize source)) _ _ :=
        .fresh .parenExpr i context t.location t'.location (t.span.extend stop)
          (t'.span.extend stop')
      have hparen := Tree.Respaced.leaf hnode
      exact ⟨hparen.append hu.1 nofun nofun, rfl⟩
  enclosed_next h := congrArg _ h

theorem spacing_reads (hfits : source.Fits) (hfits' : (spaced (tokenize source)).Fits) :
    (spacing source config).Reads where
  strictAnsi := rfl
  allowExtensions := rfl
  depthLimit := rfl
  stackBudget := rfl
  listed_kind ht := congrArg Prod.fst ht.2.2
  listed_stop _ := trivial
  misquoted ht := by
    obtain ⟨-, -, hkind, htext⟩ := tok_spacing ht
    rw [Token.isMisquoted, Token.isMisquoted, hkind, htext]
  spelling ht _ := (tok_spacing ht).2.2.2
  word ht w := by rw [(tok_spacing ht).2.2.2]
  plain_word ht hw h := plain_of_spelling ht.1.1 hw h
  dataType h p q := by rw [texts_of_spacing h]
  unsigned ht := by rw [(tok_spacing ht).2.2.2]
  noText := .none
  written _ _ := trivial
  tokenText ht := tokenText_spacing hfits hfits' ht
  failsAt _ _ := trivial
  failsUnexpected _ _ := trivial
  failsEnd _ _ := trivial

theorem spacing_lawful (hfits : source.Fits) (hfits' : (spaced (tokenize source)).Fits) :
    (spacing source config).Lawful :=
  { spacing_reads hfits hfits', spacing_takes, spacing_builds with }

end Pairing

/-! ## Rules -/

/-- The text as a copy of what it reads; one that reads nothing is an empty copy. -/
def Text.read (source : Source) : Text → Text
  | .none => .none
  | text => .copied ((text.resolve source).getD "")

/-- The node by itself, without its place and the name of its type. -/
def Node.read (source : Source) (n : Node) : Node :=
  { n with
    text := if n.kind.namesType then .none else n.text.read source
    qualifier := n.qualifier.read source
    schema := n.schema.read source
    catalog := n.catalog.read source
    location := {}
    span := {} }

theorem Text.Reads.read_eq {source source' : Source} {text text' : Text}
    (h : text.Reads source source' text') : text'.read source' = text.read source := by
  by_cases hnone : text = .none
  · rw [hnone, h.none_iff.2 hnone]
    rfl
  · have hread {source : Source} {text : Text} (hnone : text ≠ .none) :
        text.read source = .copied ((text.resolve source).getD "") := by
      cases text with
      | none => exact absurd rfl hnone
      | _ => rfl
    rw [hread hnone, hread fun h' => hnone (h.none_iff.1 h'), h.resolve]

theorem Node.Respaced.read_eq {source source' : Source} {n n' : Node}
    (h : n.Respaced source source' n') : n'.read source' = n.read source := by
  have htext : (if n'.kind.namesType then Text.none else n'.text.read source') =
      if n.kind.namesType then .none else n.text.read source := by
    rw [h.kind]
    cases hk : n.kind.namesType with
    | true => rfl
    | false => exact (h.text hk).read_eq
  rw [Node.read, Node.read, htext, h.kind, h.id, h.flags, h.dataType, h.operator, h.context,
    h.qualifier.read_eq, h.schema.read_eq, h.catalog.read_eq]

namespace Relabelling

/-- What nodes become that stand by themselves. -/
def reading (source : Source) : Relabelling where
  source := source
  source' := []
  node := Node.read source
  name := id
  names k := !k.namesType
  location _ := {}
  span _ := {}
  number := id

theorem reading_lawful (source : Source) : (reading source).Lawful where
  kind _ := rfl
  has _ _ := rfl
  schema n := by
    show (n.schema.read source == .none) = (n.schema == .none)
    cases n.schema <;> rfl
  text n hn := by
    have hk : n.kind.namesType = false := by simpa [reading] using hn
    show ((Node.read source n).text.resolve []).getD "" = (n.text.resolve source).getD ""
    rw [Node.read, hk, if_neg Bool.false_ne_true]
    cases n.text <;> rfl
  location _ := rfl
  span _ := rfl
  id _ := rfl
  fold _ := rfl
  names := by
    show ∀ k ∈ [Kind.functionCall, .compoundSelect, .commonTableExpr, .tableRef, .columnDef],
      (!k.namesType) = true
    decide

/-- Trees that hold the same break the same rule first. -/
theorem validate_isSome {source source' : Source} {mode : Mode} {t t' : Tree}
    (h : t.Respaced source source' t') :
    (validate source' mode t').isSome = (validate source mode t).isSome := by
  have hnamed {source : Source} {t : Tree} (ht : t.Everywhere Tree.ListsTables) :
      t.Everywhere (reading source).Named := fun u hu hk c hc => by
    show (!c.kind.namesType) = true
    rw [ht u hu hk c hc]
    rfl
  have hvalid : validate _ mode _ = _ := validate_tree (reading_lawful source) (hnamed h.lists)
  have hvalid' : validate _ mode _ = _ := validate_tree (reading_lawful source') (hnamed h.lists')
  have htree : (reading source').tree t' = (reading source).tree t :=
    h.related.mapNodes_eq fun _ _ hn => hn.read_eq
  rw [htree] at hvalid'
  have hsome := congrArg Option.isSome (hvalid'.symm.trans hvalid)
  rwa [Option.isSome_map, Option.isSome_map] at hsome

end Relabelling

/-! ## Two calls -/

namespace Session

theorem checked_cases (source : Source) (mode : Mode) (t : Tree) :
    (validate source mode t).isSome = false ∧ checked source mode t = .ok t ∨
      (validate source mode t).isSome ∧ ∃ f, checked source mode t = .error f := by
  unfold checked
  cases validate source mode t with
  | none => exact .inl ⟨rfl, rfl⟩
  | some v => exact .inr ⟨rfl, _, rfl⟩

/-- Tokens stand by themselves. With single spaces between them, the texts of the tokens of a source
are read as tokens of the same kinds with the same texts. Where the offsets of both sources fit in a
word, both are parsed or both are refused, under each configuration. If they are parsed then the
trees are of one form, and what their nodes hold is the same, but for the names of types. -/
theorem parse_spaced (s : Session) (source : Source) :
    (tokenize (spaced (tokenize source))).map Token.said = (tokenize source).map Token.said ∧
    (source.Fits → (spaced (tokenize source)).Fits →
      (∃ f f', (s.parse source).1 = .error f ∧
        (s.parse (spaced (tokenize source))).1 = .error f') ∨
      ∃ t t', (s.parse source).1 = .ok t ∧ (s.parse (spaced (tokenize source))).1 = .ok t' ∧
        t.Related (Node.Respaced source (spaced (tokenize source))) t') := by
  refine ⟨tokenize_spaced source, fun hfits hfits' => ?_⟩
  have hlisted : List.Forall₂ (Pairing.spacing source s.config).listed (tokenize source)
      (tokenize (spaced (tokenize source))) := by
    have hsaid : List.Forall₂ Eq ((tokenize source).map Token.said)
        ((tokenize (spaced (tokenize source))).map Token.said) := by
      rw [tokenize_spaced]
      exact List.forall₂_same.2 fun _ _ => rfl
    rw [List.forall₂_map_left_iff, List.forall₂_map_right_iff] at hsaid
    refine (List.forall₂_and_left _ _).2 ⟨fun _ ht => ht, ?_⟩
    exact ((List.forall₂_and_left _ _).2 ⟨fun _ ht => ht, hsaid.flip⟩).flip
  have hconfig : s.config = (Pairing.spacing source s.config).config := rfl
  rcases parse_alike (Pairing.spacing_lawful hfits hfits') hconfig hconfig rfl hlisted trivial rfl
      trivial with ⟨f, f', h, h', -⟩ | ⟨root, root', h, h', hroot⟩
  · exact .inl ⟨_, _, h, h'⟩
  · have hvalid : (validate _ s.config.mode _).isSome = _ := Relabelling.validate_isSome hroot
    rcases checked_cases source s.config.mode root with ⟨hnone, hok⟩ | ⟨hsome, f, hf⟩ <;>
      rcases checked_cases (spaced (tokenize source)) s.config.mode root' with
        ⟨hnone', hok'⟩ | ⟨hsome', f', hf'⟩
    · exact .inr ⟨root, root', h.trans hok, h'.trans hok', hroot.related⟩
    · rw [hsome', hnone] at hvalid
      cases hvalid
    · rw [hnone', hsome] at hvalid
      cases hvalid
    · exact .inl ⟨f, f', h.trans hf, h'.trans hf'⟩

/-- Tokens that touch each other or a comment, and a quote in a string. -/
theorem parse_spaced_comment :
    Source.Fits "SELECT-1.5/**/x,'a''b'--c".toList ∧
    Source.Fits (spaced (tokenize "SELECT-1.5/**/x,'a''b'--c".toList)) ∧
    ∃ t t', (({} : Session).parse "SELECT-1.5/**/x,'a''b'--c".toList).1 = .ok t ∧
      (({} : Session).parse (spaced (tokenize "SELECT-1.5/**/x,'a''b'--c".toList))).1 = .ok t' ∧
      t.Related (Node.Respaced "SELECT-1.5/**/x,'a''b'--c".toList
        (spaced (tokenize "SELECT-1.5/**/x,'a''b'--c".toList))) t' := by
  have hok : (({} : Session).parse "SELECT-1.5/**/x,'a''b'--c".toList).1.isOk := by decide +kernel
  have hfits : Source.Fits "SELECT-1.5/**/x,'a''b'--c".toList := by
    unfold Source.Fits
    decide +kernel
  have hfits' : Source.Fits (spaced (tokenize "SELECT-1.5/**/x,'a''b'--c".toList)) := by
    unfold Source.Fits
    decide +kernel
  obtain ⟨-, hparse⟩ := parse_spaced {} "SELECT-1.5/**/x,'a''b'--c".toList
  refine ⟨hfits, hfits', ?_⟩
  rcases hparse hfits hfits' with ⟨f, f', h, -⟩ | hparsed
  · rw [h] at hok
    cases hok
  · exact hparsed

end Session

end SqlSyntax
