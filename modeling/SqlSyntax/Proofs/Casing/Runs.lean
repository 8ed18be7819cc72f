import SqlSyntax.Proofs.Casing.Rules
import SqlSyntax.Proofs.Pairing.Parse
import SqlSyntax.Proofs.Pairing.Same
import SqlSyntax.Proofs.Safety

/-!
# Runs over a source in upper case

A run over a source and one over the source in upper case read tokens that differ in case only, and
every test of a production is about words up to case or about marks. So both go the same way
(`Pairing.casing_lawful`): they fail at the same place for the same reason, or make trees that
differ in the case of their texts only (`Session.parse_upper`).
-/

namespace SqlSyntax

open SqlSyntax.Parser

/-! ## Words -/

/-- What has no letters is its own form in upper case, and of nothing else. -/
theorem foldCase_eq_iff {word : String} (hword : ∀ c ∈ word.toList, IsMark c) (text : String) :
    foldCase text = word ↔ text = word := by
  rw [← String.toList_inj, toList_foldCase, ← String.toList_inj]
  generalize word.toList = ds at hword
  generalize text.toList = cs
  induction cs generalizing ds with
  | nil => rw [List.map_nil]
  | cons c cs ih =>
    cases ds with
    | nil => exact iff_of_false nofun nofun
    | cons d ds =>
      obtain ⟨hd, hds⟩ := List.forall_mem_cons.1 hword
      rw [List.map_cons, List.cons.injEq, List.cons.injEq, hd c, ih ds hds]

theorem foldCase_append (a b : String) : foldCase (a ++ b) = foldCase a ++ foldCase b := by
  rw [← String.toList_inj, toList_foldCase, String.toList_append, String.toList_append,
    toList_foldCase, toList_foldCase, List.map_append]

theorem foldCase_intercalate (words : List String) :
    foldCase (" ".intercalate words) = " ".intercalate (words.map foldCase) := by
  have hblank : foldCase " " = " " := by decide +kernel
  induction words with
  | nil => decide +kernel
  | cons word words ih =>
    cases words with
    | nil => rfl
    | cons next words =>
      rw [String.intercalate_cons_cons, foldCase_append, foldCase_append, ih, hblank,
        List.map_cons, List.map_cons, List.map_cons, String.intercalate_cons_cons]

theorem isEmpty_foldCase (word : String) : (foldCase word).isEmpty = word.isEmpty := by
  rw [Bool.eq_iff_iff, String.isEmpty_iff, String.isEmpty_iff]
  exact String.map_eq_empty

theorem DataType.ofName_foldCase (name : String) (p q : Option Nat) :
    ofName (foldCase name) p q = ofName name p q := by
  rw [ofName, foldCase_foldCase, ofName]

/-- Digits have no case, and what has another character in it has it in upper case too. -/
theorem digits_upper (cs : List Char) : cs.map Char.toUpper = cs ∨
    cs.all Char.isDigit = false ∧ (cs.map Char.toUpper).all Char.isDigit = false := by
  have hletter : ∀ c ∈ lowerLetters, c.isDigit = false := forall_lowerLetters (by decide)
  have hall : (cs.map Char.toUpper).all Char.isDigit = cs.all Char.isDigit := by
    rw [List.all_map]
    exact congrArg cs.all (funext caseless_isDigit)
  rw [hall, and_self, or_iff_not_imp_right, Bool.not_eq_false, List.all_eq_true]
  intro hdigits
  refine (List.map_congr_left fun c hc => ?_).trans (List.map_id cs)
  refine (toUpper_eq_or_mem c).resolve_right fun hlower => ?_
  have hdigit := hdigits c hc
  rw [hletter c hlower] at hdigit
  cases hdigit

/-- The number that digits write, if it is in range. -/
def natural? (digits : List Char) : Option Nat :=
  if digits.isEmpty || !digits.all Char.isDigit then none
  else (some (digits.foldl (fun n c => 10 * n + (c.toNat - '0'.toNat)) 0)).filter (· < 0x100000000)

theorem natural?_upper (cs : List Char) : natural? (cs.map Char.toUpper) = natural? cs := by
  rcases digits_upper cs with h | ⟨h, h'⟩
  · rw [h]
  · rw [natural?, natural?, h, h', Bool.not_false, Bool.or_true, Bool.or_true, if_pos rfl,
      if_pos rfl]

theorem unsigned?_of_plus {text : String} {cs : List Char} (h : text.toList = '+' :: cs) :
    unsigned? text = natural? cs := by
  rw [unsigned?, h]
  rfl

theorem unsigned?_of_no_plus {text : String} (h : ∀ cs, text.toList ≠ '+' :: cs) :
    unsigned? text = natural? text.toList := by
  unfold unsigned?
  split
  · next cs heq => exact absurd heq (h cs)
  · rfl

theorem unsigned?_foldCase (text : String) : unsigned? (foldCase text) = unsigned? text := by
  have hplus : IsMark '+' := .of_letters (by decide)
  by_cases h : ∃ cs, text.toList = '+' :: cs
  · obtain ⟨cs, h⟩ := h
    have h' : (foldCase text).toList = '+' :: cs.map Char.toUpper := by
      rw [toList_foldCase, h]
      rfl
    rw [unsigned?_of_plus h, unsigned?_of_plus h', natural?_upper]
  · have h' : ∀ cs, (foldCase text).toList ≠ '+' :: cs := fun cs heq => by
      rw [toList_foldCase] at heq
      obtain ⟨c, rest, heq, hc, -⟩ := List.map_eq_cons_iff.1 heq
      exact h ⟨rest, by rw [heq, (hplus c).1 hc]⟩
    rw [unsigned?_of_no_plus (not_exists.1 h), unsigned?_of_no_plus h', toList_foldCase,
      natural?_upper]

/-! ## Bodies -/

theorem contains_upper {quote : Char} (hquote : IsMark quote) (cs : List Char) :
    (cs.map Char.toUpper).contains quote = cs.contains quote := by
  rw [Bool.eq_iff_iff, List.contains_iff_mem, List.contains_iff_mem, List.mem_map]
  simp only [hquote _, exists_eq_right]

theorem undouble_upper {quote : Char} (hquote : IsMark quote) (cs : List Char) :
    undouble quote (cs.map Char.toUpper) = (undouble quote cs).map Char.toUpper := by
  have hupper : quote.toUpper = quote := (hquote quote).2 rfl
  fun_induction undouble quote cs with
  | case1 => rfl
  | case2 c => rfl
  | case3 c d cs hdouble ih =>
    obtain ⟨rfl, rfl⟩ := hdouble
    rw [List.map_cons, List.map_cons, undouble, if_pos ⟨hupper, hupper⟩, ih, List.map_cons,
      hupper]
  | case4 c d cs hsingle ih =>
    have hsingle' : ¬(c.toUpper = quote ∧ d.toUpper = quote) := by rwa [hquote c, hquote d]
    rw [List.map_cons, List.map_cons, undouble, if_neg hsingle', ← List.map_cons, ih,
      List.map_cons]

/-! ## Lines -/

namespace Source

theorem lineAt?_upper (source : Source) (offset : Nat) :
    lineAt? (source.map Char.toUpper) offset =
      (source.lineAt? offset).map (·.map Char.toUpper) := by
  have hline : (fun c => c != '\n') ∘ Char.toUpper = (· != '\n') :=
    funext fun c => congrArg not (IsMark.beq (.of_letters (by decide)) c)
  simp only [lineAt?, byteSize_upper, takeBytes_upper, dropBytes_upper]
  rcases source.takeBytes (min offset source.byteSize) with _ | before
  · rfl
  · rcases source.dropBytes (min offset source.byteSize) with _ | after
    · rfl
    · simp [← List.map_reverse, List.takeWhile_map, hline]

end Source

theorem ParseError.shownLine_upper (line : List Char) :
    shownLine (line.map Char.toUpper) = (shownLine line).map foldCase := by
  have hblank : Unicode.isWhiteSpace ∘ Char.toUpper = Unicode.isWhiteSpace :=
    funext caseless_isWhiteSpace
  rw [shownLine, shownLine, ← List.map_reverse, List.dropWhile_map, hblank, ← List.map_reverse]
  rcases (line.reverse.dropWhile Unicode.isWhiteSpace).reverse with _ | ⟨c, cs⟩
  · rfl
  · exact congrArg some (foldCase_ofList _).symm

theorem Source.beginningBefore_upper (n : Nat) (source : Source) :
    beginningBefore n (source.map Char.toUpper) =
      (source.beginningBefore n).map Char.toUpper := by
  induction source generalizing n with
  | nil => cases n <;> rfl
  | cons c cs ih =>
    cases n with
    | zero => rfl
    | succ n =>
      rw [List.map_cons, beginningBefore, beginningBefore, caseless_utf8Size c, ih, List.map_cons]

theorem Location.atOffset_upper (source : Source) (offset : Nat) :
    atOffset (source.map Char.toUpper) offset = atOffset source offset := by
  have hend : ∀ c : Char, (c.toUpper == '\n') = (c == '\n') :=
    IsMark.beq (.of_letters (by decide))
  have hline : (fun c => c != '\n') ∘ Char.toUpper = (· != '\n') :=
    funext fun c => congrArg not (hend c)
  unfold atOffset
  dsimp only
  rw [Source.byteSize_upper, Source.beginningBefore_upper]
  simp only [← List.map_reverse, List.dropWhile_map, hline, Source.byteSize_upper, List.count,
    List.countP_map, Function.comp_def, hend]

/-! ## Failures -/

/-- Errors of one kind at one place that expect the same. The source line of the second is in upper
case. -/
structure ParseError.Agrees (e e' : ParseError) : Prop where
  kind : e'.kind = e.kind
  location : e'.location = e.location
  span : e'.span = e.span
  expected : e'.cause.expected? = e.cause.expected?
  context : e'.context = e.context.map foldCase

/-- Failures by errors that agree, or because of one token. -/
inductive Failure.Agrees : Failure → Failure → Prop
  | error {e e' : ParseError} (h : e.Agrees e') : Agrees (.error e) (.error e')
  | noBody (t : Token) : Agrees (.noBody t) (.noBody t.folded)
  | noLine {e e' : ParseError} (h : e.Agrees e') : Agrees (.noLine e) (.noLine e')

theorem ParseError.Agrees.withSource {e e' : ParseError} (h : e.Agrees e') (source : Source) :
    Option.Rel Agrees (e.withSource? source) (e'.withSource? (source.map Char.toUpper)) := by
  unfold withSource?
  rw [h.context, Option.isSome_map, h.kind, h.location, Source.lineAt?_upper]
  split
  · exact .some h
  · rcases source.lineAt? e.location.offset with _ | line
    · exact .none
    · exact .some ⟨h.kind, rfl, h.span, h.expected, shownLine_upper line⟩

theorem Failure.Agrees.withSource {source : Source} {f f' : Failure} (h : f.Agrees f') :
    (f.withSource source).Agrees (f'.withSource (source.map Char.toUpper)) := by
  cases h with
  | @error e e' h =>
    have hsource := h.withSource source
    unfold Failure.withSource
    dsimp only
    generalize e.withSource? source = answer,
      e'.withSource? (source.map Char.toUpper) = answer' at hsource ⊢
    cases hsource with
    | none => exact .noLine h
    | some h => exact .error h
  | noBody t => exact .noBody t
  | noLine h => exact .noLine h

/-! ## Two runs -/

namespace Token

theorem isMisquoted_folded (t : Token) : t.folded.isMisquoted = t.isMisquoted := by
  have hquote : IsMark '"' := .of_letters (by decide)
  rw [isMisquoted, folded, toList_foldCase, List.head?_map, isMisquoted]
  rcases t.text.toList.head? with _ | c
  · rfl
  · have hsame : (some c.toUpper != some '"') = (some c != some '"') :=
      congrArg not (hquote.beq c)
    rw [Option.map_some, hsame]

/-- The operators that strict mode spells otherwise have no letters. -/
theorem text_folded_of_isMisspelled {t : Token} (h : t.isMisspelled ∨ t.folded.isMisspelled) :
    t.text = t.folded.text := by
  have hmarks : IsMark '=' ∧ IsMark '!' := ⟨.of_letters (by decide), .of_letters (by decide)⟩
  have hdouble : foldCase t.text = "==" ↔ t.text = "==" :=
    foldCase_eq_iff (by simp [hmarks]) t.text
  have hbang : foldCase t.text = "!=" ↔ t.text = "!=" :=
    foldCase_eq_iff (by simp [hmarks]) t.text
  have hspelled : t.text = "==" ∨ t.text = "!=" := by
    simpa [isMisspelled, folded, hdouble, hbang] using h
  show t.text = foldCase t.text
  rcases hspelled with h | h
  · rw [h]
    decide +kernel
  · rw [h]
    decide +kernel

/-- The quote that a quoted name begins with is no letter. -/
theorem exists_mark_of_quoted {source : Source} {t : Token} (ht : t ∈ tokenize source)
    (hk : t.kind = .quotedIdentifier) : ∃ c cs, t.text.toList = c :: cs ∧ IsMark c := by
  obtain ⟨before, c, rest, -, rfl⟩ := exists_of_mem_tokenize ht
  have hquoted : Lexeme.isQuoted (lexeme c rest).1 := by
    rw [show (lexeme c rest).1 = .quotedIdentifier from hk]
    rfl
  obtain ⟨close, reason, text, hopening, -⟩ := Lexeme.exists_of_isQuoted rfl hquoted
  exact ⟨c, _, String.toList_ofList, (Lexeme.isMark_of_opening? hopening).1⟩

end Token

namespace Pairing

variable {source : Source} {config : Config}

/-- The run over a source, and the one over the source in upper case. -/
def casing (source : Source) (config : Config) : Pairing where
  source := source
  source' := source.map Char.toUpper
  config := config
  config' := config
  listed t t' := t ∈ tokenize source ∧ t' = t.folded
  stop := Eq
  txt text text' := text' = text.folded
  written text text' := text' = text.folded
  tree t t' := t' = t.folded
  number := Eq
  fails := Failure.Agrees
  fine _ := True
  sets := True

theorem casing_takes : (casing source config).Takes :=
  takes_of_next trivial fun _ _ => trivial

theorem tokenText_folded {ahead : List Token → Prop} {t : Token} (ht : t ∈ tokenize source) :
    (casing source config).Runs ahead (tokenText t) (tokenText t.folded)
      (casing source config).txt fun _ => ahead := by
  have hhead (hk : t.kind = .quotedIdentifier) :
      ∃ c, IsMark c ∧ t.text.toList.head? = some c ∧ t.folded.text.toList.head? = some c := by
    obtain ⟨c, cs, htext, hc⟩ := Token.exists_mark_of_quoted ht hk
    refine ⟨c, hc, by rw [htext]; rfl, ?_⟩
    rw [Token.folded, toList_foldCase, htext, List.map_cons, (hc c).2 rfl]
    rfl
  refine Runs.tokenText rfl (fun hk => ?_) rfl rfl rfl rfl fun quote hquote => ?_
  · obtain ⟨c, -, htext, htext'⟩ := hhead hk
    rw [htext, htext']
  · have hmark : IsMark quote := by
      rcases hquote with rfl | ⟨hk, hquote⟩
      · exact .of_letters (by decide)
      · obtain ⟨c, hc, htext, -⟩ := hhead hk
        rw [htext, Option.some_inj] at hquote
        exact hquote ▸ hc
    refine Runs.quotedText (source.slice?_upper _ _) (contains_upper hmark) (fun body => ?_) rfl
      (.noBody t)
    rw [undouble_upper hmark, ← foldCase_ofList]
    rfl

theorem getD_folded (texts : List Text) (i : Nat) :
    (texts.map Text.folded).reverse.getD i .none = (texts.reverse.getD i .none).folded := by
  rw [← List.map_reverse, List.getD_eq_getElem?_getD, List.getElem?_map,
    List.getD_eq_getElem?_getD]
  exact Option.getD_map Text.folded .none texts.reverse[i]?

theorem map_folded_of_forall₂ {texts texts' : List Text}
    (h : List.Forall₂ (casing source config).txt texts texts') :
    texts' = texts.map Text.folded := by
  induction h with
  | nil => rfl
  | cons h _ ih => rw [h, ih, List.map_cons]

theorem texts_folded_of_forall₂ {ts ts' : List Token}
    (h : List.Forall₂ (casing source config).tok ts ts') :
    ts'.map Token.text = (ts.map Token.text).map foldCase := by
  induction h with
  | nil => rfl
  | cons h _ ih => rw [List.map_cons, List.map_cons, List.map_cons, ih, h.1.2, Token.folded]

theorem amends_folded {k : Kind} {change change' : Node → Node}
    (h : (casing source config).Amends k change change') (n : Node) :
    (change n).folded = change' n.folded := by
  cases h with
  | extend hstop =>
    obtain rfl := hstop
    rfl
  | text htext =>
    obtain rfl := htext
    rfl
  | typed _ htext =>
    obtain rfl := htext
    rfl
  | name htexts =>
    obtain rfl := map_folded_of_forall₂ htexts
    simp only [Node.withName, getD_folded]
    rfl
  | column htexts =>
    obtain rfl := map_folded_of_forall₂ htexts
    simp only [Node.withColumn, getD_folded]
    rfl
  | _ => rfl

theorem casing_builds : (casing source config).Builds where
  next h := congrArg (· + 1) h
  leaf {t t' i i' kind} context ht hi _ _ := by
    obtain rfl : i = i' := hi
    obtain ⟨⟨-, rfl⟩, -⟩ := ht
    exact (Tree.folded_leaf
      { kind, id := i, context, location := t.location, span := t.span }).symm
  spans {t t' i i' kind} context ht _ hi _ := by
    obtain rfl : i = i' := hi
    obtain rfl : t' = t.folded := ht
    rw [Tree.head_folded]
    exact (Tree.folded_leaf
      { kind, id := i, context, location := t.head.location, span := t.head.span }).symm
  amend {k t t' change change'} h ht := by
    obtain rfl : t' = t.folded := ht.tree
    obtain ⟨n, cs⟩ := t
    show (Tree.folded (.node n cs)).mapHead change' = _
    rw [Tree.folded_node, Tree.mapHead, Tree.mapHead, Tree.folded_node, amends_folded h]
  attach {k t t' c c'} ht hc := by
    obtain rfl : t' = t.folded := ht.tree
    obtain rfl : c' = c.folded := hc.1
    show t.folded.append [c.folded] = (t.append [c]).folded
    rw [Tree.append, Tree.append, Tree.folded_node, Tree.head_folded, Tree.children_folded,
      List.map_append, List.map_singleton]
  prepend {k t t' c c'} ht hc := by
    obtain rfl : t' = t.folded := ht.tree
    obtain rfl : c' = c.folded := hc.1
    show t.folded.prepend c.folded = (t.prepend c).folded
    rw [Tree.prepend, Tree.prepend, Tree.folded_node, Tree.head_folded, Tree.children_folded,
      List.map_cons]
  enclosed {t t' u u' i i' stop stop'} context ht hu hi hstop := by
    obtain rfl : i = i' := hi
    obtain rfl : stop = stop' := hstop
    obtain ⟨⟨-, rfl⟩, -⟩ := ht
    obtain rfl : u' = u.folded := hu.1
    obtain ⟨n, cs⟩ := u
    show (casing source config).Operand (Expression.surrounded config _ _ _ _ _)
      (Expression.surrounded config _ _ _ _ _)
    unfold Expression.surrounded
    split
    · refine ⟨?_, hu.2⟩
      show (Tree.folded (.node n cs)).mapHead _ = ((Tree.node n cs).mapHead _).folded
      rw [Tree.folded_node, Tree.mapHead, Tree.mapHead, Tree.folded_node]
      rfl
    · let paren : Node := {
        kind := .parenExpr, id := i, context, location := t.location,
        span := t.span.extend stop }
      exact ⟨(Tree.folded_node paren [.node n cs]).symm, rfl⟩
  enclosed_next h := congrArg _ h

theorem casing_reads : (casing source config).Reads where
  strictAnsi := rfl
  allowExtensions := rfl
  depthLimit := rfl
  stackBudget := rfl
  listed_kind ht := by rw [ht.2]; rfl
  listed_stop ht := by rw [ht.2]; rfl
  misquoted ht := by rw [ht.1.2, Token.isMisquoted_folded]
  spelling ht h := by
    rw [ht.1.2] at h ⊢
    exact Token.text_folded_of_isMisspelled h
  word {t t'} ht w := by
    rw [ht.1.2]
    exact (sameWord_foldCase t.text w).symm
  plain_word ht hw h := plain_of_spelling ht.1.1 hw h
  dataType {ts ts'} h p q := by
    have hwords : (ts'.map Token.text).dropWhile (·.isEmpty) =
        ((ts.map Token.text).dropWhile (·.isEmpty)).map foldCase := by
      rw [texts_folded_of_forall₂ h, List.dropWhile_map]
      simp only [Function.comp_def, isEmpty_foldCase]
    rw [hwords, ← foldCase_intercalate, DataType.ofName_foldCase]
  unsigned {t t'} ht := by
    rw [ht.1.2]
    exact (unsigned?_foldCase t.text).symm
  noText := rfl
  written {t t' stop stop'} ht hstop := by
    obtain ⟨⟨-, rfl⟩, -⟩ := ht
    obtain rfl : stop = stop' := hstop
    rfl
  tokenText {t t' _} ht := by
    obtain ⟨⟨hmem, rfl⟩, -⟩ := ht
    exact tokenText_folded hmem
  failsAt {t t'} cause ht := by
    obtain ⟨⟨-, rfl⟩, -⟩ := ht
    exact .error ⟨rfl, rfl, rfl, rfl, rfl⟩
  failsUnexpected {t t'} what ht := by
    obtain ⟨⟨-, rfl⟩, -⟩ := ht
    exact .error ⟨rfl, rfl, rfl, rfl, rfl⟩
  failsEnd cause _ := by
    have hstop : Location.atOffset (source.map Char.toUpper)
        (Source.byteSize (source.map Char.toUpper)) =
          Location.atOffset source source.byteSize := by
      rw [Source.byteSize_upper, Location.atOffset_upper]
    exact .error ⟨rfl, hstop, congrArg (fun l => Span.mk l.offset l.offset) hstop, rfl, rfl⟩

theorem casing_lawful : (casing source config).Lawful :=
  { casing_reads, casing_takes, casing_builds with }

end Pairing

/-! ## Two calls -/

/-- A node of a source and the same one of the source in upper case: what it holds of the source is
in upper case, and all else is as it was. -/
structure Node.Uppercased (source : Source) (n n' : Node) : Prop where
  kind : n'.kind = n.kind
  id : n'.id = n.id
  flags : n'.flags = n.flags
  dataType : n'.dataType = n.dataType
  operator : n'.operator = n.operator
  context : n'.context = n.context
  location : n'.location = n.location
  span : n'.span = n.span
  text : n'.text.resolve (source.map Char.toUpper) = (n.text.resolve source).map foldCase
  qualifier :
    n'.qualifier.resolve (source.map Char.toUpper) = (n.qualifier.resolve source).map foldCase
  schema : n'.schema.resolve (source.map Char.toUpper) = (n.schema.resolve source).map foldCase
  catalog : n'.catalog.resolve (source.map Char.toUpper) = (n.catalog.resolve source).map foldCase

/-- Trees of one form, whose nodes differ in the case of what they hold only. -/
inductive Tree.Uppercased (source : Source) : Tree → Tree → Prop
  | node {n n' : Node} {cs cs' : List Tree} (head : n.Uppercased source n')
    (children : List.Forall₂ (Tree.Uppercased source) cs cs') :
      Uppercased source (.node n cs) (.node n' cs')

theorem Node.uppercased_folded (source : Source) (n : Node) : n.Uppercased source n.folded where
  kind := rfl
  id := rfl
  flags := rfl
  dataType := rfl
  operator := rfl
  context := rfl
  location := rfl
  span := rfl
  text := Text.resolve_folded source n.text
  qualifier := Text.resolve_folded source n.qualifier
  schema := Text.resolve_folded source n.schema
  catalog := Text.resolve_folded source n.catalog

theorem Tree.uppercased_folded (source : Source) (t : Tree) : t.Uppercased source t.folded := by
  induction t using Tree.induction with
  | node n cs ih =>
    rw [folded_node]
    refine .node (n.uppercased_folded source) ?_
    rw [List.forall₂_map_right_iff, List.forall₂_same]
    exact ih

namespace Session

theorem checked_folded {source : Source} {mode : Mode} (t : Tree) :
    (∃ f f', checked source mode t = .error f ∧
        checked (source.map Char.toUpper) mode t.folded = .error f' ∧ f.Agrees f') ∨
      (checked source mode t = .ok t ∧
        checked (source.map Char.toUpper) mode t.folded = .ok t.folded) := by
  unfold checked
  rw [validate_folded]
  rcases validate source mode t with _ | v
  · exact .inr ⟨rfl, rfl⟩
  · refine .inl ⟨_, _, rfl, rfl, Failure.Agrees.withSource (.error ?_)⟩
    have hexpected := congrArg (fun r : Rule => some r.name) (v.breach.rule_mapNames foldCase)
    exact ⟨rfl, rfl, rfl, hexpected, rfl⟩

/-- A run over the source in upper case goes as the run over the source. -/
theorem parse_upper_cases (s : Session) (source : Source) :
    (∃ f f', (s.parse source).1 = .error f ∧
        (s.parse (source.map Char.toUpper)).1 = .error f' ∧ f.Agrees f') ∨
      ∃ t, (s.parse source).1 = .ok t ∧
        (s.parse (source.map Char.toUpper)).1 = .ok t.folded := by
  have hlisted : List.Forall₂ (Pairing.casing source s.config).listed (tokenize source)
      (tokenize (source.map Char.toUpper)) := by
    rw [tokenize_upper, List.forall₂_map_right_iff, List.forall₂_same]
    exact fun t ht => ⟨ht, rfl⟩
  have hconfig : s.config = (Pairing.casing source s.config).config := rfl
  rcases parse_alike Pairing.casing_lawful hconfig hconfig rfl hlisted rfl rfl trivial with
    ⟨f, f', h, h', hfails⟩ | ⟨root, root', h, h', hroot⟩
  · exact .inl ⟨_, _, h, h', hfails.withSource⟩
  · obtain rfl : root' = root.folded := hroot
    rcases checked_folded root with ⟨f, f', hf, hf', hagrees⟩ | ⟨hok, hok'⟩
    · exact .inl ⟨f, f', h.trans hf, h'.trans hf', hagrees⟩
    · exact .inr ⟨root, h.trans hok, h'.trans hok'⟩

/-- Case does not matter: a source and the source in upper case are both parsed or both refused. If
they are refused then with errors of one kind at one place that expect the same; that these are
errors holds if the offsets of the source fit in a word. Else their trees differ only in the case of
what the nodes hold. -/
theorem parse_upper (s : Session) (source : Source) :
    (∃ f f', (s.parse source).1 = .error f ∧
        (s.parse (source.map Char.toUpper)).1 = .error f' ∧ f.Agrees f' ∧
          (source.Fits → ∃ e e', f = .error e ∧ f' = .error e')) ∨
      ∃ t t', (s.parse source).1 = .ok t ∧ (s.parse (source.map Char.toUpper)).1 = .ok t' ∧
        t.Uppercased source t' := by
  rcases s.parse_upper_cases source with ⟨f, f', h, h', hagrees⟩ | ⟨t, h, h'⟩
  · refine .inl ⟨f, f', h, h', hagrees, fun hfits => ?_⟩
    obtain ⟨e, rfl, -⟩ := (s.parse_isError source hfits).1 f h
    cases hagrees with
    | @error e e' => exact ⟨e, e', rfl, rfl⟩
  · exact .inr ⟨t, t.folded, h, h', t.uppercased_folded source⟩

/-- A string that is never closed, in both cases. -/
theorem parse_upper_unclosed :
    ∃ e e', (({} : Session).parse "select 'a".toList).1 = .error (.error e) ∧
      (({} : Session).parse "SELECT 'A".toList).1 = .error (.error e') ∧ e.Agrees e' := by
  have hfails : (({} : Session).parse "select 'a".toList).1.isOk = false := by decide +kernel
  rcases parse_upper {} "select 'a".toList with
    ⟨f, f', h, h', hagrees, hfits⟩ | ⟨t, t', h, -⟩
  · obtain ⟨e, e', rfl, rfl⟩ := hfits (by unfold Source.Fits; decide +kernel)
    cases hagrees with
    | error hagrees => exact ⟨e, e', h, h', hagrees⟩
  · rw [h] at hfails
    cases hfails

end Session

end SqlSyntax
