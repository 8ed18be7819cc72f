import SqlSyntax.Proofs.Selection
import SqlSyntax.Proofs.Spacing

/-!
# Quoting

Any text can be written in quotes, if the quotes in it are doubled. The reader of tokens pairs
quotes from the first on and stops at one without a second, and the text of the token is made by
taking one of each pair away; both go through what was doubled in the same steps. So a text comes
back from its quotes, and quotes come back from the text that they hold
(`Session.quotes_hold_text`).
-/

namespace SqlSyntax

open SqlSyntax.Parser SqlSyntax.Expression

/-! ## Doubled marks -/

section Doubled

variable {mark : Char} {text : Source}

theorem mem_doubled : mark ∈ doubled mark text ↔ mark ∈ text := by
  induction text with
  | nil => rfl
  | cons c text ih =>
    by_cases hc : c = mark
    · subst hc
      simp
    · simp [doubled_cons hc, ih]

theorem length_doubled (mark : Char) (text : Source) :
    (doubled mark text).length = text.length + text.count mark := by
  induction text with
  | nil => rfl
  | cons c text ih =>
    by_cases hc : c = mark
    · rw [hc, doubled_mark, List.count_cons_self, List.length_cons, List.length_cons, ih,
        List.length_cons]
      omega
    · rw [doubled_cons hc, List.count_cons_of_ne hc, List.length_cons, ih, List.length_cons]
      omega

/-- Only a text without the mark is left as it is. -/
theorem doubled_eq_self : doubled mark text = text ↔ mark ∉ text := by
  constructor
  · intro h
    have hlength := length_doubled mark text
    rw [h] at hlength
    exact List.count_eq_zero.1 (by omega)
  · induction text with
    | nil => exact fun _ => rfl
    | cons c text ih =>
      intro h
      rw [List.mem_cons, not_or] at h
      rw [doubled_cons (Ne.symm h.1), ih h.2]

theorem Parser.undouble_cons {c : Char} (h : c ≠ mark) (cs : List Char) :
    undouble mark (c :: cs) = c :: undouble mark cs := by
  rcases cs with _ | ⟨d, cs⟩
  · rfl
  · rw [undouble, if_neg fun hboth => h hboth.1]

theorem Parser.undouble_doubled (mark : Char) (text : Source) :
    undouble mark (doubled mark text) = text := by
  induction text with
  | nil => rfl
  | cons c text ih =>
    by_cases hc : c = mark
    · rw [hc, doubled_mark, undouble, if_pos ⟨rfl, rfl⟩, ih]
    · rw [doubled_cons hc, undouble_cons hc, ih]

theorem Lexeme.quotedLength?_cons {c : Char} (h : c ≠ mark) (cs : List Char) :
    quotedLength? mark (c :: cs) = (quotedLength? mark cs).map (· + 1) := by
  rcases cs with _ | ⟨d, cs⟩
  · simp [quotedLength?, h]
  · simp [quotedLength?, h]

/-- A text with its marks doubled ends at the mark behind it. -/
theorem Lexeme.quotedLength?_doubled (mark : Char) (text : Source) :
    quotedLength? mark (doubled mark text ++ [mark]) = some ((doubled mark text).length + 1) := by
  induction text with
  | nil => simp [quotedLength?]
  | cons c text ih =>
    by_cases hc : c = mark
    · rw [hc, doubled_mark, List.cons_append, List.cons_append, quotedLength?,
        if_pos (beq_self_eq_true mark), if_pos (beq_self_eq_true mark), ih]
      rfl
    · rw [doubled_cons hc, List.cons_append, quotedLength?_cons hc, ih]
      rfl

end Doubled

/-! ## Texts between marks -/

/-- A mark that opens a quoted text, the mark that closes it, and what the text is. -/
structure Enclosure where
  opening : Char
  closing : Char
  kind : TokenKind
  reason : String
  opens : Lexeme.opening? opening = some (closing, kind, reason)

namespace Enclosure

variable (e : Enclosure) {text : Source}

/-- A text between the marks, with the closing ones in it doubled. -/
def around (text : Source) : Source := e.opening :: (doubled e.closing text ++ [e.closing])

/-- A fact about the marks that open a text, from one about each of the four. -/
@[elab_as_elim]
theorem opening_cases {motive : Char → Prop} (quote : motive '\'') (name : motive '"')
    (backtick : motive '\x60') (bracket : motive '[') : motive e.opening := by
  have h := e.opens
  unfold Lexeme.opening? at h
  split at h
  · next hc => exact hc ▸ quote
  · next hc => exact hc ▸ name
  · next hc => exact hc ▸ backtick
  · next hc => exact hc ▸ bracket
  · cases h

theorem isQuoted_kind : Lexeme.isQuoted e.kind := by
  obtain ⟨c, close, kind, reason, h⟩ := e
  unfold Lexeme.opening? at h
  split at h <;> cases h <;> rfl

theorem lexeme_around (text : Source) :
    lexeme e.opening (doubled e.closing text ++ [e.closing]) =
      (e.kind, (doubled e.closing text ++ [e.closing]).length) := by
  have hsingle : Lexeme.single? e.opening = none := e.opening_cases rfl rfl rfl rfl
  have hmark (next : Option Char) : Lexeme.mark? e.opening next = none :=
    e.opening_cases rfl rfl rfl rfl
  unfold lexeme
  rw [hsingle, hmark, e.opens]
  dsimp only
  rw [Lexeme.quoted, Lexeme.quotedLength?_doubled, List.length_append]
  rfl

/-- What is between the marks is one token, and nothing is behind it. -/
theorem tokensFrom_around (m : Mark) (text : Source) :
    tokensFrom m (e.around text) =
      [⟨e.kind, String.ofList (e.around text), ⟨m.offset, (m.past (e.around text)).offset⟩,
        (m.locate m.offset).line, (m.locate m.offset).column⟩] := by
  have hskip : skipBlanks .space m (e.around text) = (m, e.around text) := by
    have hspace : Unicode.isWhiteSpace e.opening = false := e.opening_cases rfl rfl rfl rfl
    have hgap : ¬ (e.opening = '-' ∨ e.opening = '/') :=
      e.opening_cases (by decide) (by decide) (by decide) (by decide)
    exact skipBlanks_stays hspace (fun h => absurd h hgap) m
  have hlexeme := e.lexeme_around text
  have hnext : nextToken? m (e.around text) = some
      (⟨e.kind, String.ofList (e.around text), ⟨m.offset, (m.past (e.around text)).offset⟩,
        (m.locate m.offset).line, (m.locate m.offset).column⟩, m.past (e.around text), []) := by
    rw [nextToken?, hskip, around]
    simp only [hlexeme, List.take_length, List.drop_length]
  rw [tokensFrom_eq, hnext]
  dsimp only
  rw [tokensFrom_nil]

theorem tokenize_around (text : Source) :
    tokenize (e.around text) =
      [⟨e.kind, String.ofList (e.around text), ⟨0, Source.byteSize (e.around text)⟩, 1, 1⟩] := by
  have hoffset : (({} : Mark).past (e.around text)).offset = Source.byteSize (e.around text) := by
    rw [Mark.offset_past]
    exact Nat.zero_add _
  rw [tokenize, tokensFrom_around, hoffset]
  rfl

/-- Behind `SELECT` and a space, what is between the marks is one token too. -/
theorem tokenize_select_around (text : Source) :
    ∃ select t, tokenize ("SELECT ".toList ++ e.around text) = [select, t] ∧
      select.kind = .keyword .SELECT ∧ t.kind = e.kind ∧
      t.text = String.ofList (e.around text) := by
  have hword : lexeme 'S' "ELECT ".toList = (.keyword .SELECT, 5) := by decide +kernel
  have hapart : Apart (' ' :: e.around text) := by
    rintro _ ⟨⟩
    rfl
  have hlexeme : lexeme 'S' ("ELECT".toList ++ ' ' :: e.around text) = (.keyword .SELECT, 5) := by
    have hsplice := @lexeme_splice 'S' "ELECT ".toList _ hapart (by
      rw [hword]
      decide)
    rwa [hword] at hsplice
  have hskip := @skipBlanks_stays 'S' ("ELECT".toList ++ ' ' :: e.around text)
    (by decide +kernel) (by simp) {}
  obtain ⟨select, after, hnext, hsaid⟩ := exists_nextToken? hskip
  rw [hlexeme] at hnext hsaid
  have htokens : tokenize ("SELECT ".toList ++ e.around text) =
      select :: tokensFrom (after.next ' ') (e.around text) := by
    have hspace : tokensFrom after (' ' :: e.around text) =
        tokensFrom (after.next ' ') (e.around text) := by
      rw [tokensFrom_eq, nextToken?_space, ← tokensFrom_eq]
    have hsource : "SELECT ".toList ++ e.around text =
        'S' :: ("ELECT".toList ++ ' ' :: e.around text) := rfl
    rw [tokenize, hsource, tokensFrom_eq, hnext, ← hspace]
    rfl
  refine ⟨select, _, htokens.trans (congrArg _ (e.tokensFrom_around _ text)), ?_, rfl, rfl⟩
  exact congrArg Prod.fst hsaid

/-- The marks stand around what can be read inside of the token. -/
theorem slice?_inner {source : Source} {t : Token} (hfits : source.Fits)
    (hread : t.ReadFrom source) (hkind : t.kind = e.kind)
    (htext : t.text = String.ofList (e.around text)) :
    source.slice? (t.span.inner 1).start (t.span.inner 1).stop =
      some (doubled e.closing text) := by
  obtain ⟨c, close, body, heq, hbody⟩ := hread.body hfits (hkind ▸ e.isQuoted_kind)
  rw [htext, String.ofList_inj, around, List.cons.injEq] at heq
  rw [hbody, (List.append_inj' heq.2 rfl).1]

theorem begins {t : Token} (h : t.kind = e.kind) : t.Begins := by
  have hquoted := e.isQuoted_kind
  rw [← h] at hquoted
  refine ⟨fun hkind => ?_, fun k hkind => ?_⟩
  · rw [hkind] at hquoted
    cases hquoted
  · rw [hkind] at hquoted
    cases hquoted

/-- `SELECT` and a text between marks select the operand that the token becomes. -/
theorem parse_around (s : Session) (hdefault : s.config = {}) (hroom : s.HasRoom 3) {kind : Kind}
    {holds : Text → Prop} (hunruled : kind.unruled)
    (hoperand : ∀ (scope : Scope) (self : Nested) (t : Token),
      scope.source = "SELECT ".toList ++ e.around text → t.ReadFrom scope.source →
      t.kind = e.kind → t.text = String.ofList (e.around text) → t.QuotesPass scope.config →
      Gives scope [t] (operand self) fun u r => u.IsLeaf kind scope.context holds ∧ r = []) :
    ∃ statement list leaf : Node,
      (s.parse ("SELECT ".toList ++ e.around text)).1 = .ok (.node statement
        [.node list [.node leaf []]]) ∧
      statement.kind = .selectStmt ∧ list.kind = .selectList ∧ leaf.kind = kind ∧
      holds leaf.text := by
  obtain ⟨select, t, htokens, hselect, hkind, htext⟩ := e.tokenize_select_around text
  generalize "SELECT ".toList ++ e.around text = source at *
  have hread : ∀ u ∈ [select, t], u.ReadFrom source := fun u hu =>
    readFrom_of_mem_tokenize (htokens ▸ hu)
  have hdot : ∀ u ∈ [t], u.kind ≠ .dot := by
    intro u hu hdot
    have hquoted := e.isQuoted_kind
    rw [← hkind, ← List.mem_singleton.1 hu, hdot] at hquoted
    cases hquoted
  have hitem : Gives { s.scope .one source with depth := 2, context := some .selectList } [t]
      ((Nested.upTo 2).expression 0) fun u r =>
        u.IsLeaf kind (some .selectList) holds ∧ r = [] := by
    refine expression_run_operand 0 ?_ (hoperand _ _ t rfl (hread t (by simp)) hkind htext ?_)
    · exact hroom 2 (by decide)
    · rw [Session.scope, hdefault]
      exact nofun
  have hrules : ∀ u : Tree, u.IsLeaf kind (some .selectList) holds → ∀ k ∈ u.shape, k.unruled := by
    rintro _ ⟨id, kept, location, span, rfl, -⟩
    simpa only [Tree.leaf, Tree.shape_node, List.flatMap_nil, List.mem_singleton, forall_eq]
  obtain ⟨_, _, hparse, ⟨id, kept, location, span, rfl, hholds⟩, hselects⟩ :=
    s.parseTokens_item source (hroom.mono (by decide)) hread hselect (e.begins hkind) hdot hitem
      hrules
  obtain ⟨_, _, _, _, _, _, rfl⟩ := hselects
  rw [Session.parse, htokens]
  exact ⟨_, _, _, hparse, rfl, rfl, rfl, hholds⟩

end Enclosure

/-! ## Texts in quotes -/

/-- The quotes that close themselves. -/
inductive Quote where
  | single | double | backtick
deriving DecidableEq

namespace Quote

def char : Quote → Char
  | single => '\''
  | double => '"'
  | backtick => '\x60'

/-- The kind of the tokens in such quotes. -/
def tokenKind : Quote → TokenKind
  | single => .string
  | double | backtick => .quotedIdentifier

/-- The kind of the node that such a token becomes as an operand. -/
def operandKind : Quote → Kind
  | single => .stringLiteral
  | double | backtick => .columnRef

/-- A text in quotes, with the quotes in it doubled. -/
def around (q : Quote) (text : Source) : Source := q.char :: (doubled q.char text ++ [q.char])

/-- A text as a node keeps it holds what was quoted, and it is a copy if there were quotes in it. -/
def Holds (q : Quote) (source text : Source) (kept : Text) : Prop :=
  kept.resolve source = some (String.ofList text) ∧ (kept.isCopied = true ↔ q.char ∈ text)

variable (q : Quote) {text : Source}

/-- The quote as the mark that opens and closes. -/
def enclosure : Enclosure where
  opening := q.char
  closing := q.char
  kind := q.tokenKind
  reason := match q with
    | single => "Unterminated string literal"
    | double | backtick => "Unterminated quoted identifier"
  opens := by cases q <;> rfl

theorem tokenize_around (text : Source) :
    tokenize (q.around text) =
      [⟨q.tokenKind, String.ofList (q.around text), ⟨0, Source.byteSize (q.around text)⟩,
        1, 1⟩] :=
  q.enclosure.tokenize_around text

/-- A token in such quotes has some text in them. -/
theorem exists_around {source : Source} {t : Token} (ht : t ∈ tokenize source)
    (hkind : t.kind = q.tokenKind)
    (hfirst : t.kind = .quotedIdentifier → t.text.toList.head? = some q.char) :
    ∃ text, t.text = String.ofList (q.around text) := by
  obtain ⟨before, c, rest, -, rfl⟩ := exists_of_mem_tokenize ht
  have hquoted : Lexeme.isQuoted (lexeme c rest).1 := by
    rw [show (lexeme c rest).1 = q.tokenKind from hkind]
    cases q <;> rfl
  obtain ⟨close, reason, text, hopening, htext⟩ := Lexeme.exists_of_isQuoted rfl hquoted
  rw [show (lexeme c rest).1 = q.tokenKind from hkind] at hopening
  have hchars : c = q.char ∧ close = q.char := by
    have hhead : q.tokenKind = .quotedIdentifier → c = q.char := fun hq => by
      have hhead := hfirst (hkind.trans hq)
      rw [show (tokenAfter before c rest).text.toList = c :: rest.take (lexeme c rest).2 from
        String.toList_ofList] at hhead
      exact Option.some.inj hhead
    cases q with
    | single =>
      unfold Lexeme.opening? at hopening
      split at hopening <;> cases hopening
      exact ⟨rfl, rfl⟩
    | double =>
      obtain rfl := hhead rfl
      cases hopening
      exact ⟨rfl, rfl⟩
    | backtick =>
      obtain rfl := hhead rfl
      cases hopening
      exact ⟨rfl, rfl⟩
  obtain ⟨rfl, rfl⟩ := hchars
  exact ⟨text, congrArg String.ofList (congrArg (q.char :: ·) htext)⟩

/-! ## The text of a token in quotes -/

theorem tokenText_around {scope : Scope} {ts : List Token} {t : Token}
    (hfits : scope.source.Fits) (hread : t.ReadFrom scope.source)
    (hkind : t.kind = q.tokenKind) (htext : t.text = String.ofList (q.around text)) :
    Gives scope ts (tokenText t) fun kept r => q.Holds scope.source text kept ∧ r = ts := by
  have hbody : scope.source.slice? (t.span.inner 1).start (t.span.inner 1).stop =
      some (doubled q.char text) := q.enclosure.slice?_inner hfits hread hkind htext
  have hgives : Gives scope ts (quotedText q.char t) fun kept r =>
      q.Holds scope.source text kept ∧ r = ts := by
    refine (Gives.quotedText q.char hbody).weaken ?_
    rintro kept r ⟨⟨hresolve, hcopied⟩, hr⟩
    rw [undouble_doubled] at hresolve
    rw [mem_doubled] at hcopied
    exact ⟨⟨hresolve, hcopied⟩, hr⟩
  have hlist : t.text.toList = q.around text := by rw [htext, String.toList_ofList]
  unfold tokenText
  rw [hkind, hlist]
  cases q
  · exact hgives
  · exact hgives
  · exact hgives

/-- An operand in quotes keeps the text in them. -/
theorem operand_run {scope : Scope} {self : Nested} {t : Token} (hfits : scope.source.Fits)
    (hread : t.ReadFrom scope.source) (hkind : t.kind = q.tokenKind)
    (htext : t.text = String.ofList (q.around text)) (hquotes : t.QuotesPass scope.config) :
    Gives scope [t] (operand self) fun u r =>
      u.IsLeaf q.operandKind scope.context (q.Holds scope.source text) ∧ r = [] := by
  have hgives : Gives scope [] _ _ := q.tokenText_around hfits hread hkind htext
  cases q with
  | single => exact literal_run (by rw [hkind]; rfl) (by rw [hkind]; rfl) nofun hgives
  | double => exact column_run (by rw [Token.isName, hkind]; rfl) hquotes .nil hgives
  | backtick => exact column_run (by rw [Token.isName, hkind]; rfl) hquotes .nil hgives

/-- `SELECT` and a text in quotes select a literal or a column with the text. -/
theorem parse_around (s : Session) (hdefault : s.config = {}) (hroom : s.HasRoom 3) (text : Source)
    (hfits : Source.Fits ("SELECT ".toList ++ q.around text)) :
    ∃ statement list leaf : Node,
      (s.parse ("SELECT ".toList ++ q.around text)).1 = .ok (.node statement
        [.node list [.node leaf []]]) ∧
      statement.kind = .selectStmt ∧ list.kind = .selectList ∧ leaf.kind = q.operandKind ∧
      q.Holds ("SELECT ".toList ++ q.around text) text leaf.text := by
  refine q.enclosure.parse_around s hdefault hroom (by cases q <;> rfl) ?_
  intro scope self t hsource hread hkind htext hquotes
  have hsource' : scope.source = "SELECT ".toList ++ q.around text := hsource
  rw [← hsource'] at hfits ⊢
  exact q.operand_run hfits hread hkind htext hquotes

end Quote

/-- A text in quotes is one token, and selected alone it is a literal or a column with the text,
which is copied if it has quotes itself. And what a token in quotes holds gives the token when it is
put in quotes again. -/
theorem Session.quotes_hold_text (s : Session) (hdefault : s.config = {}) (hroom : s.HasRoom 3)
    (q : Quote) :
    (∀ text, tokenize (q.around text) =
      [⟨q.tokenKind, String.ofList (q.around text), ⟨0, Source.byteSize (q.around text)⟩, 1, 1⟩]) ∧
    (∀ text, Source.Fits ("SELECT ".toList ++ q.around text) →
      ∃ statement list leaf : Node,
        (s.parse ("SELECT ".toList ++ q.around text)).1 = .ok (.node statement
          [.node list [.node leaf []]]) ∧
        statement.kind = .selectStmt ∧ list.kind = .selectList ∧ leaf.kind = q.operandKind ∧
        q.Holds ("SELECT ".toList ++ q.around text) text leaf.text) ∧
    (∀ source : Source, source.Fits → ∀ t ∈ tokenize source, t.kind = q.tokenKind →
      (t.kind = .quotedIdentifier → t.text.toList.head? = some q.char) →
      ∃ text, t.text = String.ofList (q.around text) ∧
        ∀ (scope : Scope) (p : Progress), scope.source = source →
          ∃ kept p', tokenText t scope p = .ok kept p' ∧ q.Holds source text kept) := by
  refine ⟨q.tokenize_around, q.parse_around s hdefault hroom,
    fun source hfits t ht hkind hfirst => ?_⟩
  obtain ⟨text, htext⟩ := q.exists_around ht hkind hfirst
  refine ⟨text, htext, ?_⟩
  rintro scope p rfl
  obtain ⟨kept, p', hrun, hholds, -⟩ :=
    q.tokenText_around hfits (readFrom_of_mem_tokenize ht) hkind htext p rfl
  exact ⟨kept, p', hrun, hholds⟩

/-- A name with a quote in it. -/
theorem Session.quotes_hold_text_name :
    tokenize "\"a\"\"b\"".toList = [⟨.quotedIdentifier, "\"a\"\"b\"", ⟨0, 6⟩, 1, 1⟩] ∧
    ∃ statement list leaf : Node,
      (({} : Session).parse "SELECT \"a\"\"b\"".toList).1 = .ok (.node statement
        [.node list [.node leaf []]]) ∧
      leaf.kind = .columnRef ∧
      leaf.text.resolve "SELECT \"a\"\"b\"".toList = some "a\"b" ∧ leaf.text.isCopied = true := by
  obtain ⟨htokens, hparse, -⟩ :=
    Session.quotes_hold_text {} rfl (Session.hasRoom_default (by decide)) .double
  have haround : Quote.double.around "a\"b".toList = "\"a\"\"b\"".toList := by decide +kernel
  have hsource : "SELECT ".toList ++ "\"a\"\"b\"".toList = "SELECT \"a\"\"b\"".toList := by
    decide +kernel
  have htoken := htokens "a\"b".toList
  have hselected := hparse "a\"b".toList
  rw [haround] at htoken
  rw [haround, hsource] at hselected
  obtain ⟨statement, list, leaf, hrun, -, -, hkind, hresolve, hcopied⟩ :=
    hselected (by unfold Source.Fits; decide +kernel)
  exact ⟨htoken, statement, list, leaf, hrun, hkind, hresolve, hcopied.2 (by decide)⟩

/-! ## Texts in brackets -/

def brackets : Enclosure where
  opening := '['
  closing := ']'
  kind := .quotedIdentifier
  reason := "Unterminated quoted identifier"
  opens := rfl

/-- The text of a token in brackets is what the source has between them. -/
theorem brackets_tokenText {scope : Scope} {ts : List Token} {t : Token} {text : Source}
    (hfits : scope.source.Fits) (hread : t.ReadFrom scope.source)
    (hkind : t.kind = brackets.kind) (htext : t.text = String.ofList (brackets.around text)) :
    Gives scope ts (tokenText t) fun kept r =>
      (kept.resolve scope.source = some (String.ofList (doubled ']' text)) ∧
        kept.isCopied = false) ∧ r = ts := by
  have hbody := brackets.slice?_inner hfits hread hkind htext
  have hlist : t.text.toList = brackets.around text := by rw [htext, String.toList_ofList]
  unfold tokenText
  rw [hkind, hlist]
  refine .pure ⟨⟨?_, rfl⟩, rfl⟩
  rw [Text.resolve, Source.at?, hbody]
  rfl

/-- A text in brackets is one token, and selected alone it is a column. But the text of the column
has every closing bracket twice, so it is the one in the brackets only if that has none. -/
theorem Session.brackets_keep_doubled (s : Session) (hdefault : s.config = {})
    (hroom : s.HasRoom 3) (text : Source) :
    tokenize (brackets.around text) =
      [⟨.quotedIdentifier, String.ofList (brackets.around text),
        ⟨0, Source.byteSize (brackets.around text)⟩, 1, 1⟩] ∧
    (Source.Fits ("SELECT ".toList ++ brackets.around text) →
      ∃ statement list leaf : Node,
        (s.parse ("SELECT ".toList ++ brackets.around text)).1 = .ok (.node statement
          [.node list [.node leaf []]]) ∧
        statement.kind = .selectStmt ∧ list.kind = .selectList ∧ leaf.kind = .columnRef ∧
        leaf.text.isCopied = false ∧
        leaf.text.resolve ("SELECT ".toList ++ brackets.around text) =
          some (String.ofList (doubled ']' text)) ∧
        (leaf.text.resolve ("SELECT ".toList ++ brackets.around text) =
          some (String.ofList text) ↔ ']' ∉ text)) := by
  refine ⟨brackets.tokenize_around text, fun hfits => ?_⟩
  generalize hsource : "SELECT ".toList ++ brackets.around text = source at hfits ⊢
  have hoperand (scope : Scope) (self : Nested) (t : Token)
      (hscope : scope.source = "SELECT ".toList ++ brackets.around text)
      (hread : t.ReadFrom scope.source) (hkind : t.kind = brackets.kind)
      (htext : t.text = String.ofList (brackets.around text))
      (hquotes : t.QuotesPass scope.config) :
      Gives scope [t] (operand self) fun u r =>
        u.IsLeaf .columnRef scope.context (fun kept =>
          kept.resolve source = some (String.ofList (doubled ']' text)) ∧
            kept.isCopied = false) ∧ r = [] := by
    obtain rfl : scope.source = source := hscope.trans hsource
    refine column_run ?_ hquotes .nil (brackets_tokenText hfits hread hkind htext)
    rw [Token.isName, hkind]
    rfl
  obtain ⟨statement, list, leaf, hparse, hstatement, hlist, hleaf, hresolve, hcopied⟩ :=
    brackets.parse_around s hdefault hroom rfl hoperand
  rw [hsource] at hparse
  refine ⟨statement, list, leaf, hparse, hstatement, hlist, hleaf, hcopied, hresolve, ?_⟩
  rw [hresolve, Option.some.injEq, String.ofList_inj, doubled_eq_self]

/-- A name without brackets. -/
theorem Session.brackets_keep_doubled_name :
    ∃ statement list leaf : Node,
      (({} : Session).parse "SELECT [a b]".toList).1 = .ok (.node statement
        [.node list [.node leaf []]]) ∧
      leaf.kind = .columnRef ∧ leaf.text.resolve "SELECT [a b]".toList = some "a b" := by
  obtain ⟨-, hparse⟩ :=
    Session.brackets_keep_doubled {} rfl (Session.hasRoom_default (by decide)) "a b".toList
  have hsource : "SELECT ".toList ++ brackets.around "a b".toList = "SELECT [a b]".toList := by
    decide +kernel
  rw [hsource] at hparse
  obtain ⟨statement, list, leaf, hrun, -, -, hkind, -, -, htext⟩ :=
    hparse (by unfold Source.Fits; decide +kernel)
  exact ⟨statement, list, leaf, hrun, hkind, htext.2 (by decide)⟩

/-- A closing bracket in a name is there twice in the tree, where a quote in quotes is there
once. -/
theorem Session.brackets_double_name :
    brackets.around "a]b".toList = "[a]]b]".toList ∧
    (({} : Session).parse "SELECT [a]]b]".toList).1.toOption.map
      (·.preorder.map fun u => (u.kind, u.head.text.resolve "SELECT [a]]b]".toList)) =
        some [(.selectStmt, none), (.selectList, none), (.columnRef, some "a]]b")] ∧
    (({} : Session).parse "SELECT \"a\"\"b\"".toList).1.toOption.map
      (·.preorder.map fun u => (u.kind, u.head.text.resolve "SELECT \"a\"\"b\"".toList)) =
        some [(.selectStmt, none), (.selectList, none), (.columnRef, some "a\"b")] := by
  decide +kernel

end SqlSyntax
