import SqlSyntax.Proofs.Selection
import SqlSyntax.Proofs.Spelling

/-!
# Type names

A type is written as a word of its own, with its numbers in parentheses behind it, and is read back
from that: the word names the type, and each number is read from its digits if it is in range
(`Session.parse_cast`).
-/

namespace SqlSyntax

open SqlSyntax.Parser SqlSyntax.Expression

section Runs

variable {scope : Scope} {t word : Token} {rest rest' : List Token}

namespace Parser.Gives

/-- One item and no more. -/
theorem many_one {α : Type} {next : Parser (Option α)} {ts : List Token} {a : α}
    (hfirst : Gives scope (t :: ts) next fun o r => o = some a ∧ r = rest)
    (hnone : Gives scope rest next fun o r => o = none ∧ r = rest) :
    Gives scope (t :: ts) (Parser.many next) fun found r => found = [a] ∧ r = rest := by
  have hstep (items : List α) {o : Option α} {ts' : List Token}
      (h : Gives scope ts' next fun o' r => o' = o ∧ r = rest) :
      Gives scope ts' (do return (← next).map (· :: items)) fun o' r =>
        o' = o.map (· :: items) ∧ r = rest := h.next (pure ⟨rfl, rfl⟩)
  have hiterate : Gives scope (t :: ts)
      (iterateOver (fun items => do return (← next).map (· :: items)) (t :: ts) [])
      fun items r => items = [a] ∧ r = rest := by
    refine (hstep [] hfirst).next ?_
    intro s hs
    obtain ⟨_, s', hrun, rfl, hs'⟩ := hstep [a] hnone s hs
    exact ⟨[a], s', iterateOver_none hrun _, rfl, hs'⟩
  exact (iterate hiterate).next (pure ⟨rfl, rfl⟩)

/-- A type name of one word, with the numbers after it. -/
theorem typeName_word {p q : Option Nat} (hword : word.isTypeWord)
    (hnext : ∀ t ∈ rest.head?, t.isTypeWord = false)
    (hnumbers : Gives scope rest typeParameters fun a r => a = (p, q) ∧ r = rest') :
    Gives scope (word :: rest) typeName fun a r => a.2 = .ofName word.text p q ∧ r = rest' := by
  refine (many_one (takeIf? hword) (takeIf?_none hnext)).next (hnumbers.next ?_)
  have hname : " ".intercalate ([word.text].dropWhile (·.isEmpty)) = word.text := by
    by_cases hempty : word.text = ""
    · rw [hempty]
      decide
    · simp [hempty]
  intro s hs
  exact ⟨_, s, rfl, congrArg (DataType.ofName · p q) hname, hs⟩

end Parser.Gives

end Runs

/-! ## Types and what they are written with -/

namespace DataType

/-- A known type whose numbers are in range, with a scale only behind a precision. -/
def Spelled : DataType → Prop
  | decimal p q | numeric p q =>
    (∀ n ∈ p, n < 2 ^ 16) ∧ (∀ n ∈ q, n < 2 ^ 16) ∧ (p = none → q = none)
  | char n | varchar n | binary n | varbinary n => ∀ m ∈ n, m < 2 ^ 32
  | custom => False
  | _ => True

/-- The word that the type is written with. -/
def word : DataType → String
  | smallint => "SMALLINT"
  | integer => "INTEGER"
  | bigint => "BIGINT"
  | real => "REAL"
  | double => "DOUBLE"
  | decimal _ _ => "DECIMAL"
  | numeric _ _ => "NUMERIC"
  | char _ => "CHAR"
  | varchar _ => "VARCHAR"
  | text => "TEXT"
  | blob => "BLOB"
  | binary _ => "BINARY"
  | varbinary _ => "VARBINARY"
  | date => "DATE"
  | time => "TIME"
  | timestamp => "TIMESTAMP"
  | datetime => "DATETIME"
  | boolean => "BOOLEAN"
  | custom => "CUSTOM"

/-- The numbers that the type is written with. -/
def numbers : DataType → Option Nat × Option Nat
  | decimal p q | numeric p q => (p, q)
  | char n | varchar n | binary n | varbinary n => (n, none)
  | _ => (none, none)

/-- The numbers of a type fit into what numbers of type names are read as. -/
structure NumbersFit (p q : Option Nat) : Prop where
  first : ∀ n ∈ p, n < 2 ^ 32
  second : ∀ n ∈ q, n < 2 ^ 32
  order : p = none → q = none

variable {d : DataType}

theorem Spelled.numbersFit (h : d.Spelled) : NumbersFit d.numbers.1 d.numbers.2 := by
  have hlt {n : Nat} (hn : n < 2 ^ 16) : n < 2 ^ 32 := by omega
  have hnone : NumbersFit none none := ⟨nofun, nofun, fun _ => rfl⟩
  cases d
  case decimal p q => exact ⟨fun n hn => hlt (h.1 n hn), fun n hn => hlt (h.2.1 n hn), h.2.2⟩
  case numeric p q => exact ⟨fun n hn => hlt (h.1 n hn), fun n hn => hlt (h.2.1 n hn), h.2.2⟩
  case char n => exact ⟨h, nofun, fun _ => rfl⟩
  case varchar n => exact ⟨h, nofun, fun _ => rfl⟩
  case binary n => exact ⟨h, nofun, fun _ => rfl⟩
  case varbinary n => exact ⟨h, nofun, fun _ => rfl⟩
  all_goals exact hnone

theorem sql_eq (d : DataType) : d.sql = withPrecision d.word d.numbers.1 d.numbers.2 := by
  cases d
  case char n => cases n <;> rfl
  case varchar n => cases n <;> rfl
  case binary n => cases n <;> rfl
  case varbinary n => cases n <;> rfl
  all_goals rfl

theorem digits_of_lt {n : Option Nat} (h : ∀ m ∈ n, m < 2 ^ 16) : digits n = n := by
  rcases n with _ | n
  · rfl
  · exact if_pos (by simpa using h n rfl)

/-- The words that types are written with. -/
def words : List String := [
  "SMALLINT", "INTEGER", "BIGINT", "REAL", "DOUBLE", "DECIMAL", "NUMERIC", "CHAR", "VARCHAR",
  "TEXT", "BLOB", "BINARY", "VARBINARY", "DATE", "TIME", "TIMESTAMP", "DATETIME", "BOOLEAN",
  "CUSTOM"]

theorem word_mem (d : DataType) : d.word ∈ words := by
  cases d <;> simp [word, words]

theorem foldCase_word (d : DataType) : foldCase d.word = d.word := by
  have hall : ∀ w ∈ words, foldCase w = w := by decide +kernel
  exact hall _ d.word_mem

theorem spellsWord_word (d : DataType) : Lexeme.spellsWord d.word.toList := by
  have hall : ∀ w ∈ words, Lexeme.spellsWord w.toList := by decide
  exact hall _ d.word_mem

/-- The word and the numbers name the type. -/
theorem Spelled.ofName (h : d.Spelled) : DataType.ofName d.word d.numbers.1 d.numbers.2 = d := by
  rw [DataType.ofName, foldCase_word]
  cases d
  case decimal p q =>
    show DataType.decimal (digits p) (digits q) = _
    rw [digits_of_lt h.1, digits_of_lt h.2.1]
  case numeric p q =>
    show DataType.numeric (digits p) (digits q) = _
    rw [digits_of_lt h.1, digits_of_lt h.2.1]
  case custom => exact h.elim
  all_goals rfl

/-- The token with the word of a type is a word of a type name. -/
theorem isTypeWord_word (d : DataType) {t : Token}
    (h : t.kind = (Lexeme.word d.word.toList).1) : t.isTypeWord := by
  have hall : ∀ w ∈ words, Token.isTypeWord { (default : Token) with
      kind := (Lexeme.word w.toList).1 } := by decide +kernel
  have hword := hall _ d.word_mem
  unfold Token.isTypeWord at hword ⊢
  rwa [h]

end DataType

/-! ## The tokens of a type -/

/-- The numbers of a type name in parentheses. -/
def numbersText : Option Nat → Option Nat → List Char
  | none, _ => []
  | some p, none => '(' :: ((toString p).toList ++ [')'])
  | some p, some q => '(' :: ((toString p).toList ++ ',' :: ' ' :: ((toString q).toList ++ [')']))

/-- What the tokens of the numbers say. -/
def numbersSaid : Option Nat → Option Nat → List (TokenKind × String)
  | none, _ => []
  | some p, none => [(.leftParen, "("), (.integer, toString p), (.rightParen, ")")]
  | some p, some q =>
    [(.leftParen, "("), (.integer, toString p), (.comma, ","), (.integer, toString q),
      (.rightParen, ")")]

theorem DataType.toList_withPrecision (name : String) (p q : Option Nat) :
    (withPrecision name p q).toList = name.toList ++ numbersText p q := by
  rcases p with _ | p
  · simp [withPrecision, numbersText]
  · rcases q with _ | q <;> simp [withPrecision, numbersText, String.toList_append, toString]

namespace Spells

variable {rest : List Char} {said : List (TokenKind × String)}

theorem opening (h : Spells rest said) : Spells ('(' :: rest) ((.leftParen, "(") :: said) :=
  mark (by decide) (by decide) rfl h

theorem closing (h : Spells rest said) : Spells (')' :: rest) ((.rightParen, ")") :: said) :=
  mark (by decide) (by decide) rfl h

theorem comma (h : Spells rest said) : Spells (',' :: rest) ((.comma, ",") :: said) :=
  mark (by decide) (by decide) rfl h

theorem keyword {w : String} {k : Keyword}
    (hw : Lexeme.spellsWord w.toList ∧ (Lexeme.word w.toList).1 = .keyword k)
    (hrest : ∀ d ∈ rest.head?, Lexeme.inWord d = false) (h : Spells rest said) :
    Spells (w.toList ++ rest) ((.keyword k, w) :: said) :=
  hw.2 ▸ word hw.1 hrest h

theorem numbers (p q : Option Nat) (h : Spells rest said) :
    Spells (numbersText p q ++ rest) (numbersSaid p q ++ said) := by
  have hend : Lexeme.endsNumber ')' ∧ Lexeme.endsNumber ',' := by decide
  rcases p with _ | p
  · exact h
  · rcases q with _ | q
    · rw [numbersText, List.cons_append, List.append_assoc]
      exact .opening (.decimal p (by simp [hend]) (.closing h))
    · rw [numbersText, List.cons_append, List.append_assoc, List.cons_append, List.cons_append,
        List.append_assoc]
      exact .opening (.decimal p (by simp [hend]) (.comma (.space
        (.decimal q (by simp [hend]) (.closing h)))))

end Spells

/-- What the tokens of a cast to the type say. -/
def castSaid (d : DataType) : List (TokenKind × String) :=
  (.keyword .SELECT, "SELECT") :: (.keyword .CAST, "CAST") :: (.leftParen, "(") ::
    (.integer, "1") :: (.keyword .AS, "AS") :: ((Lexeme.word d.word.toList).1, d.word) ::
    (numbersSaid d.numbers.1 d.numbers.2 ++ [(.rightParen, ")")])

theorem no_dot_of_mem_castSaid (d : DataType) : ∀ said ∈ castSaid d, said.1 ≠ .dot := by
  have hword : (Lexeme.word d.word.toList).1 ≠ .dot := by
    unfold Lexeme.word
    dsimp only
    split <;> nofun
  have hnumbers : ∀ said ∈ numbersSaid d.numbers.1 d.numbers.2, said.1 ≠ .dot := by
    rcases d.numbers with ⟨_ | p, _ | q⟩ <;> simp [numbersSaid]
  unfold castSaid
  simp only [List.forall_mem_cons, List.forall_mem_append]
  exact ⟨nofun, nofun, nofun, nofun, nofun, hword, hnumbers, nofun, List.forall_mem_nil _⟩

theorem tokenize_cast (d : DataType) :
    (tokenize ("SELECT CAST(1 AS " ++ d.sql ++ ")").toList).map Token.said = castSaid d := by
  have hsource : ("SELECT CAST(1 AS " ++ d.sql ++ ")").toList =
      "SELECT".toList ++ ' ' :: ("CAST".toList ++ '(' :: ((toString 1).toList ++
        ' ' :: ("AS".toList ++ ' ' :: (d.word.toList ++
          (numbersText d.numbers.1 d.numbers.2 ++ [')']))))) := by
    have hone : (toString 1).toList = ['1'] := by decide
    rw [d.sql_eq, String.toList_append, String.toList_append, DataType.toList_withPrecision, hone]
    simp
  have hspace : Lexeme.inWord ' ' = false ∧ Lexeme.endsNumber ' ' := by decide
  have hparen : Lexeme.inWord '(' = false ∧ Lexeme.inWord ')' = false := by decide
  have hnumbers : ∀ c ∈ (numbersText d.numbers.1 d.numbers.2 ++ [')']).head?,
      Lexeme.inWord c = false := by
    rcases d.numbers with ⟨_ | p, _ | q⟩ <;> simp [numbersText, hparen]
  have htype := Spells.word d.spellsWord_word hnumbers (.numbers _ _ (.closing .nil))
  have has := Spells.keyword (w := "AS") (k := .AS) (by decide +kernel) (by simp [hspace])
    htype.space
  have hcast := Spells.keyword (w := "CAST") (k := .CAST) (by decide +kernel) (by simp [hparen])
    (.opening (.decimal 1 (by simp [hspace]) has.space))
  have hselect := Spells.keyword (w := "SELECT") (k := .SELECT) (by decide +kernel)
    (by simp [hspace]) hcast.space
  rw [hsource]
  exact hselect {}

/-! ## Numbers -/

/-- A number is read back from its decimal digits. -/
theorem unsigned?_toString {n : Nat} (h : n < 2 ^ 32) : unsigned? (toString n) = some n := by
  have hdigits : ∀ d ∈ Nat.toDigits 10 n, d.isDigit := fun d =>
    Nat.isDigit_of_mem_toDigits (by decide) (by decide)
  have hvalue : (Nat.toDigits 10 n).foldl (fun n c => 10 * n + (c.toNat - '0'.toNat)) 0 = n := by
    rw [← Nat.ofDigitChars_eq_foldl, Nat.ofDigitChars_ten_toDigits]
  have hplus : '+' ∉ Nat.toDigits 10 n := fun h => absurd (hdigits '+' h) (by decide)
  have hne : Nat.toDigits 10 n ≠ [] := Nat.toDigits_ne_nil
  rw [Nat.toString_eq_ofList_toDigits, unsigned?, String.toList_ofList]
  generalize Nat.toDigits 10 n = cs at hdigits hvalue hplus hne
  split
  · exact absurd List.mem_cons_self hplus
  · rw [hvalue, if_neg (by simpa [hne] using hdigits)]
    exact if_pos (by simpa using h)

/-! ## Runs over a cast -/

section Cast

variable {scope : Scope} {self : Nested} {t one opening closing : Token} {ts rest : List Token}

namespace Parser.Gives

theorem typeParameter {n : Nat} (h : t.said = (.integer, toString n)) (hn : n < 2 ^ 32) :
    Gives scope (t :: rest) SqlSyntax.typeParameter fun o r => o = some n ∧ r = rest := by
  have hkind : t.kind = .integer := congrArg Prod.fst h
  have htext : t.text = toString n := congrArg Prod.snd h
  have hminus : Gives scope (t :: rest) (consume .minus) fun b r => b = false ∧ r = t :: rest :=
    consume_false (by simp [hkind])
  have hplus : Gives scope (t :: rest) (consume .plus) fun b r => b = false ∧ r = t :: rest :=
    consume_false (by simp [hkind])
  have hnumber : Gives scope (t :: rest)
      (Parser.takeIf? fun t => t.kind == .integer || t.kind == .float) fun o r =>
        o = some t ∧ r = rest := takeIf? (by simp [hkind])
  refine hminus.next (hplus.skip (hnumber.next (pure ⟨?_, rfl⟩)))
  rw [htext]
  exact unsigned?_toString hn

/-- The numbers of a type name are read from the tokens that they are written with. -/
theorem typeParameters {p q : Option Nat} (h : DataType.NumbersFit p q)
    (hsaid : ts.map Token.said = numbersSaid p q)
    (hrest : rest.head?.map Token.kind ≠ some .leftParen) :
    Gives scope (ts ++ rest) SqlSyntax.typeParameters fun a r => a = (p, q) ∧ r = rest := by
  rcases p with _ | p
  · obtain rfl := h.order rfl
    obtain rfl := List.map_eq_nil_iff.1 hsaid
    exact (consume_false hrest).next (pure ⟨rfl, rfl⟩)
  · have hp := h.first p rfl
    rcases q with _ | q
    · obtain ⟨opening, _, rfl, hopening, hsaid⟩ := List.map_eq_cons_iff.1 hsaid
      obtain ⟨first, _, rfl, hfirst, hsaid⟩ := List.map_eq_cons_iff.1 hsaid
      obtain ⟨closing, _, rfl, hclosing, hsaid⟩ := List.map_eq_cons_iff.1 hsaid
      obtain rfl := List.map_eq_nil_iff.1 hsaid
      have hclosing : closing.kind = .rightParen := congrArg Prod.fst hclosing
      refine (consume_true (congrArg Prod.fst hopening)).next ((typeParameter hfirst hp).next ?_)
      refine (consume_false (by simp [hclosing])).next ?_
      exact (pure ⟨rfl, rfl⟩).next ((expect _ hclosing).skip (pure ⟨rfl, rfl⟩))
    · have hq := h.second q rfl
      obtain ⟨opening, _, rfl, hopening, hsaid⟩ := List.map_eq_cons_iff.1 hsaid
      obtain ⟨first, _, rfl, hfirst, hsaid⟩ := List.map_eq_cons_iff.1 hsaid
      obtain ⟨comma, _, rfl, hcomma, hsaid⟩ := List.map_eq_cons_iff.1 hsaid
      obtain ⟨second, _, rfl, hsecond, hsaid⟩ := List.map_eq_cons_iff.1 hsaid
      obtain ⟨closing, _, rfl, hclosing, hsaid⟩ := List.map_eq_cons_iff.1 hsaid
      obtain rfl := List.map_eq_nil_iff.1 hsaid
      refine (consume_true (congrArg Prod.fst hopening)).next ((typeParameter hfirst hp).next ?_)
      refine (consume_true (congrArg Prod.fst hcomma)).next ((typeParameter hsecond hq).next ?_)
      exact (expect _ (congrArg Prod.fst hclosing)).skip (pure ⟨rfl, rfl⟩)

end Parser.Gives

section Written

variable {d : DataType} {word : Token} {numbers : List Token}

/-- No word follows the word of a type. -/
theorem no_typeWord {p q : Option Nat} (hnumbers : numbers.map Token.said = numbersSaid p q)
    (hclosing : closing.kind = .rightParen) :
    ∀ t ∈ (numbers ++ [closing]).head?, t.isTypeWord = false := by
  rcases numbers with _ | ⟨t, numbers⟩
  · rintro _ ⟨⟩
    rw [Token.isTypeWord, hclosing]
  · rintro _ ⟨⟩
    have hopening : t.kind = .leftParen := by
      rcases p with _ | p
      · cases hnumbers
      · rcases q with _ | q <;> exact congrArg Prod.fst (List.cons.inj hnumbers).1
    rw [Token.isTypeWord, hopening]

/-- The tokens that a type is written with are read as the type. -/
theorem typeName_run (hd : d.Spelled) (hword : word.said = ((Lexeme.word d.word.toList).1, d.word))
    (hnumbers : numbers.map Token.said = numbersSaid d.numbers.1 d.numbers.2)
    (hclosing : closing.kind = .rightParen) :
    Gives scope (word :: (numbers ++ [closing])) typeName fun a r => a.2 = d ∧ r = [closing] := by
  have hlast : [closing].head?.map Token.kind ≠ some .leftParen := by simp [hclosing]
  have hparameters : Gives scope (numbers ++ [closing]) typeParameters fun a r =>
      a = (d.numbers.1, d.numbers.2) ∧ r = [closing] :=
    Gives.typeParameters hd.numbersFit hnumbers hlast
  have htext : word.text = d.word := congrArg Prod.snd hword
  have hrun := Gives.typeName_word (d.isTypeWord_word (congrArg Prod.fst hword))
    (no_typeWord hnumbers hclosing) hparameters
  rwa [htext, hd.ofName] at hrun

/-- The type is kept in the node. -/
theorem setType_run (hd : d.Spelled) (hword : word.said = ((Lexeme.word d.word.toList).1, d.word))
    (hnumbers : numbers.map Token.said = numbersSaid d.numbers.1 d.numbers.2)
    (hclosing : closing.kind = .rightParen) (u : Tree) :
    Gives scope (word :: (numbers ++ [closing])) (setType u) fun v r =>
      (∃ text, v = u.mapHead fun n => { n with text, dataType := some d }) ∧ r = [closing] := by
  refine (typeName_run hd hword hnumbers hclosing).bind ?_
  rintro ⟨text, dataType⟩ _ ⟨rfl, rfl⟩
  refine (Gives.amend _ _).weaken ?_
  rintro _ _ ⟨rfl, rfl⟩
  exact ⟨⟨text, rfl⟩, rfl⟩

end Written

/-- A cast of a number to a type is read with the type. -/
theorem cast_run {d : DataType} (hd : d.Spelled) {cast as word : Token} {numbers : List Token}
    (hopens : scope.Opens scope.depth) (k : Nat)
    (hcast : cast.kind = .keyword .CAST) (hopening : opening.kind = .leftParen)
    (hone : one.kind = .integer) (has : as.kind = .keyword .AS)
    (hword : word.said = ((Lexeme.word d.word.toList).1, d.word))
    (hnumbers : numbers.map Token.said = numbersSaid d.numbers.1 d.numbers.2)
    (hclosing : closing.kind = .rightParen) :
    Gives scope (cast :: opening :: one :: as :: word :: (numbers ++ [closing]))
      (operand (Nested.upTo (k + 1))) fun u r =>
      (u.head.dataType = some d ∧ u.shape = [.castExpr, .integerLiteral]) ∧ r = [] := by
  have hstops : Power.Stops 0 (as :: word :: (numbers ++ [closing])) := by
    intro p hp
    rw [Power.ahead?, has] at hp
    cases hp
  have hinner : Gives { scope with context := some .functionArgument }
      (one :: as :: word :: (numbers ++ [closing])) ((Nested.upTo (k + 1)).expression 0)
      fun u r => u.shape = [.integerLiteral] ∧ r = as :: word :: (numbers ++ [closing]) :=
    integer_run hopens hone hstops
  refine Gives.current.next ?_
  dsimp only [List.head?_cons]
  rw [hcast]
  refine Gives.current.next ?_
  dsimp only [List.head?_cons]
  rw [hcast]
  refine (Gives.expect _ hcast).next ((Gives.newNode _ _ _).bind ?_)
  rintro _ _ ⟨⟨id, rfl⟩, rfl⟩
  refine (Gives.expect _ hopening).skip ((Gives.within _ hinner).bind ?_)
  rintro value _ ⟨hvalue, rfl⟩
  refine (Gives.attach _ _).next ((Gives.expect _ has).skip ?_)
  refine (setType_run hd hword hnumbers hclosing _).bind ?_
  rintro _ _ ⟨⟨text, rfl⟩, rfl⟩
  refine (Gives.expect _ hclosing).skip ((Gives.finish _).weaken ?_)
  rintro _ _ ⟨⟨stop, rfl⟩, rfl⟩
  refine ⟨⟨rfl, ?_⟩, rfl⟩
  rw [Tree.append, Tree.mapHead, Tree.mapHead, Tree.shape_node]
  exact congrArg (Kind.castExpr :: ·) ((List.append_nil _).trans hvalue)

end Cast

/-- The cast of a number to a known type whose numbers are in range is answered with a selection of
a cast to just that type. -/
theorem Session.parse_cast (s : Session) {d : DataType} (hd : d.Spelled)
    (hroom : s.HasRoom 4) :
    ∃ t item, (s.parse ("SELECT CAST(1 AS " ++ d.sql ++ ")").toList).1 = .ok t ∧
      t.Selects item ∧ item.shape = [.castExpr, .integerLiteral] ∧
      item.head.dataType = some d := by
  have hsaid := tokenize_cast d
  have hread : ∀ t ∈ tokenize ("SELECT CAST(1 AS " ++ d.sql ++ ")").toList,
      t.ReadFrom ("SELECT CAST(1 AS " ++ d.sql ++ ")").toList :=
    fun _ => readFrom_of_mem_tokenize
  have hdot : ∀ t ∈ tokenize ("SELECT CAST(1 AS " ++ d.sql ++ ")").toList, t.kind ≠ .dot :=
    fun t ht => no_dot_of_mem_castSaid d t.said (hsaid ▸ List.mem_map_of_mem ht)
  rw [parse]
  generalize tokenize ("SELECT CAST(1 AS " ++ d.sql ++ ")").toList = tokens at hsaid hread hdot
  generalize ("SELECT CAST(1 AS " ++ d.sql ++ ")").toList = source at hread
  obtain ⟨select, _, rfl, hselect, hsaid⟩ := List.map_eq_cons_iff.1 hsaid
  obtain ⟨cast, _, rfl, hcast, hsaid⟩ := List.map_eq_cons_iff.1 hsaid
  obtain ⟨opening, _, rfl, hopening, hsaid⟩ := List.map_eq_cons_iff.1 hsaid
  obtain ⟨one, _, rfl, hone, hsaid⟩ := List.map_eq_cons_iff.1 hsaid
  obtain ⟨as, _, rfl, has, hsaid⟩ := List.map_eq_cons_iff.1 hsaid
  obtain ⟨word, _, rfl, hword, hsaid⟩ := List.map_eq_cons_iff.1 hsaid
  obtain ⟨numbers, _, rfl, hnumbers, hsaid⟩ := List.map_eq_append_iff.1 hsaid
  obtain ⟨closing, _, rfl, hclosing, hsaid⟩ := List.map_eq_cons_iff.1 hsaid
  obtain rfl := List.map_eq_nil_iff.1 hsaid
  have hcast : cast.kind = .keyword .CAST := congrArg Prod.fst hcast
  have hopening : opening.kind = .leftParen := congrArg Prod.fst hopening
  have hone : one.kind = .integer := congrArg Prod.fst hone
  have has : as.kind = .keyword .AS := congrArg Prod.fst has
  have hclosing : closing.kind = .rightParen := congrArg Prod.fst hclosing
  have hfirst : cast.BeginsItem := by constructor <;> rw [hcast] <;> decide
  have hitem : Gives { s.scope .one source with depth := 2, context := some .selectList }
      (cast :: opening :: one :: as :: word :: (numbers ++ [closing]))
      ((Nested.upTo
        ((opening :: one :: as :: word :: (numbers ++ [closing])).length + 2)).expression 0)
      fun u r => (u.head.dataType = some d ∧ u.shape = [.castExpr, .integerLiteral]) ∧ r = [] :=
    expression_run_operand 0 (hroom 2 (by decide))
      (cast_run hd (hroom.opens source 3 (by decide)) _ hcast hopening hone has hword hnumbers
        hclosing)
  obtain ⟨t, item, hparse, hitem, ht⟩ := s.parseTokens_select source
    (hroom.mono (by decide)) hread (congrArg Prod.fst hselect) hfirst
    (List.forall_mem_cons.1 hdot).2 hitem fun u hu => .of_shape hu.2 (by decide)
  exact ⟨t, item, hparse, ht, hitem.2, hitem.1⟩

/-- The greatest precision and scale are read back. -/
theorem Session.parse_cast_decimal :
    ∃ t item, (({} : Session).parse
        ("SELECT CAST(1 AS " ++ (DataType.decimal (some 65535) (some 65535)).sql ++ ")").toList).1 =
          .ok t ∧
      t.Selects item ∧ item.shape = [.castExpr, .integerLiteral] ∧
      item.head.dataType = some (.decimal (some 65535) (some 65535)) :=
  Session.parse_cast {} ⟨by simp, by simp, nofun⟩ (Session.hasRoom_default (by decide))

end SqlSyntax
