import SqlSyntax.Token
import SqlSyntax.Unicode

/-!
# Lexemes

The text of the next token is found by its first character: `lexeme c rest` is the kind of the
token that starts with `c` and the number of characters of `rest` that belong to it. A lexeme is
as long as its kind allows. Text of no kind still makes a lexeme, with the reason as its kind.
-/

namespace SqlSyntax.Lexeme

open Unicode

/-- Letters and the underscore begin a word. -/
def startsWord (c : Char) : Bool := isAlphabetic c || c == '_'

/-- Letters, numbers, the underscore and the dollar sign go on in a word. -/
def inWord (c : Char) : Bool := isAlphabetic c || isNumeric c || c == '_' || c == '$'

def isHexDigit (c : Char) : Bool :=
  c.isDigit || ('a' ≤ c && c ≤ 'f') || ('A' ≤ c && c ≤ 'F')

/-- How many of the first characters are in a class. -/
def run (p : Char → Bool) (cs : List Char) : Nat := (cs.takeWhile p).length

/-- Length of a quoted body up to its closing mark and with it; a doubled mark closes nothing. -/
def quotedLength? (close : Char) : List Char → Option Nat
  | [] => none
  | [c] => if c == close then some 1 else none
  | c :: d :: rest =>
    if c == close then
      if d == close then (quotedLength? close rest).map (· + 2) else some 1
    else (quotedLength? close (d :: rest)).map (· + 1)

/-- The rest of a quoted token; without a closing mark it is everything that follows. -/
def quoted (close : Char) (kind : TokenKind) (reason : String) (cs : List Char) :
    TokenKind × Nat :=
  match quotedLength? close cs with
  | some n => (kind, n)
  | none => (.error reason, cs.length)

/-- Length of a fraction with its point; no digit is needed. -/
def fractionLength : List Char → Nat
  | '.' :: cs => run Char.isDigit cs + 1
  | _ => 0

/-- Whether an exponent follows, its length, and whether it has a digit. -/
def exponent : List Char → Option (Nat × Bool)
  | c :: cs =>
    if c == 'e' || c == 'E' then
      let sign := match cs with
        | s :: _ => if s == '+' || s == '-' then 1 else 0
        | [] => 0
      let digits := run Char.isDigit (cs.drop sign)
      some (1 + sign + digits, digits != 0)
    else none
  | [] => none

/-- A number that ended after `n` characters; a word may not follow without a gap. -/
def endNumber (kind : TokenKind) (n : Nat) (rest : List Char) : TokenKind × Nat :=
  match rest with
  | c :: _ =>
    if startsWord c then (.error "Invalid number literal", n + run inWord rest) else (kind, n)
  | [] => (kind, n)

/-- Digits, a fraction and an exponent, each of which may be missing. -/
def decimalNumber (cs : List Char) : TokenKind × Nat :=
  let whole := run Char.isDigit cs
  let fraction := fractionLength (cs.drop whole)
  let mantissa := whole + fraction
  match exponent (cs.drop mantissa) with
  | some (n, true) => endNumber .float (mantissa + n) (cs.drop (mantissa + n))
  | some (n, false) => (.error "Invalid float: missing exponent", mantissa + n)
  | none =>
    endNumber (if fraction = 0 then .integer else .float) mantissa (cs.drop mantissa)

/-- A number from its first character on: hexadecimal after `0x`, else decimal. -/
def number : List Char → TokenKind × Nat
  | '0' :: x :: cs =>
    if x == 'x' || x == 'X' then
      match run isHexDigit cs with
      | 0 => (.error "Invalid hexadecimal literal", 2)
      | n => (.integer, n + 2)
    else decimalNumber ('0' :: x :: cs)
  | cs => decimalNumber cs

/-- A blob from its opening quote on: an even number of hexadecimal digits. -/
def blob (cs : List Char) : TokenKind × Nat :=
  let digits := run isHexDigit (cs.drop 1)
  match cs.drop (1 + digits) with
  | [] => (.error "Unterminated blob literal", 1 + digits)
  | c :: rest =>
    if c == '\'' then
      (if digits % 2 = 1 then .error "Odd number of hex digits in blob literal" else .blob,
        digits + 2)
    else
      let skipped := run (· != '\'') (c :: rest)
      (.error "Invalid character in blob literal",
        min (1 + digits + skipped + 1) cs.length)

/-- A named parameter after its mark. -/
def namedParameter (cs : List Char) : TokenKind × Nat :=
  match run inWord cs with
  | 0 => (.error "Parameter name expected", 0)
  | n => (.parameter, n)

/-- A word from its first character on. -/
def word (cs : List Char) : TokenKind × Nat :=
  let n := run inWord cs
  match Keyword.ofWord? (String.ofList (cs.take n)) with
  | some k => (.keyword k, n)
  | none => (.identifier, n)

/-- Marks that are a token on their own, whatever follows. -/
def single? : Char → Option TokenKind
  | '(' => some .leftParen
  | ')' => some .rightParen
  | ',' => some .comma
  | ';' => some .semicolon
  | '+' => some .plus
  | '-' => some .minus
  | '*' => some .star
  | '/' => some .slash
  | '%' => some .percent
  | '~' => some .bitNot
  | '^' => some .bitXor
  | '&' => some .bitAnd
  | _ => none

/-- Marks that a second mark may extend. -/
def mark? (c : Char) (next : Option Char) : Option (TokenKind × Nat) :=
  match c, next with
  | '=', some '=' => some (.eq, 1)
  | '=', _ => some (.eq, 0)
  | '<', some '=' => some (.ltEq, 1)
  | '<', some '>' => some (.notEq, 1)
  | '<', some '<' => some (.leftShift, 1)
  | '<', _ => some (.lt, 0)
  | '>', some '=' => some (.gtEq, 1)
  | '>', some '>' => some (.rightShift, 1)
  | '>', _ => some (.gt, 0)
  | '!', some '=' => some (.notEq, 1)
  | '!', _ => some (.error "Unexpected character: !", 0)
  | '|', some '|' => some (.concat, 1)
  | '|', _ => some (.bitOr, 0)
  | ':', some ':' => some (.doubleColon, 1)
  | _, _ => none

/-- The closing mark, kind and reason of failure that an opening quote stands for. -/
def opening? : Char → Option (Char × TokenKind × String)
  | '\'' => some ('\'', .string, "Unterminated string literal")
  | '"' => some ('"', .quotedIdentifier, "Unterminated quoted identifier")
  | '\x60' => some ('\x60', .quotedIdentifier, "Unterminated quoted identifier")
  | '[' => some (']', .quotedIdentifier, "Unterminated quoted identifier")
  | _ => none

end Lexeme

open Lexeme in
/-- The kind of the token that starts with `c`, and how many of the next characters it takes. -/
def lexeme (c : Char) (rest : List Char) : TokenKind × Nat :=
  if let some kind := single? c then (kind, 0)
  else if let some found := mark? c rest.head? then found
  else if let some (close, kind, reason) := opening? c then quoted close kind reason rest
  else if c == '?' then (.parameter, run Char.isDigit rest)
  else if c == ':' || c == '@' || c == '$' then namedParameter rest
  else if (c == 'x' || c == 'X') && rest.head? == some '\'' then blob rest
  else if c.isDigit || (c == '.' && rest.head?.any Char.isDigit) then
    let (kind, n) := number (c :: rest)
    (kind, n - 1)
  else if c == '.' then (.dot, 0)
  else if startsWord c then
    let (kind, n) := word (c :: rest)
    (kind, n - 1)
  else (.error "Unexpected character", 0)

end SqlSyntax
