import SqlSyntax.Keyword
import SqlSyntax.Text.Position

/-!
# Tokens

A token has a kind, its text, the span of the text in its source, and the line and column of the
first byte. Quotes and other marks belong to the text. Text that is no token of the language is a
token too: its kind tells what is wrong with it.
-/

namespace SqlSyntax

inductive TokenKind where
  | integer | float | string | blob
  | identifier | quotedIdentifier
  | keyword (word : Keyword)
  | parameter
  | plus | minus | star | slash | percent
  | eq | notEq | lt | ltEq | gt | gtEq
  | concat | bitAnd | bitOr | bitXor | bitNot | leftShift | rightShift
  | leftParen | rightParen | comma | semicolon | dot | doubleColon
  | error (reason : String)
deriving DecidableEq, Inhabited

structure Token where
  kind : TokenKind
  text : String
  span : Span
  line : Nat
  column : Nat
deriving DecidableEq, Inhabited

namespace Token

def location (t : Token) : Location := ⟨t.line, t.column, t.span.start⟩

/-- The keyword of a keyword token. -/
def keyword? (t : Token) : Option Keyword :=
  match t.kind with
  | .keyword k => some k
  | _ => none

/-- Names written bare or in quotes, and keywords that are not reserved. -/
def isName (t : Token) : Bool :=
  match t.kind with
  | .identifier | .quotedIdentifier => true
  | .keyword k => !k.isReserved
  | _ => false

/-- Whatever may follow a dot in a qualified name: names and all keywords. -/
def isNamePart (t : Token) : Bool := t.isName || t.keyword?.isSome

/-- Words of a type name. -/
def isTypeWord (t : Token) : Bool :=
  match t.kind with
  | .identifier => true
  | .keyword k => k != .AUTOINCREMENT && !k.isReserved
  | _ => false

end Token

end SqlSyntax
