import SqlSyntax.Storage.Growth
import SqlSyntax.Text.Source
import SqlSyntax.Token
import SqlSyntax.Unicode
import SqlSyntax.Validation.Breach

/-!
# Errors of a parse

An error has a cause, a place, and the source line of the place once the source is known. Kind,
message, and what was expected and found follow from the cause.
-/

namespace SqlSyntax

inductive ErrorKind where
  | syntaxError | tooDeep | invalid | outOfMemory
deriving DecidableEq, Inhabited

def ErrorKind.display : ErrorKind → String
  | .syntaxError => "syntax error"
  | .tooDeep => "nesting too deep"
  | .invalid => "validation error"
  | .outOfMemory => "out of memory"

inductive Cause where
  /-- A token other than the one that must come next. -/
  | unexpected (expected : String) (found : TokenKind) (text : String)
  /-- No token where one must come next. -/
  | endOfInput (expected : String)
  /-- Quoted with another mark than the double quote in strict mode. -/
  | quoteStyle
  /-- An operator that strict mode spells otherwise. -/
  | operatorSpelling (text : String)
  /-- A cast written `::` where only `CAST` is allowed. -/
  | castSpelling
  | unknownOperator
  | tooManyQualifiers
  | temporaryNotAllowed
  | uniqueNotAllowed
  | rowidMissing
  | extensionDisabled (word : Keyword)
  | remark (message : String)
  | depthExceeded (limit : Nat)
  | stackExhausted (budget depth : Nat)
  | invalid (breach : Breach)
  | storage (error : StorageError)
deriving DecidableEq, Inhabited

namespace Cause

def kind : Cause → ErrorKind
  | .depthExceeded _ | .stackExhausted .. => .tooDeep
  | .invalid _ => .invalid
  | .storage _ => .outOfMemory
  | _ => .syntaxError

/-- The message; a token that is an error itself shows its own reason. -/
def message : Cause → String
  | .unexpected _ (.error reason) text => s!"{reason}: '{text}'"
  | .unexpected expected _ text => s!"Unexpected token: expected {expected}, found '{text}'"
  | .endOfInput expected => s!"Unexpected end of input: expected {expected}"
  | .quoteStyle => "Only double-quoted identifiers are allowed in strict ANSI mode"
  | .operatorSpelling text => s!"Operator '{text}' is not ANSI SQL"
  | .castSpelling => "'::' casts are not allowed; use CAST(expr AS type)"
  | .unknownOperator => "Unknown operator"
  | .tooManyQualifiers => "Too many qualifiers before '*'"
  | .temporaryNotAllowed => "TEMPORARY is not allowed here"
  | .uniqueNotAllowed => "UNIQUE is only allowed on CREATE INDEX"
  | .rowidMissing => "Expected ROWID after WITHOUT"
  | .extensionDisabled word => s!"{word.spelling} is an extension and extensions are disabled"
  | .remark message => message
  | .depthExceeded limit => s!"Maximum nesting depth of {limit} exceeded"
  | .stackExhausted budget depth =>
    s!"Nesting depth {depth} exceeds the stack budget of {budget} bytes"
  | .invalid breach => breach.message
  | .storage error => error.message

/-- What should have come next, or the rule that was broken. -/
def expected? : Cause → Option String
  | .unexpected expected .. | .endOfInput expected => some expected
  | .invalid breach => some breach.rule.name
  | _ => none

/-- The text that came instead. -/
def found? : Cause → Option String
  | .unexpected _ _ text => some text
  | .endOfInput _ => some "end of input"
  | _ => none

end Cause

structure ParseError where
  cause : Cause
  location : Location := {}
  span : Span := {}
  /-- The source line of the location. -/
  context : Option String := none
deriving DecidableEq, Inhabited

namespace ParseError

def kind (e : ParseError) : ErrorKind := e.cause.kind

/-- An error at a token. -/
def atToken (cause : Cause) (t : Token) : ParseError := ⟨cause, t.location, t.span, none⟩

/-- A token that is not the expected one. -/
def unexpected (expected : String) (t : Token) : ParseError :=
  atToken (.unexpected expected t.kind t.text) t

/-- An error past the last token. -/
def endOfInput (expected : String) (l : Location) : ParseError :=
  ⟨.endOfInput expected, l, ⟨l.offset, l.offset⟩, none⟩

/-- A violation as an error of the parse. -/
def ofViolation (v : Violation) : ParseError := ⟨.invalid v.breach, v.location, v.span, none⟩

/-- A failure of storage, which has no place. -/
def ofStorage (e : StorageError) : ParseError := { cause := .storage e }

/-- The line without the blanks at its end, unless nothing is left. -/
def shownLine (line : List Char) : Option String :=
  match (line.reverse.dropWhile Unicode.isWhiteSpace).reverse with
  | [] => none
  | cs => some (String.ofList cs)

/-- The error with its source line; there is no such line if the place is inside a character. A
failure of storage gets none, and a line that is there stays. -/
def withSource? (source : Source) (e : ParseError) : Option ParseError :=
  if e.context.isSome || e.kind = .outOfMemory then some e
  else (source.lineAt? e.location.offset).map fun line => { e with context := shownLine line }

/-- The error for a human reader; below the source line a caret marks the column. There is no
such text if the caret is too far to the right. -/
def display? (e : ParseError) : Option String :=
  let place := s!"at line {e.location.line}, column {e.location.column}"
  let headline := s!"{e.kind.display}: {e.cause.message} {place}"
  match e.context with
  | none => some headline
  | some line =>
    (indent? (e.location.column - 1)).map fun gap => s!"{headline}\n  {line}\n  {gap}^"

end ParseError

end SqlSyntax
