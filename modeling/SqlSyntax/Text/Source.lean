/-!
# Pieces of a source

A source is a list of characters, and places in it are byte offsets of its UTF-8 form. A cut at an
offset exists only between two characters: `dropBytes` and `takeBytes` answer `none` elsewhere.

What is told of a source is indented by blanks, and a line that would be indented wider than
`maxIndent` cannot be written.
-/

namespace SqlSyntax

/-- The text that tokens and trees point into. -/
abbrev Source := List Char

namespace Source

/-- Bytes of the UTF-8 form. -/
def byteSize (source : Source) : Nat := source.foldr (·.utf8Size + ·) 0

/-- What follows the first `n` bytes, if a character ends there. -/
def dropBytes : Nat → Source → Option Source
  | 0, cs => some cs
  | _ + 1, [] => none
  | n + 1, c :: cs => if c.utf8Size ≤ n + 1 then dropBytes (n + 1 - c.utf8Size) cs else none

/-- The first `n` bytes, if a character ends there. -/
def takeBytes : Nat → Source → Option Source
  | 0, _ => some []
  | _ + 1, [] => none
  | n + 1, c :: cs =>
    if c.utf8Size ≤ n + 1 then (takeBytes (n + 1 - c.utf8Size) cs).map (c :: ·) else none

/-- The characters that begin before byte `n`. -/
def beginningBefore : Nat → Source → Source
  | 0, _ => []
  | _ + 1, [] => []
  | n + 1, c :: cs => c :: beginningBefore (n + 1 - c.utf8Size) cs

/-- The characters from byte `start` up to byte `stop`. -/
def slice? (source : Source) (start stop : Nat) : Option Source :=
  if start ≤ stop then (source.dropBytes start).bind (takeBytes (stop - start)) else none

/-- The line around an offset, without its line end; offsets past the source count as its end. -/
def lineAt? (source : Source) (offset : Nat) : Option Source := do
  let offset := min offset source.byteSize
  let before ← source.takeBytes offset
  let after ← source.dropBytes offset
  return (before.reverse.takeWhile (· != '\n')).reverse ++ after.takeWhile (· != '\n')

end Source

/-! ## Indentation -/

/-- The most blanks that a line can be indented by. -/
def maxIndent : Nat := 0xFFFF

/-- Blanks of a width, unless they are too many. -/
def indent? (width : Nat) : Option String :=
  if width ≤ maxIndent then some ("".pushn ' ' width) else none

end SqlSyntax
