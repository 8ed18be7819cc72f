import SqlSyntax.Text.Source

/-!
# Spans and locations

A span is a pair of byte offsets; its arithmetic is that of 64-bit words, so a span whose ends are
in the wrong order has a length close to `2 ^ 64`. A location adds the line and the column, both
counted from one and both at most `2 ^ 32 - 1`; a column counts bytes.

`Location.atOffset` looks for the lines in the whole text before an offset. `Mark` carries a
location along the characters that are read, as the reading of tokens does.
-/

namespace SqlSyntax

/-- Sum of two 64-bit words. -/
def wordAdd (a b : Nat) : Nat := (a + b) % 0x10000000000000000

/-- Difference of two 64-bit words. -/
def wordSub (a b : Nat) : Nat := (a + 0x10000000000000000 - b) % 0x10000000000000000

/-- The bytes from `start` up to `stop`. -/
structure Span where
  start : Nat := 0
  stop : Nat := 0
deriving DecidableEq, Inhabited

namespace Span

def length (s : Span) : Nat := wordSub s.stop s.start

def isEmpty (s : Span) : Bool := s.start == s.stop

/-- The least span that covers both. -/
def merge (a b : Span) : Span := ⟨min a.start b.start, max a.stop b.stop⟩

/-- The span without `n` bytes at each end; one too short for that shrinks to its start. -/
def inner (s : Span) (n : Nat) : Span :=
  if s.length < wordAdd n n then ⟨s.start, s.start⟩ else ⟨wordAdd s.start n, wordSub s.stop n⟩

/-- The span carried on to a later end. -/
def extend (s : Span) (stop : Nat) : Span := ⟨s.start, max s.stop stop⟩

end Span

/-- The text of a span, if both its ends lie between characters of the source. -/
def Source.at? (source : Source) (s : Span) : Option String :=
  (source.slice? s.start s.stop).map String.ofList

/-- A place for a human reader: line and column from one, and the byte offset. -/
structure Location where
  line : Nat := 1
  column : Nat := 1
  offset : Nat := 0
deriving DecidableEq, Inhabited

/-- The location of a byte offset, as the line ends before it tell; a line end is one byte, so it
lies before the offset where it begins there. Offsets past the source count as its end. -/
def Location.atOffset (source : Source) (offset : Nat) : Location :=
  let offset := min offset source.byteSize
  let before := source.beginningBefore offset
  let lineStart := Source.byteSize (before.reverse.dropWhile (· != '\n')).reverse
  ⟨min (before.count '\n' + 1) 0xFFFFFFFF, min (offset - lineStart + 1) 0xFFFFFFFF, offset⟩

/-- A place in a text that is read from its start: the line, where it began, and the offset. -/
structure Mark where
  line : Nat := 1
  lineStart : Nat := 0
  offset : Nat := 0
deriving DecidableEq, Inhabited

namespace Mark

/-- The mark after one more character. -/
def next (m : Mark) (c : Char) : Mark :=
  if c = '\n' then ⟨m.line + 1, m.offset + 1, m.offset + 1⟩
  else { m with offset := m.offset + c.utf8Size }

/-- The mark after more characters. -/
def past (m : Mark) (cs : List Char) : Mark := cs.foldl next m

/-- The location of an offset on the line of the mark. -/
def locate (m : Mark) (offset : Nat) : Location :=
  ⟨min m.line 0xFFFFFFFF, min (offset - m.lineStart + 1) 0xFFFFFFFF, offset⟩

end Mark

end SqlSyntax
