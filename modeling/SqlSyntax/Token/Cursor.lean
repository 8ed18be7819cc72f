import SqlSyntax.Token

/-!
# Cursors

A list of tokens with a position in it. Positions may be kept and set again.
-/

namespace SqlSyntax

structure Cursor where
  tokens : List Token
  position : Nat := 0

namespace Cursor

/-- The token `n` places after the position; places are 64-bit words. -/
def peek (c : Cursor) (n : Nat) : Option Token := c.tokens[wordAdd c.position n]?

/-- The token at the position. -/
def current (c : Cursor) : Option Token := c.peek 0

def atEnd (c : Cursor) : Bool := c.current.isNone

/-- Moves past the current token, if there is one. -/
def advance (c : Cursor) : Cursor :=
  if c.atEnd then c else { c with position := c.position + 1 }

/-- Moves to a position, at most to the end. -/
def moveTo (c : Cursor) (position : Nat) : Cursor :=
  { c with position := min position c.tokens.length }

end Cursor

end SqlSyntax
