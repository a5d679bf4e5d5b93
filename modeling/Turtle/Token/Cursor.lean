import Turtle.Token.Lexer

/-!
A reading position in a list of tokens.

The cursor is moved by taking tokens, one at a time, and looks ahead without moving. It also tells
the line of the token taken last, or the last line of the source once it has run out of tokens.
-/

namespace Turtle

structure Cursor where
  tokens : Array Token
  position : Nat
  line : Nat
  lastLine : Nat
  deriving DecidableEq, Repr

namespace Cursor

def ofLexed (l : Lexed) : Cursor :=
  ⟨l.tokens.toArray, 0, 1, l.lastLine⟩

/-- Takes the next token. -/
def next (c : Cursor) : Option Token × Cursor :=
  match c.tokens[c.position]? with
  | none => (none, { c with line := c.lastLine })
  | some t => (some t, { c with position := c.position + 1, line := t.line })

def discard (c : Cursor) : Cursor :=
  c.next.2

/-- Positions are 64-bit numbers, which are added and subtracted by wrapping around. -/
def positions : Nat := UInt64.size

/-- The token that the `n`-th of the following takes would give, `n` counting from one: the one at
the position behind which `n - 1` others come. -/
def peek (c : Cursor) (n : Nat) : Option Token :=
  c.tokens[(c.position + (n + (positions - 1))) % positions]?

end Cursor

end Turtle
