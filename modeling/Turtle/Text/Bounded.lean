import Turtle.Text.Basic

/-!
Text that is kept in a buffer of fixed size.

A buffer of capacity `n` holds at most `n - 1` bytes, the last place being reserved. What does not
fit is dropped, and once a byte was dropped no later byte is kept either: the buffer always holds
the beginning of all that was appended to it.
-/

namespace Turtle

structure Bounded (capacity : Nat) where
  bytes : Array UInt8
  deriving DecidableEq, Repr

namespace Bounded

variable {capacity : Nat}

def empty : Bounded capacity :=
  ⟨#[]⟩

def text (b : Bounded capacity) : Text :=
  b.bytes.toList

def size (b : Bounded capacity) : Nat :=
  b.bytes.size

/-- How many more bytes can be kept. -/
def room (b : Bounded capacity) : Nat :=
  capacity - 1 - b.size

/-- Keeps the part of the text that fits, and tells whether that was all of it. -/
def append (b : Bounded capacity) (t : Text) : Bounded capacity × Bool :=
  (⟨b.bytes ++ t.take b.room⟩, b.size + t.length < capacity)

/-- `append` for those who do not ask whether it fitted. -/
def add (b : Bounded capacity) (t : Text) : Bounded capacity :=
  (b.append t).1

end Bounded

end Turtle
