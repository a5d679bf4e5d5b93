/-!
Text is a list of bytes.

Sources, names, messages and files all hold arbitrary bytes: nothing in the language asks for a
valid encoding, and a byte that no rule of the lexer accepts is reported as that byte. The classes
below are therefore classes of bytes, and the letters they know are the ASCII letters.
-/

namespace Turtle

abbrev Text := List UInt8

/-- The bytes of a literal, all of whose characters are ASCII. -/
def ascii (literal : String) : Text :=
  literal.toList.map Char.toUInt8

namespace Text

def isDigit (b : UInt8) : Bool :=
  '0'.toUInt8 ≤ b && b ≤ '9'.toUInt8

/-- Letters open a name; the underscore counts as one. -/
def isLetter (b : UInt8) : Bool :=
  ('a'.toUInt8 ≤ b && b ≤ 'z'.toUInt8) || ('A'.toUInt8 ≤ b && b ≤ 'Z'.toUInt8) || b == '_'.toUInt8

/-- What a name may hold after its first byte, and a quoted word or a variable from the start. -/
def isNameByte (b : UInt8) : Bool :=
  isLetter b || isDigit b || b == '.'.toUInt8 || b == '?'.toUInt8

def newline : UInt8 := '\n'.toUInt8

def isBlank (b : UInt8) : Bool :=
  b == ' '.toUInt8 || b == '\t'.toUInt8 || b == '\r'.toUInt8 || b == newline

/-- How often a text goes on to a next line. -/
def newlines (t : Text) : Nat :=
  t.count newline

end Text

end Turtle
