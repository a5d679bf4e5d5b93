import Turtle.Text.Bounded

/-!
Tokens, the words of the language.

A `Lexeme` is a token without its line, a `Kind` is a lexeme without its text. A lexeme's `name` is
its text without the sign that marks a quoted word or a variable, its `spelling` is what stands in
the source, and its `label` is the spelling as far as messages show it.
-/

namespace Turtle

inductive Keyword
  /-- The keyword `repeat`. -/
  | loop
  | make
  | to
  /-- The keyword `end`. -/
  | close
  deriving DecidableEq, Repr

inductive Operator
  | add
  | sub
  | mul
  | div
  deriving DecidableEq, Repr

inductive Kind
  | number
  | word
  | var
  | identifier
  | keyword (k : Keyword)
  | leftBracket
  | rightBracket
  | leftParen
  | rightParen
  | operator (o : Operator)
  deriving DecidableEq, Repr

inductive Lexeme
  | number (digits : Text)
  | word (name : Text)
  | var (name : Text)
  | identifier (name : Text)
  | keyword (k : Keyword)
  | leftBracket
  | rightBracket
  | leftParen
  | rightParen
  | operator (o : Operator)
  deriving DecidableEq, Repr

structure Token where
  lexeme : Lexeme
  line : Nat
  deriving DecidableEq, Repr

namespace Keyword

def spelling : Keyword → Text
  | .loop => ascii "repeat"
  | .make => ascii "make"
  | .to => ascii "to"
  | .close => ascii "end"

def all : List Keyword :=
  [.loop, .make, .to, .close]

def find? (name : Text) : Option Keyword :=
  all.find? (·.spelling == name)

end Keyword

namespace Operator

def symbol : Operator → UInt8
  | .add => '+'.toUInt8
  | .sub => '-'.toUInt8
  | .mul => '*'.toUInt8
  | .div => '/'.toUInt8

/-- The operator that binds its operands first has the greater precedence. -/
def precedence : Operator → Nat
  | .mul | .div => 2
  | .add | .sub => 1

end Operator

namespace Kind

/-- How messages name the kind. -/
def name : Kind → Text
  | .number => ascii "number"
  | .word => ascii "quoted word"
  | .var => ascii "variable"
  | .identifier => ascii "identifier"
  | .keyword k => ascii "'" ++ k.spelling ++ ascii "'"
  | .leftBracket => ascii "'['"
  | .rightBracket => ascii "']'"
  | .leftParen => ascii "'('"
  | .rightParen => ascii "')'"
  | .operator o => ascii "'" ++ [o.symbol] ++ ascii "'"

end Kind

namespace Lexeme

def kind : Lexeme → Kind
  | .number _ => .number
  | .word _ => .word
  | .var _ => .var
  | .identifier _ => .identifier
  | .keyword k => .keyword k
  | .leftBracket => .leftBracket
  | .rightBracket => .rightBracket
  | .leftParen => .leftParen
  | .rightParen => .rightParen
  | .operator o => .operator o

def name : Lexeme → Text
  | .number t | .word t | .var t | .identifier t => t
  | .keyword k => k.spelling
  | .leftBracket => ascii "["
  | .rightBracket => ascii "]"
  | .leftParen => ascii "("
  | .rightParen => ascii ")"
  | .operator o => [o.symbol]

/-- The sign in front of a quoted word or a variable. -/
def sigil : Lexeme → Text
  | .word _ => ascii "\""
  | .var _ => ascii ":"
  | _ => []

def spelling (l : Lexeme) : Text :=
  l.sigil ++ l.name

/-- A label has room for 127 bytes. -/
def label (l : Lexeme) : Text :=
  ((Bounded.empty : Bounded 128).add l.sigil |>.add l.name).text

/-- Whether a value ends here, so that a minus sign glued to it is a subtraction. -/
def endsValue : Lexeme → Bool
  | .number _ | .var _ | .rightParen => true
  | _ => false

end Lexeme

end Turtle
