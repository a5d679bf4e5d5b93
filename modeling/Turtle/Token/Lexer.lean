import Turtle.Fault

/-!
From text to tokens.

Between tokens stand gaps: blanks, and comments that run from a semicolon up to the end of the line.
A token is the longest text of its pattern. One rule looks back: a minus sign that stands right
behind a number, a variable or a closing parenthesis is always an operator, anywhere else it opens a
number if a digit follows. So the lexer remembers of all the text it has read only the line, and
whether a value ends where it stands.
-/

namespace Turtle

/-- What lexing yields: the tokens in order, and the number of the last line of the source. -/
structure Lexed where
  tokens : List Token
  lastLine : Nat
  deriving DecidableEq, Repr

namespace Lexer

/-- Whether the text goes on with a byte of the class. -/
def startsWith (p : UInt8 → Bool) : Text → Bool
  | [] => false
  | c :: _ => p c

/-- The token that a single byte makes. -/
def punctuation? (c : UInt8) : Option Lexeme :=
  if c == '['.toUInt8 then some .leftBracket
  else if c == ']'.toUInt8 then some .rightBracket
  else if c == '('.toUInt8 then some .leftParen
  else if c == ')'.toUInt8 then some .rightParen
  else if c == Operator.add.symbol then some (.operator .add)
  else if c == Operator.sub.symbol then some (.operator .sub)
  else if c == Operator.mul.symbol then some (.operator .mul)
  else if c == Operator.div.symbol then some (.operator .div)
  else none

/-- A name that spells a keyword in full is that keyword. -/
def ofName (name : Text) : Lexeme :=
  match Keyword.find? name with
  | some k => .keyword k
  | none => .identifier name

/-- Whether a number opens with the byte `c`, before the text `rest`. -/
def opensNumber (afterValue : Bool) (c : UInt8) (rest : Text) : Bool :=
  Text.isDigit c || (c == Numeral.minus && !afterValue && startsWith Text.isDigit rest)

/-- The token at the beginning of `c :: rest`, and the text behind it. -/
def scan? (afterValue : Bool) (c : UInt8) (rest : Text) : Option (Lexeme × Text) :=
  if Text.isLetter c then
    some (ofName (c :: rest.takeWhile Text.isNameByte), rest.dropWhile Text.isNameByte)
  else if opensNumber afterValue c rest then
    some (.number (c :: rest.takeWhile Text.isDigit), rest.dropWhile Text.isDigit)
  else if c == '"'.toUInt8 && startsWith Text.isNameByte rest then
    some (.word (rest.takeWhile Text.isNameByte), rest.dropWhile Text.isNameByte)
  else if c == ':'.toUInt8 && startsWith Text.isNameByte rest then
    some (.var (rest.takeWhile Text.isNameByte), rest.dropWhile Text.isNameByte)
  else
    (punctuation? c).map (·, rest)

def opensComment (c : UInt8) : Bool :=
  c == ';'.toUInt8

/-- The text from the end of the line on. -/
def skipLine (t : Text) : Text :=
  t.dropWhile (· != Text.newline)

theorem length_dropWhile_le (p : UInt8 → Bool) (t : Text) : (t.dropWhile p).length ≤ t.length :=
  (List.dropWhile_sublist p).length_le

/-- A token takes at least the byte it begins with. -/
theorem length_le_of_scan? {afterValue : Bool} {c : UInt8} {rest rest' : Text} {l : Lexeme}
    (h : scan? afterValue c rest = some (l, rest')) : rest'.length ≤ rest.length := by
  have digits := length_dropWhile_le Text.isDigit rest
  have names := length_dropWhile_le Text.isNameByte rest
  unfold scan? at h
  split at h
  · simp only [Option.some.injEq, Prod.mk.injEq] at h; rw [← h.2]; exact names
  split at h
  · simp only [Option.some.injEq, Prod.mk.injEq] at h; rw [← h.2]; exact digits
  split at h
  · simp only [Option.some.injEq, Prod.mk.injEq] at h; rw [← h.2]; exact names
  split at h
  · simp only [Option.some.injEq, Prod.mk.injEq] at h; rw [← h.2]; exact names
  · obtain ⟨_, _, h⟩ := Option.map_eq_some_iff.1 h
    simp only [Prod.mk.injEq] at h
    exact Nat.le_of_eq (congrArg List.length h.2.symm)

/-- Lexes the rest of a source, given the tokens before it, the latest first. -/
def lexFrom (line : Nat) (afterValue : Bool) (before : List Token) (t : Text) : Except Fault Lexed :=
  match t with
  | [] => .ok ⟨before.reverse, line⟩
  | c :: rest =>
    if Text.isBlank c then
      lexFrom (if c == Text.newline then line + 1 else line) false before rest
    else if opensComment c then
      lexFrom line false before (skipLine rest)
    else
      match _scanned : scan? afterValue c rest with
      | none => .error ⟨line, .strayByte c⟩
      | some (l, rest') => lexFrom line l.endsValue (⟨l, line⟩ :: before) rest'
termination_by t.length
decreasing_by
  · simp
  · exact Nat.lt_succ_of_le (length_dropWhile_le _ rest)
  · exact Nat.lt_succ_of_le (length_le_of_scan? _scanned)

end Lexer

/-- Splits a source into its tokens. Lines are counted from one. -/
def lex (source : Text) : Except Fault Lexed :=
  Lexer.lexFrom 1 false [] source

end Turtle
