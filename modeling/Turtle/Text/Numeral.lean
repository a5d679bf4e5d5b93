import Turtle.Text.Basic

/-!
Decimal numerals: how integers are written and which texts are read back as one.

A written numeral has no leading zero and no plus sign. Reading is wider: leading zeros are
accepted, so `007` and `-0` are numerals too, but there must be at least one digit and nothing else
may stand in the text.
-/

namespace Turtle.Numeral

def minus : UInt8 := '-'.toUInt8

/-! ### Writing -/

def ofNat (n : Nat) : Text :=
  (Nat.toDigits 10 n).map Char.toUInt8

def ofInt : Int → Text
  | .ofNat n => ofNat n
  | .negSucc n => minus :: ofNat (n + 1)

def ofInt64 (n : Int64) : Text :=
  ofInt n.toInt

/-! ### Reading -/

/-- The value of a row of digits, the most significant one first. -/
def value (digits : Text) : Nat :=
  digits.foldl (fun v d => 10 * v + (d.toNat - '0'.toNat)) 0

def readNat? (t : Text) : Option Nat :=
  if !t.isEmpty && t.all Text.isDigit then some (value t) else none

def readInt? : Text → Option Int
  | [] => none
  | c :: t => if c == minus then (readNat? t).map (-·) else (readNat? (c :: t)).map (↑·)

/-- Whether an integer is one of the 64-bit signed numbers. -/
def fits (n : Int) : Bool :=
  Int64.minValue.toInt ≤ n && n ≤ Int64.maxValue.toInt

def toInt64? (n : Int) : Option Int64 :=
  if fits n then some (Int64.ofInt n) else none

def readInt64? (t : Text) : Option Int64 :=
  (readInt? t).bind toInt64?

end Turtle.Numeral
