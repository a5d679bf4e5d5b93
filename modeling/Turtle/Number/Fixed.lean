import Turtle.Number.Binary64
import Turtle.Text.Numeral

/-!
Fixed notation: all integer digits, a point, and six decimals.

The exact value is rounded to the last decimal, a half to the even neighbour. Doubles that come
from outside may also be infinite or no number at all, and keep the sign of their zero.
-/

namespace Turtle

namespace Fixed

def places : Nat := 6

/-- How many units of the last decimal make a one. -/
def unit : Nat :=
  Nat.pow 10 places

/-- A number without sign. -/
def ofRat (x : Rat) : Text :=
  let scaled := Binary64.nearest (x.num.natAbs * unit) x.den
  let decimals := Numeral.ofNat (scaled % unit)
  Numeral.ofNat (scaled / unit) ++ ascii "." ++
    List.replicate (places - decimals.length) '0'.toUInt8 ++ decimals

def sign (negative : Bool) : Text :=
  if negative then ascii "-" else []

end Fixed

/-- What the 64 bits of a double can stand for. -/
inductive Double
  | finite (negative : Bool) (magnitude : Rat)
  | infinite (negative : Bool)
  | nan (negative : Bool)
  deriving DecidableEq, Repr

namespace Double

open Binary64 (twoPow)

/-- Reads sign, exponent and fraction off the bits. -/
def ofBits (bits : UInt64) : Double :=
  let negative := bits.toNat / twoPow 63 == 1
  let exponent : Nat := bits.toNat / twoPow 52 % twoPow 11
  let fraction : Nat := bits.toNat % twoPow 52
  if exponent == 2047 then
    if fraction == 0 then .infinite negative else .nan negative
  else if exponent == 0 then
    .finite negative (mkRat fraction (twoPow 1074))
  else
    .finite negative (mkRat ((twoPow 52 + fraction) * twoPow (exponent - 1)) (twoPow 1074))

def ofRat (x : Rat) : Double :=
  .finite (x < 0) x.abs

def fixed : Double → Text
  | .finite negative x => Fixed.sign negative ++ Fixed.ofRat x
  | .infinite negative => Fixed.sign negative ++ ascii "inf"
  | .nan negative => Fixed.sign negative ++ ascii "nan"

end Double

end Turtle
