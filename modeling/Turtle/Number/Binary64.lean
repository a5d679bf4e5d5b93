/-!
Arithmetic to 53 significant bits.

The turtle moves in double precision. A finite double is a rational number, and each operation on
doubles is the exact operation on rationals followed by one rounding, to the nearest number of 53
significant bits and in a tie to the one whose last bit is zero. Written this way, all that is true
of a coordinate can be said in the rationals.

No coordinate comes near the largest or the smallest exponent: a drawing starts from 64-bit
integers, and each step adds one to them. So exponents are unbounded here. The sign of a zero is
not kept either, as no later coordinate and no pixel depends on it.
-/

namespace Turtle.Binary64

/-! ### Rounding -/

def twoPow (k : Nat) : Nat :=
  Nat.pow 2 k

/-- The integer nearest to `n / d`; a half goes to the even neighbour. -/
def nearest (n d : Nat) : Nat :=
  if 2 * (n % d) < d || (2 * (n % d) == d && n / d % 2 == 0) then n / d else n / d + 1

/-- `n / d` counted in units of `2 ^ e` and rounded to an integer. -/
def units (n d : Nat) (e : Int) : Nat :=
  nearest (n * twoPow (-e).toNat) (d * twoPow e.toNat)

/-- The exponent of the last of `bits` significant bits: the quotient holds at least
`2 ^ (bits - 1)` of its units and less than `2 ^ bits`. -/
def unitExponent (bits n d : Nat) : Int :=
  let e : Int := n.log2 - d.log2 - (bits - 1 : Nat)
  if n * twoPow (-e).toNat < twoPow (bits - 1) * (d * twoPow e.toNat) then e - 1 else e

def roundQuotient (bits n d : Nat) : Rat :=
  let e := unitExponent bits n d
  mkRat (units n d e * twoPow e.toNat : Nat) (twoPow (-e).toNat)

/-- The nearest number of `bits` significant bits. -/
def roundTo (bits : Nat) (x : Rat) : Rat :=
  if x < 0 then -roundQuotient bits x.num.natAbs x.den else roundQuotient bits x.num.natAbs x.den

/-- The nearest number of 53 significant bits. -/
def round (x : Rat) : Rat :=
  roundTo 53 x

def ofInt (n : Int) : Rat :=
  round n

/-! ### The operations -/

def add (x y : Rat) : Rat := round (x + y)
def sub (x y : Rat) : Rat := round (x - y)
def mul (x y : Rat) : Rat := round (x * y)
def div (x y : Rat) : Rat := round (x / y)

/-- The nearest integer; a half goes away from zero. -/
def nearestInt (x : Rat) : Int :=
  if x < 0 then -(-x + 1 / 2).floor else (x + 1 / 2).floor

/-- What is left after taking out `m` as often as fits, with the sign of `x`. This is exact. -/
def remainder (x m : Rat) : Rat :=
  if x < 0 then x + m * (-x / m).floor else x - m * (x / m).floor

end Turtle.Binary64
