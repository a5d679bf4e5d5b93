import Turtle.Number.Circle

/-!
Sine and cosine as sums of series.

Both series are summed in fixed point with far more bits than a result has. Near a zero of the sine
the sum starts with some fifty zero bits, which is why there are so many. The sum is first rounded
to 64 significant bits, the extended precision, and that to 53. A value which the first rounding
takes into the middle between two doubles thus goes to the even one, even if the other is nearer by
a hair; in all other cases the result is the double nearest to the true sine or cosine.

This is one way to compute them, for programs that are run and for examples.
-/

namespace Turtle.Circle

/-- The fixed-point sums have 192 fraction bits; this is how a one is written with them. -/
def one : Nat :=
  Binary64.twoPow 192

/-- Adds the next `count` terms of an alternating series in which each term arises from the one
before by the factor `-x² / ((k + 1)(k + 2))`. -/
def sumTerms (x : Int) : (count k : Nat) → (term sum : Int) → Int
  | 0, _, _, sum => sum
  | count + 1, k, term, sum =>
    let next := -(term * x * x / (one * one : Nat) / ((k + 1) * (k + 2)))
    sumTerms x count (k + 2) next (sum + next)

/-- With 48 terms the rest is below the last bit for every angle of a full turn. -/
def termCount : Nat := 48

def toFixed (x : Rat) : Int :=
  (x * (one : Nat)).floor

/-- The double for a sum, by way of the extended precision. -/
def ofFixed (n : Int) : Rat :=
  Binary64.round (Binary64.roundTo 64 (mkRat n one))

instance series : Circle where
  sine angle :=
    let x := toFixed angle
    ofFixed (sumTerms x termCount 1 x x)
  cosine angle := ofFixed (sumTerms (toFixed angle) termCount 0 one one)

end Turtle.Circle
