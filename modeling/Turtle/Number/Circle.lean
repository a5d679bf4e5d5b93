import Turtle.Number.Binary64

/-!
Angles, and their sine and cosine.

Mathematical libraries differ in the last bit of a sine. So what a turtle draws depends on the
library that it is built with, and this is left open here: a `Circle` stands for any of them.
-/

namespace Turtle

/-- The sine and the cosine of a mathematical library, for angles in radians. -/
class Circle where
  sine : Rat → Rat
  cosine : Rat → Rat

namespace Circle

/-- The double nearest to half a turn. -/
def halfTurn : Rat :=
  Binary64.round (3141592653589793 / 1000000000000000)

/-- The angle of a heading in degrees. -/
def radians (degrees : Rat) : Rat :=
  Binary64.div (Binary64.mul degrees halfTurn) 180

end Circle

end Turtle
