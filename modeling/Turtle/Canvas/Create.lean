import Turtle.Canvas.Basic
import Turtle.Notice

/-!
Asking for a canvas of a given size, which has to be positive.
-/

namespace Turtle.Canvas

def create (width height : Int) : Except Notice Canvas :=
  if width ≤ 0 || height ≤ 0 then .error (.canvasSize width height)
  else .ok (blank width.toNat height.toNat)

end Turtle.Canvas
