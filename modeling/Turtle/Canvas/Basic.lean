import Turtle.Number.Binary64

/-!
The canvas: a rectangle of pixels and the turtle on it.

The turtle's coordinates have their origin in the middle of the canvas and grow to the right and
upwards; its heading is in degrees, north being 0 and east 90. Pixels are counted from the lower
left corner. They are kept row by row, the bottom row first, as a bitmap file has them.
-/

namespace Turtle

structure Color where
  red : UInt8
  green : UInt8
  blue : UInt8
  deriving DecidableEq, Repr

namespace Color

def white : Color := ⟨255, 255, 255⟩
def black : Color := ⟨0, 0, 0⟩

/-- The nearest value that a component can have. -/
def component (n : Int64) : UInt8 :=
  if n < 0 then 0 else if 255 < n then 255 else n.toInt.toNat.toUInt8

def ofComponents (red green blue : Int64) : Color :=
  ⟨component red, component green, component blue⟩

end Color

structure Canvas where
  width : Nat
  height : Nat
  x : Rat
  y : Rat
  heading : Rat
  penSize : Nat
  penDown : Bool
  visible : Bool
  background : Color
  pen : Color
  fill : Color
  pixels : Array Color
  deriving DecidableEq, Repr

namespace Canvas

/-- A blank canvas with a black pen, its turtle in the middle and heading north. -/
def blank (width height : Nat) : Canvas where
  width
  height
  x := 0
  y := 0
  heading := 0
  penSize := 1
  penDown := true
  visible := true
  background := .white
  pen := .black
  fill := .black
  pixels := Array.replicate (width * height) .white

/-! ### Pixels -/

/-- Whether there is a pixel at these coordinates. -/
def contains (c : Canvas) (x y : Int) : Bool :=
  0 ≤ x && x < c.width && 0 ≤ y && y < c.height

/-- The place of a pixel among all pixels. -/
def index (c : Canvas) (x y : Int) : Nat :=
  y.toNat * c.width + x.toNat

def pixel? (c : Canvas) (x y : Int) : Option Color :=
  if c.contains x y then c.pixels[c.index x y]? else none

/-! ### From coordinates to pixels -/

/-- Half the width or height, by which the origin lies off the corner. -/
def middle (side : Nat) : Rat :=
  side / 2

/-- The column of the pixel that the turtle is on. -/
def column (c : Canvas) : Int :=
  (Binary64.add c.x (middle c.width)).floor

def row (c : Canvas) : Int :=
  (Binary64.add c.y (middle c.height)).floor

def pixelUnderTurtle? (c : Canvas) : Option Color :=
  c.pixel? c.column c.row

/-! ### Painting everything -/

def clear (c : Canvas) : Canvas :=
  { c with pixels := c.pixels.map fun _ => c.background }

/-- Changes the background; a pixel belongs to it when it has its color. -/
def setBackground (c : Canvas) (color : Color) : Canvas :=
  { c with
    background := color
    pixels := c.pixels.map fun p => if p = c.background then color else p }

end Canvas

end Turtle
