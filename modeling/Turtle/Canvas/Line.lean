import Turtle.Canvas.Basic

/-!
Drawing straight lines.

A line is first clipped to the canvas and a margin around it, which leaves enough of it for the pen
to reach in from outside. The pixels of its ends are then joined by a row of points, one for each
column if the line is rather flat and one for each row if it is rather steep, and the pen is set
down at every point.
-/

namespace Turtle

/-! ### Clipping -/

/-- A line between two points of the plane. -/
structure Segment where
  x₀ : Rat
  y₀ : Rat
  x₁ : Rat
  y₁ : Rat
  deriving DecidableEq, Repr

namespace Segment

/-- The part of a line from which it is known that it lies on the inner side of some borders. -/
structure Part where
  first : Rat
  last : Rat
  deriving DecidableEq, Repr

def Part.whole : Part :=
  ⟨0, 1⟩

/-- Cuts off what lies beyond one more border: `p` tells how fast the line goes towards the border,
`q` how far from it the line begins. Nothing may be left. -/
def Part.cut (part : Part) (p q : Rat) : Option Part :=
  if p = 0 then
    if q < 0 then none else some part
  else
    let t := Binary64.div q p
    if p < 0 then
      if part.last < t then none
      else some { part with first := if part.first < t then t else part.first }
    else
      if t < part.first then none
      else some { part with last := if t < part.last then t else part.last }

/-- The part of a line inside a rectangle. -/
def clip? (s : Segment) (left bottom right top : Rat) : Option Segment := do
  let dx := Binary64.sub s.x₁ s.x₀
  let dy := Binary64.sub s.y₁ s.y₀
  let part ← Part.whole.cut (-dx) (Binary64.sub s.x₀ left)
  let part ← part.cut dx (Binary64.sub right s.x₀)
  let part ← part.cut (-dy) (Binary64.sub s.y₀ bottom)
  let part ← part.cut dy (Binary64.sub top s.y₀)
  return {
    x₀ := Binary64.add s.x₀ (Binary64.mul part.first dx)
    y₀ := Binary64.add s.y₀ (Binary64.mul part.first dy)
    x₁ := Binary64.add s.x₀ (Binary64.mul part.last dx)
    y₁ := Binary64.add s.y₀ (Binary64.mul part.last dy) }

end Segment

/-! ### Points of a line -/

namespace Line

/-- Walks `count` points along the longer axis. After each point the walk turns aside when the
error `d` is positive; `long` and `short` are how far the line goes along either axis, and `side`
is 1 or -1. -/
def walk (long short side : Int) : (count : Nat) → (u v d : Int) → List (Int × Int)
  | 0, _, _, _ => []
  | count + 1, u, v, d =>
    (u, v) ::
      if 0 < d then walk long short side count (u + 1) (v + side) (d + 2 * (short - long))
      else walk long short side count (u + 1) v (d + 2 * short)

/-- The points from `(u₀, v₀)` to `(u₁, v₁)`, where `u₀ ≤ u₁` and `u` is the longer axis. -/
def along (u₀ v₀ u₁ v₁ : Int) : List (Int × Int) :=
  let long := u₁ - u₀
  let short : Int := (v₁ - v₀).natAbs
  walk long short (if v₁ - v₀ < 0 then -1 else 1) (long + 1).toNat u₀ v₀ (2 * short - long)

def swap (p : Int × Int) : Int × Int :=
  (p.2, p.1)

/-- The points of a line. Its ends may be given in either order. -/
def points (x₀ y₀ x₁ y₁ : Int) : List (Int × Int) :=
  if (y₁ - y₀).natAbs < (x₁ - x₀).natAbs then
    if x₁ < x₀ then along x₁ y₁ x₀ y₀ else along x₀ y₀ x₁ y₁
  else
    (if y₁ < y₀ then along y₁ x₁ y₀ x₀ else along y₀ x₀ y₁ x₁).map swap

end Line

/-! ### The pen -/

namespace Canvas

/-- Paints `count` pixels from the place `start` on. -/
def paintRun (color : Color) : (start count : Nat) → Array Color → Array Color
  | _, 0, pixels => pixels
  | start, count + 1, pixels => paintRun color (start + 1) count (pixels.setIfInBounds start color)

/-- Paints `rows` rows, each from the column `x` on. -/
def paintRows (color : Color) (width x count : Nat) : (y rows : Nat) → Array Color → Array Color
  | _, 0, pixels => pixels
  | y, rows + 1, pixels =>
    paintRows color width x count (y + 1) rows (paintRun color (y * width + x) count pixels)

/-- What a pen of the given size covers of one side: the first place and the number of places. -/
def penSpan (size side : Nat) (place : Int) : Nat × Nat :=
  let first : Int := max 0 (place - ((size - 1) / 2 : Nat))
  let last : Int := min side (place + (size / 2 : Nat) + 1)
  (first.toNat, (last - first).toNat)

/-- Sets the pen down at a point. -/
def stamp (color : Color) (size width height : Nat) (pixels : Array Color) (p : Int × Int) :
    Array Color :=
  let (x, columns) := penSpan size width p.1
  let (y, rows) := penSpan size height p.2
  paintRows color width x columns y rows pixels

/-- The line's ends in pixels from the corner of the canvas, cut to what can be seen. -/
def visiblePart? (c : Canvas) (s : Segment) : Option Segment :=
  let shifted : Segment := {
    x₀ := Binary64.add s.x₀ (middle c.width)
    y₀ := Binary64.add s.y₀ (middle c.height)
    x₁ := Binary64.add s.x₁ (middle c.width)
    y₁ := Binary64.add s.y₁ (middle c.height) }
  shifted.clip? (-c.penSize) (-c.penSize) (c.width + c.penSize) (c.height + c.penSize)

/-- The points at which the pen is set down for a line. The integers are of any size here. Words of
32 bits do as well on a canvas whose sides are no longer than 16384, as long as the line begins no
further than `2 ^ 77` from the middle, wherever it ends: what is visible of it then lies within
`2 ^ 28`. An argument reaches as far as `2 ^ 63`, and from there it takes thousands of the longest
steps to go further than that. -/
def linePoints (c : Canvas) (s : Segment) : List (Int × Int) :=
  match c.visiblePart? s with
  | some s => Line.points s.x₀.floor s.y₀.floor s.x₁.floor s.y₁.floor
  | none => []

def drawLine (c : Canvas) (s : Segment) : Canvas :=
  let points := c.linePoints s
  { c with pixels := points.foldl (stamp c.pen c.penSize c.width c.height) c.pixels }

end Canvas

end Turtle
