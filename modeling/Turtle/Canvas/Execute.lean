import Turtle.Canvas.Fill
import Turtle.Canvas.Line
import Turtle.Evaluation.Execution
import Turtle.Number.Circle

/-!
What each instruction does to a canvas.

Two commands leave the canvas alone and act outside: one shows a number, the other ends the program.
They are told by functions on instructions.
-/

namespace Turtle

namespace Instruction

/-- An argument by its place; a missing one counts as zero. -/
def argument (i : Instruction) (place : Nat) : Int64 :=
  i.arguments.getD place 0

def color (i : Instruction) : Color :=
  .ofComponents (i.argument 0) (i.argument 1) (i.argument 2)

/-- The number that the instruction shows, if it shows one. -/
def shown? (i : Instruction) : Option Int64 :=
  match i.command with
  | .print => some (i.argument 0)
  | _ => none

/-- Whether the instruction ends the program. -/
def exits (i : Instruction) : Bool :=
  i.command == .exit

end Instruction

/-- An integer as a number of 53 significant bits. -/
def Binary64.ofInt64 (n : Int64) : Rat :=
  ofInt n.toInt

namespace Canvas

/-! ### Turning -/

/-- The heading in the full circle that starts at 0. -/
def normalize (heading : Rat) : Rat :=
  let r := Binary64.remainder heading 360
  if r < 0 then Binary64.add r 360 else r

def turnTo (c : Canvas) (heading : Rat) : Canvas :=
  { c with heading := normalize heading }

/-! ### Moving -/

def moveTo (c : Canvas) (x y : Rat) : Canvas :=
  let drawn := if c.penDown then c.drawLine ⟨c.x, c.y, x, y⟩ else c
  { drawn with x, y }

/-- How close to an integer a coordinate has to be to count as that integer. -/
def tolerance : Rat :=
  Binary64.round (1 / 1000000000)

/-- Takes a coordinate next to an integer for that integer, so that the error of a sine does not
carry the turtle into the neighbouring pixel. -/
def snap (v : Rat) : Rat :=
  let n : Rat := Binary64.nearestInt v
  if (Binary64.sub v n).abs < tolerance then n else v

/-- Moves along the heading, backwards if the number of steps is negative. -/
def advance [Circle] (c : Canvas) (steps : Rat) : Canvas :=
  let angle := Circle.radians c.heading
  c.moveTo (snap (Binary64.add c.x (Binary64.mul (Circle.sine angle) steps)))
    (snap (Binary64.add c.y (Binary64.mul (Circle.cosine angle) steps)))

/-! ### The pen -/

def maxPenSize : Nat := 256

/-- The nearest size that the pen can have. -/
def penSizeOf (n : Int64) : Nat :=
  max 1 (min maxPenSize n.toInt.toNat)

/-! ### Instructions -/

def execute [Circle] (c : Canvas) (i : Instruction) : Canvas :=
  let number := Binary64.ofInt64 (i.argument 0)
  match i.command with
  | .forward => c.advance number
  | .backward => c.advance (-number)
  | .left => c.turnTo (Binary64.sub c.heading number)
  | .right => c.turnTo (Binary64.add c.heading number)
  | .setHeading => c.turnTo number
  | .setXY => c.moveTo number (Binary64.ofInt64 (i.argument 1))
  | .home => { c.moveTo 0 0 with heading := 0 }
  | .penUp => { c with penDown := false }
  | .penDown => { c with penDown := true }
  | .setPenSize => { c with penSize := penSizeOf (i.argument 0) }
  | .setPenColor => { c with pen := i.color }
  | .setScreenColor => c.setBackground i.color
  | .setFillColor => { c with fill := i.color }
  | .fill => c.fillRegion
  | .hideTurtle => { c with visible := false }
  | .showTurtle => { c with visible := true }
  | .clearScreen => { c.clear with x := 0, y := 0, heading := 0 }
  | .clean => c.clear
  | .print | .exit => c

end Canvas

end Turtle
