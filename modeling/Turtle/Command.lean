import Turtle.Text.Basic

/-!
The commands that the canvas understands, their names and the number of their arguments.
-/

namespace Turtle

inductive Command
  | forward
  | backward
  | left
  | right
  | setHeading
  | setXY
  | home
  | penUp
  | penDown
  | setPenSize
  | setPenColor
  | setScreenColor
  | setFillColor
  | fill
  | hideTurtle
  | showTurtle
  | clearScreen
  | clean
  | print
  | exit
  deriving DecidableEq, Repr

namespace Command

def all : List Command :=
  [.forward, .backward, .left, .right, .setHeading, .setXY, .home, .penUp, .penDown, .setPenSize,
    .setPenColor, .setScreenColor, .setFillColor, .fill, .hideTurtle, .showTurtle, .clearScreen,
    .clean, .print, .exit]

def arity : Command → Nat
  | .forward | .backward | .left | .right | .setHeading | .setPenSize | .print => 1
  | .setXY => 2
  | .setPenColor | .setScreenColor | .setFillColor => 3
  | .home | .penUp | .penDown | .fill | .hideTurtle | .showTurtle | .clearScreen | .clean
  | .exit => 0

def name : Command → Text
  | .forward => ascii "forward"
  | .backward => ascii "backward"
  | .left => ascii "left"
  | .right => ascii "right"
  | .setHeading => ascii "setheading"
  | .setXY => ascii "setxy"
  | .home => ascii "home"
  | .penUp => ascii "penup"
  | .penDown => ascii "pendown"
  | .setPenSize => ascii "setpensize"
  | .setPenColor => ascii "setpencolor"
  | .setScreenColor => ascii "setscreencolor"
  | .setFillColor => ascii "setfillcolor"
  | .fill => ascii "fill"
  | .hideTurtle => ascii "hideturtle"
  | .showTurtle => ascii "showturtle"
  | .clearScreen => ascii "clearscreen"
  | .clean => ascii "clean"
  | .print => ascii "show"
  | .exit => ascii "exit"

/-- The short name, for the commands that have one. -/
def abbreviation? : Command → Option Text
  | .forward => some (ascii "fd")
  | .backward => some (ascii "bk")
  | .left => some (ascii "lt")
  | .right => some (ascii "rt")
  | .setHeading => some (ascii "seth")
  | .penUp => some (ascii "pu")
  | .penDown => some (ascii "pd")
  | .setPenColor => some (ascii "setpc")
  | .setScreenColor => some (ascii "setsc")
  | .setFillColor => some (ascii "setfc")
  | .hideTurtle => some (ascii "ht")
  | .showTurtle => some (ascii "st")
  | .clearScreen => some (ascii "cs")
  | _ => none

/-- The command of a name, in full or short. -/
def find? (name : Text) : Option Command :=
  all.find? fun c => c.name == name || c.abbreviation? == some name

end Command

end Turtle
