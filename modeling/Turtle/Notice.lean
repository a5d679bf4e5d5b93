import Turtle.Text.Template

/-!
What the program says about its surroundings: its arguments, its files and the canvas it is asked
for. Faults of the program that is run are another matter.

In front of a notice stands where in the program's own text it is given. How the files of this text
are called, and on which line each place is, is known to the one who builds the program.
-/

namespace Turtle

inductive Notice
  | canvasSize (width height : Int)
  | missingValue (option : Text)
  | notAnInteger (option value : Text)
  | outOfRange (option : Text) (least greatest value : Int)
  | unknownOption (option : Text)
  | secondScript (first second : Text)
  | scriptNotOpened (path : Text)
  | scriptSizeUnknown (path : Text)
  | scriptNotRead (path : Text)
  | pathTooLong (path : Text)
  | outputNotOpened (path : Text)
  | outputNotWritten (count : Nat) (path : Text)
  | outputNotFinished (path : Text)
  deriving DecidableEq, Repr

namespace Notice

/-- The places of the program that give notices. -/
inductive Site
  | canvasSize
  | missingValue
  | notAnInteger
  | outOfRange
  | unknownOption
  | secondScript
  | scriptNotOpened
  | scriptSizeUnknown
  | scriptNotRead
  | pathTooLong
  | outputNotOpened
  | outputNotWritten
  | outputNotFinished
  deriving DecidableEq, Repr

def site : Notice → Site
  | canvasSize .. => .canvasSize
  | missingValue .. => .missingValue
  | notAnInteger .. => .notAnInteger
  | outOfRange .. => .outOfRange
  | unknownOption .. => .unknownOption
  | secondScript .. => .secondScript
  | scriptNotOpened .. => .scriptNotOpened
  | scriptSizeUnknown .. => .scriptSizeUnknown
  | scriptNotRead .. => .scriptNotRead
  | pathTooLong .. => .pathTooLong
  | outputNotOpened .. => .outputNotOpened
  | outputNotWritten .. => .outputNotWritten
  | outputNotFinished .. => .outputNotFinished

/-- Where a place is: the name of the file, and the line. -/
structure Origin where
  file : Text
  line : Nat
  deriving DecidableEq, Repr

/-- The middle part of the text, as a template and its fields. -/
def body : Notice → String × List Field
  | canvasSize w h => ("Invalid canvas size %x%.", [.integer w, .integer h])
  | missingValue option => ("Option '%' expects a value.", [.text option])
  | notAnInteger option value =>
    ("Option '%' expects an integer, got \"%\".", [.text option, .text value])
  | outOfRange option least greatest value =>
    ("Option '%' expects a value between % and %, got %.",
      [.text option, .integer least, .integer greatest, .integer value])
  | unknownOption option => ("Unknown option '%'.", [.text option])
  | secondScript first second =>
    ("Only one script can be given, got \"%\" and \"%\".", [.text first, .text second])
  | scriptNotOpened path => ("File \"%\" couldn't be opened.", [.text path])
  | scriptSizeUnknown path => ("Couldn't obtain the size of file \"%\".", [.text path])
  | scriptNotRead path => ("Couldn't read data from file \"%\".", [.text path])
  | pathTooLong path => ("File path \"%\" is too long.", [.text path])
  | outputNotOpened path => ("Couldn't open file \"%\".", [.text path])
  | outputNotWritten count path =>
    ("Couldn't write % bytes to file \"%\".", [.natural count, .text path])
  | outputNotFinished path => ("Couldn't finish writing file \"%\".", [.text path])

/-- The line to be printed: where it comes from, and the notice. There is room for 2047 bytes, and
the end of a longer line is lost. -/
def text (origin : Site → Origin) (n : Notice) : Text :=
  let place := origin n.site
  let heading := (Bounded.empty : Bounded 2048).addFormat "[Error: %:%] "
    [.text place.file, .natural place.line]
  ((heading.addFormat n.body.1 n.body.2).add (ascii "\n")).text

end Notice

end Turtle
