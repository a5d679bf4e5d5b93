import Turtle.Number.Fixed
import Turtle.Text.Bounded

/-!
Templates: text in which each percent sign stands for the next of a list of fields.

There are two ways to fill a template in. `render` gives the whole text. `Bounded.format` writes
byte after byte into a buffer and stops at the first byte that does not fit; it is what messages
are made with. Either stops at a percent sign for which no field is left. The text of a field is
never searched for percent signs.
-/

namespace Turtle

/-- What a percent sign can stand for. -/
inductive Field
  | text (value : Text)
  | byte (value : UInt8)
  | flag (value : Bool)
  | natural (value : Nat)
  | integer (value : Int)
  | double (value : Double)

namespace Field

/-- A double is written in a space of 128 bytes, of which the last is reserved. -/
def doubleWidth : Nat := 127

def render : Field → Text
  | .text t => t
  | .byte b => [b]
  | .flag true => ascii "true"
  | .flag false => ascii "false"
  | .natural n => Numeral.ofNat n
  | .integer n => Numeral.ofInt n
  | .double x => x.fixed.take doubleWidth

end Field

namespace Template

def placeholder : UInt8 := '%'.toUInt8

def render : (template : Text) → List Field → Text
  | [], _ => []
  | c :: rest, fields =>
    if c == placeholder then
      match fields with
      | [] => []
      | f :: fields => f.render ++ render rest fields
    else c :: render rest fields

end Template

namespace Bounded

variable {capacity : Nat}

/-- Appends byte by byte up to the first one that does not fit, counting those that do. -/
def feed (b : Bounded capacity) (count : Nat) : Text → Bounded capacity × Nat × Bool
  | [] => (b, count, true)
  | c :: rest =>
    match b.append [c] with
    | (b, true) => b.feed (count + 1) rest
    | (b, false) => (b, count, false)

/-- Fills a template in and counts the bytes written. -/
def formatFrom (b : Bounded capacity) (count : Nat) :
    (template : Text) → List Field → Bounded capacity × Nat
  | [], _ => (b, count)
  | c :: rest, fields =>
    if c == Template.placeholder then
      match fields with
      | [] => (b, count)
      | f :: fields =>
        match b.feed count f.render with
        | (b, count, true) => b.formatFrom count rest fields
        | (b, count, false) => (b, count)
    else
      match b.feed count [c] with
      | (b, count, true) => b.formatFrom count rest fields
      | (b, count, false) => (b, count)

def format (b : Bounded capacity) (template : Text) (fields : List Field) : Bounded capacity × Nat :=
  b.formatFrom 0 template fields

/-- `format` for those who do not ask for the count. -/
def addFormat (b : Bounded capacity) (template : String) (fields : List Field) : Bounded capacity :=
  (b.format (ascii template) fields).1

end Bounded

end Turtle
