import Turtle.Canvas.Bitmap
import Turtle.Canvas.Execute
import Turtle.Console.Options
import Turtle.Listing

/-!
A session: an interpreter, a canvas, and all that was told so far.

What is told is kept as a list of events, in the order in which they happen. Each event is a text
on one of two streams; which one follows from what it is.
-/

namespace Turtle

inductive Event
  | usage
  /-- Asks for a line; `pending` tells that a fragment is still incomplete. -/
  | prompt (pending : Bool)
  | endOfInput
  | shown (value : Int64)
  /-- What the debug option adds. -/
  | listing (text : Text)
  | saving (path : Text)
  | fault (f : Fault)
  | notice (n : Notice)
  deriving DecidableEq, Repr

namespace Event

/-- What an event puts on the standard output. -/
def output : Event → Text
  | .usage => Options.usage
  | .prompt false => ascii ">> "
  | .prompt true => ascii ".. "
  | .endOfInput => ascii "\n"
  | .shown n => Numeral.ofInt64 n ++ ascii "\n"
  | .listing t => t
  | .saving path => Listing.line "Saving canvas as \"%\".\n" [.text path]
  | .fault _ | .notice _ => []

/-- What an event puts on the standard error, given where the notices come from. -/
def complaint (origin : Notice.Site → Notice.Origin) : Event → Text
  | .fault f => f.message ++ ascii "\n"
  | .notice n => n.text origin
  | _ => []

end Event

/-! ### Replaying instructions -/

/-- A canvas to which instructions were applied, how many these were, what they showed, the latest
first, and whether the last of them ended the program. -/
structure Replay where
  canvas : Canvas
  executed : Nat
  shown : List Int64
  exited : Bool

namespace Replay

variable [Circle]

def start (canvas : Canvas) : Replay :=
  ⟨canvas, 0, [], false⟩

def step (r : Replay) (i : Instruction) : Replay :=
  ⟨r.canvas.execute i, r.executed + 1, i.shown?.toList ++ r.shown, i.exits⟩

/-- Applies instructions up to the first one that ends the program. -/
def play (r : Replay) : List Instruction → Replay
  | [] => r
  | i :: is => if i.exits then r.step i else (r.step i).play is

def of (canvas : Canvas) (is : List Instruction) : Replay :=
  (start canvas).play is

end Replay

/-! ### Fragments -/

inductive Status
  | success
  | failure
  | exit
  deriving DecidableEq, Repr

structure Session where
  debug : Bool
  interpreter : Interpreter
  canvas : Canvas
  /-- All events so far, in order. -/
  events : Array Event

namespace Session

def new (o : Options) : Session :=
  ⟨o.debug, .new o.limit, .blank o.width o.height, #[]⟩

def tell (s : Session) (e : Event) : Session :=
  { s with events := s.events.push e }

/-- What the debug option tells about a run. -/
def listing (source : Text) (r : Report) : Text :=
  Listing.source source ++ Listing.instructions r.instructions.toList ++
    match r.fault with
    | some f => Listing.line "Stopped by: %\n" [.text f.category.name]
    | none => []

/-- Runs a fragment and replays its instructions, also those that a fault cut short. An instruction
that ends the program comes before the fault. -/
def runFragment [Circle] (s : Session) (source : Text) : Session × Status :=
  let r := s.interpreter.run source
  let told := if s.debug then s.events.push (.listing (listing source r)) else s.events
  let replay := Replay.of s.canvas r.instructions.toList
  let s : Session := {
    s with
    interpreter := r.interpreter
    canvas := replay.canvas
    events := told ++ replay.shown.reverse.map Event.shown }
  if replay.exited then (s, .exit)
  else
    match r.fault with
    | some f => (s.tell (.fault f), .failure)
    | none => (s, .success)

end Session

end Turtle
