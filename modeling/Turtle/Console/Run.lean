import Turtle.Console.FileSystem
import Turtle.Console.Shell

/-!
The whole program: a script, a shell or both, and a bitmap at the end.

A failing script makes the exit code 1, but its drawing is saved all the same, and failures in the
shell have no influence on the code. Nothing is saved when the arguments are wrong or the script
cannot be read.

The program goes from stage to stage. At each of them it waits for one thing that it cannot know:
what is in the script, the next piece of the input, whether the picture was written. The answer
leads to the next stage. Who gives the answers is not said by the stages; `run` takes them from a
file system and a text.
-/

namespace Turtle

/-- What the program leaves behind. -/
structure Ending (Files : Type) where
  code : Nat
  events : Array Event
  files : Files

namespace Ending

variable {Files : Type}

def output (e : Ending Files) : Text :=
  e.events.toList.flatMap Event.output

/-- The text on the standard error, given where the notices come from. -/
def complaints (e : Ending Files) (origin : Notice.Site → Notice.Origin) : Text :=
  e.events.toList.flatMap (Event.complaint origin)

end Ending

namespace Console

def exitCode (failed : Bool) : Nat :=
  if failed then 1 else 0

/-- Whether the shell is entered, behind a script that ended with the given status. -/
def entersShell (o : Options) : Option Status → Bool
  | none => true
  | some .exit => false
  | some _ => o.interactive

/-! ### Stages -/

/-- What the program waits for, and what it has come to so far. -/
inductive Stage
  /-- The script has to be read. -/
  | script (o : Options) (path : Text)
  /-- A piece of the input has to be read; the shell has asked for it. -/
  | input (o : Options) (failed : Bool) (s : Session) (c : Shell.Collector)
  /-- The picture has to be written. -/
  | picture (o : Options) (failed : Bool) (s : Session)
  | ended (code : Nat) (events : Array Event)

/-- All that was told up to a stage. -/
def Stage.events : Stage → Array Event
  | .script .. => #[]
  | .input _ _ s _ | .picture _ _ s => s.events
  | .ended _ events => events

/-- The session is to be saved. -/
def saving (o : Options) (failed : Bool) (s : Session) : Stage :=
  let s := s.tell (.saving o.output)
  if FileSystem.fits o.output then .picture o failed s
  else .ended 1 (s.events.push (.notice (.pathTooLong o.output)))

/-- Enters the shell or passes it by, behind a script with the given status. -/
def shell (o : Options) (s : Session) (status : Option Status) : Stage :=
  let failed := status == some .failure
  if entersShell o status then .input o failed (Shell.ask s .new) .new else saving o failed s

/-- The first stage with options that were read. -/
def opening (o : Options) : Stage :=
  if o.help then .ended 0 #[.usage]
  else
    match o.script with
    | none => shell o (.new o) none
    | some path => .script o path

/-- The first stage with the words of the command line. -/
def start (words : List Text) : Stage :=
  match Options.read words with
  | .error n => .ended 1 #[.notice n, .usage]
  | .ok o => opening o

section

variable [Circle]

/-- What follows on the script. -/
def runScript (o : Options) (path : Text) : Except ReadFailure Text → Stage
  | .error f => .ended 1 #[.notice (f.notice path)]
  | .ok source =>
    match (Session.new o).runFragment source with
    | (s, status) => shell o s (some status)

/-- What follows on a piece of the input, or on its end. -/
def hear (o : Options) (failed : Bool) (s : Session) (c : Shell.Collector) : Option Text → Stage
  | none => saving o failed (Shell.close s c)
  | some piece =>
    match Shell.take s c piece with
    | (s, _, true) => saving o failed s
    | (s, c, false) => .input o failed (Shell.ask s c) c

end

/-- What follows when the picture was written, or could not be. -/
def finish (o : Options) (failed : Bool) (s : Session) : Option WriteFailure → Stage
  | none => .ended (exitCode failed) s.events
  | some f => .ended 1 (s.events.push (.notice (f.notice o.output)))

/-! ### Getting to the end -/

/-- Each answer brings the end nearer, if no more pieces of the input are left than before. -/
def Stage.rank : Stage → Nat
  | .script .. => 3
  | .input .. => 2
  | .picture .. => 1
  | .ended .. => 0

theorem rank_saving (o : Options) (failed : Bool) (s : Session) :
    (saving o failed s).rank ≤ 1 := by
  rw [saving]
  split
  · exact Nat.le_refl 1
  · exact Nat.zero_le 1

theorem rank_shell (o : Options) (s : Session) (status : Option Status) :
    (shell o s status).rank ≤ 2 := by
  rw [shell]
  split
  · exact Nat.le_refl 2
  · exact Nat.le_succ_of_le (rank_saving ..)

section

variable [Circle]

theorem rank_runScript (o : Options) (path : Text) (r : Except ReadFailure Text) :
    (runScript o path r).rank ≤ 2 := by
  cases r with
  | error f => exact Nat.zero_le 2
  | ok source => exact rank_shell ..

theorem rank_hear (o : Options) (failed : Bool) (s : Session) (c : Shell.Collector)
    (piece : Text) : (hear o failed s c (some piece)).rank ≤ 2 := by
  rw [hear]
  split
  · exact Nat.le_succ_of_le (rank_saving ..)
  · exact Nat.le_refl 2

end

theorem rank_finish (o : Options) (failed : Bool) (s : Session) (f : Option WriteFailure) :
    (finish o failed s f).rank = 0 := by
  cases f <;> rfl

section

variable [Circle] {Files : Type} [FileSystem Files]

/-- Goes on from a stage to the end, with the given files and the pieces of the input. -/
def Stage.run (files : Files) (stage : Stage) (pieces : List Text) : Ending Files :=
  match stage, pieces with
  | .script o path, pieces => (runScript o path (FileSystem.read files path)).run files pieces
  | .input o failed s c, [] => (hear o failed s c none).run files []
  | .input o failed s c, piece :: pieces => (hear o failed s c (some piece)).run files pieces
  | .picture o failed s, pieces =>
    match FileSystem.write files o.output s.canvas.bitmap with
    | (files, f) => (finish o failed s f).run files pieces
  | .ended code events, _ => ⟨code, events, files⟩
termination_by stage.rank + pieces.length
decreasing_by
  · exact Nat.add_lt_add_right (Nat.lt_succ_of_le (rank_runScript ..)) _
  · exact Nat.add_lt_add_right (Nat.lt_succ_of_le (rank_saving ..)) _
  · exact Nat.add_lt_add_of_le_of_lt (rank_hear ..) (Nat.lt_succ_self _)
  · exact Nat.add_lt_add_right (rank_finish .. ▸ Nat.zero_lt_one) _

/-- Runs the program with the words of the command line, some files and the text on its standard
input. -/
def run (words : List Text) (files : Files) (input : Text) : Ending Files :=
  (start words).run files (Shell.pieces input)

end

end Console

end Turtle
