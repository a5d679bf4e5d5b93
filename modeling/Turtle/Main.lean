import Turtle.Console.Run
import Turtle.Number.Series

/-!
The command line: gives the program its words, and answers what it waits for.

Each stage of the program is told as soon as it is reached. The script, the pieces of the input and
the place for the picture come from the system.
-/

namespace Turtle.Main

def ofString (s : String) : Text :=
  s.toUTF8.toList

/-- A path as the system takes it; one that is no proper string names no file. -/
def toPath (path : Text) : String :=
  (String.fromUTF8? (ByteArray.mk path.toArray)).getD ""

def put (stream : IO.FS.Stream) (t : Text) : IO Unit := do
  unless t.isEmpty do
    stream.write (ByteArray.mk t.toArray)
    stream.flush

/-- All notices are printed here. -/
def origin (_ : Notice.Site) : Notice.Origin :=
  ⟨ascii "Turtle/Main.lean", 31⟩

def tell (e : Event) : IO Unit := do
  put (← IO.getStdout) e.output
  put (← IO.getStderr) (e.complaint origin)

def readScript (path : Text) : IO (Except ReadFailure Text) := do
  try return .ok (← IO.FS.readBinFile (toPath path)).toList
  catch
    | .inappropriateType .. => return .error .notRead
    | _ => return .error .notOpened

/-- Reads a piece of the input, given what was read of it, the latest byte first, and how much room
is left. -/
def readPiece (stream : IO.FS.Stream) (before : Text) : (room : Nat) → IO (Option Text)
  | 0 => return some before.reverse
  | room + 1 => do
    match (← stream.read 1).toList with
    | [] => return if before.isEmpty then none else some before.reverse
    | c :: _ =>
      if c == Text.newline then return some (c :: before).reverse
      else readPiece stream (c :: before) room

def writePicture (path contents : Text) : IO (Option WriteFailure) := do
  try
    IO.FS.writeBinFile (toPath path) (ByteArray.mk contents.toArray)
    return none
  catch _ => return some .notOpened

/-- Goes on from a stage to the end, given how many events were told before. -/
partial def go (told : Nat) (stage : Console.Stage) : IO UInt32 := do
  for e in stage.events.toList.drop told do
    tell e
  let told := stage.events.size
  match stage with
  | .script o path => go told (Console.runScript o path (← readScript path))
  | .input o failed s c =>
    go told (Console.hear o failed s c (← readPiece (← IO.getStdin) [] Shell.pieceSize))
  | .picture o failed s =>
    go told (Console.finish o failed s (← writePicture o.output s.canvas.bitmap))
  | .ended code _ => return code.toUInt32

end Turtle.Main

def main (words : List String) : IO UInt32 :=
  Turtle.Main.go 0 (Turtle.Console.start (words.map Turtle.Main.ofString))
