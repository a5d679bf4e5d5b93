import Turtle.Notice

/-!
Files, as far as the program has to do with them.

It reads one file, the script, and writes one, the picture. A file system is anything in which this
can be asked for. Either may fail, and how it fails is told. All that is known of it is that a file
which was written is read as it was written; a device that does not keep what it is given is none of
these files.
-/

namespace Turtle

/-- How reading a file can fail. -/
inductive ReadFailure
  | notOpened
  | sizeUnknown
  | notRead
  deriving DecidableEq, Repr

def ReadFailure.notice (path : Text) : ReadFailure → Notice
  | notOpened => .scriptNotOpened path
  | sizeUnknown => .scriptSizeUnknown path
  | notRead => .scriptNotRead path

/-- How writing a file can fail. -/
inductive WriteFailure
  | notOpened
  /-- A part of so many bytes was not taken. -/
  | notWritten (count : Nat)
  | notFinished
  deriving DecidableEq, Repr

def WriteFailure.notice (path : Text) : WriteFailure → Notice
  | notOpened => .outputNotOpened path
  | notWritten count => .outputNotWritten count path
  | notFinished => .outputNotFinished path

class FileSystem (Files : Type) where
  read : Files → (path : Text) → Except ReadFailure Text
  /-- Writes a file. The files may have changed even if this fails. -/
  write : Files → (path contents : Text) → Files × Option WriteFailure
  read_of_write : ∀ {files files' : Files} {path contents : Text},
    write files path contents = (files', none) → read files' path = .ok contents

/-- Whether a path fits into 4096 bytes together with a zero byte behind it. A picture is written
at no longer path. -/
def FileSystem.fits (path : Text) : Bool :=
  ((Bounded.empty : Bounded 4096).append path).2

end Turtle
