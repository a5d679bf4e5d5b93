import Turtle.Console.FileSystem

/-!
A directory of files, in which paths are looked up.

This is a small file system, for examples. A path names a file of the directory by its name, in
front of which it may say any number of times that it stays in the directory. There are no
directories inside. A path ends before its first zero byte, and neither a path nor a name may be too
long.
-/

namespace Turtle

abbrev Directory := List (Text × Text)

namespace Directory

/-- What a path leads to. -/
inductive Target
  | file (name : Text)
  | directory
  | nothing
  deriving DecidableEq, Repr

def slash : UInt8 := '/'.toUInt8

/-- The longest path and the longest name that are looked up. -/
def maxPath : Nat := 4095

def maxName : Nat := 255

/-- Whether a part of a path stays in the directory that was reached. -/
def stays (part : Text) : Bool :=
  part.isEmpty || part == ascii "."

/-- Whether a part of a path leads to a directory: the one that was reached, or the one around
it. -/
def isStep (part : Text) : Bool :=
  stays part || part == ascii ".."

/-- Follows the parts of a path that is not made of steps alone. -/
def follow : List Text → Target
  | [] => .nothing
  | [name] => if name.length ≤ maxName then .file name else .nothing
  | part :: parts => if stays part then follow parts else .nothing

def target (path : Text) : Target :=
  let path := path.takeWhile (· != 0)
  let parts := path.splitOn slash
  if path.isEmpty || maxPath < path.length then .nothing
  else if parts.all isStep then .directory
  else if path.head? == some slash then .nothing
  else follow parts

def get? (d : Directory) (name : Text) : Option Text :=
  List.lookup name d

/-- Puts a file in the place of the one of its name, or behind all others. -/
def put : Directory → (name contents : Text) → Directory
  | [], name, contents => [(name, contents)]
  | (n, c) :: d, name, contents =>
    if n == name then (n, contents) :: d else (n, c) :: put d name contents

theorem get?_put (d : Directory) (name contents : Text) :
    (d.put name contents).get? name = some contents := by
  induction d with
  | nil => simp [put, get?]
  | cons file d ih =>
      obtain ⟨n, c⟩ := file
      rw [put]
      by_cases hname : n = name
      · simp [hname, get?]
      · have hother : (name == n) = false := beq_eq_false_iff_ne.2 (Ne.symm hname)
        simp [hname, get?, List.lookup_cons, hother] at ih ⊢
        exact ih

def read (d : Directory) (path : Text) : Except ReadFailure Text :=
  match target path with
  | .nothing => .error .notOpened
  | .directory => .error .notRead
  | .file name =>
    match d.get? name with
    | some contents => .ok contents
    | none => .error .notOpened

def write (d : Directory) (path contents : Text) : Directory × Option WriteFailure :=
  match target path with
  | .file name => (d.put name contents, none)
  | _ => (d, some .notOpened)

instance : FileSystem Directory where
  read := read
  write := write
  read_of_write := by
    intro files files' path contents h
    rw [write] at h
    rw [read]
    split at h
    · next name htarget =>
        cases h
        rw [htarget]
        simp only [get?_put]
    · cases h

end Directory

end Turtle
