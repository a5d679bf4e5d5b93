import Mathlib.Tactic.SplitIfs
import Turtle.Console.Run

/-!
From the stages of the program to its ending.

The stages take one answer each. Here they are run one behind the other: all pieces
of the input make up one dialogue, and whatever the program has done before, what it
ends with is told by the session that it saves.
-/

namespace Turtle.Console

section

variable {Files : Type} [FileSystem Files]

/-! ### Saving -/

/-- What writing a picture comes to: the files behind it, and the notice if it has
failed. -/
def written (files : Files) (path picture : Text) : Files × Option Notice :=
  if FileSystem.fits path then
    match FileSystem.write files path picture with
    | (files, f) => (files, f.map (WriteFailure.notice path))
  else (files, some (.pathTooLong path))

/-- The ending of a program that saves the session. -/
def save (o : Options) (files : Files) (failed : Bool) (s : Session) : Ending Files :=
  let w := written files o.output s.canvas.bitmap
  { code := if w.2.isSome then 1 else exitCode failed
    events := s.events.push (.saving o.output) ++ w.2.toList.map Event.notice
    files := w.1 }

/-- A picture that could be written is read at its path, and no notice is given. -/
theorem save_of_canvas {o : Options} (hfits : FileSystem.fits o.output = true) {s : Session}
    {picture : Canvas} (h : s.canvas = picture) (files : Files) (failed : Bool) :
    let stored := FileSystem.write files o.output picture.bitmap
    let e := save o files failed s
    e.files = stored.1 ∧
      (stored.2 = none → FileSystem.read e.files o.output = .ok picture.bitmap ∧
        e.code = exitCode failed ∧ e.events = s.events.push (.saving o.output)) := by
  intro stored e
  subst h
  have he : e = { code := if (stored.2.map (·.notice o.output)).isSome then 1 else exitCode failed
                  events := s.events.push (.saving o.output) ++
                    (stored.2.map (·.notice o.output)).toList.map Event.notice
                  files := stored.1 } := by
    simp only [e, save, written, if_pos hfits]
    rfl
  rw [he]
  refine ⟨rfl, ?_⟩
  intro hwrite
  refine ⟨FileSystem.read_of_write (Prod.ext rfl hwrite), ?_, ?_⟩
  · simp [hwrite]
  · simp [hwrite]

variable [Circle]

theorem run_saving (o : Options) (files : Files) (failed : Bool) (s : Session)
    (pieces : List Text) :
    (saving o failed s).run files pieces = save o files failed s := by
  cases hfits : FileSystem.fits o.output with
  | false => simp [saving, save, written, hfits, Stage.run, Session.tell]
  | true =>
      cases hwrite : FileSystem.write files o.output s.canvas.bitmap with
      | mk files' f =>
          cases f <;>
            simp [saving, save, written, hfits, hwrite, Stage.run, finish, Session.tell]

/-! ### The shell -/

/-- The pieces of the input make up one dialogue. -/
theorem run_input (o : Options) (files : Files) (failed : Bool) (s : Session)
    (c : Shell.Collector) (pieces : List Text) :
    (Stage.input o failed (Shell.ask s c) c).run files pieces =
      save o files failed (Shell.converse s c pieces) := by
  induction pieces generalizing s c with
  | nil => rw [Stage.run, hear, run_saving, Shell.converse]
  | cons piece pieces ih =>
      rw [Stage.run, hear, Shell.converse]
      rcases Shell.take (Shell.ask s c) c piece with ⟨s', c', ended⟩
      cases ended with
      | true => exact run_saving ..
      | false => exact ih s' c'

theorem run_shell (o : Options) (files : Files) (s : Session) (status : Option Status)
    (input : Text) :
    (shell o s status).run files (Shell.pieces input) =
      save o files (status == some .failure)
        (if entersShell o status then Shell.run s input else s) := by
  rw [shell]
  split_ifs
  · exact run_input ..
  · exact run_saving ..

/-! ### The program -/

variable {o : Options} {path : Text}

theorem run_of_help (h : o.help = true) (files : Files) (pieces : List Text) :
    (opening o).run files pieces = ⟨0, #[.usage], files⟩ := by
  rw [opening, if_pos h, Stage.run]

theorem run_of_none (hhelp : o.help = false) (h : o.script = none) (files : Files)
    (input : Text) :
    (opening o).run files (Shell.pieces input) =
      save o files false (Shell.run (.new o) input) := by
  have hopening : opening o = shell o (.new o) none := by simp [opening, hhelp, h]
  rw [hopening, run_shell]
  rfl

section

variable (hhelp : o.help = false) (h : o.script = some path) {files : Files}

include hhelp h

theorem run_of_script (pieces : List Text) :
    (opening o).run files pieces =
      (runScript o path (FileSystem.read files path)).run files pieces := by
  have hopening : opening o = .script o path := by simp [opening, hhelp, h]
  rw [hopening, Stage.run]

theorem run_of_unread {f : ReadFailure} (hfile : FileSystem.read files path = .error f)
    (pieces : List Text) :
    (opening o).run files pieces = ⟨1, #[.notice (f.notice path)], files⟩ := by
  rw [run_of_script hhelp h, hfile, runScript, Stage.run]

theorem run_of_file {source : Text} (hfile : FileSystem.read files path = .ok source)
    (input : Text) :
    let script := (Session.new o).runFragment source
    (opening o).run files (Shell.pieces input) =
      save o files (script.2 == .failure)
        (if entersShell o (some script.2) then Shell.run script.1 input else script.1) := by
  rw [run_of_script hhelp h, hfile]
  exact run_shell o files _ _ input

end

theorem run_of_read {words : List Text} (h : Options.read words = .ok o) (files : Files)
    (input : Text) : run words files input = (opening o).run files (Shell.pieces input) := by
  rw [run, start, h]

/-- A script that succeeds is saved, if the shell is not asked for. -/
theorem run_of_success {words : List Text} (h : Options.read words = .ok o)
    (hhelp : o.help = false) (hpath : o.script = some path) (hinteractive : o.interactive = false)
    {files : Files} {source : Text} (hfile : FileSystem.read files path = .ok source)
    (hsuccess : ((Session.new o).runFragment source).2 = .success) (input : Text) :
    run words files input = save o files false ((Session.new o).runFragment source).1 := by
  have hstays : entersShell o (some .success) = false := hinteractive
  rw [run_of_read h, run_of_file hhelp hpath hfile, hsuccess, hstays]
  rfl

theorem run_of_misread {words : List Text} {n : Notice} (h : Options.read words = .error n)
    (files : Files) (input : Text) : run words files input = ⟨1, #[.notice n, .usage], files⟩ := by
  rw [run, start, h, Stage.run]

end

end Turtle.Console
