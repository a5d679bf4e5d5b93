import Turtle.Proofs.Console.Gist
import Turtle.Proofs.Console.Stages

/-!
Quiet sessions.

A session with the debug option does the same as one without it, and tells the
listings besides. So a quiet session, in which nothing is listed, goes with every
session, and each step of the program leads from the one to the other. In the end
the same is saved, and what was told differs in the listings only.
-/

namespace Turtle

/-! ### Events -/

/-- Whether the event is told without the debug option, too. -/
def Event.isQuiet : Event → Bool
  | .listing _ => false
  | _ => true

theorem Event.filter_push {e : Event} (h : e.isQuiet = true) (events : Array Event) :
    (events.push e).filter isQuiet = (events.filter isQuiet).push e := by
  apply Array.toList_inj.1
  simp [h]

theorem Event.complaint_of_quiet (origin : Notice.Site → Notice.Origin) (es : List Event) :
    (es.filter Event.isQuiet).flatMap (Event.complaint origin) =
      es.flatMap (Event.complaint origin) := by
  induction es with
  | nil => rfl
  | cons e es ih =>
      cases e with
      | listing t => exact ih
      | _ => exact congrArg (_ ++ ·) ih

/-! ### Sessions -/

/-- The options without the debug option. -/
def Options.quiet (o : Options) : Options :=
  { o with debug := false }

/-- The session without the debug option, and without what it has told. -/
def Session.quiet (s : Session) : Session :=
  { s with debug := false, events := s.events.filter Event.isQuiet }

namespace Session

theorem quiet_new (o : Options) : (new o).quiet = new o.quiet := rfl

theorem quiet_tell (s : Session) {e : Event} (h : e.isQuiet = true) :
    (s.tell e).quiet = s.quiet.tell e := by
  rw [tell, quiet, Event.filter_push h, quiet, tell]

variable [Circle]

theorem quiet_played (s : Session) (source : Text) :
    (s.played source).quiet = s.quiet.played source := by
  rw [quiet, played, played, quiet]
  congr 1
  apply Array.toList_inj.1
  rw [Array.toList_filter, Array.toList_appendList, Array.toList_appendList, List.filter_append,
    Event.filter_shown fun _ => rfl]
  cases s.debug with
  | false => simp
  | true => simp [Event.isQuiet]

/-- A fragment does the same in the quiet session. -/
theorem quiet_runFragment (s : Session) (source : Text) :
    s.quiet.runFragment source = ((s.runFragment source).1.quiet, (s.runFragment source).2) := by
  rw [runFragment_eq, runFragment_eq, ← quiet_played]
  have hsame : s.quiet.canvas = s.canvas ∧ s.quiet.interpreter = s.interpreter := ⟨rfl, rfl⟩
  rw [hsame.1, hsame.2]
  split_ifs
  · rfl
  · cases (s.interpreter.run source).fault with
    | none => rfl
    | some f => exact congrArg (·, Status.failure) (quiet_tell _ rfl).symm

end Session

namespace Shell

theorem quiet_ask (s : Session) (c : Collector) : (ask s c).quiet = ask s.quiet c := by
  rw [ask, ask, Collector.prompt?]
  split_ifs
  · exact Session.quiet_tell s rfl
  · rfl

variable [Circle]

theorem quiet_take (s : Session) (c : Collector) (piece : Text) :
    take s.quiet c piece =
      ((take s c piece).1.quiet, (take s c piece).2.1, (take s c piece).2.2) := by
  rw [take, take]
  cases (c.add piece).fragment? with
  | none => rfl
  | some fragment =>
      simp only [Session.quiet_runFragment]

theorem quiet_close (s : Session) (c : Collector) : (close s c).quiet = close s.quiet c := by
  rw [close, close, ← Session.quiet_tell s rfl]
  split_ifs
  · rfl
  · rw [Session.quiet_runFragment]

end Shell

/-! ### Stages -/

namespace Console

/-- The stage without the debug option, and without what it has told. -/
def Stage.quiet : Stage → Stage
  | .script o path => .script o.quiet path
  | .input o failed s c => .input o.quiet failed s.quiet c
  | .picture o failed s => .picture o.quiet failed s.quiet
  | .ended code events => .ended code (events.filter Event.isQuiet)

theorem quiet_saving (o : Options) (failed : Bool) (s : Session) :
    (saving o failed s).quiet = saving o.quiet failed s.quiet := by
  have htold : (s.tell (.saving o.output)).quiet = s.quiet.tell (.saving o.output) :=
    s.quiet_tell rfl
  have houtput : o.quiet.output = o.output := rfl
  rw [saving, saving, houtput, ← htold]
  split_ifs
  · rfl
  · exact congrArg (Stage.ended 1) (Event.filter_push rfl _)

theorem quiet_finish (o : Options) (failed : Bool) (s : Session) (f : Option WriteFailure) :
    (finish o failed s f).quiet = finish o.quiet failed s.quiet f := by
  cases f with
  | none => rfl
  | some f => exact congrArg (Stage.ended 1) (Event.filter_push rfl _)

theorem quiet_shell (o : Options) (s : Session) (status : Option Status) :
    (shell o s status).quiet = shell o.quiet s.quiet status := by
  have hentered : entersShell o.quiet status = entersShell o status := rfl
  rw [shell, shell, hentered, ← Shell.quiet_ask]
  split_ifs
  · rfl
  · exact quiet_saving ..

theorem quiet_opening (o : Options) : (opening o).quiet = opening o.quiet := by
  have hsame : o.quiet.help = o.help ∧ o.quiet.script = o.script := ⟨rfl, rfl⟩
  rw [opening, opening, hsame.1, hsame.2]
  split_ifs
  · rfl
  · cases o.script with
    | none => exact quiet_shell ..
    | some path => rfl

section

variable [Circle]

theorem quiet_runScript (o : Options) (path : Text) (r : Except ReadFailure Text) :
    (runScript o path r).quiet = runScript o.quiet path r := by
  cases r with
  | error f => rfl
  | ok source =>
      have hfragment := (Session.new o).quiet_runFragment source
      rw [Session.quiet_new] at hfragment
      simp only [runScript, hfragment]
      exact quiet_shell ..

theorem quiet_hear (o : Options) (failed : Bool) (s : Session) (c : Shell.Collector)
    (heard : Option Text) :
    (hear o failed s c heard).quiet = hear o.quiet failed s.quiet c heard := by
  cases heard with
  | none => rw [hear, hear, quiet_saving, Shell.quiet_close]
  | some piece =>
      rw [hear, hear, Shell.quiet_take]
      rcases Shell.take s c piece with ⟨s', c', ended⟩
      cases ended with
      | true => exact quiet_saving ..
      | false => exact congrArg (Stage.input o.quiet failed · c') (Shell.quiet_ask s' c')

end

end Console

/-! ### The program -/

section

variable {Files : Type}

/-- The ending without what the debug option has told. -/
def Ending.quiet (e : Ending Files) : Ending Files :=
  { e with events := e.events.filter Event.isQuiet }

theorem Ending.complaints_quiet (e : Ending Files) : e.quiet.complaints = e.complaints := by
  funext origin
  rw [complaints, quiet, Array.toList_filter, Event.complaint_of_quiet, complaints]

/-- Each stage leads to the same as the quiet one. -/
theorem Console.Stage.quiet_run [Circle] [FileSystem Files] (stage : Stage) (files : Files)
    (pieces : List Text) : (stage.run files pieces).quiet = stage.quiet.run files pieces := by
  fun_induction Stage.run files stage pieces with
  | case1 files o path pieces ih =>
      rw [quiet, Stage.run, ← quiet_runScript, ih]
  | case2 files o failed s c ih =>
      rw [quiet, Stage.run, ← quiet_hear, ih]
  | case3 files o failed s c piece pieces ih =>
      rw [quiet, Stage.run, ← quiet_hear, ih]
  | case4 files o failed s pieces files' f hwrite ih =>
      have hpicture : FileSystem.write files o.quiet.output s.quiet.canvas.bitmap = (files', f) :=
        hwrite
      rw [quiet, Stage.run, hpicture, ih, quiet_finish]
  | case5 files code events => rw [quiet, Stage.run, Ending.quiet]

end

end Turtle
