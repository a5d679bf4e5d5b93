import Turtle.Proofs.Console.Script

/-!
The picture that the program saves.

Whatever happens in a session, its canvas is the one on which the instructions
of all fragments were executed in a row, up to the first one that ends the
program. A fault does not take back what its fragment emitted before, and behind
an exit no fragment is run. So the picture follows from the reports alone, and
these follow from the fragments: what the shell takes for a fragment depends on
the input only, and not on what was run before.
-/

namespace Turtle

/-! ### Reports -/

namespace Report

/-- Whether one of the instructions ends the program. -/
def exits (r : Report) : Bool :=
  r.instructions.toList.any Instruction.exits

/-- The numbers that are shown before the program ends. -/
def shown (r : Report) : List Event :=
  ((untilExit r.instructions.toList).filterMap Instruction.shown?).map Event.shown

/-- What is told of the run: the numbers that are shown, and the fault, unless
the program has ended before. -/
def told (r : Report) : List Event :=
  r.shown ++ if r.exits then [] else r.fault.toList.map Event.fault

/-- How a fragment with this report ends. -/
def status (r : Report) : Status :=
  if r.exits then .exit else if r.fault.isSome then .failure else .success

variable {r : Report}

theorem told_of_exits (h : r.exits = true) : r.told = r.shown := by
  rw [told, if_pos h, List.append_nil]

theorem told_of_none (h : r.fault = none) : r.told = r.shown := by
  rw [told, h]
  split_ifs <;> exact List.append_nil _

theorem told_of_some (hexits : r.exits = false) {f : Fault} (hfault : r.fault = some f) :
    r.told = r.shown ++ [.fault f] := by
  rw [told, hexits, hfault]
  rfl

theorem status_exit_iff : r.status = .exit ↔ r.exits = true := by
  rw [status]
  split_ifs with hexits <;> simp [hexits]

theorem status_failure_iff :
    r.status = .failure ↔ r.fault.isSome = true ∧ r.exits = false := by
  rw [status]
  split_ifs with hexits hfault
  · simp [hexits]
  · simp [hexits, hfault]
  · simp [hfault]

end Report

/-- The reports of the sources, which are run one after the other until one of
them ends the program. -/
def Interpreter.reports (i : Interpreter) : List Text → List Report
  | [] => []
  | source :: sources =>
    let r := i.run source
    r :: if r.exits then [] else r.interpreter.reports sources

/-- All instructions of the reports, one behind the other. -/
def instructionsOf (reports : List Report) : List Instruction :=
  reports.flatMap fun r => r.instructions.toList

/-! ### Sessions -/

namespace Session

/-- The second session comes from the first one by the reports: their
instructions were executed up to an exit, and told is what is told of them. -/
structure Follows [Circle] (s s' : Session) (reports : List Report) : Prop where
  canvas : s'.canvas = (untilExit (instructionsOf reports)).foldl Canvas.execute s.canvas
  told : s'.gist.told = s.gist.told ++ reports.flatMap Report.told

variable [Circle]

theorem Follows.refl (s : Session) : s.Follows s [] where
  canvas := rfl
  told := (List.append_nil _).symm

/-- What is told besides the results does not count. -/
theorem Follows.of_gist {s s₀ s' : Session} (hgist : s.gist = s₀.gist) {reports : List Report}
    (h : s.Follows s' reports) : s₀.Follows s' reports where
  canvas := by
    rw [h.canvas]
    exact congrArg (fun g : Gist => (untilExit (instructionsOf reports)).foldl _ g.canvas) hgist
  told := by rw [h.told, hgist]

/-- A fragment ends the program, or succeeds, or fails and tells its fault. -/
theorem runFragment_cases (s : Session) (source : Text) :
    let r := s.interpreter.run source
    (r.exits = true ∧ s.runFragment source = (s.played source, .exit)) ∨
      (r.exits = false ∧ r.fault = none ∧ s.runFragment source = (s.played source, .success)) ∨
      ∃ f, r.exits = false ∧ r.fault = some f ∧
        s.runFragment source = ((s.played source).tell (.fault f), .failure) := by
  intro r
  have hexited : (Replay.of s.canvas r.instructions.toList).exited = r.exits :=
    Replay.exited_play rfl _
  rw [runFragment_eq, hexited]
  cases hexits : r.exits with
  | true => exact .inl ⟨rfl, rfl⟩
  | false =>
      cases hfault : (s.interpreter.run source).fault with
      | none => exact .inr (.inl ⟨rfl, rfl, rfl⟩)
      | some f => exact .inr (.inr ⟨f, rfl, rfl, rfl⟩)

theorem canvas_played (s : Session) (source : Text) :
    (s.played source).canvas =
      (untilExit (s.interpreter.run source).instructions.toList).foldl Canvas.execute s.canvas :=
  Replay.canvas_play ..

theorem told_played_report (s : Session) (source : Text) :
    (s.played source).gist.told = s.gist.told ++ (s.interpreter.run source).shown := by
  have hshown : (Replay.of s.canvas (s.interpreter.run source).instructions.toList).shown.reverse =
      (untilExit (s.interpreter.run source).instructions.toList).filterMap Instruction.shown? :=
    Replay.shown_play ..
  rw [told_played, hshown, Report.shown]

/-- A fragment leaves a session as the report tells. -/
theorem runFragment_report (s : Session) (source : Text) :
    let r := s.interpreter.run source
    let o := s.runFragment source
    o.1.interpreter = r.interpreter ∧
      o.1.canvas = (untilExit r.instructions.toList).foldl Canvas.execute s.canvas ∧
      o.1.gist.told = s.gist.told ++ r.told ∧ o.2 = r.status := by
  intro r o
  have hcanvas := s.canvas_played source
  have htold := s.told_played_report source
  rcases s.runFragment_cases source with
    ⟨hexits, ho⟩ | ⟨hexits, hfault, ho⟩ | ⟨f, hexits, hfault, ho⟩
  · have hstatus : r.status = .exit := Report.status_exit_iff.2 hexits
    rw [Report.told_of_exits hexits, hstatus, show o = _ from ho]
    exact ⟨rfl, hcanvas, htold, rfl⟩
  · have hstatus : r.status = .success := by simp [Report.status, r, hexits, hfault]
    rw [Report.told_of_none hfault, hstatus, show o = _ from ho]
    exact ⟨rfl, hcanvas, htold, rfl⟩
  · have hstatus : r.status = .failure := by simp [Report.status, r, hexits, hfault]
    have hfaulty : ((s.played source).tell (.fault f)).gist.told =
        (s.played source).gist.told ++ [.fault f] := by
      simp [gist, tell, Event.isResult]
    rw [Report.told_of_some hexits hfault, hstatus, show o = _ from ho, hfaulty, htold,
      List.append_assoc]
    exact ⟨rfl, hcanvas, rfl, rfl⟩

/-- A fragment, and what follows unless it ends the program. -/
theorem Follows.cons {s s' : Session} {source : Text} {sources : List Text}
    (hexit : (s.runFragment source).2 = .exit → s' = (s.runFragment source).1)
    (hlater : (s.runFragment source).2 ≠ .exit →
      (s.runFragment source).1.Follows s'
        ((s.runFragment source).1.interpreter.reports sources)) :
    s.Follows s' (s.interpreter.reports (source :: sources)) := by
  obtain ⟨hinterpreter, hcanvas, htold, hstatus⟩ := s.runFragment_report source
  rw [hstatus, Report.status_exit_iff] at hexit
  rw [hstatus, Ne, Report.status_exit_iff, hinterpreter] at hlater
  simp only [Interpreter.reports]
  cases hexits : (s.interpreter.run source).exits with
  | true =>
      rw [hexit hexits]
      refine ⟨?_, ?_⟩
      · simpa [instructionsOf] using hcanvas
      · simpa using htold
  | false =>
      obtain ⟨hcanvas', htold'⟩ := hlater (by rw [hexits]; decide)
      refine ⟨?_, ?_⟩
      · rw [hcanvas', hcanvas, untilExit_eq_self hexits]
        show _ = (untilExit (_ ++ instructionsOf _)).foldl _ _
        rw [untilExit_append hexits, List.foldl_append]
        rfl
      · rw [htold', htold, List.append_assoc]
        rfl

end Session

/-! ### The shell -/

namespace Shell

/-- The fragments of the pieces. What is left in the end is one, too. -/
def fragmentsFrom (c : Collector) : List Text → List Text
  | [] => if c.text.isEmpty then [] else [c.text]
  | piece :: pieces =>
    match (c.add piece).fragment? with
    | some fragment => fragment :: fragmentsFrom .new pieces
    | none => fragmentsFrom (c.add piece) pieces

/-- The fragments of the input. -/
def fragments (input : Text) : List Text :=
  fragmentsFrom .new (pieces input)

section

variable [Circle]

theorem follows_converse (s : Session) (c : Collector) (pieces : List Text) :
    s.Follows (converse s c pieces) (s.interpreter.reports (fragmentsFrom c pieces)) := by
  induction pieces generalizing s c with
  | nil =>
      have hgist : ((ask s c).tell .endOfInput).gist = s.gist :=
        (Session.gist_tell _ rfl).trans (gist_ask s c)
      have hinterpreter : ((ask s c).tell .endOfInput).interpreter = s.interpreter :=
        ask_interpreter s c
      rw [converse, close, fragmentsFrom, ← hinterpreter]
      apply Session.Follows.of_gist hgist
      split_ifs
      · exact .refl _
      · exact .cons (fun _ => rfl) (fun _ => .refl _)
  | cons piece pieces ih =>
      apply Session.Follows.of_gist (gist_ask s c)
      cases hfragment : (c.add piece).fragment? with
      | none =>
          rw [(cons_of_incomplete s hfragment pieces).2, fragmentsFrom, hfragment,
            ← ask_interpreter s c]
          exact ih (ask s c) (c.add piece)
      | some fragment =>
          rw [fragmentsFrom, hfragment, ← ask_interpreter s c]
          apply Session.Follows.cons
          · exact fun hexit => converse_of_exit hfragment hexit pieces
          · intro hexit
            rw [(cons_of_fragment hfragment hexit pieces).2]
            exact ih _ .new

theorem follows_run (s : Session) (input : Text) :
    s.Follows (run s input) (s.interpreter.reports (fragments input)) :=
  follows_converse s .new (pieces input)

end

end Shell

/-! ### The program -/

/-- The results and failures that the program has told, in order. -/
def Ending.results {Files : Type} (e : Ending Files) : List Event :=
  e.events.toList.filter Event.isResult

namespace Console

theorem entersShell_of_ne_exit (o : Options) {status : Status} (h : status ≠ .exit) :
    entersShell o (some status) = o.interactive := by
  cases status with
  | exit => exact absurd rfl h
  | success => rfl
  | failure => rfl

section

variable {Files : Type} [FileSystem Files]

/-- The fragments that the program comes to: the script, if there is one, and
what is typed into the shell, if it is entered. -/
def fragments (o : Options) (files : Files) (input : Text) : Except ReadFailure (List Text) :=
  match o.script with
  | none => .ok (Shell.fragments input)
  | some path =>
    (· :: if o.interactive then Shell.fragments input else []) <$> FileSystem.read files path

variable [Circle]

/-- Behind a script the shell is entered if this is asked for, and if the script
has not ended the program. -/
theorem follows_script (o : Options) (source input : Text) :
    let script := (Session.new o).runFragment source
    (Session.new o).Follows
      (if entersShell o (some script.2) then Shell.run script.1 input else script.1)
      ((Interpreter.new o.limit).reports
        (source :: if o.interactive then Shell.fragments input else [])) := by
  intro script
  apply Session.Follows.cons
  · intro hexit
    rw [show script.2 = _ from hexit]
    rfl
  · intro hexit
    rw [entersShell_of_ne_exit o hexit]
    cases o.interactive with
    | true => exact Shell.follows_run script.1 input
    | false => exact .refl script.1

/-- The program saves a session that comes from the reports, and it counts as
failed if the script has failed. -/
theorem exists_save {o : Options} (hhelp : o.help = false) {files : Files} {input : Text}
    {sources : List Text} (hsources : fragments o files input = .ok sources) :
    let reports := (Interpreter.new o.limit).reports sources
    ∃ s failed, (opening o).run files (Shell.pieces input) = save o files failed s ∧
      (Session.new o).Follows s reports ∧
      (failed = true ↔ o.script.isSome = true ∧ ∃ r ∈ reports.head?, r.status = .failure) := by
  intro reports
  cases hscript : o.script with
  | none =>
      simp only [fragments, hscript] at hsources
      cases hsources
      refine ⟨_, false, run_of_none hhelp hscript files input, Shell.follows_run _ input, ?_⟩
      simp
  | some path =>
      simp only [fragments, hscript] at hsources
      cases hpath : FileSystem.read files path with
      | error f =>
          rw [hpath] at hsources
          cases hsources
      | ok source =>
          rw [hpath] at hsources
          cases hsources
          refine ⟨_, _, run_of_file hhelp hscript hpath input, follows_script o source input, ?_⟩
          have hhead : reports.head? = some ((Interpreter.new o.limit).run source) := rfl
          have hstatus := ((Session.new o).runFragment_report source).2.2.2
          rw [hhead, hstatus, beq_iff_eq]
          simp [Session.new]

/-- What is saved is what a session has come to. -/
theorem save_of_follows {o : Options} (hfits : FileSystem.fits o.output = true) {s : Session}
    {reports : List Report} (h : (Session.new o).Follows s reports) (files : Files)
    (failed : Bool) :
    let picture := (untilExit (instructionsOf reports)).foldl Canvas.execute
      (.blank o.width o.height)
    let stored := FileSystem.write files o.output picture.bitmap
    let e := save o files failed s
    e.files = stored.1 ∧
      (stored.2 = none → FileSystem.read e.files o.output = .ok picture.bitmap ∧
        e.code = exitCode failed ∧ e.results = reports.flatMap Report.told) := by
  intro picture stored e
  have htold : s.events.toList.filter Event.isResult = reports.flatMap Report.told := h.told
  obtain ⟨hfiles, hwritten⟩ := save_of_canvas hfits h.canvas files failed
  refine ⟨hfiles, ?_⟩
  intro hwrite
  obtain ⟨hread, hcode, hevents⟩ := hwritten hwrite
  refine ⟨hread, hcode, ?_⟩
  rw [← htold, Ending.results, hevents]
  simp [Event.isResult]

/-- The picture that the program saves is a blank canvas on which the
instructions of all fragments were executed, up to the first one that ends the
program. The fragments are run by one interpreter, and the faults of some do not
matter to the others. If the picture can be written, it is read at the path of the
output; told are the results of just these runs, and the code is 1 if the script
fails and did not end the program before that. -/
theorem run_replays {words : List Text} {o : Options} (hread : Options.read words = .ok o)
    (hhelp : o.help = false) (hfits : FileSystem.fits o.output = true) {files : Files}
    {input : Text} {sources : List Text} (hsources : fragments o files input = .ok sources) :
    let reports := (Interpreter.new o.limit).reports sources
    let picture := (untilExit (instructionsOf reports)).foldl Canvas.execute
      (.blank o.width o.height)
    let stored := FileSystem.write files o.output picture.bitmap
    let e := run words files input
    e.files = stored.1 ∧
      (stored.2 = none → FileSystem.read e.files o.output = .ok picture.bitmap ∧
        (e.code = 1 ↔ o.script.isSome = true ∧
          ∃ r ∈ reports.head?, r.fault.isSome = true ∧ r.exits = false) ∧
        e.code ≤ 1 ∧ e.results = reports.flatMap Report.told) := by
  intro reports picture stored e
  obtain ⟨s, failed, hsave, hfollows, hfailed⟩ := exists_save hhelp hsources
  have he : e = save o files failed s := (run_of_read hread files input).trans hsave
  obtain ⟨hfiles, hwritten⟩ := save_of_follows hfits hfollows files failed
  rw [← he] at hfiles hwritten
  simp only [Report.status_failure_iff] at hfailed
  refine ⟨hfiles, ?_⟩
  intro hwrite
  obtain ⟨hread, hcode, hresults⟩ := hwritten hwrite
  refine ⟨hread, ?_, ?_, hresults⟩
  · rw [hcode, ← hfailed, exitCode]
    cases failed <;> decide
  · rw [hcode, exitCode]
    cases failed <;> decide

end

/-- A script that fails behind its first instruction, and a shell that is ended
in the middle of its first fragment. -/
theorem run_replays_exit :
    let words := [ascii "-W", ascii "1", ascii "-H", ascii "1", ascii "-i", ascii "draw"]
    let files : Directory := [(ascii "draw", ascii "setsc 9 9 9 fd :n")]
    let input := ascii "setsc 1 2 3 exit show 4\nshow 5\n"
    let painted : Color := ⟨1, 2, 3⟩
    let picture : Canvas := { Canvas.blank 1 1 with background := painted, pixels := #[painted] }
    let e := run words files input
    e.files.read (ascii "tlogo.bmp") = .ok picture.bitmap ∧ e.code = 1 ∧
      e.results = [.fault ⟨1, .unknownVariable (ascii "n")⟩] := by
  intro words files input painted picture e
  let o : Options := { script := some (ascii "draw"), width := 1, height := 1, interactive := true }
  have hread : Options.read words = .ok o := by
    decide +kernel
  have hsources : fragments o files input =
      .ok [ascii "setsc 9 9 9 fd :n", ascii "setsc 1 2 3 exit show 4\n", ascii "show 5\n"] := by
    decide +kernel
  have hfits : FileSystem.fits o.output = true := by
    decide +kernel
  obtain ⟨-, hwritten⟩ := run_replays hread rfl hfits hsources
  obtain ⟨hpicture, hcode, -, hresults⟩ := hwritten (by decide +kernel)
  refine ⟨hpicture.trans ?_, hcode.2 ⟨rfl, ?_⟩, hresults.trans ?_⟩
  · refine congrArg Except.ok (congrArg Canvas.bitmap ?_)
    decide +kernel
  · decide +kernel
  · decide +kernel

end Console

end Turtle
