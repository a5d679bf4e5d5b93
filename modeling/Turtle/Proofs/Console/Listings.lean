import Turtle.Proofs.Console.Picture
import Turtle.Proofs.Console.Quiet
import Turtle.Proofs.Console.Segments

/-!
What the debug option adds.

What is listed are blocks: the tokens, the statements and the instructions of a
fragment, as far as it came, and the fault that stopped it. The program lists each
fragment that it runs, and lists it once; to find out whether a fragment is complete
lists nothing. Whatever else stands on the standard output stays where it is when the
blocks are cut out, and all other effects are those of the quiet session.
-/

namespace Turtle

/-! ### Stages of a run -/

/-- Runs a source. If this is asked for, its tokens and its statements are told, each
as soon as they are known. -/
def Interpreter.runTelling (i : Interpreter) (debug : Bool) (source : Text) : Text × Report :=
  let tell (block : Text) : Text := if debug then block else []
  match lex source with
  | .error f => ([], ⟨i, #[], some f⟩)
  | .ok l =>
    let told := tell (Listing.tokens l.tokens)
    match parse l with
    | .error f => (told, ⟨i, #[], some f⟩)
    | .ok statements =>
      let told := told ++ tell (Listing.program statements)
      match Turtle.run i.limit statements ⟨i.environment, #[]⟩ with
      | (m, fault) => (told, ⟨{ i with environment := m.environment }, m.emitted, fault⟩)

theorem Interpreter.runTelling_eq (i : Interpreter) (debug : Bool) (source : Text) :
    i.runTelling debug source = (if debug then Listing.source source else [], i.run source) := by
  rw [runTelling, run, parseSource, Listing.source]
  cases hlex : lex source with
  | error f => cases debug <;> rfl
  | ok l =>
      cases hparse : parse l with
      | error f => cases debug <;> simp [hparse]
      | ok ss => cases debug <;> simp [hparse]

/-! ### Blocks -/

/-- The tokens of a source if it can be lexed, and its statements if it can be parsed. -/
def sourceBlocks (source : Text) : List Text :=
  match lex source with
  | .error _ => []
  | .ok l =>
    match parse l with
    | .error _ => [Listing.tokens l.tokens]
    | .ok ss => [Listing.tokens l.tokens, Listing.program ss]

/-- All that is listed of a fragment with this report. -/
def blocks (source : Text) (r : Report) : List Text :=
  sourceBlocks source ++ Listing.instructions r.instructions.toList ::
    match r.fault with
    | none => []
    | some f => [ascii "Stopped by: " ++ f.category.name ++ ascii "\n"]

theorem source_eq_flatten (source : Text) :
    Listing.source source = (sourceBlocks source).flatten := by
  rw [Listing.source, sourceBlocks]
  cases lex source with
  | error f => rfl
  | ok l =>
      cases hparse : parse l with
      | error f => simp [hparse]
      | ok ss => simp [hparse]

theorem listing_eq_flatten (source : Text) (r : Report) :
    Session.listing source r = (blocks source r).flatten := by
  have hstopped : ∀ name, Listing.line "Stopped by: %\n" [.text name] =
      ascii "Stopped by: " ++ (name ++ ascii "\n") := fun _ => rfl
  rw [Session.listing, source_eq_flatten, blocks, List.flatten_append, List.flatten_cons,
    List.append_assoc]
  cases r.fault with
  | none => rfl
  | some f => simp [hstopped]

/-- What remains of a text when the blocks are cut out of it, one behind the other. -/
inductive Without : (blocks : List Text) → (whole rest : Text) → Prop
  | done (t : Text) : Without [] t t
  | cut (before block : Text) {blocks : List Text} {whole rest : Text}
      (h : Without blocks whole rest) :
      Without (block :: blocks) (before ++ block ++ whole) (before ++ rest)

theorem Without.behind {blocks : List Text} {whole rest : Text} (h : Without blocks whole rest)
    (t : Text) : Without blocks (t ++ whole) (t ++ rest) := by
  cases h with
  | done => exact .done _
  | cut before block h =>
      simp only [← List.append_assoc]
      exact .cut (t ++ before) block h

/-- The listing that the event tells. -/
def Event.listing? : Event → Option Text
  | .listing t => some t
  | _ => none

theorem Event.without_listings (es : List Event) :
    Without (es.filterMap Event.listing?) (es.flatMap Event.output)
      ((es.filter Event.isQuiet).flatMap Event.output) := by
  induction es with
  | nil => exact .done []
  | cons e es ih =>
      cases e with
      | listing t => exact .cut [] t ih
      | _ => exact ih.behind _

/-! ### What is listed -/

/-- The blocks of the sources that are run, a group for each of them. -/
def Interpreter.groups (i : Interpreter) (sources : List Text) : List (List Text) :=
  List.zipWith blocks sources (i.reports sources)

theorem Interpreter.groups_cons (i : Interpreter) (source : Text) (sources : List Text) :
    let r := i.run source
    i.groups (source :: sources) =
      blocks source r :: if r.exits then [] else r.interpreter.groups sources := by
  intro r
  rw [groups, reports, List.zipWith_cons_cons]
  split_ifs
  · rw [List.zipWith_nil_right]
  · rfl

/-- The listings that the session has told. -/
def Session.listings (s : Session) : List Text :=
  s.events.toList.filterMap Event.listing?

theorem Event.listing?_of_quiet {e : Event} (h : e.isQuiet = true) : e.listing? = none := by
  cases e with
  | listing t => cases h
  | _ => rfl

namespace Session

variable {s : Session} {source : Text}

theorem listings_tell (s : Session) {e : Event} (h : e.isQuiet = true) :
    (s.tell e).listings = s.listings := by
  simp [listings, tell, Event.listing?_of_quiet h]

variable [Circle]

theorem listings_played (hdebug : s.debug = true) (source : Text) :
    (s.played source).listings =
      s.listings ++ [(blocks source (s.interpreter.run source)).flatten] := by
  have hshown : ∀ shown : List Int64, (shown.map Event.shown).filterMap Event.listing? = [] := by
    intro shown
    rw [List.filterMap_map, List.filterMap_eq_nil_iff]
    exact fun _ _ => rfl
  rw [listings, played, Array.toList_appendList, List.filterMap_append, hshown, List.append_nil,
    if_pos hdebug, Array.toList_push, List.filterMap_append, listing_eq_flatten]
  rfl

theorem debug_runFragment (s : Session) (source : Text) :
    (s.runFragment source).1.debug = s.debug := by
  rw [runFragment_eq]
  split_ifs
  · rfl
  · cases (s.interpreter.run source).fault <;> rfl

/-- A fragment is listed once. -/
theorem listings_runFragment (hdebug : s.debug = true) (source : Text) :
    (s.runFragment source).1.listings =
      s.listings ++ [(blocks source (s.interpreter.run source)).flatten] := by
  rw [← listings_played hdebug, runFragment_eq]
  split_ifs
  · rfl
  · cases (s.interpreter.run source).fault with
    | none => rfl
    | some f => exact listings_tell _ rfl

/-- A fragment is listed, and what follows unless it ends the program. -/
theorem listings_cons {s' : Session} {sources : List Text} (hdebug : s.debug = true)
    (hexit : (s.runFragment source).2 = .exit → s' = (s.runFragment source).1)
    (hlater : (s.runFragment source).2 ≠ .exit →
      s'.listings = (s.runFragment source).1.listings ++
        ((s.runFragment source).1.interpreter.groups sources).map List.flatten) :
    s'.listings =
      s.listings ++ (s.interpreter.groups (source :: sources)).map List.flatten := by
  obtain ⟨hinterpreter, -, -, hstatus⟩ := s.runFragment_report source
  have hlisted := listings_runFragment hdebug source
  -- The status and the report tell alike whether there is more to come.
  rw [hstatus, Report.status_exit_iff] at hexit
  rw [hstatus, Ne, Report.status_exit_iff, hinterpreter, hlisted] at hlater
  rw [Interpreter.groups_cons]
  cases hexits : (s.interpreter.run source).exits with
  | true =>
      rw [hexit hexits, hlisted]
      rfl
  | false =>
      rw [hlater (by rw [hexits]; decide)]
      simp

end Session

namespace Shell

theorem debug_ask (s : Session) (c : Collector) : (ask s c).debug = s.debug := by
  rw [ask]
  cases c.prompt? <;> rfl

theorem listings_ask (s : Session) (c : Collector) : (ask s c).listings = s.listings := by
  rw [ask, Collector.prompt?]
  split_ifs
  · exact s.listings_tell rfl
  · rfl

variable [Circle]

theorem listings_converse {s : Session} (hdebug : s.debug = true) (c : Collector)
    (pieces : List Text) :
    (converse s c pieces).listings =
      s.listings ++ (s.interpreter.groups (fragmentsFrom c pieces)).map List.flatten := by
  induction pieces generalizing s c with
  | nil =>
      have hended : ((ask s c).tell .endOfInput).listings = s.listings :=
        (Session.listings_tell _ rfl).trans (listings_ask s c)
      have hdebug' : ((ask s c).tell .endOfInput).debug = true := (debug_ask s c).trans hdebug
      have hinterpreter : ((ask s c).tell .endOfInput).interpreter = s.interpreter :=
        ask_interpreter s c
      rw [converse, close, fragmentsFrom, ← hinterpreter, ← hended]
      split_ifs
      · exact (List.append_nil _).symm
      · exact Session.listings_cons hdebug' (fun _ => rfl) (fun _ => (List.append_nil _).symm)
  | cons piece pieces ih =>
      have hdebug' : (ask s c).debug = true := (debug_ask s c).trans hdebug
      rw [← listings_ask s c, ← ask_interpreter s c]
      cases hfragment : (c.add piece).fragment? with
      | none =>
          rw [(cons_of_incomplete s hfragment pieces).2, fragmentsFrom, hfragment]
          exact ih hdebug' (c.add piece)
      | some fragment =>
          rw [fragmentsFrom, hfragment]
          apply Session.listings_cons hdebug'
          · exact fun hexit => converse_of_exit hfragment hexit pieces
          · intro hexit
            rw [(cons_of_fragment hfragment hexit pieces).2]
            exact ih ((Session.debug_runFragment _ _).trans hdebug') .new

theorem listings_run {s : Session} (hdebug : s.debug = true) (input : Text) :
    (run s input).listings =
      s.listings ++ (s.interpreter.groups (fragments input)).map List.flatten :=
  listings_converse hdebug .new (pieces input)

end Shell

namespace Console

section

variable {Files : Type} [FileSystem Files]

/-- The blocks that the program lists, a group for each fragment that it runs. -/
def listed (o : Options) (files : Files) (input : Text) : List (List Text) :=
  if o.help then []
  else
    match fragments o files input with
    | .error _ => []
    | .ok sources => (Interpreter.new o.limit).groups sources

theorem listings_save (o : Options) (files : Files) (failed : Bool) (s : Session) :
    (save o files failed s).events.toList.filterMap Event.listing? = s.listings := by
  rw [events_save, List.filterMap_append]
  cases (written files o.output s.canvas.bitmap).2 <;> simp [Session.listings, Event.listing?]

variable [Circle]

theorem listings_script {o : Options} (hdebug : o.debug = true) (source input : Text) :
    let script := (Session.new o).runFragment source
    (if entersShell o (some script.2) then Shell.run script.1 input else script.1).listings =
      ((Interpreter.new o.limit).groups
        (source :: if o.interactive then Shell.fragments input else [])).map List.flatten := by
  intro script
  apply Session.listings_cons (s := Session.new o) hdebug
  · intro hexit
    rw [show script.2 = _ from hexit]
    rfl
  · intro hexit
    have hdebug' : script.1.debug = true := ((Session.new o).debug_runFragment source).trans hdebug
    rw [entersShell_of_ne_exit o hexit]
    cases o.interactive with
    | true => exact Shell.listings_run hdebug' input
    | false => exact (List.append_nil _).symm

theorem listings_opening {o : Options} (hdebug : o.debug = true) (files : Files)
    (input : Text) :
    ((opening o).run files (Shell.pieces input)).events.toList.filterMap Event.listing? =
      (listed o files input).map List.flatten := by
  cases hhelp : o.help with
  | true =>
      rw [run_of_help hhelp, listed, if_pos hhelp]
      rfl
  | false =>
      rw [listed, if_neg (by rw [hhelp]; decide)]
      cases hscript : o.script with
      | none =>
          have hfragments : fragments o files input = .ok (Shell.fragments input) := by
            simp only [fragments, hscript]
          rw [run_of_none hhelp hscript, listings_save, hfragments]
          exact Shell.listings_run hdebug input
      | some path =>
          cases hfile : FileSystem.read files path with
          | error f =>
              have hfragments : fragments o files input = .error f := by
                simp only [fragments, hscript, hfile]
                rfl
              rw [run_of_unread hhelp hscript hfile, hfragments]
              rfl
          | ok source =>
              have hfragments : fragments o files input =
                  .ok (source :: if o.interactive then Shell.fragments input else []) := by
                simp only [fragments, hscript, hfile]
                rfl
              rw [run_of_file hhelp hscript hfile, listings_save, hfragments]
              exact listings_script hdebug source input

end

end Console

/-! ### The debug option -/

namespace Options

/-- The options with the debug option. -/
def debugging (o : Options) : Options :=
  { o with debug := true }

theorem setFlag_debugging (o : Options) (f : Flag) :
    o.debugging.setFlag f = (o.setFlag f).debugging := by
  cases f <;> rfl

theorem setValue_debugging (o : Options) (s : Setting) (option value : Text) :
    o.debugging.setValue s option value = debugging <$> o.setValue s option value := by
  cases s with
  | output => rfl
  | width | height | limit =>
      rw [setValue, setValue]
      cases readWithin option value _ _ <;> rfl

theorem setScript_debugging (o : Options) (path : Text) :
    o.debugging.setScript path = debugging <$> o.setScript path := by
  rw [setScript, setScript]
  have hscript : o.debugging.script = o.script := rfl
  rw [hscript]
  cases o.script <;> rfl

/-- Words are read alike behind the debug option. -/
theorem readFrom_debugging (o : Options) (words : List Text) :
    readFrom o.debugging words = debugging <$> readFrom o words := by
  fun_induction readFrom o words with
  | case1 o => rfl
  | case2 o word words f hword ih =>
      rw [readFrom, hword]
      simp only [setFlag_debugging, ih]
  | case3 o word s hword =>
      rw [readFrom, hword]
      rfl
  | case4 o word s hword value words o' hset ih =>
      rw [readFrom, hword]
      simp only [setValue_debugging, hset]
      exact ih
  | case5 o word s hword value words n hset =>
      rw [readFrom, hword]
      simp only [setValue_debugging, hset]
      rfl
  | case6 o word words hword =>
      rw [readFrom, hword]
      rfl
  | case7 o word words hword o' hset ih =>
      rw [readFrom, hword]
      simp only [setScript_debugging, hset]
      exact ih
  | case8 o word words hword n hset =>
      rw [readFrom, hword]
      simp only [setScript_debugging, hset]
      rfl

/-- The debug option in front is set, and changes no other. -/
theorem read_debug {words : List Text} {o : Options} (h : read words = .ok o) (long : Bool) :
    read (Flag.word .debug long :: words) = .ok o.debugging := by
  have hdebugging := readFrom_debugging {} words
  rw [← read, h] at hdebugging
  rw [read, readFrom, classify_flag]
  exact hdebugging

end Options

namespace Console

/-- With the debug option the program ends with the same code, tells the same on the
standard error and writes the same files. On the standard output it tells the same
when the blocks are cut out, which come in a group for each fragment that is run. A
run that tells its tokens and its statements yields what one that does not yields. -/
theorem run_debug [Circle] {Files : Type} [FileSystem Files] {words : List Text} {o : Options}
    (hread : Options.read words = .ok o) (long : Bool) (files : Files) (input : Text) :
    let plain := run words files input
    let e := run (Options.Flag.word .debug long :: words) files input
    (e.code = plain.code ∧ e.complaints = plain.complaints ∧ e.files = plain.files) ∧
      (o.debug = false →
        Without ((listed o files input).map List.flatten) e.output plain.output) ∧
      (o.debug = true → e.output = plain.output) ∧
      ∀ (i : Interpreter) source,
        i.runTelling true source = ((sourceBlocks source).flatten, i.run source) ∧
          i.runTelling false source = ([], i.run source) := by
  intro plain e
  have hplain : plain = (opening o).run files (Shell.pieces input) := run_of_read hread files input
  have he : e = (opening o.debugging).run files (Shell.pieces input) :=
    run_of_read (Options.read_debug hread long) files input
  have hquiet : e.quiet = plain.quiet := by
    rw [he, hplain, Stage.quiet_run, Stage.quiet_run, quiet_opening, quiet_opening]
    rfl
  have hcode := congrArg Ending.code hquiet
  have hfiles := congrArg Ending.files hquiet
  have hcomplaints : e.complaints = plain.complaints := by
    rw [← e.complaints_quiet, hquiet, plain.complaints_quiet]
  refine ⟨⟨hcode, hcomplaints, hfiles⟩, ?_, ?_, ?_⟩
  · intro hdebug
    have hoff : o.debugging.quiet = o := by
      cases o
      cases hdebug
      rfl
    have hoccurs : e.events.toList.filterMap Event.listing? =
        (listed o files input).map List.flatten := by
      rw [he]
      exact listings_opening rfl files input
    have hrest : e.events.toList.filter Event.isQuiet = plain.events.toList := by
      rw [hplain, ← hoff, ← quiet_opening, ← Stage.quiet_run, ← he, Ending.quiet,
        Array.toList_filter]
    rw [← hoccurs, Ending.output, Ending.output, ← hrest]
    exact Event.without_listings e.events.toList
  · intro hdebug
    have hon : o.debugging = o := by
      cases o
      cases hdebug
      rfl
    rw [he, hon, hplain]
  · intro i source
    rw [i.runTelling_eq, i.runTelling_eq, source_eq_flatten]
    exact ⟨rfl, rfl⟩

/-- The script is stopped while it runs, and what is typed behind it does not parse. -/
theorem run_debug_stopped :
    let words := [ascii "-W", ascii "1", ascii "-H", ascii "1", ascii "-i", ascii "draw"]
    let files : Directory := [(ascii "draw", ascii "show 1 fd :n")]
    let plain := run words files (ascii ")\n")
    let e := run (ascii "-d" :: words) files (ascii ")\n")
    let script := [ascii "Tokens (4):\n    [line 1] identifier show\n    [line 1] number 1\n",
      ascii "    [line 1] identifier fd\n    [line 1] variable :n\nStatements (2):\n",
      ascii "    Call show (1 arg)\n        Number 1\n    Call fd (1 arg)\n",
      ascii "        Variable :n\nInstructions (1):\n    show 1\n",
      ascii "Stopped by: variable not found\n"]
    let typed := [ascii "Tokens (1):\n    [line 1] ')' )\nInstructions (0):\n",
      ascii "Stopped by: unexpected token\n"]
    e.code = 1 ∧ e.files = plain.files ∧
      plain.output = ascii "1\n>> >> \nSaving canvas as \"tlogo.bmp\".\n" ∧
      Without [script.flatten, typed.flatten] e.output plain.output := by
  intro words files plain e script typed
  let o : Options := { script := some (ascii "draw"), width := 1, height := 1, interactive := true }
  have hread : Options.read words = .ok o := by
    decide +kernel
  have hlisted : (listed o files (ascii ")\n")).map List.flatten =
      [script.flatten, typed.flatten] := by
    decide +kernel
  have hplain : plain.code = 1 := by
    decide +kernel
  obtain ⟨⟨hcode, -, hfiles⟩, hoff, -, -⟩ := run_debug hread false files (ascii ")\n")
  have hwithout := hoff rfl
  rw [hlisted] at hwithout
  exact ⟨hcode.trans hplain, hfiles, by decide +kernel, hwithout⟩

end Console

end Turtle
