import Turtle.Console.Directory
import Turtle.Number.Series
import Turtle.Proofs.Console.Dialogue
import Turtle.Proofs.Console.Gist
import Turtle.Proofs.Console.Stages

/-!
A script and the same text typed into the shell.

The shell cuts its input into fragments, and draws what one of them does before
it reads on. A script is run as a whole, and then drawn. The fragments end where
lines end, so if all of them succeed, the sessions of the shell and of the
script come to the same. From there on both are saved alike.
-/

namespace Turtle

/-! ### What is told -/

namespace Session

variable [Circle] {s : Session} {source : Text} {e : Event}

theorem mem_events_played (h : e ∈ s.events) : e ∈ (s.played source).events := by
  rw [played, ← Array.mem_toList_iff, Array.toList_appendList]
  apply List.mem_append_left
  split_ifs
  · exact Array.mem_toList_iff.2 (Array.mem_push_of_mem _ h)
  · exact Array.mem_toList_iff.2 h

/-- What was told stays told. -/
theorem mem_events_runFragment (h : e ∈ s.events) : e ∈ (s.runFragment source).1.events := by
  rw [runFragment_eq]
  split_ifs
  · exact mem_events_played h
  · cases (s.interpreter.run source).fault with
    | none => exact mem_events_played h
    | some f => exact Array.mem_push_of_mem _ (mem_events_played h)

/-- A failure is told. -/
theorem success_of_quiet (hexit : (s.runFragment source).2 ≠ .exit)
    (hquiet : ∀ f, .fault f ∉ (s.runFragment source).1.events) :
    (s.runFragment source).2 = .success := by
  rw [runFragment_eq] at hexit hquiet ⊢
  split_ifs at hexit hquiet ⊢
  · exact absurd rfl hexit
  · cases hfault : (s.interpreter.run source).fault with
    | none => rfl
    | some f =>
        rw [hfault] at hquiet
        exact absurd Array.mem_push_self (hquiet f)

end Session

namespace Shell

variable {s : Session} {e : Event}

theorem mem_events_ask (h : e ∈ s.events) (c : Collector) : e ∈ (ask s c).events := by
  rw [ask]
  cases c.prompt? with
  | none => exact h
  | some prompt => exact Array.mem_push_of_mem _ h

variable [Circle]

theorem mem_events_take (h : e ∈ s.events) (c : Collector) (piece : Text) :
    e ∈ (take s c piece).1.events := by
  rw [take]
  cases (c.add piece).fragment? with
  | none => exact h
  | some fragment => exact Session.mem_events_runFragment h

theorem mem_events_converse (h : e ∈ s.events) (c : Collector) (pieces : List Text) :
    e ∈ (converse s c pieces).events := by
  induction pieces generalizing s c with
  | nil =>
      have hended : e ∈ ((ask s c).tell .endOfInput).events :=
        Array.mem_push_of_mem _ (mem_events_ask h c)
      rw [converse, close]
      split_ifs
      · exact hended
      · exact Session.mem_events_runFragment hended
  | cons piece pieces ih =>
      have htaken := mem_events_take (mem_events_ask h c) c piece
      rw [converse]
      rcases hout : take (ask s c) c piece with ⟨s', c', ended⟩
      rw [hout] at htaken
      cases ended with
      | true => exact htaken
      | false => exact ih htaken c'

end Shell

/-! ### The input -/

namespace Shell

theorem piece_append (room : Nat) (t : Text) : (piece room t).1 ++ (piece room t).2 = t := by
  fun_induction piece room t with
  | case1 => rfl
  | case2 => rfl
  | case3 room c t h => rfl
  | case4 room c t h first rest hp ih =>
      rw [hp] at ih
      simpa using ih

theorem flatten_piecesFrom (before : List Text) (t : Text) :
    (piecesFrom before t).flatten = before.reverse.flatten ++ t := by
  fun_induction piecesFrom before t with
  | case1 before => simp
  | case2 before c rest ih =>
      rw [ih, List.reverse_cons, List.flatten_append, List.flatten_singleton, List.append_assoc,
        piece_append]

/-- No byte of the input is lost between two pieces. -/
theorem flatten_pieces (t : Text) : (pieces t).flatten = t :=
  flatten_piecesFrom [] t

/-- A piece without a zero byte is seen as a whole. -/
theorem Collector.add_eq (c : Collector) {piece : Text} (h : 0 ∉ piece) :
    c.add piece = ⟨c.text ++ piece, piece.getLast? == some Text.newline⟩ := by
  have hseen : piece.takeWhile (· != 0) = piece := by
    rw [List.takeWhile_eq_self_iff]
    intro b hb
    rw [bne_iff_ne]
    rintro rfl
    exact h hb
  rw [add, hseen]

theorem Collector.text_add (c : Collector) {piece : Text} (h : 0 ∉ piece) :
    (c.add piece).text = c.text ++ piece := by
  rw [c.add_eq h]

theorem Collector.eq_text_of_fragment? {c : Collector} {fragment : Text}
    (h : c.fragment? = some fragment) : fragment = c.text := by
  rw [fragment?] at h
  split_ifs at h
  exact (Option.some.inj h).symm

/-! ### The dialogue -/

theorem gist_ask (s : Session) (c : Collector) : (ask s c).gist = s.gist := by
  rw [ask, Collector.prompt?]
  split_ifs
  · exact s.gist_tell rfl
  · rfl

section

variable [Circle]

/-- The fragments that a dialogue runs, the last one possibly at the end of the
input, each with the session in which it is run. -/
def runs (s : Session) (c : Collector) : List Text → List (Session × Text)
  | [] => if c.text.isEmpty then [] else [((ask s c).tell .endOfInput, c.text)]
  | piece :: pieces =>
    (c.add piece).fragment?.toList.map (fun fragment => (ask s c, fragment)) ++
      match take (ask s c) c piece with
      | (_, _, true) => []
      | (s, c, false) => runs s c pieces

variable {s : Session} {c : Collector} {piece fragment : Text} {pieces : List Text}

/-- A piece that completes no fragment is only collected. -/
theorem cons_of_incomplete (s : Session) (h : (c.add piece).fragment? = none)
    (pieces : List Text) :
    runs s c (piece :: pieces) = runs (ask s c) (c.add piece) pieces ∧
      converse s c (piece :: pieces) = converse (ask s c) (c.add piece) pieces := by
  have htake : take (ask s c) c piece = (ask s c, c.add piece, false) := by
    rw [take, h]
  rw [runs, converse, htake, h]
  exact ⟨rfl, rfl⟩

theorem mem_runs_of_fragment (h : (c.add piece).fragment? = some fragment) :
    (ask s c, fragment) ∈ runs s c (piece :: pieces) := by
  rw [runs, h]
  exact List.mem_append_left _ List.mem_cons_self

/-- Behind a fragment that does not end the dialogue collecting starts anew. -/
theorem cons_of_fragment (h : (c.add piece).fragment? = some fragment)
    (hexit : ((ask s c).runFragment fragment).2 ≠ .exit) (pieces : List Text) :
    let s' := ((ask s c).runFragment fragment).1
    runs s c (piece :: pieces) = (ask s c, fragment) :: runs s' .new pieces ∧
      converse s c (piece :: pieces) = converse s' .new pieces := by
  intro s'
  have htake : take (ask s c) c piece = (s', .new, false) := by
    rw [take, h]
    exact congrArg (_, _, ·) (beq_eq_false_iff_ne.2 hexit)
  rw [runs, converse, htake, h]
  exact ⟨rfl, rfl⟩

/-- Behind a fragment that ends the dialogue nothing is read. -/
theorem converse_of_exit (h : (c.add piece).fragment? = some fragment)
    (hexit : ((ask s c).runFragment fragment).2 = .exit) (pieces : List Text) :
    converse s c (piece :: pieces) = ((ask s c).runFragment fragment).1 := by
  have htake : take (ask s c) c piece = (((ask s c).runFragment fragment).1, .new, true) := by
    rw [take, h]
    exact congrArg (_, _, ·) (beq_iff_eq.2 hexit)
  rw [converse, htake]

/-- If no fault has been told in the end, and no fragment has ended the dialogue,
then all fragments have succeeded. -/
theorem success_of_runs (hquiet : ∀ f, .fault f ∉ (converse s c pieces).events)
    (hexit : ∀ r ∈ runs s c pieces, (r.1.runFragment r.2).2 ≠ .exit) :
    ∀ r ∈ runs s c pieces, (r.1.runFragment r.2).2 = .success := by
  induction pieces generalizing s c with
  | nil =>
      rw [converse, close] at hquiet
      rw [runs] at hexit ⊢
      split_ifs at hquiet hexit ⊢
      · simp
      · intro r hr
        have hstatus := hexit r hr
        rw [List.mem_singleton.1 hr] at hstatus ⊢
        exact Session.success_of_quiet hstatus hquiet
  | cons piece pieces ih =>
      cases hfragment : (c.add piece).fragment? with
      | none =>
          obtain ⟨hrest, hend⟩ := cons_of_incomplete s hfragment pieces
          rw [hend] at hquiet
          rw [hrest] at hexit ⊢
          exact ih hquiet hexit
      | some fragment =>
          have hstatus := hexit _ (mem_runs_of_fragment hfragment)
          obtain ⟨hrest, hend⟩ := cons_of_fragment hfragment hstatus pieces
          rw [hend] at hquiet
          rw [hrest] at hexit ⊢
          intro r hr
          rcases List.mem_cons.1 hr with rfl | hlater
          · apply Session.success_of_quiet hstatus
            intro f hf
            exact hquiet f (mem_events_converse hf .new pieces)
          · exact ih hquiet (fun r hr => hexit r (List.mem_cons_of_mem _ hr)) r hlater

/-- If all that a dialogue runs succeeds, then the same text succeeds at once
and comes to the same. -/
theorem gist_converse {s₀ : Session} {t : Text} (hzero : ∀ piece ∈ pieces, 0 ∉ piece)
    (ht : LineEnded t) (hfirst : (s₀.runFragment t).2 = .success)
    (hgist : (s₀.runFragment t).1.gist = s.gist)
    (hruns : ∀ r ∈ runs s c pieces, (r.1.runFragment r.2).2 = .success) :
    (s₀.runFragment (t ++ c.text ++ pieces.flatten)).2 = .success ∧
      (s₀.runFragment (t ++ c.text ++ pieces.flatten)).1.gist = (converse s c pieces).gist := by
  induction pieces generalizing s c t with
  | nil =>
      have hgist' : ((ask s c).tell .endOfInput).gist = s.gist :=
        (Session.gist_tell _ rfl).trans (gist_ask s c)
      rw [List.flatten_nil, List.append_nil, converse, close]
      rw [runs] at hruns
      split_ifs at hruns ⊢ with hempty
      · rw [List.isEmpty_iff.1 hempty, List.append_nil]
        exact ⟨hfirst, hgist.trans hgist'.symm⟩
      · exact Session.runFragment_append ht hfirst (hgist.trans hgist'.symm)
          (hruns _ List.mem_cons_self)
  | cons piece pieces ih =>
      have htext := c.text_add (hzero piece List.mem_cons_self)
      have hzero' : ∀ piece ∈ pieces, 0 ∉ piece := fun q hq => hzero q (List.mem_cons_of_mem _ hq)
      have hasked : (s₀.runFragment t).1.gist = (ask s c).gist :=
        hgist.trans (gist_ask s c).symm
      rw [List.flatten_cons]
      cases hfragment : (c.add piece).fragment? with
      | none =>
          obtain ⟨hrest, hend⟩ := cons_of_incomplete s hfragment pieces
          rw [hrest] at hruns
          have hlater := ih hzero' ht hfirst hasked hruns
          rw [htext] at hlater
          rw [hend]
          simpa using hlater
      | some fragment =>
          have hsuccess := hruns _ (mem_runs_of_fragment hfragment)
          have hstatus : ((ask s c).runFragment fragment).2 ≠ .exit := by
            rw [hsuccess]
            decide
          have hwhole : fragment = c.text ++ piece :=
            (Collector.eq_text_of_fragment? hfragment).trans htext
          obtain ⟨⟨line, hline⟩, -⟩ := Collector.of_fragment? hfragment
          have hended : LineEnded (t ++ fragment) :=
            .inr ⟨t ++ line, by rw [hline, List.append_assoc]⟩
          obtain ⟨hjoined, hgist'⟩ := Session.runFragment_append ht hfirst hasked hsuccess
          obtain ⟨hrest, hend⟩ := cons_of_fragment hfragment hstatus pieces
          rw [hrest] at hruns
          have hlater := ih hzero' hended hjoined hgist'
            (fun r hr => hruns r (List.mem_cons_of_mem _ hr))
          rw [hend]
          simpa [hwhole, Collector.new] using hlater

end

/-- Input that a session takes in fragments, all of which succeed, also succeeds
as one fragment. -/
theorem gist_run [Circle] {s s₀ : Session} (hsame : s₀.gist = s.gist) {input : Text}
    (hzero : 0 ∉ input)
    (hruns : ∀ r ∈ runs s .new (pieces input), (r.1.runFragment r.2).2 = .success) :
    (s₀.runFragment input).2 = .success ∧
      (s₀.runFragment input).1.gist = (run s input).gist := by
  have hpieces : ∀ piece ∈ pieces input, 0 ∉ piece := by
    intro piece hpiece hmem
    apply hzero
    rw [← flatten_pieces input]
    exact List.mem_flatten.2 ⟨piece, hpiece, hmem⟩
  obtain ⟨hstart, hgist⟩ := s₀.runFragment_nil
  have hconverse := gist_converse hpieces (.inl rfl) hstart (hgist.trans hsame) hruns
  rwa [Collector.new, List.append_nil, List.nil_append, flatten_pieces] at hconverse

end Shell

/-! ### The program -/

/-- The number that the event shows. -/
def Event.shown? : Event → Option Int64
  | .shown n => some n
  | _ => none

/-- The numbers that the program has shown, in order. -/
def Ending.shown {Files : Type} (e : Ending Files) : List Int64 :=
  e.events.toList.filterMap Event.shown?

theorem Event.filterMap_shown? (es : List Event) :
    es.filterMap Event.shown? = (es.filter Event.isResult).filterMap Event.shown? := by
  rw [List.filterMap_filter]
  apply List.filterMap_congr
  intro e _
  cases e <;> rfl

theorem Event.filterMap_map_shown (shown : List Int64) :
    (shown.map Event.shown).filterMap Event.shown? = shown := by
  rw [List.filterMap_map]
  exact List.filterMap_some

theorem Event.flatMap_complaint (origin : Notice.Site → Notice.Origin) (es : List Event) :
    es.flatMap (Event.complaint origin) =
      (es.filter Event.isResult).flatMap (Event.complaint origin) := by
  induction es with
  | nil => rfl
  | cons e es ih =>
      rw [List.flatMap_cons, ih]
      cases e <;> rfl

namespace Console

section

variable {Files : Type} [FileSystem Files]

theorem events_save (o : Options) (files : Files) (failed : Bool) (s : Session) :
    (save o files failed s).events.toList = s.events.toList ++ .saving o.output ::
      (written files o.output s.canvas.bitmap).2.toList.map Event.notice := by
  simp [save]

/-- Saving shows nothing. -/
theorem shown_save (o : Options) (files : Files) (failed : Bool) (s : Session) :
    (save o files failed s).shown = s.gist.told.filterMap Event.shown? := by
  rw [Session.gist, ← Event.filterMap_shown?, Ending.shown, events_save, List.filterMap_append]
  cases (written files o.output s.canvas.bitmap).2 <;> simp [Event.shown?]

/-- Saving tells no fault. -/
theorem mem_fault_save_iff (o : Options) (files : Files) (failed : Bool) (s : Session)
    (f : Fault) : .fault f ∈ (save o files failed s).events ↔ .fault f ∈ s.gist.told := by
  rw [Session.mem_told_iff rfl, ← Array.mem_toList_iff, events_save]
  simp

/-- Sessions that have come to the same are saved alike. -/
theorem save_of_gist {o o' : Options} (houtput : o'.output = o.output) {s s' : Session}
    (hgist : s'.gist = s.gist) (files : Files) (failed : Bool) :
    let e := save o files failed s
    let e' := save o' files failed s'
    e'.code = e.code ∧ e'.files = e.files ∧ e'.shown = e.shown ∧ e'.complaints = e.complaints := by
  intro e e'
  have hcanvas : s'.canvas = s.canvas := congrArg Gist.canvas hgist
  have htold : s'.events.toList.filter Event.isResult = s.events.toList.filter Event.isResult :=
    congrArg Gist.told hgist
  refine ⟨?_, ?_, ?_, ?_⟩
  · simp only [e, e', save, houtput, hcanvas]
  · simp only [e, e', save, houtput, hcanvas]
  · rw [shown_save, shown_save, hgist]
  · funext origin
    rw [Ending.complaints, Ending.complaints, events_save, events_save, houtput, hcanvas,
      List.flatMap_append, List.flatMap_append, Event.flatMap_complaint origin s'.events.toList,
      htold, ← Event.flatMap_complaint]

end

/-- What a source comes to that succeeds in a new session. -/
theorem gist_new_of_success [Circle] {o : Options} {source : Text}
    (h : ((Session.new o).runFragment source).2 = .success) :
    let r := (Interpreter.new o.limit).run source
    let script := ((Session.new o).runFragment source).1
    r.fault = none ∧
      script.canvas = r.instructions.toList.foldl Canvas.execute (.blank o.width o.height) ∧
      script.gist.told = (r.instructions.toList.filterMap Instruction.shown?).map Event.shown := by
  intro r script
  obtain ⟨hexited, hfault⟩ := Session.runFragment_success_iff.1 h
  obtain ⟨hcanvas, hshown⟩ := Replay.of_eq_of_stays hexited
  have hgist := Session.gist_runFragment h
  refine ⟨hfault, (congrArg Gist.canvas hgist).trans hcanvas, ?_⟩
  rw [congrArg Gist.told hgist, hshown]
  rfl

/-- A text without zero bytes that is typed into the shell draws the same as a
script, shows the same numbers and ends with the same code, if the shell tells no
fault and no fragment ends it. The script then succeeds as well, and the picture of
both is a blank canvas on which its instructions were executed. If the picture can be
written, then both end with the code 0, and it is read at the path of the output. Of
the options only those may differ that are about the shell and about listings. -/
theorem script_like_shell [Circle] {Files : Type} [FileSystem Files] {words words' : List Text}
    {o : Options} {debug : Bool} {path input : Text} {files : Files}
    (hshell : Options.read words = .ok o)
    (hscript : Options.read words' =
      .ok { o with script := some path, interactive := false, debug })
    (hnone : o.script = none) (hhelp : o.help = false)
    (hfile : FileSystem.read files path = .ok input)
    (hzero : 0 ∉ input) (hquiet : ∀ f, Event.fault f ∉ (run words files input).events)
    (hexit : ∀ r ∈ Shell.runs (.new o) .new (Shell.pieces input),
      (r.1.runFragment r.2).2 ≠ .exit) (stdin : Text) :
    let shell := run words files input
    let script := run words' files stdin
    let r := (Interpreter.new o.limit).run input
    let picture := r.instructions.toList.foldl Canvas.execute (.blank o.width o.height)
    (script.code = shell.code ∧ script.files = shell.files ∧ script.shown = shell.shown ∧
      script.complaints = shell.complaints ∧ ∀ f, Event.fault f ∉ script.events) ∧
      (r.fault = none ∧ script.shown = r.instructions.toList.filterMap Instruction.shown?) ∧
      (FileSystem.fits o.output = true →
        let stored := FileSystem.write files o.output picture.bitmap
        (shell.files = stored.1 ∧ script.files = stored.1) ∧
          (stored.2 = none → (shell.code = 0 ∧ script.code = 0) ∧
            FileSystem.read shell.files o.output = .ok picture.bitmap ∧
            FileSystem.read script.files o.output = .ok picture.bitmap)) := by
  intro shell script r picture
  let o' : Options := { o with script := some path, interactive := false, debug }
  have hshellRun : shell = save o files false (Shell.run (.new o) input) :=
    (run_of_read hshell files input).trans (run_of_none hhelp hnone files input)
  have hquiet' : ∀ f, .fault f ∉ (Shell.run (.new o) input).events := by
    intro f hf
    apply hquiet f
    change _ ∈ shell.events
    rw [hshellRun, mem_fault_save_iff, Session.mem_told_iff rfl]
    exact hf
  have hruns := Shell.success_of_runs hquiet' hexit
  have hsame : (Session.new o').gist = (Session.new o).gist := rfl
  obtain ⟨hsuccess, hgist⟩ := Shell.gist_run hsame hzero hruns
  obtain ⟨hfault, hcanvas, htold⟩ := gist_new_of_success hsuccess
  have hscriptRun : script = save o' files false ((Session.new o').runFragment input).1 :=
    run_of_success hscript hhelp rfl rfl hfile hsuccess stdin
  obtain ⟨hcode, hfiles, hshown, hcomplaints⟩ :=
    save_of_gist (show o'.output = o.output from rfl) hgist files false
  rw [← hshellRun, ← hscriptRun] at hcode hfiles hshown hcomplaints
  have hfaults : ∀ f, Event.fault f ∉ script.events := by
    intro f hf
    rw [hscriptRun, mem_fault_save_iff, hgist, Session.mem_told_iff rfl] at hf
    exact hquiet' f hf
  have hresults : script.shown = r.instructions.toList.filterMap Instruction.shown? := by
    rw [hscriptRun, shown_save, htold, Event.filterMap_map_shown]
  refine ⟨⟨hcode, hfiles, hshown, hcomplaints, hfaults⟩, ⟨hfault, hresults⟩, ?_⟩
  intro hfits stored
  obtain ⟨hstored, hwritten⟩ := save_of_canvas (show FileSystem.fits o'.output = true from hfits)
    (show _ = picture from hcanvas) files false
  rw [← hscriptRun] at hstored hwritten
  refine ⟨⟨hfiles ▸ hstored, hstored⟩, ?_⟩
  intro hwrite
  obtain ⟨hread, hsucceeds, -⟩ := hwritten hwrite
  exact ⟨⟨hcode.symm.trans hsucceeds, hsucceeds⟩, hfiles ▸ hread, hread⟩

/-- A loop that is typed in three lines and goes on with a color for the screen,
and a last line without an end. -/
theorem script_like_shell_loop :
    let size := [ascii "-W", ascii "1", ascii "-H", ascii "1"]
    let input := ascii "repeat 2 [\nmake \"n 3\n] setsc 9 :n 7 show :n\nshow 4"
    let files : Directory := [(ascii "draw", input)]
    let shell := run size files input
    let script := run (size ++ [ascii "draw"]) files []
    let painted : Color := ⟨9, 3, 7⟩
    let picture : Canvas := { Canvas.blank 1 1 with background := painted, pixels := #[painted] }
    (Shell.runs (.new { width := 1, height := 1 }) .new (Shell.pieces input)).map Prod.snd =
        [ascii "repeat 2 [\nmake \"n 3\n] setsc 9 :n 7 show :n\n", ascii "show 4"] ∧
      script.shown = [3, 4] ∧ shell.shown = [3, 4] ∧ script.files = shell.files ∧
      script.code = 0 ∧ shell.code = 0 ∧
      shell.files.read (ascii "tlogo.bmp") = .ok picture.bitmap := by
  intro size input files shell script painted picture
  let o : Options := { width := 1, height := 1 }
  have hshell : Options.read size = .ok o := by
    decide +kernel
  have hscript : Options.read (size ++ [ascii "draw"]) =
      .ok { o with script := some (ascii "draw"), interactive := false, debug := false } := by
    decide +kernel
  have hfile : files.read (ascii "draw") = .ok input := by
    decide +kernel
  have hquiet : ∀ f, Event.fault f ∉ shell.events := by
    have hkinds : ∀ e ∈ shell.events, e.isResult = true → e.shown?.isSome = true := by
      decide +kernel
    intro f hf
    cases hkinds _ hf rfl
  have hexit : ∀ r ∈ Shell.runs (.new o) .new (Shell.pieces input),
      (r.1.runFragment r.2).2 ≠ .exit := by
    decide +kernel
  obtain ⟨⟨hcode, hfiles, hshown, -, -⟩, ⟨-, hresults⟩, hstored⟩ :=
    script_like_shell hshell hscript rfl rfl hfile (by decide) hquiet hexit []
  obtain ⟨-, hwritten⟩ := hstored (by decide +kernel)
  obtain ⟨⟨hzero, hzero'⟩, hread, -⟩ := hwritten (by decide +kernel)
  have hnumbers : script.shown = [3, 4] := hresults.trans (by decide +kernel)
  refine ⟨by decide +kernel, hnumbers, hshown.symm.trans hnumbers, hfiles, hzero', hzero, ?_⟩
  refine hread.trans (congrArg Except.ok ?_)
  decide +kernel

end Console

end Turtle
