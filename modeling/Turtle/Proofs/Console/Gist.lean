import Turtle.Proofs.Console.Replay
import Turtle.Proofs.Evaluation.Fragments
import Turtle.Proofs.Grammar.Failure

/-!
What a session comes to.

A fragment that stands behind another one can be run together with it, or on
its own. As long as nothing fails, the results are the same: the statements of
both are parsed and run in a row, and a canvas on which one list of
instructions is executed after the other is the one on which they are executed
together.

What does differ are the lines that the procedures remember, and what is told
besides the results: the prompts and the listings of the debug option. The gist
of a session leaves these out. A fragment that succeeds does the same in every
session of the same gist.
-/

namespace Turtle

/-! ### Runs without lines -/

/-- Forgets a line. -/
def noLine (_ : Nat) : Nat := 0

/-- Environments that differ in lines only run the same statements alike, also
if these have other lines and come behind other instructions. -/
theorem run_noLine {env env' : Environment} (h : env'.relabel noLine = env.relabel noLine)
    (φ : Nat → Nat) (earlier : Array Instruction) (limit : Nat) (ss : List Statement) :
    let o := run limit ss ⟨env, #[]⟩
    let o' := run limit (ss.map (Statement.relabel φ)) ⟨env', earlier⟩
    o'.1.environment.relabel noLine = o.1.environment.relabel noLine ∧
      o'.1.emitted = earlier ++ o.1.emitted ∧ o'.2.isSome = o.2.isSome := by
  intro o o'
  obtain ⟨hbehind, hfault⟩ := run_behind noLine earlier limit ss env #[]
  obtain ⟨hbehind', hfault'⟩ :=
    run_behind noLine #[] limit (ss.map (Statement.relabel φ)) env' earlier
  rw [Array.empty_append, Statement.map_relabel_relabel, h] at hbehind' hfault'
  rw [Array.append_empty] at hbehind hfault
  refine ⟨hbehind'.environment.symm.trans hbehind.environment, ?_, ?_⟩
  · have hemitted := hbehind'.emitted.symm.trans hbehind.emitted
    rwa [Array.empty_append] at hemitted
  · have hsome := congrArg Option.isSome (hfault'.symm.trans hfault)
    simpa using hsome

/-- A text to which lines can be added. -/
def LineEnded (t : Text) : Prop :=
  t = [] ∨ ∃ a, t = a ++ [Text.newline]

theorem parseSource_nil : parseSource [] = .ok [] := by
  rw [parseSource, lex, Lexer.lexFrom_nil]
  rfl

theorem LineEnded.exists_parse {t b : Text} (h : LineEnded t) {ss sb : List Statement}
    (ht : parseSource t = .ok ss) (hb : parseSource b = .ok sb) :
    ∃ φ, parseSource (t ++ b) = .ok (ss ++ sb.map (Statement.relabel φ)) := by
  rcases h with rfl | ⟨a, rfl⟩
  · rw [parseSource_nil] at ht
    cases ht
    exact ⟨id, by rw [Statement.map_relabel_id, List.nil_append, List.nil_append, hb]⟩
  · rw [List.append_assoc]
    exact ⟨_, parseSource_append_newline (parseSource_of_append_newline ht) hb⟩

namespace Interpreter

/-- Forgets the lines of the procedures. -/
def noLines (i : Interpreter) : Interpreter :=
  { i with environment := i.environment.relabel noLine }

theorem exists_parse_of_run {i : Interpreter} {source : Text} (h : (i.run source).fault = none) :
    ∃ ss, parseSource source = .ok ss := by
  cases hparse : parseSource source with
  | ok ss => exact ⟨ss, rfl⟩
  | error f =>
      rw [run, hparse] at h
      cases h

/-- A source does behind another one what it does on its own, if the interpreter
is the same up to lines. -/
theorem run_append_of_noLines {i j : Interpreter} {t b : Text} (ht : LineEnded t)
    (hfirst : (i.run t).fault = none) (hlike : (i.run t).interpreter.noLines = j.noLines)
    (hsecond : (j.run b).fault = none) :
    (i.run (t ++ b)).fault = none ∧
      (i.run (t ++ b)).instructions = (i.run t).instructions ++ (j.run b).instructions ∧
      (i.run (t ++ b)).interpreter.noLines = (j.run b).interpreter.noLines := by
  obtain ⟨ss, hss⟩ := exists_parse_of_run hfirst
  obtain ⟨sb, hsb⟩ := exists_parse_of_run hsecond
  obtain ⟨φ, hparse⟩ := ht.exists_parse hss hsb
  rw [i.run_of_parse hss] at hfirst hlike ⊢
  rw [j.run_of_parse hsb] at hsecond ⊢
  cases hout : Turtle.run i.limit ss ⟨i.environment, #[]⟩ with
  | mk m fault =>
      simp only [hout] at hfirst hlike hsecond ⊢
      subst hfirst
      have hlimit : j.limit = i.limit := (congrArg Interpreter.limit hlike).symm
      have henvironment : m.environment.relabel noLine = j.environment.relabel noLine :=
        congrArg environment hlike
      have hwhole : i.run (t ++ b) =
          let o := Turtle.run i.limit (sb.map (Statement.relabel φ)) m
          ⟨{ i with environment := o.1.environment }, o.1.emitted, o.2⟩ := by
        rw [i.run_of_parse hparse, run_append, hout]
      obtain ⟨hend, hemitted, hfault⟩ := run_noLine henvironment φ m.emitted i.limit sb
      rw [hlimit] at hsecond ⊢
      rw [hsecond, Option.isSome_none, Option.isSome_eq_false_iff, Option.isNone_iff_eq_none]
        at hfault
      rw [hwhole]
      exact ⟨hfault, hemitted, congrArg (Interpreter.mk i.limit) hend⟩

end Interpreter

/-! ### Gists -/

/-- Whether the event tells a result or a failure. The others come with the
dialogue or from the debug option. -/
def Event.isResult : Event → Bool
  | .shown _ | .fault _ | .notice _ => true
  | _ => false

theorem Event.filter_shown {p : Event → Bool} (h : ∀ n, p (.shown n) = true)
    (shown : List Int64) : (shown.map Event.shown).filter p = shown.map Event.shown := by
  rw [List.filter_eq_self]
  intro e he
  obtain ⟨n, -, rfl⟩ := List.mem_map.1 he
  exact h n

/-- What a session comes to, when lines are left out, and all that is told
besides the results. -/
structure Gist where
  interpreter : Interpreter
  canvas : Canvas
  told : List Event

def Session.gist (s : Session) : Gist :=
  ⟨s.interpreter.noLines, s.canvas, s.events.toList.filter Event.isResult⟩

namespace Session

theorem gist_tell (s : Session) {e : Event} (h : e.isResult = false) : (s.tell e).gist = s.gist := by
  simp [gist, tell, h]

theorem mem_told_iff {s : Session} {e : Event} (h : e.isResult = true) :
    e ∈ s.gist.told ↔ e ∈ s.events := by
  simp [gist, h]

variable [Circle] {s : Session} {source : Text}

/-- The session in which the fragment has been run and its instructions have
been replayed. -/
def played (s : Session) (source : Text) : Session :=
  let r := s.interpreter.run source
  let replay := Replay.of s.canvas r.instructions.toList
  { s with
    interpreter := r.interpreter
    canvas := replay.canvas
    events := (if s.debug then s.events.push (.listing (listing source r)) else s.events) ++
      replay.shown.reverse.map Event.shown }

/-- What remains is to tell the fault. -/
theorem runFragment_eq (s : Session) (source : Text) :
    s.runFragment source =
      if (Replay.of s.canvas (s.interpreter.run source).instructions.toList).exited then
        (s.played source, .exit)
      else
        match (s.interpreter.run source).fault with
        | some f => ((s.played source).tell (.fault f), .failure)
        | none => (s.played source, .success) := rfl

theorem runFragment_success_iff :
    (s.runFragment source).2 = .success ↔
      (Replay.of s.canvas (s.interpreter.run source).instructions.toList).exited = false ∧
        (s.interpreter.run source).fault = none := by
  rw [runFragment_eq]
  split_ifs with hexited
  · simp [hexited]
  · cases (s.interpreter.run source).fault <;> simp [hexited]

/-- The replay of a fragment tells what it shows. -/
theorem told_played (s : Session) (source : Text) :
    (s.played source).gist.told = s.gist.told ++
      (Replay.of s.canvas (s.interpreter.run source).instructions.toList).shown.reverse.map
        Event.shown := by
  simp only [gist, played]
  rw [Array.toList_appendList, List.filter_append, Event.filter_shown fun _ => rfl]
  split_ifs
  · simp [Event.isResult]
  · rfl

/-- A fragment that succeeds tells what it shows. -/
theorem gist_runFragment (h : (s.runFragment source).2 = .success) :
    let r := s.interpreter.run source
    let replay := Replay.of s.canvas r.instructions.toList
    (s.runFragment source).1.gist =
      ⟨r.interpreter.noLines, replay.canvas,
        s.gist.told ++ replay.shown.reverse.map Event.shown⟩ := by
  intro r replay
  obtain ⟨hexited, hfault⟩ := runFragment_success_iff.1 h
  have hplayed : (s.runFragment source).1 = s.played source := by
    rw [runFragment_eq, hexited, hfault]
    rfl
  rw [hplayed]
  exact congrArg (Gist.mk r.interpreter.noLines replay.canvas) (s.told_played source)

/-- A fragment does behind another one what it does in a session that has come
to the same as that one. -/
theorem runFragment_append {s s' : Session} {t b : Text} (ht : LineEnded t)
    (hfirst : (s.runFragment t).2 = .success) (hgist : (s.runFragment t).1.gist = s'.gist)
    (hsecond : (s'.runFragment b).2 = .success) :
    (s.runFragment (t ++ b)).2 = .success ∧
      (s.runFragment (t ++ b)).1.gist = (s'.runFragment b).1.gist := by
  have hgist' := hgist
  rw [gist_runFragment hfirst] at hgist'
  obtain ⟨hexited, hfault⟩ := runFragment_success_iff.1 hfirst
  obtain ⟨hexited', hfault'⟩ := runFragment_success_iff.1 hsecond
  have hlike : (s.interpreter.run t).interpreter.noLines = s'.interpreter.noLines :=
    congrArg Gist.interpreter hgist'
  have hcanvas : (Replay.of s.canvas (s.interpreter.run t).instructions.toList).canvas =
      s'.canvas := congrArg Gist.canvas hgist'
  have htold : s.gist.told ++ (Replay.of s.canvas
      (s.interpreter.run t).instructions.toList).shown.reverse.map Event.shown = s'.gist.told :=
    congrArg Gist.told hgist'
  obtain ⟨hrun, hinstructions, hinterpreter⟩ :=
    Interpreter.run_append_of_noLines ht hfault hlike hfault'
  have hreplay := Replay.of_append hexited (s'.interpreter.run b).instructions.toList
  rw [hcanvas, ← Array.toList_append, ← hinstructions] at hreplay
  have hsuccess : (s.runFragment (t ++ b)).2 = .success := by
    rw [runFragment_success_iff, hreplay]
    exact ⟨hexited', hrun⟩
  refine ⟨hsuccess, ?_⟩
  rw [gist_runFragment hsuccess, gist_runFragment hsecond, hinterpreter, hreplay, ← htold]
  simp [Replay.behind]

/-- Nothing happens in a fragment without text. -/
theorem runFragment_nil (s : Session) :
    (s.runFragment []).2 = .success ∧ (s.runFragment []).1.gist = s.gist := by
  have hrun : s.interpreter.run [] = ⟨s.interpreter, #[], none⟩ := by
    rw [s.interpreter.run_of_parse parseSource_nil, run_nil]
    rfl
  have hsuccess : (s.runFragment []).2 = .success := by
    rw [runFragment_success_iff, hrun]
    exact ⟨rfl, rfl⟩
  refine ⟨hsuccess, ?_⟩
  rw [gist_runFragment hsuccess, hrun]
  simp [gist, Replay.of, Replay.play, Replay.start]

end Session

end Turtle
