import Mathlib.Tactic.Conv
import Mathlib.Tactic.SplitIfs
import Turtle.Console.Session

/-!
Replayed instructions.

What a replay comes to follows from the instructions up to the first one that ends
the program. The canvas is the one on which just these were executed, in a row, and
the numbers they show are shown. A replay of two lists in a row is that of the first
one and then that of the second, unless the first one ends the program.
-/

namespace Turtle

/-! ### Instructions up to an exit -/

/-- The instructions up to the first one that ends the program, this one
included. -/
def untilExit : List Instruction → List Instruction
  | [] => []
  | i :: is => if i.exits then [i] else i :: untilExit is

section

variable {is : List Instruction}

theorem untilExit_append (h : is.any Instruction.exits = false) (is' : List Instruction) :
    untilExit (is ++ is') = is ++ untilExit is' := by
  induction is with
  | nil => rfl
  | cons i is ih =>
      obtain ⟨hi, hrest⟩ := Bool.or_eq_false_iff.1 ((List.any_cons ..).symm.trans h)
      rw [List.cons_append, untilExit, hi, ih hrest]
      rfl

theorem untilExit_eq_self (h : is.any Instruction.exits = false) : untilExit is = is := by
  simpa [untilExit] using untilExit_append h []

end

namespace Replay

variable [Circle]

/-! ### What a replay comes to -/

theorem canvas_play (r : Replay) (is : List Instruction) :
    (r.play is).canvas = (untilExit is).foldl Canvas.execute r.canvas := by
  induction is generalizing r with
  | nil => rfl
  | cons i is ih =>
      rw [play, untilExit]
      split_ifs
      · rfl
      · rw [ih]
        rfl

theorem exited_play {r : Replay} (h : r.exited = false) (is : List Instruction) :
    (r.play is).exited = is.any Instruction.exits := by
  induction is generalizing r with
  | nil => exact h
  | cons i is ih =>
      rw [play, List.any_cons]
      cases hi : i.exits with
      | true => exact hi
      | false => exact ih hi

theorem shown_play (r : Replay) (is : List Instruction) :
    (r.play is).shown.reverse =
      r.shown.reverse ++ (untilExit is).filterMap Instruction.shown? := by
  have hstep : ∀ (r : Replay) (i : Instruction), (r.step i).shown.reverse =
      r.shown.reverse ++ i.shown?.toList := by
    intro r i
    rw [step, List.reverse_append]
    cases i.shown? <;> rfl
  induction is generalizing r with
  | nil => simp [play, untilExit]
  | cons i is ih =>
      have hfirst : ∀ is, (i :: is).filterMap Instruction.shown? =
          i.shown?.toList ++ is.filterMap Instruction.shown? := by
        intro is
        rw [List.filterMap_cons]
        cases i.shown? <;> rfl
      rw [play, untilExit]
      split_ifs
      · rw [hstep, hfirst, List.filterMap_nil, List.append_nil]
      · rw [ih, hstep, hfirst, List.append_assoc]

/-- Instructions that do not end the program are all executed. -/
theorem of_eq_of_stays {canvas : Canvas} {is : List Instruction}
    (h : (of canvas is).exited = false) :
    (of canvas is).canvas = is.foldl Canvas.execute canvas ∧
      (of canvas is).shown.reverse = is.filterMap Instruction.shown? := by
  have hstays : is.any Instruction.exits = false := (exited_play rfl is).symm.trans h
  have hcanvas := canvas_play (start canvas) is
  have hshown := shown_play (start canvas) is
  rw [untilExit_eq_self hstays] at hcanvas hshown
  exact ⟨hcanvas, hshown⟩

/-! ### Two lists in a row -/

/-- The replay of later instructions: others were applied before them. -/
def behind (r : Replay) (executed : Nat) (shown : List Int64) : Replay :=
  ⟨r.canvas, executed + r.executed, r.shown ++ shown, r.exited⟩

theorem play_behind (r : Replay) (executed : Nat) (shown : List Int64) (is : List Instruction) :
    (r.behind executed shown).play is = (r.play is).behind executed shown := by
  induction is generalizing r with
  | nil => rfl
  | cons i is ih =>
      have hstep : (r.behind executed shown).step i = (r.step i).behind executed shown := by
        simp [step, behind, Nat.add_assoc]
      rw [play, play, hstep, ih]
      split_ifs <;> rfl

theorem play_append {r : Replay} {is : List Instruction} (h : (r.play is).exited = false)
    (is' : List Instruction) : r.play (is ++ is') = (r.play is).play is' := by
  induction is generalizing r with
  | nil => rfl
  | cons i is ih =>
      rw [play] at h
      rw [List.cons_append, play, play]
      split_ifs at h ⊢ with hexits
      · rw [step, hexits] at h
        cases h
      · exact ih h

/-- Instructions that do not end the program can be applied before the others. -/
theorem of_append {canvas : Canvas} {is : List Instruction} (h : (of canvas is).exited = false)
    (is' : List Instruction) :
    of canvas (is ++ is') =
      (of (of canvas is).canvas is').behind (of canvas is).executed (of canvas is).shown := by
  have hstart : of canvas is =
      (start (of canvas is).canvas).behind (of canvas is).executed (of canvas is).shown := by
    rw [start, behind, List.nil_append, Nat.add_zero, ← h]
  conv_lhs => rw [of, play_append h, ← of, hstart]
  exact play_behind ..

end Replay

end Turtle
