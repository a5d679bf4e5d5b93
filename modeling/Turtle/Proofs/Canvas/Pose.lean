import Turtle.Number.Series
import Turtle.Proofs.Canvas.Stroke
import Turtle.Proofs.Console.Replay

/-!
The path of the turtle.

Where the turtle is and where it looks follows from where it was and the
instructions alone: what is drawn on the way, with which pen and on which canvas,
has no influence. The other way round, whether the turtle can be seen has no
influence on what is drawn, so that an instruction that only hides or shows it, or
shows a number, can be left out.
-/

namespace Turtle

/-! ### Poses -/

/-- Where the turtle is and where it looks. -/
structure Pose where
  x : Rat
  y : Rat
  heading : Rat
  deriving DecidableEq

namespace Pose

def advance [Circle] (p : Pose) (steps : Rat) : Pose :=
  let angle := Circle.radians p.heading
  { p with
    x := Canvas.snap (Binary64.add p.x (Binary64.mul (Circle.sine angle) steps))
    y := Canvas.snap (Binary64.add p.y (Binary64.mul (Circle.cosine angle) steps)) }

/-- The pose after an instruction, told without a canvas. -/
def after [Circle] (p : Pose) (i : Instruction) : Pose :=
  let number := Binary64.ofInt64 (i.argument 0)
  match i.command with
  | .forward => p.advance number
  | .backward => p.advance (-number)
  | .left => { p with heading := Canvas.normalize (Binary64.sub p.heading number) }
  | .right => { p with heading := Canvas.normalize (Binary64.add p.heading number) }
  | .setHeading => { p with heading := Canvas.normalize number }
  | .setXY => { p with x := number, y := Binary64.ofInt64 (i.argument 1) }
  | .home | .clearScreen => ⟨0, 0, 0⟩
  | _ => p

end Pose

/-! ### Commands that matter to the eye only -/

/-- The commands that hide the turtle, make it visible again, or show a number. -/
def Command.silent : Command → Bool
  | .hideTurtle | .showTurtle | .print => true
  | _ => false

/-- The commands that take the turtle to another place. -/
def Command.moves : Command → Bool
  | .forward | .backward | .setXY | .home => true
  | _ => false

/-- The second list arises from the first one by leaving out silent instructions,
all of them or only some. -/
inductive Trimmed : List Instruction → List Instruction → Prop
  | nil : Trimmed [] []
  | keep {is is' : List Instruction} (i : Instruction) (h : Trimmed is is') :
      Trimmed (i :: is) (i :: is')
  | drop {is is' : List Instruction} {i : Instruction} (hi : i.command.silent = true)
      (h : Trimmed is is') : Trimmed (i :: is) is'

/-- No silent instruction ends the program. -/
theorem Trimmed.untilExit {is is' : List Instruction} (h : Trimmed is is') :
    Trimmed (untilExit is) (untilExit is') := by
  induction h with
  | nil => exact .nil
  | keep i _ ih =>
      rw [Turtle.untilExit, Turtle.untilExit]
      split_ifs
      · exact .keep i .nil
      · exact .keep i ih
  | @drop _ _ i hi _ ih =>
      have hstays : i.exits = false := by
        rw [Instruction.exits, beq_eq_false_iff_ne]
        rintro hexit
        rw [hexit] at hi
        exact Bool.false_ne_true hi
      rw [Turtle.untilExit, hstays]
      exact .drop hi ih

namespace Canvas

variable {c c' : Canvas}

def pose (c : Canvas) : Pose :=
  ⟨c.x, c.y, c.heading⟩

/-! ### One instruction -/

/-- Where a line is drawn, the heading stays. -/
theorem pose_moveTo (c : Canvas) (x y : Rat) : (c.moveTo x y).pose = { c.pose with x, y } := by
  rw [moveTo]
  split_ifs <;> rfl

theorem pose_fillRegion (c : Canvas) : c.fillRegion.pose = c.pose := by
  obtain ⟨pixels, hfilled, -⟩ := fillRegion_eq c
  rw [hfilled]
  rfl

/-- The pose after an instruction depends on the pose before, and on nothing else
of the canvas. -/
theorem pose_execute [Circle] (c : Canvas) (i : Instruction) :
    (c.execute i).pose = c.pose.after i := by
  cases hcommand : i.command <;> simp only [execute, Pose.after, hcommand]
  case forward | backward | setXY => exact pose_moveTo ..
  case fill => exact pose_fillRegion c
  all_goals rfl

/-- A turtle whose pen is up moves without a trace. -/
theorem pixels_execute_of_penUp [Circle] (hpen : c.penDown = false) {i : Instruction}
    (hi : i.command.moves = true) : (c.execute i).pixels = c.pixels := by
  have hmove : ∀ x y, (c.moveTo x y).pixels = c.pixels := by
    intro x y
    rw [moveTo, hpen]
    rfl
  cases hcommand : i.command <;> simp only [hcommand, Command.moves, Bool.false_eq_true] at hi
  all_goals
    simp only [execute, hcommand]
    exact hmove _ _

/-! ### Canvases that differ in the turtle's visibility -/

/-- The canvases are the same, apart from whether the turtle is visible. -/
def Alike (c c' : Canvas) : Prop :=
  ∃ visible, c' = { c with visible }

theorem Alike.refl (c : Canvas) : c.Alike c :=
  ⟨c.visible, rfl⟩

theorem Alike.moveTo (h : c.Alike c') (x y : Rat) : (c.moveTo x y).Alike (c'.moveTo x y) := by
  obtain ⟨visible, rfl⟩ := h
  refine ⟨visible, ?_⟩
  rw [Canvas.moveTo, Canvas.moveTo]
  split_ifs <;> rfl

theorem Alike.fillRegion (h : c.Alike c') : c.fillRegion.Alike c'.fillRegion := by
  obtain ⟨visible, rfl⟩ := h
  refine ⟨visible, ?_⟩
  have hsame : { c with visible }.pixelUnderTurtle? = c.pixelUnderTurtle? := rfl
  cases hunder : c.pixelUnderTurtle? with
  | none => rw [fillRegion_of_same (.inl hunder), fillRegion_of_same (.inl (hsame.trans hunder))]
  | some found =>
      by_cases differ : c.fill = found
      · rw [← differ] at hunder
        rw [fillRegion_of_same (.inr hunder), fillRegion_of_same (.inr (hsame.trans hunder))]
      · rw [fillRegion_of_differ hunder differ,
          fillRegion_of_differ (hsame.trans hunder) differ]
        rfl

section

variable [Circle]

theorem Alike.execute (h : c.Alike c') (i : Instruction) : (c.execute i).Alike (c'.execute i) := by
  cases hcommand : i.command <;> simp only [Canvas.execute, hcommand]
  case forward | backward =>
    obtain ⟨visible, rfl⟩ := h
    exact Alike.moveTo ⟨visible, rfl⟩ _ _
  case setXY => exact h.moveTo _ _
  case fill => exact h.fillRegion
  case home =>
    obtain ⟨visible, hmoved⟩ := h.moveTo 0 0
    exact ⟨visible, by rw [hmoved]⟩
  all_goals
    obtain ⟨visible, rfl⟩ := h
    exact ⟨_, rfl⟩

theorem Alike.execute_left (h : c.Alike c') {i : Instruction} (hi : i.command.silent = true) :
    (c.execute i).Alike c' := by
  obtain ⟨visible, rfl⟩ := h
  cases hcommand : i.command <;> simp only [hcommand, Command.silent, Bool.false_eq_true] at hi
  all_goals
    simp only [Canvas.execute, hcommand]
    exact ⟨visible, rfl⟩

/-! ### A whole run -/

theorem pose_foldl_execute (c : Canvas) (is : List Instruction) :
    (is.foldl execute c).pose = is.foldl Pose.after c.pose := by
  induction is generalizing c with
  | nil => rfl
  | cons i is ih => rw [List.foldl_cons, ih, pose_execute, List.foldl_cons]

theorem Alike.foldl_execute (h : c.Alike c') {is is' : List Instruction}
    (htrimmed : Trimmed is is') :
    (is.foldl Canvas.execute c).Alike (is'.foldl Canvas.execute c') := by
  induction htrimmed generalizing c c' with
  | nil => exact h
  | keep i _ ih => exact ih (h.execute i)
  | drop hi _ ih => exact ih (h.execute_left hi)

/-- Two turtles in the same pose are in the same pose after each of the same
instructions, whatever their canvases look like otherwise; and so they are when the
instructions are played up to the first one that ends the program. If silent
instructions are left out, the same canvas comes about, but for the visibility of
the turtle. And a turtle with its pen up changes no pixel by moving. -/
theorem path_of_pose :
    (∀ c c' : Canvas, c.pose = c'.pose → ∀ (is : List Instruction) (k : Nat),
      ((is.take k).foldl execute c).pose = ((is.take k).foldl execute c').pose ∧
        (Replay.of c (is.take k)).canvas.pose = (Replay.of c' (is.take k)).canvas.pose) ∧
    (∀ is is' : List Instruction, Trimmed is is' → ∀ c : Canvas,
      (∃ visible, is'.foldl execute c = { is.foldl execute c with visible }) ∧
        ∃ visible, (Replay.of c is').canvas = { (Replay.of c is).canvas with visible }) ∧
    ∀ (c : Canvas) (i : Instruction), c.penDown = false → i.command.moves = true →
      (c.execute i).pixels = c.pixels := by
  refine ⟨?path, ?trim, ?up⟩
  case path =>
    intro c c' hpose is k
    have hfold : ∀ is : List Instruction,
        (is.foldl execute c).pose = (is.foldl execute c').pose := by
      intro is
      rw [pose_foldl_execute, pose_foldl_execute, hpose]
    refine ⟨hfold _, ?_⟩
    rw [Replay.of, Replay.of, Replay.canvas_play, Replay.canvas_play]
    exact hfold _
  case trim =>
    intro is is' htrimmed c
    refine ⟨(Alike.refl c).foldl_execute htrimmed, ?_⟩
    rw [Replay.of, Replay.of, Replay.canvas_play, Replay.canvas_play]
    exact (Alike.refl c).foldl_execute htrimmed.untilExit
  case up =>
    intro c i hpen hi
    exact pixels_execute_of_penUp hpen hi

end

/-- A turtle on a small canvas and one on a large canvas with a thick pen, which is
up. -/
theorem path_of_pose_square :
    let c : Canvas := blank 4 3
    let c' : Canvas := { blank 9 7 with penSize := 5, penDown := false, visible := false }
    let is : List Instruction := [⟨.right, [90]⟩, ⟨.hideTurtle, []⟩, ⟨.forward, [2]⟩,
      ⟨.print, [2]⟩, ⟨.fill, []⟩, ⟨.left, [90]⟩, ⟨.forward, [1]⟩, ⟨.exit, []⟩, ⟨.home, []⟩]
    let is' : List Instruction := [⟨.right, [90]⟩, ⟨.forward, [2]⟩,
      ⟨.print, [2]⟩, ⟨.fill, []⟩, ⟨.left, [90]⟩, ⟨.forward, [1]⟩, ⟨.exit, []⟩, ⟨.home, []⟩]
    (c.pose = c'.pose ∧ Trimmed is is' ∧ c'.penDown = false) ∧
      ((is.take 7).foldl execute c').pose = ⟨2, 1, 0⟩ ∧
      ((is.take 7).foldl execute c).pose = ⟨2, 1, 0⟩ ∧
      (∃ visible, (Replay.of c is').canvas = { (Replay.of c is).canvas with visible }) ∧
      (Replay.of c is).canvas.visible = false ∧ (Replay.of c is').canvas.visible = true ∧
      (c'.execute ⟨.forward, [2]⟩).pixels = c'.pixels := by
  intro c c' is is'
  have htrimmed : Trimmed is is' :=
    .keep _ (.drop rfl (.keep _ (.keep _ (.keep _ (.keep _ (.keep _ (.keep _ (.keep _ .nil))))))))
  obtain ⟨hpath, htrim, hup⟩ := path_of_pose
  have hpose : ((is.take 7).foldl execute c).pose = ⟨2, 1, 0⟩ := by decide +kernel
  refine ⟨⟨rfl, htrimmed, rfl⟩, ?_, hpose, (htrim is is' htrimmed c).2, ?_, ?_, hup c' _ rfl rfl⟩
  · rw [← hpose]
    exact ((hpath c c' rfl is 7).1).symm
  · decide +kernel
  · decide +kernel

end Canvas

end Turtle
