import Mathlib.Tactic.SplitIfs
import Turtle.Canvas.Execute

/-!
The arguments that executing reads.

An instruction does not tell its canvas how many arguments it has, and a missing
one counts as zero. Here the commands are executed with their arguments asked for
one by one. Asked of the instruction, this is how instructions are executed. If it
is asked whether there is such an argument at all, there is no result as soon as
one is missing; and there is a result exactly if the instruction has as many
arguments as its command takes.
-/

namespace Turtle

/-- Executes a command and tells the number it shows, if it shows one. The
arguments are asked for by their places. -/
def Canvas.executeReading [Circle] {M : Type → Type} [Monad M] (c : Canvas) (command : Command)
    (read : Nat → M Int64) : M (Canvas × Option Int64) :=
  match command with
  | .forward => do return (c.advance (Binary64.ofInt64 (← read 0)), none)
  | .backward => do return (c.advance (-Binary64.ofInt64 (← read 0)), none)
  | .left => do return (c.turnTo (Binary64.sub c.heading (Binary64.ofInt64 (← read 0))), none)
  | .right => do return (c.turnTo (Binary64.add c.heading (Binary64.ofInt64 (← read 0))), none)
  | .setHeading => do return (c.turnTo (Binary64.ofInt64 (← read 0)), none)
  | .setXY => do
    return (c.moveTo (Binary64.ofInt64 (← read 0)) (Binary64.ofInt64 (← read 1)), none)
  | .home => return ({ c.moveTo 0 0 with heading := 0 }, none)
  | .penUp => return ({ c with penDown := false }, none)
  | .penDown => return ({ c with penDown := true }, none)
  | .setPenSize => do return ({ c with penSize := penSizeOf (← read 0) }, none)
  | .setPenColor => do
    return ({ c with pen := .ofComponents (← read 0) (← read 1) (← read 2) }, none)
  | .setScreenColor => do
    return (c.setBackground (.ofComponents (← read 0) (← read 1) (← read 2)), none)
  | .setFillColor => do
    return ({ c with fill := .ofComponents (← read 0) (← read 1) (← read 2) }, none)
  | .fill => return (c.fillRegion, none)
  | .hideTurtle => return ({ c with visible := false }, none)
  | .showTurtle => return ({ c with visible := true }, none)
  | .clearScreen => return ({ c.clear with x := 0, y := 0, heading := 0 }, none)
  | .clean => return (c.clear, none)
  | .print => do return (c, some (← read 0))
  | .exit => return (c, none)

theorem Command.arity_le (c : Command) : c.arity ≤ 3 := by
  cases c <;> decide

namespace Instruction

/-- The argument at a place, if there is one. -/
def supplied? (i : Instruction) (place : Nat) : Option Int64 :=
  i.arguments[place]?

/-- The instruction has exactly the arguments that its command takes. -/
def Complete (i : Instruction) : Prop :=
  i.arguments.length = i.command.arity

theorem supplied?_eq_some {i : Instruction} {place : Nat} (h : place < i.arguments.length) :
    i.supplied? place = some (i.argument place) := by
  rw [supplied?, argument, List.getD_eq_getElem?_getD, List.getElem?_eq_getElem h, Option.getD_some]

end Instruction

namespace Canvas

variable [Circle]

section

variable {M : Type → Type} [Monad M] {read read' : Nat → M Int64}

/-- A command reads no other arguments than those it takes. -/
theorem executeReading_congr (c : Canvas) {command : Command}
    (h : ∀ place < command.arity, read place = read' place) :
    c.executeReading command read = c.executeReading command read' := by
  cases command with
  | home | penUp | penDown | fill | hideTurtle | showTurtle | clearScreen | clean | exit => rfl
  | forward | backward | left | right | setHeading | setPenSize | print =>
      simp only [executeReading, h 0 (by decide)]
  | setXY => simp only [executeReading, h 0 (by decide), h 1 (by decide)]
  | setPenColor | setScreenColor | setFillColor =>
      simp only [executeReading, h 0 (by decide), h 1 (by decide), h 2 (by decide)]

end

/-- A command reads all the arguments that it takes. -/
theorem executeReading_eq_none (c : Canvas) {command : Command} {read : Nat → Option Int64}
    {place : Nat} (hplace : place < command.arity) (hread : read place = none) :
    c.executeReading command read = none := by
  cases command with
  | home | penUp | penDown | fill | hideTurtle | showTurtle | clearScreen | clean | exit =>
      exact absurd hplace (Nat.not_lt_zero _)
  | forward | backward | left | right | setHeading | setPenSize | print =>
      obtain rfl : place = 0 := Nat.lt_one_iff.1 hplace
      simp [executeReading, hread]
  -- the arguments before the missing one may be there or not
  | setXY =>
      match place, hplace with
      | 0, _ => simp [executeReading, hread]
      | 1, _ => cases read 0 <;> simp [executeReading, hread]
  | setPenColor | setScreenColor | setFillColor =>
      match place, hplace with
      | 0, _ => simp [executeReading, hread]
      | 1, _ => cases read 0 <;> simp [executeReading, hread]
      | 2, _ => cases read 0 <;> cases read 1 <;> simp [executeReading, hread]

/-- With a zero for every argument that is missing, this is how instructions are
executed. -/
theorem executeReading_argument (c : Canvas) (i : Instruction) :
    (c.executeReading i.command fun place => some (i.argument place)) =
      some (c.execute i, i.shown?) := by
  obtain ⟨command, arguments⟩ := i
  cases command <;> rfl

/-- There is a result exactly if no argument is missing. -/
theorem executeReading_supplied (c : Canvas) (i : Instruction) :
    c.executeReading i.command i.supplied? =
      if i.command.arity ≤ i.arguments.length then some (c.execute i, i.shown?) else none := by
  split_ifs with henough
  · rw [← executeReading_argument]
    apply executeReading_congr
    intro place hplace
    exact i.supplied?_eq_some (Nat.lt_of_lt_of_le hplace henough)
  · apply executeReading_eq_none c (Nat.lt_of_not_le henough)
    exact List.getElem?_eq_none (Nat.le_refl _)

/-- Executes instructions in a row and collects the numbers they show. Nothing comes
of it if an argument is read that an instruction does not have. -/
def executeAll? (c : Canvas) : List Instruction → Option (Canvas × List Int64)
  | [] => some (c, [])
  | i :: is => do
    let (c, shown) ← c.executeReading i.command i.supplied?
    let (c, later) ← c.executeAll? is
    return (c, shown.toList ++ later)

theorem executeAll?_of_complete (c : Canvas) {is : List Instruction}
    (h : ∀ i ∈ is, i.Complete) :
    c.executeAll? is = some (is.foldl execute c, is.filterMap Instruction.shown?) := by
  induction is generalizing c with
  | nil => rfl
  | cons i is ih =>
      have hi : i.Complete := h i List.mem_cons_self
      have hrest := ih (c.execute i) fun j hj => h j (List.mem_cons_of_mem i hj)
      rw [executeAll?, executeReading_supplied, if_pos (Nat.le_of_eq hi.symm)]
      cases hshown : i.shown? <;> simp [hrest, hshown]

end Canvas

end Turtle
