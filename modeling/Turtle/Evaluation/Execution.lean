import Turtle.Command
import Turtle.Evaluation.Arithmetic

/-!
Running statements.

A program draws nothing itself: it emits instructions, which a canvas executes later. So running is
a function on machines, an environment together with the instructions emitted so far, and its
outcome is a machine and perhaps the fault that stopped it. All that was done before a fault stays
done; only the frames of the calls in progress are taken off.

Recursion goes two ways. Within one body it follows the statements. From a body to the body of a
procedure it follows the budget, the number of calls that may still be nested: with none left a
call is a fault. Both are decreasing, so every run ends.
-/

namespace Turtle

/-- A command with the values of its arguments. -/
structure Instruction where
  command : Command
  arguments : List Int64
  deriving DecidableEq, Repr

structure Machine where
  environment : Environment
  /-- The instructions emitted so far. -/
  emitted : Array Instruction
  deriving Repr

/-- The machine after a run, and the fault that stopped the run if it was stopped. -/
abbrev Outcome := Machine × Option Fault

namespace Machine

def fail (m : Machine) (line : Nat) (cause : Cause) : Outcome :=
  (m, some ⟨line, cause⟩)

def done (m : Machine) : Outcome :=
  (m, none)

def emit (m : Machine) (i : Instruction) : Machine :=
  { m with emitted := m.emitted.push i }

def set (m : Machine) (name : Text) (value : Int64) : Machine :=
  { m with environment := m.environment.set name value }

def push (m : Machine) (frame : Scope) : Machine :=
  { m with environment := m.environment.push frame }

def pop (m : Machine) : Machine :=
  { m with environment := m.environment.pop }

/-- Declares a procedure, unless its name is taken. -/
def declare (m : Machine) (line : Nat) (p : Procedure) : Outcome :=
  if (Command.find? p.name).isSome || (m.environment.procedure? p.name).isSome then
    m.fail line (.redeclared p.name)
  else
    { m with environment := m.environment.declare p.copy }.done

/-- The copy that is declared is the procedure. -/
theorem declare_eq (m : Machine) (line : Nat) (p : Procedure) :
    m.declare line p =
      if (Command.find? p.name).isSome || (m.environment.procedure? p.name).isSome then
        m.fail line (.redeclared p.name)
      else
        { m with environment := m.environment.declare p }.done := by
  rw [declare, p.copy_eq]

def assign (m : Machine) (name : Text) (e : Expr) : Outcome :=
  match m.environment.evaluate e with
  | .ok n => (m.set name n).done
  | .error f => (m, some f)

/-- Emits a command with the values of its arguments. -/
def command (m : Machine) (line : Nat) (name : Text) (c : Command) (arguments : List Expr) :
    Outcome :=
  if arguments.length ≠ c.arity then
    m.fail line (.argumentCount name c.arity arguments.length)
  else
    match m.environment.evaluateAll arguments with
    | .ok values => (m.emit ⟨c, values⟩).done
    | .error f => (m, some f)

/-- A way to run the body of a procedure, if the budget allows another call. -/
abbrev Callee := Option (List Statement → Machine → Outcome)

/-- Calls a procedure. The arguments are evaluated before its frame is there. -/
def invoke (m : Machine) (limit : Nat) (callee : Callee) (line : Nat) (p : Procedure)
    (arguments : List Expr) : Outcome :=
  if arguments.length ≠ p.parameters.length then
    m.fail line (.argumentCount p.name p.parameters.length arguments.length)
  else
    match callee with
    | none => m.fail line (.callDepth p.name limit)
    | some run =>
      match m.environment.evaluateAll arguments with
      | .error f => (m, some f)
      | .ok values =>
        match run p.body (m.push (p.parameters.zipWith Binding.mk values)) with
        | (m, fault) => (m.pop, fault)

/-- A name stands for a command first, and then for a procedure. -/
def call (m : Machine) (limit : Nat) (callee : Callee) (line : Nat) (name : Text)
    (arguments : List Expr) : Outcome :=
  match Command.find? name with
  | some c => m.command line name c arguments
  | none =>
    match m.environment.procedure? name with
    | some p => m.invoke limit callee line p arguments
    | none => m.fail line (.unknownProcedure name)

/-- Runs a number of times, as long as nothing stops it. -/
def iterate (run : Machine → Outcome) : Nat → Machine → Outcome
  | 0, m => m.done
  | n + 1, m =>
    match run m with
    | (m, none) => iterate run n m
    | stopped => stopped

end Machine

section

variable (limit : Nat) (callee : Machine.Callee)

mutual

def runStatement : Statement → Machine → Outcome
  | .procedure line name parameters body, m => m.declare line ⟨name, parameters, body⟩
  | .call line name arguments, m => m.call limit callee line name arguments
  | .assign _ name value, m => m.assign name value
  | .loop _ count body, m =>
    match m.environment.evaluate count with
    | .ok n => m.iterate (runBody body) n.toInt.toNat
    | .error f => (m, some f)

def runBody : List Statement → Machine → Outcome
  | [], m => m.done
  | s :: rest, m =>
    match runStatement s m with
    | (m, none) => runBody rest m
    | stopped => stopped

end

end

/-- Runs statements from which calls may be nested as deep as the budget; `limit` is what the
fault of a deeper call tells. -/
def runWithin (limit : Nat) : (budget : Nat) → List Statement → Machine → Outcome
  | 0 => runBody limit none
  | budget + 1 => runBody limit (some (runWithin limit budget))

/-- Runs statements. Each active frame takes one call of the limit. -/
def run (limit : Nat) (statements : List Statement) (m : Machine) : Outcome :=
  runWithin limit (limit - m.environment.frames.length) statements m

end Turtle
