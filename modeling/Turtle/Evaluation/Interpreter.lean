import Turtle.Program.Parser
import Turtle.Evaluation.Execution

/-!
An interpreter runs sources one after the other and keeps their variables and procedures.
-/

namespace Turtle

structure Interpreter where
  /-- How deep calls may be nested. -/
  limit : Nat
  environment : Environment
  deriving Repr

/-- What running a source yields. -/
structure Report where
  interpreter : Interpreter
  instructions : Array Instruction
  fault : Option Fault
  deriving Repr

namespace Interpreter

def defaultLimit : Nat := 1000

def new (limit : Nat) : Interpreter :=
  ⟨limit, .empty⟩

/-- Forgets all variables and procedures. -/
def reset (i : Interpreter) : Interpreter :=
  new i.limit

/-- Runs a source. One that does not parse leaves the interpreter as it was. -/
def run (i : Interpreter) (source : Text) : Report :=
  match parseSource source with
  | .error f => ⟨i, #[], some f⟩
  | .ok statements =>
    match Turtle.run i.limit statements ⟨i.environment, #[]⟩ with
    | (m, fault) => ⟨{ i with environment := m.environment }, m.emitted, fault⟩

end Interpreter

end Turtle
