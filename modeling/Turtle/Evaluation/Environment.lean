import Turtle.Program.Copy

/-!
What a program's names stand for.

Variables live in scopes. Each call in progress has a scope of its own, its frame, and below all
frames lie the globals. A name is looked up from the innermost frame outwards, so a procedure sees
the variables of its callers; an assignment only ever changes the innermost scope. A procedure, once
declared, stays as it is.
-/

namespace Turtle

structure Binding where
  name : Text
  value : Int64
  deriving DecidableEq, Repr

abbrev Scope := List Binding

namespace Scope

/-- The value of the first binding of the name. -/
def find? (s : Scope) (name : Text) : Option Int64 :=
  (List.find? (·.name == name) s).map (·.value)

/-- Changes the first binding of the name, or adds one at the end. -/
def set : Scope → Text → Int64 → Scope
  | [], name, value => [⟨name, value⟩]
  | b :: s, name, value => if b.name == name then ⟨b.name, value⟩ :: s else b :: set s name value

end Scope

structure Procedure where
  name : Text
  parameters : List Text
  body : List Statement
  deriving Repr

namespace Procedure

/-- The copy that is kept, while the program that declares the procedure is not. -/
def copy (p : Procedure) : Procedure :=
  { p with body := Statement.copyAll p.body }

theorem copy_eq (p : Procedure) : p.copy = p := by
  rw [copy, Statement.copyAll_eq]

end Procedure

structure Environment where
  globals : Scope
  /-- The scopes of the calls in progress, the innermost first. -/
  frames : List Scope
  /-- The procedures in the order of their declarations. -/
  procedures : List Procedure
  deriving Repr

namespace Environment

def empty : Environment :=
  ⟨[], [], []⟩

/-- The value of a name in the innermost scope that binds it. -/
def find? (env : Environment) (name : Text) : Option Int64 :=
  match env.frames.findSome? (·.find? name) with
  | some n => some n
  | none => env.globals.find? name

def procedure? (env : Environment) (name : Text) : Option Procedure :=
  env.procedures.find? (·.name == name)

/-- Assigns in the innermost scope. -/
def set (env : Environment) (name : Text) (value : Int64) : Environment :=
  match env.frames with
  | [] => { env with globals := Scope.set env.globals name value }
  | frame :: frames => { env with frames := Scope.set frame name value :: frames }

def declare (env : Environment) (p : Procedure) : Environment :=
  { env with procedures := env.procedures ++ [p] }

def push (env : Environment) (frame : Scope) : Environment :=
  { env with frames := frame :: env.frames }

def pop (env : Environment) : Environment :=
  { env with frames := env.frames.tail }

end Environment

end Turtle
