import Turtle.Fault
import Turtle.Number.Checked
import Turtle.Evaluation.Environment

/-!
The value of an expression.

A sequence is worked off from left to right on a stack: an operand is pushed, an operator takes the
two topmost values and pushes its result. A sequence that comes from a program leaves exactly one
value; one that is put together by hand may not, and is then refused. Quoted words have no value.
-/

namespace Turtle

namespace Operator

def apply (o : Operator) (l r : Int64) : Except Cause Int64 :=
  let result :=
    match o with
    | .add => Checked.add l r
    | .sub => Checked.sub l r
    | .mul => Checked.mul l r
    | .div => Checked.div l r
  match result with
  | .ok n => .ok n
  | .error .overflow => .error (.overflow l o r)
  | .error .divisionByZero => .error (.divisionByZero l r)

end Operator

namespace Environment

def value (env : Environment) : Operand → Except Cause Int64
  | .number n => .ok n
  | .var name =>
    match env.find? name with
    | some n => .ok n
    | none => .error (.unknownVariable name)
  | .word name => .error (.wordValue name)

/-- Works one item off; the topmost value comes first. -/
def work (env : Environment) (stack : List Int64) : Item → Except Cause (List Int64)
  | .operand o => (· :: stack) <$> env.value o
  | .operator o =>
    match stack with
    | r :: l :: stack => (· :: stack) <$> o.apply l r
    | _ => .error .operatorWithoutOperands

/-- The value that a worked-off sequence leaves. -/
def result : List Int64 → Except Cause Int64
  | [n] => .ok n
  | stack => .error (.leftoverValues stack.length)

def sequence (env : Environment) (items : List Item) : Except Cause Int64 :=
  items.foldlM env.work [] >>= result

def form (env : Environment) : Form → Except Cause Int64
  | .single o => env.value o
  | .sequence items => env.sequence items

def evaluate (env : Environment) (e : Expr) : Except Fault Int64 :=
  match env.form e.form with
  | .ok n => .ok n
  | .error cause => .error ⟨e.line, cause⟩

/-- The values of all expressions, or the first fault. -/
def evaluateAll (env : Environment) (es : List Expr) : Except Fault (List Int64) :=
  es.mapM env.evaluate

end Environment

end Turtle
