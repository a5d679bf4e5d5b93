import Turtle.Program.Basic

/-!
Copies of programs.

A procedure is kept longer than the program that declares it, so what is kept is a copy. All that
stands inside of a statement is copied with it, and the copy is the same statement.
-/

namespace Turtle

def Operand.copy : Operand → Operand
  | .number value => .number value
  | .var name => .var name
  | .word name => .word name

theorem Operand.copy_eq (o : Operand) : o.copy = o := by
  cases o <;> rfl

def Item.copy : Item → Item
  | .operand o => .operand o.copy
  | .operator o => .operator o

theorem Item.copy_eq (i : Item) : i.copy = i := by
  cases i with
  | operand o => exact congrArg Item.operand o.copy_eq
  | operator o => rfl

def Form.copy : Form → Form
  | .single o => .single o.copy
  | .sequence items => .sequence (items.map Item.copy)

theorem Form.copy_eq (f : Form) : f.copy = f := by
  cases f with
  | single o => exact congrArg Form.single o.copy_eq
  | sequence items =>
      have hitems : items.map Item.copy = items := by
        rw [funext Item.copy_eq, List.map_id']
      exact congrArg Form.sequence hitems

def Expr.copy (e : Expr) : Expr :=
  { e with form := e.form.copy }

theorem Expr.copy_eq (e : Expr) : e.copy = e := by
  rw [copy, e.form.copy_eq]

theorem Expr.map_copy (es : List Expr) : es.map copy = es := by
  rw [funext copy_eq, List.map_id']

namespace Statement

mutual

def copy : Statement → Statement
  | .procedure line name parameters body => .procedure line name parameters (copyAll body)
  | .call line name arguments => .call line name (arguments.map Expr.copy)
  | .assign line name value => .assign line name value.copy
  | .loop line count body => .loop line count.copy (copyAll body)

def copyAll : List Statement → List Statement
  | [] => []
  | s :: rest => s.copy :: copyAll rest

end

mutual

theorem copy_eq : ∀ s : Statement, s.copy = s
  | .procedure line name parameters body => by rw [copy, copyAll_eq body]
  | .call line name arguments => by rw [copy, Expr.map_copy]
  | .assign line name value => by rw [copy, value.copy_eq]
  | .loop line count body => by rw [copy, count.copy_eq, copyAll_eq body]

theorem copyAll_eq : ∀ ss : List Statement, copyAll ss = ss
  | [] => by rw [copyAll]
  | s :: rest => by rw [copyAll, copy_eq s, copyAll_eq rest]

end

end Statement

end Turtle
