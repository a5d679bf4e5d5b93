import Mathlib.Logic.Function.Basic
import Turtle.Evaluation.Execution

/-!
Other line numbers.

Lines are written into tokens by the lexer, and from there they only travel:
into expressions and statements, with a declared body into the environment,
and back out in faults. `relabel` applies a function to all lines of a thing.
That no other part of the program looks at lines is then a family of
equations, one for each function: relabelling commutes with it.
-/

namespace Turtle

variable (φ ψ : Nat → Nat)

def Token.relabel (t : Token) : Token :=
  ⟨t.lexeme, φ t.line⟩

def Fault.relabel (f : Fault) : Fault :=
  ⟨φ f.line, f.cause⟩

def Expr.relabel (e : Expr) : Expr :=
  ⟨φ e.line, e.form⟩

mutual

def Statement.relabel : Statement → Statement
  | .procedure line name parameters body => .procedure (φ line) name parameters (relabelBody body)
  | .call line name arguments => .call (φ line) name (arguments.map (Expr.relabel φ))
  | .assign line name value => .assign (φ line) name (value.relabel φ)
  | .loop line count body => .loop (φ line) (count.relabel φ) (relabelBody body)

def relabelBody : List Statement → List Statement
  | [] => []
  | s :: ss => s.relabel :: relabelBody ss

end

@[simp] theorem relabelBody_eq_map (ss : List Statement) :
    relabelBody φ ss = ss.map (Statement.relabel φ) := by
  induction ss with
  | nil => rfl
  | cons s ss ih => rw [relabelBody, ih, List.map_cons]

def Procedure.relabel (p : Procedure) : Procedure :=
  ⟨p.name, p.parameters, p.body.map (Statement.relabel φ)⟩

/-- Relabels the fault of a result, and what stands for its value. -/
def relabelResult {α β : Type} (onValue : α → β) : Except Fault α → Except Fault β
  | .ok a => .ok (onValue a)
  | .error f => .error (f.relabel φ)

/-! ### Relabelling twice -/

@[simp] theorem Expr.relabel_relabel (e : Expr) : (e.relabel φ).relabel ψ = e.relabel (ψ ∘ φ) := rfl

mutual

theorem Statement.relabel_relabel (s : Statement) :
    (s.relabel φ).relabel ψ = s.relabel (ψ ∘ φ) := by
  match s with
  | .procedure line name parameters body =>
      simp only [Statement.relabel, relabelBody_relabelBody body, Function.comp_apply]
  | .call line name arguments =>
      simp [Statement.relabel]
  | .assign line name value =>
      simp [Statement.relabel]
  | .loop line count body =>
      simp only [Statement.relabel, relabelBody_relabelBody body, Expr.relabel_relabel,
        Function.comp_apply]

theorem relabelBody_relabelBody (ss : List Statement) :
    relabelBody ψ (relabelBody φ ss) = relabelBody (ψ ∘ φ) ss := by
  match ss with
  | [] => rfl
  | s :: ss => simp only [relabelBody, s.relabel_relabel, relabelBody_relabelBody ss]

end

theorem Statement.map_relabel_relabel (ss : List Statement) :
    (ss.map (Statement.relabel φ)).map (Statement.relabel ψ) =
      ss.map (Statement.relabel (ψ ∘ φ)) := by
  simp [Statement.relabel_relabel, Function.comp_def]

theorem Procedure.relabel_relabel (p : Procedure) :
    (p.relabel φ).relabel ψ = p.relabel (ψ ∘ φ) := by
  rw [relabel, relabel, relabel, Statement.map_relabel_relabel]

theorem Procedure.map_relabel_relabel (ps : List Procedure) :
    (ps.map (Procedure.relabel φ)).map (Procedure.relabel ψ) =
      ps.map (Procedure.relabel (ψ ∘ φ)) := by
  simp [Procedure.relabel_relabel, Function.comp_def]

/-! ### Relabelling by nothing -/

theorem Expr.relabel_id : Expr.relabel id = id := rfl

mutual

theorem Statement.relabel_id (s : Statement) : s.relabel id = s := by
  match s with
  | .procedure line name parameters body => simp only [Statement.relabel, relabelBody_id body, id]
  | .call line name arguments => rw [Statement.relabel, Expr.relabel_id, List.map_id, id]
  | .assign line name value => rfl
  | .loop line count body => simp only [Statement.relabel, relabelBody_id body, Expr.relabel, id]

theorem relabelBody_id (ss : List Statement) : relabelBody id ss = ss := by
  match ss with
  | [] => rfl
  | s :: ss => simp only [relabelBody, s.relabel_id, relabelBody_id ss]

end

theorem Statement.map_relabel_id (ss : List Statement) : ss.map (Statement.relabel id) = ss := by
  rw [← relabelBody_eq_map, relabelBody_id]

theorem Procedure.relabel_id : Procedure.relabel id = id := by
  funext p
  rw [Procedure.relabel, Statement.map_relabel_id, id]

theorem Procedure.map_relabel_id (ps : List Procedure) : ps.map (Procedure.relabel id) = ps := by
  rw [relabel_id, List.map_id]

end Turtle
