import Turtle.Proofs.Evaluation.Preservation
import Turtle.Proofs.Program.Relabel

/-!
Machines that run alike.

All that a run asks a machine is the value of a variable and the body of a
procedure. So two machines that give the same answers, and that still do so
after every move, run the same statements in the same way: they end in
machines that are related again, with the same fault or with none.

The lines of the second machine may be labelled otherwise. Then its statements
and the bodies that it stores are relabelled, and so is its fault.
-/

namespace Turtle

/-! ### Expressions -/

namespace Environment

variable {env env' : Environment}

/-- Expressions ask for variables only. -/
theorem form_congr (h : ∀ name, env'.find? name = env.find? name) (f : Form) :
    env'.form f = env.form f := by
  have hvalue : env'.value = env.value := by
    funext o
    cases o with
    | var name => simp only [value, h name]
    | _ => rfl
  have hwork : env'.work = env.work := by
    funext stack item
    cases item with
    | operand o => simp only [work, hvalue]
    | operator o => rfl
  cases f with
  | single o => simp only [form, hvalue]
  | sequence items => simp only [form, sequence, hwork]

theorem evaluate_relabel (h : ∀ name, env'.find? name = env.find? name) (φ : Nat → Nat) (e : Expr) :
    env'.evaluate (e.relabel φ) = relabelResult φ id (env.evaluate e) := by
  rw [evaluate, evaluate, Expr.relabel, form_congr h]
  cases env.form e.form <;> rfl

theorem evaluateAll_relabel (h : ∀ name, env'.find? name = env.find? name) (φ : Nat → Nat)
    (es : List Expr) :
    env'.evaluateAll (es.map (Expr.relabel φ)) = relabelResult φ id (env.evaluateAll es) := by
  induction es with
  | nil => rfl
  | cons e es ih =>
      rw [evaluateAll] at ih
      rw [evaluateAll, evaluateAll, List.map_cons, List.mapM_cons, List.mapM_cons,
        evaluate_relabel h, ih, evaluateAll]
      cases env.evaluate e with
      | error f => rfl
      | ok n => cases es.mapM env.evaluate <;> rfl

end Environment

/-! ### Simulations -/

/-- A relation between machines that answer alike. The lines of the second are
relabelled. -/
structure Simulates (φ : Nat → Nat) (rel : Machine → Machine → Prop) : Prop where
  lookup : ∀ {m m'}, rel m m' → ∀ name, m'.environment.find? name = m.environment.find? name
  procedures : ∀ {m m'}, rel m m' → ∀ name,
    m'.environment.procedure? name = (m.environment.procedure? name).map (Procedure.relabel φ)
  emit : ∀ {m m'}, rel m m' → ∀ i, rel (m.emit i) (m'.emit i)
  set : ∀ {m m'}, rel m m' → ∀ name n, rel (m.set name n) (m'.set name n)
  declare : ∀ {m m'}, rel m m' → ∀ p,
    rel { m with environment := m.environment.declare p }
      { m' with environment := m'.environment.declare (p.relabel φ) }
  push : ∀ {m m'}, rel m m' → ∀ frame, rel (m.push frame) (m'.push frame)
  pop : ∀ {m m'}, rel m m' → rel m.pop m'.pop

/-- The machines are related, and the faults are the same up to their lines. -/
def Alike (φ : Nat → Nat) (rel : Machine → Machine → Prop) (o o' : Outcome) : Prop :=
  rel o.1 o'.1 ∧ o'.2 = o.2.map (Fault.relabel φ)

/-- From related machines a body runs alike. -/
def RunsAlike (φ : Nat → Nat) (rel : Machine → Machine → Prop)
    (run : List Statement → Machine → Outcome) : Prop :=
  ∀ ss m m', rel m m' → Alike φ rel (run ss m) (run (ss.map (Statement.relabel φ)) m')

namespace Simulates

variable {φ : Nat → Nat} {rel : Machine → Machine → Prop} {m m' : Machine}
variable {limit : Nat} {callee : Machine.Callee}

theorem assign_alike (h : Simulates φ rel) (hm : rel m m') (name : Text) (e : Expr) :
    Alike φ rel (m.assign name e) (m'.assign name (e.relabel φ)) := by
  rw [Machine.assign, Machine.assign, Environment.evaluate_relabel (h.lookup hm)]
  cases m.environment.evaluate e with
  | ok n => exact ⟨h.set hm name n, rfl⟩
  | error f => exact ⟨hm, rfl⟩

theorem command_alike (h : Simulates φ rel) (hm : rel m m') (line : Nat) (name : Text)
    (c : Command) (arguments : List Expr) :
    Alike φ rel (m.command line name c arguments)
      (m'.command (φ line) name c (arguments.map (Expr.relabel φ))) := by
  rw [Machine.command, Machine.command, List.length_map,
    Environment.evaluateAll_relabel (h.lookup hm)]
  split_ifs with hcount
  · exact ⟨hm, rfl⟩
  · cases m.environment.evaluateAll arguments with
    | ok values => exact ⟨h.emit hm _, rfl⟩
    | error f => exact ⟨hm, rfl⟩

theorem declare_alike (h : Simulates φ rel) (hm : rel m m') (line : Nat) (p : Procedure) :
    Alike φ rel (m.declare line p) (m'.declare (φ line) (p.relabel φ)) := by
  have hname : (p.relabel φ).name = p.name := rfl
  rw [Machine.declare_eq, Machine.declare_eq, hname, h.procedures hm, Option.isSome_map]
  split_ifs with htaken
  · exact ⟨hm, rfl⟩
  · exact ⟨h.declare hm p, rfl⟩

theorem invoke_alike (h : Simulates φ rel) (hm : rel m m')
    (hcallee : ∀ run, callee = some run → RunsAlike φ rel run) (line : Nat) (p : Procedure)
    (arguments : List Expr) :
    Alike φ rel (m.invoke limit callee line p arguments)
      (m'.invoke limit callee (φ line) (p.relabel φ) (arguments.map (Expr.relabel φ))) := by
  have hvalues := Environment.evaluateAll_relabel (h.lookup hm) φ arguments
  unfold Machine.invoke
  rw [List.length_map, hvalues, Procedure.relabel]
  split_ifs with hcount
  · exact ⟨hm, rfl⟩
  cases callee with
  | none => exact ⟨hm, rfl⟩
  | some run =>
      cases m.environment.evaluateAll arguments with
      | error f => exact ⟨hm, rfl⟩
      | ok values =>
          -- the frames are the same, as the parameters are and their values
          have hbody := hcallee run rfl p.body _ _
            (h.push hm (p.parameters.zipWith Binding.mk values))
          exact ⟨h.pop hbody.1, hbody.2⟩

theorem call_alike (h : Simulates φ rel) (hm : rel m m')
    (hcallee : ∀ run, callee = some run → RunsAlike φ rel run) (line : Nat) (name : Text)
    (arguments : List Expr) :
    Alike φ rel (m.call limit callee line name arguments)
      (m'.call limit callee (φ line) name (arguments.map (Expr.relabel φ))) := by
  rw [Machine.call, Machine.call, h.procedures hm]
  cases Command.find? name with
  | some c => exact h.command_alike hm line name c arguments
  | none =>
      cases m.environment.procedure? name with
      | none => exact ⟨hm, rfl⟩
      | some p => exact h.invoke_alike hm hcallee line p arguments

theorem iterate_alike {run run' : Machine → Outcome}
    (hrun : ∀ m m', rel m m' → Alike φ rel (run m) (run' m')) (n : Nat) (hm : rel m m') :
    Alike φ rel (Machine.iterate run n m) (Machine.iterate run' n m') := by
  induction n generalizing m m' with
  | zero => exact ⟨hm, rfl⟩
  | succ n ih =>
      obtain ⟨hrel, hfault⟩ := hrun m m' hm
      rw [Machine.iterate, Machine.iterate]
      cases hout : run m with
      | mk m₁ fault =>
          cases hout' : run' m' with
          | mk m₁' fault' =>
              rw [hout, hout'] at hrel hfault
              cases fault with
              | none =>
                  cases hfault
                  exact ih hrel
              | some f =>
                  cases hfault
                  exact ⟨hrel, rfl⟩

mutual

theorem runStatement_alike (h : Simulates φ rel)
    (hcallee : ∀ run, callee = some run → RunsAlike φ rel run) (s : Statement) {m m' : Machine}
    (hm : rel m m') :
    Alike φ rel (runStatement limit callee s m) (runStatement limit callee (s.relabel φ) m') := by
  match s with
  | .procedure line name parameters body =>
      rw [Statement.relabel, runStatement, runStatement, relabelBody_eq_map]
      exact h.declare_alike hm line ⟨name, parameters, body⟩
  | .call line name arguments =>
      rw [Statement.relabel, runStatement, runStatement]
      exact h.call_alike hm hcallee line name arguments
  | .assign line name value =>
      rw [Statement.relabel, runStatement, runStatement]
      exact h.assign_alike hm name value
  | .loop line count body =>
      rw [Statement.relabel, runStatement, runStatement,
        Environment.evaluate_relabel (h.lookup hm), relabelBody_eq_map]
      cases m.environment.evaluate count with
      | error f => exact ⟨hm, rfl⟩
      | ok n =>
          apply iterate_alike _ n.toInt.toNat hm
          intro m m' hm
          exact runBody_alike h hcallee body hm

theorem runBody_alike (h : Simulates φ rel)
    (hcallee : ∀ run, callee = some run → RunsAlike φ rel run) (ss : List Statement)
    {m m' : Machine} (hm : rel m m') :
    Alike φ rel (runBody limit callee ss m)
      (runBody limit callee (ss.map (Statement.relabel φ)) m') := by
  match ss with
  | [] => exact ⟨hm, rfl⟩
  | s :: rest =>
      obtain ⟨hrel, hfault⟩ := runStatement_alike h hcallee s hm
      rw [List.map_cons, runBody, runBody]
      cases hout : runStatement limit callee s m with
      | mk m₁ fault =>
          cases hout' : runStatement limit callee (s.relabel φ) m' with
          | mk m₁' fault' =>
              rw [hout, hout'] at hrel hfault
              cases fault with
              | none =>
                  cases hfault
                  exact runBody_alike h hcallee rest hrel
              | some f =>
                  cases hfault
                  exact ⟨hrel, rfl⟩

end

/-- Related machines run alike, however deep the calls are nested. -/
theorem runWithin_alike (h : Simulates φ rel) (limit budget : Nat) :
    RunsAlike φ rel (runWithin limit budget) := by
  induction budget using Nat.strongRecOn with
  | ind budget ih =>
      obtain ⟨callee, heq, hcallee⟩ := runWithin_eq_runBody limit budget
      rw [heq]
      intro ss m m' hm
      apply h.runBody_alike _ ss hm
      intro run hrun
      obtain ⟨smaller, hlt, rfl⟩ := hcallee run hrun
      exact ih smaller hlt

end Simulates

end Turtle
