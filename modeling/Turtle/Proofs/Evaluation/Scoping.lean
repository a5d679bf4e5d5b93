import Mathlib.Data.List.Forall2
import Turtle.Proofs.Evaluation.Order
import Turtle.Proofs.Evaluation.Termination

/-!
What names stand for.

A name is looked up from the innermost scope outwards. So an assignment, which
binds the name in the innermost scope, settles what is found for it, whatever
the scopes further out say. For other names it does not count, and neither does
the order of two assignments.

The frame of a call is a new innermost scope, in which the parameters are bound
to the arguments from left to right. It hides the parameters' names and no
others. The arguments have their values before there is a frame, hence in the
scopes of the caller.
-/

namespace Turtle

/-! ### The frame of a call -/

namespace Scope

variable {parameters : List Text} {values : List Int64} {name : Text}

/-- The first parameter of the name counts. -/
theorem find?_zipWith {i : Nat} {value : Int64} (hname : parameters[i]? = some name)
    (hvalue : values[i]? = some value) (hfirst : name ∉ parameters.take i) :
    Scope.find? (parameters.zipWith Binding.mk values) name = some value := by
  induction parameters generalizing values i with
  | nil => simp at hname
  | cons p parameters ih =>
      cases values with
      | nil => simp at hvalue
      | cons v values =>
          rw [List.zipWith_cons_cons, find?_cons]
          cases i with
          | zero =>
              rw [List.getElem?_cons_zero, Option.some.injEq] at hname hvalue
              rw [if_pos hname, hvalue]
          | succ i =>
              rw [List.getElem?_cons_succ] at hname hvalue
              rw [List.take_succ_cons, List.mem_cons, not_or] at hfirst
              rw [if_neg (Ne.symm hfirst.1)]
              exact ih hname hvalue hfirst.2

theorem find?_zipWith_of_notMem (h : name ∉ parameters) (values : List Int64) :
    Scope.find? (parameters.zipWith Binding.mk values) name = none := by
  induction parameters generalizing values with
  | nil => rfl
  | cons p parameters ih =>
      rw [List.mem_cons, not_or] at h
      cases values with
      | nil => rfl
      | cons v values => rw [List.zipWith_cons_cons, find?_cons, if_neg (Ne.symm h.1), ih h.2]

end Scope

namespace Environment

/-! ### Lookups -/

variable {env : Environment} {name : Text}

/-- A new frame is asked first. -/
theorem find?_push (env : Environment) (frame : Scope) (name : Text) :
    (env.push frame).find? name = (frame.find? name).or (env.find? name) := by
  rw [find?, push, List.findSome?_cons, find?]
  cases frame.find? name <;> rfl

theorem find?_set (env : Environment) (name : Text) (value : Int64) (name' : Text) :
    (env.set name value).find? name' = if name = name' then some value else env.find? name' := by
  cases hframes : env.frames with
  | nil => simp only [set, find?, hframes, List.findSome?_nil, Scope.find?_set]
  | cons frame frames =>
      simp only [set, find?, hframes, List.findSome?_cons, Scope.find?_set]
      split_ifs <;> rfl

/-- The environment after an assignment: the name has the value, all other names
have theirs, and only the innermost scope is another. -/
structure Assigned (env : Environment) (name : Text) (value : Int64) (env' : Environment) :
    Prop where
  value : env'.find? name = some value
  other : ∀ name', name' ≠ name → env'.find? name' = env.find? name'
  depth : env'.frames.length = env.frames.length
  outer : env'.frames.tail = env.frames.tail
  globals : env.frames ≠ [] → env'.globals = env.globals
  procedures : env'.procedures = env.procedures

theorem assigned_set (env : Environment) (name : Text) (value : Int64) :
    env.Assigned name value (env.set name value) := by
  have hconfined : Confined ⟨env, #[]⟩ (Machine.set ⟨env, #[]⟩ name value) := .set _ name value
  refine ⟨?_, ?_, hconfined.depth, hconfined.outer, hconfined.globals, ?_⟩
  · rw [find?_set, if_pos rfl]
  · intro name' hother
    rw [find?_set, if_neg hother.symm]
  · exact env.procedures_set name value

theorem find?_set_set (env : Environment) {x y : Text} (differ : x ≠ y) (v w : Int64)
    (name : Text) :
    ((env.set x v).set y w).find? name = ((env.set y w).set x v).find? name := by
  simp only [find?_set]
  split_ifs with hy hx
  · exact absurd (hx.trans hy.symm) differ
  · rfl
  · rfl
  · rfl

/-! ### Arguments -/

/-- The values of the expressions, each of them in this environment. -/
def Gives (env : Environment) : List Expr → List Int64 → Prop :=
  List.Forall₂ fun e n => env.evaluate e = .ok n

/-- The fault of the first expression that has no value. -/
def Lacks (env : Environment) (es : List Expr) (f : Fault) : Prop :=
  ∃ before values e after, es = before ++ e :: after ∧ env.Gives before values ∧
    env.evaluate e = .error f

theorem evaluateAll_cons (env : Environment) (e : Expr) (es : List Expr) :
    env.evaluateAll (e :: es) =
      match env.evaluate e with
      | .ok n => (n :: ·) <$> env.evaluateAll es
      | .error f => .error f := by
  rw [evaluateAll, List.mapM_cons]
  cases env.evaluate e with
  | error f => rfl
  | ok n =>
      rw [evaluateAll]
      cases es.mapM env.evaluate <;> rfl

theorem gives_of_evaluateAll {es : List Expr} {values : List Int64}
    (h : env.evaluateAll es = .ok values) : env.Gives es values := by
  induction es generalizing values with
  | nil =>
      cases h
      exact .nil
  | cons e es ih =>
      rw [evaluateAll_cons] at h
      cases hvalue : env.evaluate e with
      | error f => simp [hvalue] at h
      | ok n =>
          cases hrest : env.evaluateAll es with
          | error f => simp [hvalue, hrest] at h
          | ok rest =>
              simp only [hvalue, hrest, Functor.map, Except.map] at h
              cases h
              exact .cons hvalue (ih hrest)

theorem lacks_of_evaluateAll {es : List Expr} {f : Fault}
    (h : env.evaluateAll es = .error f) : env.Lacks es f := by
  induction es with
  | nil => cases h
  | cons e es ih =>
      rw [evaluateAll_cons] at h
      cases hvalue : env.evaluate e with
      | error g =>
          simp only [hvalue] at h
          cases h
          exact ⟨[], [], e, es, rfl, .nil, hvalue⟩
      | ok n =>
          cases hrest : env.evaluateAll es with
          | ok rest => simp [hvalue, hrest] at h
          | error g =>
              simp only [hvalue, hrest, Functor.map, Except.map] at h
              cases h
              obtain ⟨before, values, e', after, rfl, hbefore, hlacking⟩ := ih hrest
              exact ⟨e :: before, n :: values, e', after, rfl, .cons hvalue hbefore, hlacking⟩

end Environment

namespace Machine

/-! ### Entering a procedure -/

/-- The machine with which the body of a procedure is run: a parameter resolves to
the value of its argument, and to that of the first one if several parameters
have the name. All other names resolve as in the machine of the caller, whose
scopes lie behind one new frame. -/
structure Entered (m : Machine) (parameters : List Text) (values : List Int64)
    (entry : Machine) : Prop where
  parameter : ∀ i name value, parameters[i]? = some name → values[i]? = some value →
    name ∉ parameters.take i → entry.environment.find? name = some value
  other : ∀ name, name ∉ parameters → entry.environment.find? name = m.environment.find? name
  outer : entry.environment.frames.tail = m.environment.frames
  globals : entry.environment.globals = m.environment.globals
  procedures : entry.environment.procedures = m.environment.procedures
  emitted : entry.emitted = m.emitted

theorem entered_push (m : Machine) (parameters : List Text) (values : List Int64) :
    m.Entered parameters values (m.push (parameters.zipWith Binding.mk values)) where
  parameter := by
    intro i name value hname hvalue hfirst
    rw [push, Environment.find?_push, Scope.find?_zipWith hname hvalue hfirst, Option.some_or]
  other := by
    intro name hother
    rw [push, Environment.find?_push, Scope.find?_zipWith_of_notMem hother, Option.none_or]
  outer := rfl
  globals := rfl
  procedures := rfl
  emitted := rfl

/-- A call for which there is a frame left, with the right number of arguments,
runs the body of the procedure, unless an argument has no value. -/
theorem run_call {m : Machine} {limit : Nat} {name : Text} {arguments : List Expr}
    {p : Procedure} (hname : Command.find? name = none)
    (hp : m.environment.procedure? name = some p)
    (harity : arguments.length = p.parameters.length)
    (hdepth : m.environment.frames.length < limit) (line : Nat) :
    run limit [.call line name arguments] m =
      match m.environment.evaluateAll arguments with
      | .ok values =>
        let o := run limit p.body (m.push (p.parameters.zipWith Binding.mk values))
        (o.1.pop, o.2)
      | .error f => (m, some f) := by
  have hbody : ∀ frame, run limit p.body (m.push frame) =
      runBody limit ((m.push frame).callee limit) p.body (m.push frame) := by
    intro frame
    rw [run, runWithin_eq_calleeWithin]
    rfl
  rw [run_singleton, runStatement, ← Machine.callee, call_eq_invoke hname hp]
  unfold invoke
  rw [if_neg (not_not.2 harity)]
  cases m.environment.evaluateAll arguments with
  | error f => rw [callee_of_lt hdepth []]
  | ok values => simp only [callee_of_lt hdepth (p.parameters.zipWith Binding.mk values), hbody]

end Machine

/-- In any machine, whatever its scopes hold, an assignment gives the name its value
and changes nothing that is found for other names; only the innermost scope is
changed. Two assignments to different names may change places, as far as lookups
can tell. When a procedure is called, the arguments have their values in the
scopes of the caller. Then the body is run with the parameters resolving to these
values and all other names resolving as they do for the caller; or the first
argument without a value stops the call, and nothing is changed. -/
theorem names_resolve (m : Machine) :
    (∀ x v, m.environment.Assigned x v (m.environment.set x v)) ∧
      (∀ x y, x ≠ y → ∀ v w name,
        ((m.environment.set x v).set y w).find? name =
          ((m.environment.set y w).set x v).find? name) ∧
      ∀ (limit line : Nat) (name : Text) (arguments : List Expr) (p : Procedure),
        Command.find? name = none → m.environment.procedure? name = some p →
        arguments.length = p.parameters.length → m.environment.frames.length < limit →
        (∃ values entry, m.environment.Gives arguments values ∧
            m.Entered p.parameters values entry ∧
            run limit [.call line name arguments] m =
              ((run limit p.body entry).1.pop, (run limit p.body entry).2)) ∨
          ∃ f, m.environment.Lacks arguments f ∧
            run limit [.call line name arguments] m = (m, some f) := by
  refine ⟨m.environment.assigned_set, fun x y => Environment.find?_set_set _, ?_⟩
  intro limit line name arguments p hname hp harity hdepth
  have hcall := Machine.run_call hname hp harity hdepth line
  cases hvalues : m.environment.evaluateAll arguments with
  | ok values =>
      rw [hvalues] at hcall
      exact .inl ⟨values, _, Environment.gives_of_evaluateAll hvalues, m.entered_push _ _, hcall⟩
  | error f =>
      rw [hvalues] at hcall
      exact .inr ⟨f, Environment.lacks_of_evaluateAll hvalues, hcall⟩

/-- The call `f 1 :x 3` of a procedure with the parameters `x`, `y` and again `x`, made
where `x` is 6 in a frame and 5 outside of it, and `z` is 7. The body finds 1 for
`x`, the 6 of the caller for `y`, and 7 for `z`. -/
theorem names_resolve_repeated :
    let x : Text := ascii "x"
    let y : Text := ascii "y"
    let z : Text := ascii "z"
    let forward (name : Text) : Statement := .call 1 (ascii "fd") [⟨1, .single (.var name)⟩]
    let f : Procedure := ⟨ascii "f", [x, y, x], [forward x, forward y, forward z]⟩
    let arguments : List Expr :=
      [⟨1, .single (.number 1)⟩, ⟨1, .single (.var x)⟩, ⟨1, .single (.number 3)⟩]
    let m : Machine := ⟨⟨[⟨x, 5⟩, ⟨z, 7⟩], [[⟨x, 6⟩]], [f]⟩, #[]⟩
    (x ≠ y ∧ Command.find? f.name = none ∧ m.environment.procedure? f.name = some f ∧
        arguments.length = f.parameters.length ∧ m.environment.frames.length < 9) ∧
      ((m.environment.set x 1).set y 2).find? x = ((m.environment.set y 2).set x 1).find? x ∧
      ((∃ values entry, m.environment.Gives arguments values ∧
          m.Entered f.parameters values entry ∧
          run 9 [.call 1 f.name arguments] m =
            ((run 9 f.body entry).1.pop, (run 9 f.body entry).2)) ∨
        ∃ fault, m.environment.Lacks arguments fault ∧
          run 9 [.call 1 f.name arguments] m = (m, some fault)) ∧
      (run 9 [.call 1 f.name arguments] m).1.emitted =
        #[⟨.forward, [1]⟩, ⟨.forward, [6]⟩, ⟨.forward, [7]⟩] := by
  intro x y z forward f arguments m
  have hdiffer : x ≠ y := by decide
  have hname : Command.find? f.name = none := by decide +kernel
  have hp : m.environment.procedure? f.name = some f := rfl
  have harity : arguments.length = f.parameters.length := rfl
  have hdepth : m.environment.frames.length < 9 := by decide
  obtain ⟨-, hswap, hcall⟩ := names_resolve m
  refine ⟨⟨hdiffer, hname, hp, harity, hdepth⟩, hswap x y hdiffer 1 2 x,
    hcall 9 1 f.name arguments f hname hp harity hdepth, ?_⟩
  decide +kernel

end Turtle
