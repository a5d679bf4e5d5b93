import Mathlib.Tactic.SplitIfs
import Turtle.Evaluation.Execution

/-!
What every run preserves.

A run is made of few moves: it emits an instruction, assigns a variable,
declares a procedure, or enters the body of a procedure and leaves it again.
`Preserves` says that a relation between the machine before and the machine
after admits each of these moves. Then it holds between the two ends of every
run, whether the run is stopped by a fault or not.

The moves may depend on an invariant of the machine, and only the allowed
statements are run. Both are parameters, so that one induction serves the
statements of a whole program as well as those of a procedure's body, in which
nothing can be declared.
-/

namespace Turtle

/-! ### The budget -/

/-- A run is the run of a body from which calls are run with a smaller budget,
or with none at all. -/
theorem runWithin_eq_runBody (limit budget : Nat) :
    ∃ callee, runWithin limit budget = runBody limit callee ∧
      ∀ run, callee = some run → ∃ smaller < budget, run = runWithin limit smaller := by
  cases budget with
  | zero => exact ⟨none, rfl, fun _ hrun => nomatch hrun⟩
  | succ budget =>
      refine ⟨some (runWithin limit budget), rfl, ?_⟩
      intro run hrun
      exact ⟨budget, Nat.lt_succ_self budget, (Option.some.inj hrun).symm⟩

/-! ### One run after the other -/

/-- Goes on from the machine of the outcome, unless a fault has stopped it. -/
def Outcome.andThen (o : Outcome) (k : Machine → Outcome) : Outcome :=
  match o with
  | (m, none) => k m
  | stopped => stopped

theorem runBody_cons (limit : Nat) (callee : Machine.Callee) (s : Statement)
    (rest : List Statement) (m : Machine) :
    runBody limit callee (s :: rest) m =
      Outcome.andThen (runStatement limit callee s m) (runBody limit callee rest) := rfl

theorem Machine.iterate_succ (run : Machine → Outcome) (n : Nat) (m : Machine) :
    m.iterate run (n + 1) = Outcome.andThen (run m) (iterate run n) := rfl

namespace Machine

/-! ### What a call can do -/

/-- An invocation is refused, or it runs the body of the procedure in a frame
of its own, which is taken off again. -/
theorem invoke_cases (m : Machine) (limit : Nat) (callee : Callee) (line : Nat) (p : Procedure)
    (arguments : List Expr) :
    (∃ f, m.invoke limit callee line p arguments = (m, some f)) ∨
      ∃ run values, callee = some run ∧ m.environment.evaluateAll arguments = .ok values ∧
        m.invoke limit callee line p arguments =
          ((run p.body (m.push (p.parameters.zipWith Binding.mk values))).1.pop,
            (run p.body (m.push (p.parameters.zipWith Binding.mk values))).2) := by
  unfold invoke
  split_ifs with hcount
  · exact .inl ⟨_, rfl⟩
  cases callee with
  | none => exact .inl ⟨_, rfl⟩
  | some run =>
      cases m.environment.evaluateAll arguments with
      | error f => exact .inl ⟨f, rfl⟩
      | ok values => exact .inr ⟨run, values, rfl, rfl, rfl⟩

/-- A call is refused, or emits an instruction, or invokes a procedure. -/
theorem call_cases (m : Machine) (limit : Nat) (callee : Callee) (line : Nat) (name : Text)
    (arguments : List Expr) :
    (∃ f, m.call limit callee line name arguments = (m, some f)) ∨
      (∃ i, m.call limit callee line name arguments = (m.emit i).done) ∨
      ∃ p, Command.find? name = none ∧ m.environment.procedure? name = some p ∧
        m.call limit callee line name arguments = m.invoke limit callee line p arguments := by
  rw [call]
  cases Command.find? name with
  | some c =>
      show (∃ f, m.command line name c arguments = (m, some f)) ∨
        (∃ i, m.command line name c arguments = (m.emit i).done) ∨ _
      rw [command]
      split_ifs with hcount
      · exact .inl ⟨_, rfl⟩
      · cases m.environment.evaluateAll arguments with
        | ok values => exact .inr (.inl ⟨_, rfl⟩)
        | error f => exact .inl ⟨f, rfl⟩
  | none =>
      cases m.environment.procedure? name with
      | none => exact .inl ⟨_, rfl⟩
      | some p => exact .inr (.inr ⟨p, rfl, rfl, rfl⟩)

end Machine

/-! ### Preserved relations -/

/-- A relation that admits every move of the allowed statements, from every
machine with the invariant. -/
structure Preserves (inv : Machine → Prop) (allowed : Statement → Prop)
    (rel : Machine → Machine → Prop) : Prop where
  refl : ∀ {m}, inv m → rel m m
  trans : ∀ {m m' m''}, rel m m' → rel m' m'' → rel m m''
  keeps : ∀ {m m'}, inv m → rel m m' → inv m'
  looped : ∀ {line count body}, allowed (.loop line count body) → ∀ s ∈ body, allowed s
  stored : ∀ {m}, inv m → ∀ p ∈ m.environment.procedures, ∀ s ∈ p.body, allowed s
  emit : ∀ {m}, inv m → ∀ i, rel m (m.emit i)
  set : ∀ {m}, inv m → ∀ name n, rel m (m.set name n)
  declare : ∀ {m line name parameters body}, inv m →
    allowed (.procedure line name parameters body) → Command.find? name = none →
    m.environment.procedure? name = none →
    rel m { m with environment := m.environment.declare ⟨name, parameters, body⟩ }
  enter : ∀ {m}, inv m → ∀ frame, inv (m.push frame)
  leave : ∀ {m frame m'}, inv m → rel (m.push frame) m' → rel m m'.pop

/-- A way to run a body admits the relation. -/
def Respects (inv : Machine → Prop) (allowed : Statement → Prop)
    (rel : Machine → Machine → Prop) (run : List Statement → Machine → Outcome) : Prop :=
  ∀ ss m, (∀ s ∈ ss, allowed s) → inv m → rel m (run ss m).1

namespace Preserves

variable {inv : Machine → Prop} {allowed : Statement → Prop} {rel : Machine → Machine → Prop}
variable {limit : Nat} {callee : Machine.Callee} {m : Machine}

theorem assign_move (h : Preserves inv allowed rel) (hm : inv m) (name : Text) (e : Expr) :
    rel m (m.assign name e).1 := by
  rw [Machine.assign]
  cases m.environment.evaluate e with
  | ok n => exact h.set hm name n
  | error f => exact h.refl hm

theorem declare_move (h : Preserves inv allowed rel) (hm : inv m) {line : Nat} {name : Text}
    {parameters : List Text} {body : List Statement}
    (hallowed : allowed (.procedure line name parameters body)) :
    rel m (m.declare line ⟨name, parameters, body⟩).1 := by
  rw [Machine.declare_eq]
  split_ifs with htaken
  · exact h.refl hm
  · obtain ⟨hcommand, hprocedure⟩ : Command.find? name = none ∧
        m.environment.procedure? name = none := by simpa using htaken
    exact h.declare hm hallowed hcommand hprocedure

theorem call_move (h : Preserves inv allowed rel) (hm : inv m)
    (hcallee : ∀ run, callee = some run → Respects inv allowed rel run) (line : Nat) (name : Text)
    (arguments : List Expr) : rel m (m.call limit callee line name arguments).1 := by
  rcases m.call_cases limit callee line name arguments with
    ⟨f, hcall⟩ | ⟨i, hcall⟩ | ⟨p, -, hp, hcall⟩
  · rw [hcall]
    exact h.refl hm
  · rw [hcall]
    exact h.emit hm i
  rw [hcall]
  rcases m.invoke_cases limit callee line p arguments with
    ⟨f, hinvoke⟩ | ⟨run, values, hrun, -, hinvoke⟩
  · rw [hinvoke]
    exact h.refl hm
  · have hbody : ∀ s ∈ p.body, allowed s := h.stored hm p (List.mem_of_find?_eq_some hp)
    rw [hinvoke]
    apply h.leave hm
    exact hcallee run hrun p.body _ hbody (h.enter hm _)

/-- What one round of a loop preserves, the whole loop preserves. -/
theorem iterate_moves (h : Preserves inv allowed rel) {run : Machine → Outcome}
    (hrun : ∀ m, inv m → rel m (run m).1) (n : Nat) (hm : inv m) :
    rel m (Machine.iterate run n m).1 := by
  induction n generalizing m with
  | zero => exact h.refl hm
  | succ n ih =>
      have hround : rel m (run m).1 := hrun m hm
      rw [Machine.iterate]
      cases hout : run m with
      | mk m' fault =>
          rw [hout] at hround
          cases fault with
          -- the invariant has to be carried over before the next round
          | none => exact h.trans hround (ih (h.keeps hm hround))
          | some f => exact hround

mutual

theorem runStatement_moves (h : Preserves inv allowed rel)
    (hcallee : ∀ run, callee = some run → Respects inv allowed rel run) (s : Statement)
    (hs : allowed s) {m : Machine} (hm : inv m) : rel m (runStatement limit callee s m).1 := by
  match s with
  | .procedure line name parameters body =>
      rw [runStatement]
      exact h.declare_move hm hs
  | .call line name arguments =>
      rw [runStatement]
      exact h.call_move hm hcallee line name arguments
  | .assign line name value =>
      rw [runStatement]
      exact h.assign_move hm name value
  | .loop line count body =>
      rw [runStatement]
      cases m.environment.evaluate count with
      | ok n =>
          apply h.iterate_moves _ n.toInt.toNat hm
          intro m hm
          exact runBody_moves h hcallee body (h.looped hs) hm
      | error f => exact h.refl hm

theorem runBody_moves (h : Preserves inv allowed rel)
    (hcallee : ∀ run, callee = some run → Respects inv allowed rel run) (ss : List Statement)
    (hss : ∀ s ∈ ss, allowed s) {m : Machine} (hm : inv m) :
    rel m (runBody limit callee ss m).1 := by
  match ss with
  | [] => exact h.refl hm
  | s :: rest =>
      have hfirst : rel m (runStatement limit callee s m).1 :=
        runStatement_moves h hcallee s (hss s (by simp)) hm
      rw [runBody]
      cases hout : runStatement limit callee s m with
      | mk m' fault =>
          rw [hout] at hfirst
          cases fault with
          | none =>
              have hrest : ∀ s ∈ rest, allowed s := fun s hs => hss s (by simp [hs])
              exact h.trans hfirst (runBody_moves h hcallee rest hrest (h.keeps hm hfirst))
          | some f => exact hfirst

end

/-- What every move preserves, a run preserves, however deep its calls are nested. -/
theorem runWithin_moves (h : Preserves inv allowed rel) (limit budget : Nat) :
    Respects inv allowed rel (runWithin limit budget) := by
  induction budget using Nat.strongRecOn with
  | ind budget ih =>
      obtain ⟨callee, heq, hcallee⟩ := runWithin_eq_runBody limit budget
      rw [heq]
      intro ss m hss hm
      apply h.runBody_moves _ ss hss hm
      intro run hrun
      obtain ⟨smaller, hlt, rfl⟩ := hcallee run hrun
      exact ih smaller hlt

end Preserves

/-! ### What is stored -/

theorem Environment.procedures_set (env : Environment) (name : Text) (n : Int64) :
    (env.set name n).procedures = env.procedures := by
  rw [Environment.set]
  cases env.frames <;> rfl

/-- The statements of the stored bodies have the property. -/
def Environment.Stores (P : Statement → Prop) (env : Environment) : Prop :=
  ∀ p ∈ env.procedures, ∀ s ∈ p.body, P s

namespace Environment.Stores

variable {P : Statement → Prop} {env : Environment}

theorem congr (h : env.Stores P) {env' : Environment}
    (hprocedures : env'.procedures = env.procedures) : env'.Stores P := by
  intro p hp
  rw [hprocedures] at hp
  exact h p hp

theorem declare (h : env.Stores P) {p : Procedure} (hp : ∀ s ∈ p.body, P s) :
    (env.declare p).Stores P := by
  intro q hq
  rcases List.mem_append.1 hq with hold | hnew
  · exact h q hold
  · rw [List.mem_singleton.1 hnew]
    exact hp

end Environment.Stores

/-- What is declared is stored, and nothing else is. -/
theorem preserves_stores {P allowed : Statement → Prop}
    (looped : ∀ {line count body}, allowed (.loop line count body) → ∀ s ∈ body, allowed s)
    (stored : ∀ s, P s → allowed s)
    (declared : ∀ {line name parameters body},
      allowed (.procedure line name parameters body) → ∀ s ∈ body, P s) :
    Preserves (fun m => m.environment.Stores P) allowed
      (fun _ m' => m'.environment.Stores P) where
  refl := fun hm => hm
  trans := fun _ h => h
  keeps := fun _ h => h
  looped := looped
  stored := fun hm p hp s hs => stored s (hm p hp s hs)
  emit := fun hm _ => hm
  set := fun {m} hm name n => hm.congr (m.environment.procedures_set name n)
  declare := fun hm h _ _ => hm.declare (declared h)
  enter := fun hm _ => hm
  leave := fun _ h => h

end Turtle
