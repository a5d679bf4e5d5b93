import Mathlib.Logic.Relation
import Turtle.Proofs.Evaluation.Isolation

/-!
The points that a run comes to.

A point is what is left of a body, with the machine before it and the budget
for calls. From there a run moves on: behind the first statement, into a round
of a loop, or into the body of a procedure that is called. With each move the
budget gets smaller, or there is less left to run. What holds at the start and
is kept by the moves holds at every point. A fault, wherever it comes from,
stops the run at one of them, by the statement that is next there.
-/

namespace Turtle

/-! ### Points -/

/-- How calls are run that may be nested as deep as the budget. -/
def calleeWithin (limit : Nat) : (budget : Nat) → Machine.Callee
  | 0 => none
  | budget + 1 => some (runWithin limit budget)

theorem runWithin_eq_calleeWithin (limit budget : Nat) :
    runWithin limit budget = runBody limit (calleeWithin limit budget) := by
  cases budget <;> rfl

theorem run_singleton (limit : Nat) (s : Statement) (m : Machine) :
    run limit [s] m =
      runStatement limit (calleeWithin limit (limit - m.environment.frames.length)) s m := by
  rw [run, runWithin_eq_calleeWithin, runBody_singleton]

/-- The statements left of a body, the machine before them, and how deep calls
may be nested from there. -/
structure Point where
  budget : Nat
  statements : List Statement
  machine : Machine

namespace Point

/-- Where a run starts. -/
def start (limit : Nat) (ss : List Statement) (m : Machine) : Point :=
  ⟨limit - m.environment.frames.length, ss, m⟩

/-- How the run goes on from the point. -/
def outcome (limit : Nat) (x : Point) : Outcome :=
  runWithin limit x.budget x.statements x.machine

theorem outcome_start (limit : Nat) (ss : List Statement) (m : Machine) :
    (start limit ss m).outcome limit = run limit ss m := rfl

/-- The frames there are, and those that there can still be. -/
def depth (x : Point) : Nat :=
  x.machine.environment.frames.length + x.budget

end Point

/-- How a run moves on from a point. -/
inductive Moves (limit : Nat) : Point → Point → Prop
  /-- Behind the first statement. -/
  | next {budget : Nat} {s : Statement} {m m' : Machine} (rest : List Statement)
      (h : runStatement limit (calleeWithin limit budget) s m = m'.done) :
      Moves limit ⟨budget, s :: rest, m⟩ ⟨budget, rest, m'⟩
  /-- Into a round of a loop, behind the rounds before it. -/
  | round {budget line k : Nat} {count : Expr} {body : List Statement} {n : Int64}
      {m m' : Machine} (rest : List Statement) (hcount : m.environment.evaluate count = .ok n)
      (hk : k < n.toInt.toNat)
      (h : m.iterate (runBody limit (calleeWithin limit budget) body) k = m'.done) :
      Moves limit ⟨budget, .loop line count body :: rest, m⟩ ⟨budget, body, m'⟩
  /-- Into the body of a procedure, with a frame of its own. -/
  | enter {budget line : Nat} {name : Text} {arguments : List Expr} {p : Procedure}
      {values : List Int64} {m : Machine} (rest : List Statement)
      (hname : Command.find? name = none) (hp : m.environment.procedure? name = some p)
      (harity : arguments.length = p.parameters.length)
      (hvalues : m.environment.evaluateAll arguments = .ok values) :
      Moves limit ⟨budget + 1, .call line name arguments :: rest, m⟩
        ⟨budget, p.body, m.push (p.parameters.zipWith Binding.mk values)⟩

/-- The second point is one that a run from the first comes to. -/
abbrev Reaches (limit : Nat) : Point → Point → Prop :=
  Relation.ReflTransGen (Moves limit)

variable {limit : Nat} {x y : Point}

/-- A move leaves less to run, or less budget to run it with. -/
theorem Moves.smaller (h : Moves limit x y) :
    Prod.Lex (· < ·) (· < ·) (y.budget, sizeOf y.statements) (x.budget, sizeOf x.statements) := by
  cases h with
  | next rest h =>
      apply Prod.Lex.right
      simp
  | round rest hcount hk h =>
      apply Prod.Lex.right
      simp
      omega
  | enter rest hname hp harity hvalues =>
      apply Prod.Lex.left
      exact Nat.lt_succ_self _

theorem wellFounded_moves (limit : Nat) : WellFounded fun y x => Moves limit x y := by
  have hlex : WellFounded (Prod.Lex (· < ·) (· < ·) : Nat × Nat → Nat × Nat → Prop) :=
    (Prod.lex Nat.lt_wfRel Nat.lt_wfRel).wf
  exact Subrelation.wf (fun h => h.smaller)
    (InvImage.wf (fun x : Point => (x.budget, sizeOf x.statements)) hlex)

/-! ### What holds at every point -/

section Invariant

variable {inv : Machine → Prop} {allowed : Statement → Prop} {rel : Machine → Machine → Prop}

theorem Preserves.respects_callee (h : Preserves inv allowed rel) (limit budget : Nat) :
    ∀ run, calleeWithin limit budget = some run → Respects inv allowed rel run := by
  intro run hrun
  cases budget with
  | zero => cases hrun
  | succ budget =>
      cases hrun
      exact h.runWithin_moves limit budget

/-- What every move preserves holds at every point, as far as it is about
machines and the statements that are run. -/
theorem Preserves.moves (h : Preserves inv allowed rel) (hmoves : Moves limit x y)
    (hx : inv x.machine ∧ ∀ s ∈ x.statements, allowed s) :
    inv y.machine ∧ ∀ s ∈ y.statements, allowed s := by
  obtain ⟨hm, hallowed⟩ := hx
  cases hmoves with
  | @next budget s m m' rest hrun =>
      have hs : allowed s := hallowed s List.mem_cons_self
      have hrel : rel m (runStatement limit (calleeWithin limit budget) s m).1 :=
        h.runStatement_moves (h.respects_callee limit budget) s hs hm
      rw [hrun] at hrel
      exact ⟨h.keeps hm hrel, fun s hs => hallowed s (by simp [hs])⟩
  | @round budget line k count body n m m' rest hcount hk hrun =>
      have hbody : ∀ s ∈ body, allowed s := h.looped (hallowed _ List.mem_cons_self)
      have hround : ∀ m, inv m → rel m (runBody limit (calleeWithin limit budget) body m).1 :=
        fun m hm => h.runBody_moves (h.respects_callee limit budget) body hbody hm
      have hrel : rel m (m.iterate (runBody limit (calleeWithin limit budget) body) k).1 :=
        h.iterate_moves hround k hm
      rw [hrun] at hrel
      exact ⟨h.keeps hm hrel, hbody⟩
  | enter rest hname hp harity hvalues =>
      exact ⟨h.enter hm _, h.stored hm _ (List.mem_of_find?_eq_some hp)⟩

theorem Preserves.reaches (h : Preserves inv allowed rel) (hreaches : Reaches limit x y)
    (hx : inv x.machine ∧ ∀ s ∈ x.statements, allowed s) :
    inv y.machine ∧ ∀ s ∈ y.statements, allowed s := by
  induction hreaches with
  | refl => exact hx
  | tail _ hmoves ih => exact h.moves hmoves ih

end Invariant

/-- A frame takes one call of the budget. -/
theorem Moves.depth_eq (h : Moves limit x y) : y.depth = x.depth := by
  have hcallee := fun budget => preserves_confined.respects_callee limit budget
  cases h with
  | @next budget s m m' rest hrun =>
      have hconfined : Confined m (runStatement limit (calleeWithin limit budget) s m).1 :=
        preserves_confined.runStatement_moves (hcallee budget) s trivial trivial
      rw [hrun] at hconfined
      exact congrArg (· + budget) hconfined.depth
  | @round budget line k count body n m m' rest hcount hk hrun =>
      have hround : ∀ m, True → Confined m (runBody limit (calleeWithin limit budget) body m).1 :=
        fun m _ =>
          preserves_confined.runBody_moves (hcallee budget) body (fun _ _ => trivial) trivial
      have hconfined := preserves_confined.iterate_moves hround k (m := m) trivial
      rw [hrun] at hconfined
      exact congrArg (· + budget) hconfined.depth
  | enter rest hname hp harity hvalues =>
      simp only [Point.depth, Machine.push, Environment.push, List.length_cons]
      omega

theorem Reaches.depth_eq (h : Reaches limit x y) : y.depth = x.depth := by
  induction h with
  | refl => rfl
  | tail _ hmoves ih => exact hmoves.depth_eq.trans ih

/-! ### Where a fault stops a run -/

/-- The statement at the point is refused, with the fault. -/
inductive Stops (limit : Nat) : Point → Fault → Prop
  | redeclared {budget line : Nat} {name : Text} {parameters : List Text}
      {body rest : List Statement} {m : Machine}
      (h : (Command.find? name).isSome ∨ (m.environment.procedure? name).isSome) :
      Stops limit ⟨budget, .procedure line name parameters body :: rest, m⟩
        ⟨line, .redeclared name⟩
  | value {budget line : Nat} {name : Text} {e : Expr} {rest : List Statement} {m : Machine}
      {f : Fault} (h : m.environment.evaluate e = .error f) :
      Stops limit ⟨budget, .assign line name e :: rest, m⟩ f
  | count {budget line : Nat} {e : Expr} {body rest : List Statement} {m : Machine} {f : Fault}
      (h : m.environment.evaluate e = .error f) :
      Stops limit ⟨budget, .loop line e body :: rest, m⟩ f
  | unknown {budget line : Nat} {name : Text} {arguments : List Expr} {rest : List Statement}
      {m : Machine} (hname : Command.find? name = none)
      (hp : m.environment.procedure? name = none) :
      Stops limit ⟨budget, .call line name arguments :: rest, m⟩ ⟨line, .unknownProcedure name⟩
  | arity {budget line : Nat} {name : Text} {arguments : List Expr} {rest : List Statement}
      {m : Machine} {c : Command} (hname : Command.find? name = some c)
      (h : arguments.length ≠ c.arity) :
      Stops limit ⟨budget, .call line name arguments :: rest, m⟩
        ⟨line, .argumentCount name c.arity arguments.length⟩
  | parameters {budget line : Nat} {name : Text} {arguments : List Expr} {rest : List Statement}
      {m : Machine} {p : Procedure} (hname : Command.find? name = none)
      (hp : m.environment.procedure? name = some p) (h : arguments.length ≠ p.parameters.length) :
      Stops limit ⟨budget, .call line name arguments :: rest, m⟩
        ⟨line, .argumentCount p.name p.parameters.length arguments.length⟩
  | argument {budget line : Nat} {name : Text} {arguments : List Expr} {rest : List Statement}
      {m : Machine} {f : Fault} (h : m.environment.evaluateAll arguments = .error f) :
      Stops limit ⟨budget, .call line name arguments :: rest, m⟩ f
  | tooDeep {line : Nat} {name : Text} {arguments : List Expr} {rest : List Statement}
      {m : Machine} {p : Procedure} (hname : Command.find? name = none)
      (hp : m.environment.procedure? name = some p)
      (harity : arguments.length = p.parameters.length) :
      Stops limit ⟨0, .call line name arguments :: rest, m⟩ ⟨line, .callDepth p.name limit⟩

/-- A loop is stopped in one of its rounds. -/
theorem Machine.exists_round {run : Machine → Outcome} {n : Nat} {m : Machine} {f : Fault}
    (h : (m.iterate run n).2 = some f) :
    ∃ k < n, ∃ m', m.iterate run k = m'.done ∧ (run m').2 = some f := by
  induction n generalizing m with
  | zero => cases h
  | succ n ih =>
      rw [iterate] at h
      cases hout : run m with
      | mk m' fault =>
          rw [hout] at h
          cases fault with
          | some g => exact ⟨0, Nat.succ_pos n, m, rfl, by rw [hout]; exact h⟩
          | none =>
              obtain ⟨k, hk, m'', hrounds, hstop⟩ := ih h
              refine ⟨k + 1, Nat.succ_lt_succ hk, m'', ?_, hstop⟩
              rw [iterate, hout]
              exact hrounds

/-- A command is refused for the number of its arguments or for one of them. -/
theorem Machine.of_command_fault {m : Machine} {line : Nat} {name : Text} {c : Command}
    {arguments : List Expr} {f : Fault} (h : (m.command line name c arguments).2 = some f) :
    (arguments.length ≠ c.arity ∧ f = ⟨line, .argumentCount name c.arity arguments.length⟩) ∨
      m.environment.evaluateAll arguments = .error f := by
  rw [command] at h
  split_ifs at h with harity
  · cases h
    exact .inl ⟨harity, rfl⟩
  · cases hvalues : m.environment.evaluateAll arguments with
    | ok values => simp [hvalues, done] at h
    | error g =>
        simp only [hvalues] at h
        cases h
        exact .inr rfl

section Statements

variable {budget line : Nat} {name : Text} {arguments : List Expr} {m : Machine} {f : Fault}

/-- The call of a procedure that a fault stops is refused, or is stopped in the
body of the procedure. -/
theorem stops_or_moves_of_invoke {p : Procedure} (hname : Command.find? name = none)
    (hp : m.environment.procedure? name = some p)
    (h : (m.invoke limit (calleeWithin limit budget) line p arguments).2 = some f)
    (rest : List Statement) :
    Stops limit ⟨budget, .call line name arguments :: rest, m⟩ f ∨
      ∃ y, Moves limit ⟨budget, .call line name arguments :: rest, m⟩ y ∧
        (y.outcome limit).2 = some f := by
  unfold Machine.invoke at h
  split_ifs at h with harity
  · cases h
    exact .inl (.parameters hname hp harity)
  · cases budget with
    | zero =>
        cases h
        exact .inl (.tooDeep hname hp (not_not.1 harity))
    | succ budget =>
        simp only [calleeWithin] at h
        cases hvalues : m.environment.evaluateAll arguments with
        | error g =>
            simp only [hvalues] at h
            cases h
            exact .inl (.argument hvalues)
        | ok values =>
            simp only [hvalues] at h
            exact .inr ⟨_, .enter rest hname hp (not_not.1 harity) hvalues, h⟩

/-- A statement that a fault stops is refused, or is stopped in a body that it
moves into. -/
theorem stops_or_moves {s : Statement}
    (h : (runStatement limit (calleeWithin limit budget) s m).2 = some f)
    (rest : List Statement) :
    Stops limit ⟨budget, s :: rest, m⟩ f ∨
      ∃ y, Moves limit ⟨budget, s :: rest, m⟩ y ∧ (y.outcome limit).2 = some f := by
  cases s with
  | procedure line name parameters body =>
      rw [runStatement, Machine.declare_eq] at h
      split_ifs at h with htaken
      · cases h
        exact .inl (.redeclared (by simpa using htaken))
      · cases h
  | assign line name e =>
      rw [runStatement, Machine.assign] at h
      cases hvalue : m.environment.evaluate e with
      | ok n => simp [hvalue, Machine.done] at h
      | error g =>
          simp only [hvalue] at h
          cases h
          exact .inl (.value hvalue)
  | loop line count body =>
      rw [runStatement] at h
      cases hcount : m.environment.evaluate count with
      | error g =>
          simp only [hcount] at h
          cases h
          exact .inl (.count hcount)
      | ok n =>
          simp only [hcount] at h
          obtain ⟨k, hk, m', hrounds, hstop⟩ := Machine.exists_round h
          refine .inr ⟨⟨budget, body, m'⟩, .round rest hcount hk hrounds, ?_⟩
          rw [Point.outcome, runWithin_eq_calleeWithin]
          exact hstop
  | call line name arguments =>
      rw [runStatement, Machine.call] at h
      cases hname : Command.find? name with
      | some c =>
          simp only [hname] at h
          rcases Machine.of_command_fault h with ⟨harity, rfl⟩ | hargument
          · exact .inl (.arity hname harity)
          · exact .inl (.argument hargument)
      | none =>
          cases hp : m.environment.procedure? name with
          | none =>
              simp only [hname, hp] at h
              cases h
              exact .inl (.unknown hname hp)
          | some p =>
              simp only [hname, hp] at h
              exact stops_or_moves_of_invoke hname hp h rest

end Statements

/-- A fault stops a run at a point that it comes to. -/
theorem exists_stop {f : Fault} (h : (x.outcome limit).2 = some f) :
    ∃ y, Reaches limit x y ∧ Stops limit y f := by
  induction x using (wellFounded_moves limit).induction with
  | _ x ih =>
      obtain ⟨budget, ss, m⟩ := x
      have hlater : ∀ y, Moves limit ⟨budget, ss, m⟩ y → (y.outcome limit).2 = some f →
          ∃ z, Reaches limit ⟨budget, ss, m⟩ z ∧ Stops limit z f := by
        intro y hmoves hstop
        obtain ⟨z, hreaches, hstops⟩ := ih y hmoves hstop
        exact ⟨z, hreaches.head hmoves, hstops⟩
      cases ss with
      | nil =>
          rw [Point.outcome, runWithin_eq_calleeWithin] at h
          cases h
      | cons s rest =>
          rw [Point.outcome, runWithin_eq_calleeWithin, runBody] at h
          cases hout : runStatement limit (calleeWithin limit budget) s m with
          | mk m' fault =>
              rw [hout] at h
              cases fault with
              | none =>
                  apply hlater ⟨budget, rest, m'⟩ (.next rest hout)
                  rw [Point.outcome, runWithin_eq_calleeWithin]
                  exact h
              | some g =>
                  have hfault :
                      (runStatement limit (calleeWithin limit budget) s m).2 = some f := by
                    rw [hout]
                    exact h
                  rcases stops_or_moves hfault rest with hstops | ⟨y, hmoves, hstop⟩
                  · exact ⟨_, .refl, hstops⟩
                  · exact hlater y hmoves hstop

end Turtle
