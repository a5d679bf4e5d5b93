import Turtle.Proofs.Evaluation.Reach

/-!
Why every run ends.

Here the evaluator is described without a budget. A task is a body, a statement
or the rounds of a loop that are left. A task ends with an outcome if there is a
derivation for it, and derivations are finite: nothing is said in advance about
a task that would go on for ever. A call is refused if there are as many frames
as the limit allows, and a loop counts its rounds in a 64-bit word, adding one to
it without a look at the result.

A task starts others, and each of these is smaller. A call leaves fewer frames
that could still be added, whatever body it runs. All other tasks leave the
frames as they are, and are parts of the task that starts them, except that a
loop goes on to its next round with one round less to come. Hence no chain of
tasks goes on for ever, every task ends, and it ends as the run with a budget
does.
-/

namespace Turtle

/-! ### Tasks -/

inductive Task
  | body (ss : List Statement)
  | statement (s : Statement)
  /-- A loop behind some of its rounds. -/
  | rounds (finished count : Int64) (body : List Statement)

mutual

/-- The size of a statement, with all the statements in it. -/
def Statement.size : Statement → Nat
  | .procedure _ _ _ body => bodySize body + 2
  | .loop _ _ body => bodySize body + 2
  | .call .. | .assign .. => 1

def bodySize : List Statement → Nat
  | [] => 0
  | s :: rest => s.size + bodySize rest + 1

end

namespace Task

/-- The rounds of a loop are less than the loop and more than its body. -/
def size : Task → Nat
  | body ss => bodySize ss
  | statement s => s.size
  | rounds _ _ ss => bodySize ss + 1

/-- How many rounds are left. -/
def left : Task → Nat
  | rounds finished count _ => (count.toInt - finished.toInt).toNat
  | _ => 0

end Task

/-- How a task ends. -/
inductive Ends (limit : Nat) : Task → Machine → Outcome → Prop
  | nil {m : Machine} : Ends limit (.body []) m m.done
  | next {s : Statement} {rest : List Statement} {m m' : Machine} {o : Outcome}
      (hfirst : Ends limit (.statement s) m m'.done) (hrest : Ends limit (.body rest) m' o) :
      Ends limit (.body (s :: rest)) m o
  | stopped {s : Statement} {rest : List Statement} {m m' : Machine} {f : Fault}
      (hfirst : Ends limit (.statement s) m (m', some f)) :
      Ends limit (.body (s :: rest)) m (m', some f)
  | procedure {line : Nat} {name : Text} {parameters : List Text} {body : List Statement}
      {m : Machine} :
      Ends limit (.statement (.procedure line name parameters body)) m
        (m.declare line ⟨name, parameters, body⟩)
  | assign {line : Nat} {name : Text} {e : Expr} {m : Machine} :
      Ends limit (.statement (.assign line name e)) m (m.assign name e)
  | noCount {line : Nat} {count : Expr} {body : List Statement} {m : Machine} {f : Fault}
      (hcount : m.environment.evaluate count = .error f) :
      Ends limit (.statement (.loop line count body)) m (m, some f)
  | loop {line : Nat} {count : Expr} {body : List Statement} {m : Machine} {n : Int64}
      {o : Outcome} (hcount : m.environment.evaluate count = .ok n)
      (hrounds : Ends limit (.rounds 0 n body) m o) :
      Ends limit (.statement (.loop line count body)) m o
  | finished {i n : Int64} {body : List Statement} {m : Machine} (hi : ¬ i < n) :
      Ends limit (.rounds i n body) m m.done
  | round {i n : Int64} {body : List Statement} {m m' : Machine} {o : Outcome} (hi : i < n)
      (hbody : Ends limit (.body body) m m'.done)
      (hrounds : Ends limit (.rounds (i + 1) n body) m' o) :
      Ends limit (.rounds i n body) m o
  | broken {i n : Int64} {body : List Statement} {m m' : Machine} {f : Fault} (hi : i < n)
      (hbody : Ends limit (.body body) m (m', some f)) :
      Ends limit (.rounds i n body) m (m', some f)
  | command {line : Nat} {name : Text} {arguments : List Expr} {m : Machine} {c : Command}
      (hname : Command.find? name = some c) :
      Ends limit (.statement (.call line name arguments)) m (m.command line name c arguments)
  | unknown {line : Nat} {name : Text} {arguments : List Expr} {m : Machine}
      (hname : Command.find? name = none) (hp : m.environment.procedure? name = none) :
      Ends limit (.statement (.call line name arguments)) m (m.fail line (.unknownProcedure name))
  | arity {line : Nat} {name : Text} {arguments : List Expr} {m : Machine} {p : Procedure}
      (hname : Command.find? name = none) (hp : m.environment.procedure? name = some p)
      (harity : arguments.length ≠ p.parameters.length) :
      Ends limit (.statement (.call line name arguments)) m
        (m.fail line (.argumentCount p.name p.parameters.length arguments.length))
  | tooDeep {line : Nat} {name : Text} {arguments : List Expr} {m : Machine} {p : Procedure}
      (hname : Command.find? name = none) (hp : m.environment.procedure? name = some p)
      (harity : arguments.length = p.parameters.length)
      (hdepth : limit ≤ m.environment.frames.length) :
      Ends limit (.statement (.call line name arguments)) m (m.fail line (.callDepth p.name limit))
  | argument {line : Nat} {name : Text} {arguments : List Expr} {m : Machine} {p : Procedure}
      {f : Fault} (hname : Command.find? name = none)
      (hp : m.environment.procedure? name = some p)
      (harity : arguments.length = p.parameters.length)
      (hdepth : m.environment.frames.length < limit)
      (hvalues : m.environment.evaluateAll arguments = .error f) :
      Ends limit (.statement (.call line name arguments)) m (m, some f)
  | invoke {line : Nat} {name : Text} {arguments : List Expr} {m m' : Machine} {p : Procedure}
      {values : List Int64} {fault : Option Fault} (hname : Command.find? name = none)
      (hp : m.environment.procedure? name = some p)
      (harity : arguments.length = p.parameters.length)
      (hdepth : m.environment.frames.length < limit)
      (hvalues : m.environment.evaluateAll arguments = .ok values)
      (hbody : Ends limit (.body p.body) (m.push (p.parameters.zipWith Binding.mk values))
        (m', fault)) :
      Ends limit (.statement (.call line name arguments)) m (m'.pop, fault)

/-- A task and the machine before it. -/
structure Activation where
  task : Task
  machine : Machine

/-- The tasks that a task starts. -/
inductive Starts (limit : Nat) : Activation → Activation → Prop
  | first {s : Statement} {rest : List Statement} {m : Machine} :
      Starts limit ⟨.body (s :: rest), m⟩ ⟨.statement s, m⟩
  | rest {s : Statement} {rest : List Statement} {m m' : Machine}
      (hfirst : Ends limit (.statement s) m m'.done) :
      Starts limit ⟨.body (s :: rest), m⟩ ⟨.body rest, m'⟩
  | loop {line : Nat} {count : Expr} {body : List Statement} {m : Machine} {n : Int64}
      (hcount : m.environment.evaluate count = .ok n) :
      Starts limit ⟨.statement (.loop line count body), m⟩ ⟨.rounds 0 n body, m⟩
  | round {i n : Int64} {body : List Statement} {m : Machine} (hi : i < n) :
      Starts limit ⟨.rounds i n body, m⟩ ⟨.body body, m⟩
  | again {i n : Int64} {body : List Statement} {m m' : Machine} (hi : i < n)
      (hbody : Ends limit (.body body) m m'.done) :
      Starts limit ⟨.rounds i n body, m⟩ ⟨.rounds (i + 1) n body, m'⟩
  | invoke {line : Nat} {name : Text} {arguments : List Expr} {m : Machine} {p : Procedure}
      {values : List Int64} (hname : Command.find? name = none)
      (hp : m.environment.procedure? name = some p)
      (harity : arguments.length = p.parameters.length)
      (hdepth : m.environment.frames.length < limit)
      (hvalues : m.environment.evaluateAll arguments = .ok values) :
      Starts limit ⟨.statement (.call line name arguments), m⟩
        ⟨.body p.body, m.push (p.parameters.zipWith Binding.mk values)⟩

/-- A loop has come to the beginning of a round, or to its end, after a number of
rounds. -/
inductive Rounds (limit : Nat) (n : Int64) (body : List Statement) :
    Nat → Int64 → Machine → Machine → Prop
  | none {m : Machine} : Rounds limit n body 0 0 m m
  | more {k : Nat} {i : Int64} {m m' m'' : Machine} (h : Rounds limit n body k i m m')
      (hi : i < n) (hbody : Ends limit (.body body) m' m''.done) :
      Rounds limit n body (k + 1) (i + 1) m m''

/-! ### Counting rounds -/

/-- As long as there is a round to come, the counter can be increased. -/
theorem toInt_succ {i n : Int64} (h : i < n) : (i + 1).toInt = i.toInt + 1 := by
  have hlt : i.toInt < n.toInt := Int64.lt_iff_toInt_lt.1 h
  have hlow := i.le_toInt
  have hhigh := n.toInt_lt
  rw [Int64.toInt_add, show (1 : Int64).toInt = 1 from rfl]
  exact Int.bmod_eq_of_le (by omega) (by omega)

/-- One round is less to come then. -/
theorem left_succ {i n : Int64} (h : i < n) :
    (n.toInt - i.toInt).toNat = (n.toInt - (i + 1).toInt).toNat + 1 := by
  have hlt : i.toInt < n.toInt := Int64.lt_iff_toInt_lt.1 h
  rw [toInt_succ h]
  omega

theorem left_of_not_lt {i n : Int64} (h : ¬ i < n) : (n.toInt - i.toInt).toNat = 0 := by
  rw [Int64.lt_iff_toInt_lt] at h
  omega

/-- The counter tells how many rounds there were. -/
theorem Rounds.counter {limit : Nat} {n : Int64} {body : List Statement} {k : Nat} {i : Int64}
    {m m' : Machine} (h : Rounds limit n body k i m m') :
    i.toInt = k ∧ (k : Int) ≤ max 0 n.toInt := by
  induction h with
  | none => exact ⟨rfl, le_max_left 0 _⟩
  | more _ hi _ ih =>
      obtain ⟨hcounter, -⟩ := ih
      have hlt := Int64.lt_iff_toInt_lt.1 hi
      have hnext := toInt_succ hi
      refine ⟨by omega, le_max_of_le_right (by omega)⟩

/-! ### Tasks end as they run -/

section

variable {limit : Nat} {m m' : Machine}

/-- How the machine runs calls, with all the frames that are not there yet. -/
def Machine.callee (limit : Nat) (m : Machine) : Machine.Callee :=
  calleeWithin limit (limit - m.environment.frames.length)

/-- How a task runs with a budget. -/
def Task.outcome (limit : Nat) (t : Task) (m : Machine) : Outcome :=
  match t with
  | body ss => runBody limit (m.callee limit) ss m
  | statement s => runStatement limit (m.callee limit) s m
  | rounds finished count ss =>
    m.iterate (runBody limit (m.callee limit) ss) (count.toInt - finished.toInt).toNat

theorem Task.confined_outcome (limit : Nat) (t : Task) (m : Machine) :
    Confined m (t.outcome limit m).1 := by
  have hcallee := preserves_confined.respects_callee limit (limit - m.environment.frames.length)
  have hbody : ∀ ss m', Confined m' (runBody limit (m.callee limit) ss m').1 :=
    fun ss _ => preserves_confined.runBody_moves hcallee ss (fun _ _ => trivial) trivial
  cases t with
  | body ss => exact hbody ss m
  | statement s => exact preserves_confined.runStatement_moves hcallee s trivial trivial
  | rounds finished count ss =>
      exact preserves_confined.iterate_moves (fun m' _ => hbody ss m') _ trivial

/-- A task that is done leaves as many frames as there were. -/
theorem Task.callee_of_done {t : Task} (h : m'.done = t.outcome limit m) :
    m'.callee limit = m.callee limit := by
  have hconfined := t.confined_outcome limit m
  rw [← h] at hconfined
  exact congrArg (fun depth => calleeWithin limit (limit - depth)) hconfined.depth

theorem Machine.callee_of_le (h : limit ≤ m.environment.frames.length) :
    m.callee limit = none := by
  rw [Machine.callee, Nat.sub_eq_zero_of_le h]
  rfl

/-- In the frame of a call, calls are run with one frame less to come. -/
theorem Machine.callee_of_lt (h : m.environment.frames.length < limit) (frame : Scope) :
    m.callee limit = some (runBody limit ((m.push frame).callee limit)) := by
  have hbudget : limit - m.environment.frames.length =
      (limit - (m.push frame).environment.frames.length) + 1 := by
    simp only [Machine.push, Environment.push, List.length_cons]
    omega
  rw [Machine.callee, hbudget, calleeWithin, runWithin_eq_calleeWithin]
  rfl

theorem Machine.call_eq_invoke {callee : Machine.Callee} {line : Nat} {name : Text}
    {arguments : List Expr} {p : Procedure} (hname : Command.find? name = none)
    (hp : m.environment.procedure? name = some p) :
    m.call limit callee line name arguments = m.invoke limit callee line p arguments := by
  simp only [Machine.call, hname, hp]

/-- A task ends only as it runs. -/
theorem Ends.eq_outcome {t : Task} {o : Outcome} (h : Ends limit t m o) :
    o = t.outcome limit m := by
  induction h with
  | nil => rfl
  | next _ _ ihfirst ihrest =>
      have hcallee := Task.callee_of_done ihfirst
      simp only [Task.outcome] at ihfirst ihrest ⊢
      rw [runBody_cons, ← ihfirst, ihrest, hcallee]
      rfl
  | stopped _ ihfirst =>
      simp only [Task.outcome] at ihfirst ⊢
      rw [runBody_cons, ← ihfirst]
      rfl
  | procedure => rfl
  | assign => rfl
  | noCount hcount =>
      simp only [Task.outcome]
      rw [runStatement, hcount]
  | loop hcount _ ihrounds =>
      simp only [Task.outcome, Int64.toInt_zero, Int.sub_zero] at ihrounds ⊢
      rw [runStatement, hcount, ihrounds]
  | finished hi =>
      simp only [Task.outcome]
      rw [left_of_not_lt hi]
      rfl
  | round hi _ _ ihbody ihrounds =>
      have hcallee := Task.callee_of_done ihbody
      simp only [Task.outcome] at ihbody ihrounds ⊢
      rw [left_succ hi, Machine.iterate_succ, ← ihbody, ihrounds, hcallee]
      rfl
  | broken hi _ ihbody =>
      simp only [Task.outcome] at ihbody ⊢
      rw [left_succ hi, Machine.iterate_succ, ← ihbody]
      rfl
  | command hname =>
      simp only [Task.outcome]
      rw [runStatement, Machine.call, hname]
  | unknown hname hp =>
      simp only [Task.outcome]
      rw [runStatement, Machine.call, hname, hp]
  | arity hname hp harity =>
      simp only [Task.outcome]
      rw [runStatement, Machine.call_eq_invoke hname hp]
      unfold Machine.invoke
      rw [if_pos harity]
  | tooDeep hname hp harity hdepth =>
      simp only [Task.outcome]
      rw [runStatement, Machine.call_eq_invoke hname hp]
      unfold Machine.invoke
      rw [if_neg (not_not.2 harity), Machine.callee_of_le hdepth]
  | argument hname hp harity hdepth hvalues =>
      simp only [Task.outcome]
      rw [runStatement, Machine.call_eq_invoke hname hp]
      unfold Machine.invoke
      rw [if_neg (not_not.2 harity), Machine.callee_of_lt hdepth [], hvalues]
  | @invoke line name arguments m m' p values fault hname hp harity hdepth hvalues _ ihbody =>
      have hcallee := Machine.callee_of_lt hdepth (p.parameters.zipWith Binding.mk values)
      simp only [Task.outcome] at ihbody ⊢
      rw [runStatement, Machine.call_eq_invoke hname hp]
      unfold Machine.invoke
      rw [if_neg (not_not.2 harity), hcallee, hvalues]
      simp only [← ihbody]

theorem Ends.depth_eq {t : Task} {o : Outcome} (h : Ends limit t m o) :
    o.1.environment.frames.length = m.environment.frames.length := by
  rw [h.eq_outcome]
  exact (t.confined_outcome limit m).depth

/-- A call ends if the body ends, should there be one that is run. -/
theorem exists_ends_call (line : Nat) (name : Text) (arguments : List Expr)
    (hbody : ∀ (p : Procedure) (frame : Scope), m.environment.frames.length < limit →
      ∃ o, Ends limit (.body p.body) (m.push frame) o) :
    ∃ o, Ends limit (.statement (.call line name arguments)) m o := by
  cases hname : Command.find? name with
  | some c => exact ⟨_, .command hname⟩
  | none =>
      cases hp : m.environment.procedure? name with
      | none => exact ⟨_, .unknown hname hp⟩
      | some p =>
          by_cases harity : arguments.length = p.parameters.length
          · rcases lt_or_ge m.environment.frames.length limit with hdepth | hdepth
            · cases hvalues : m.environment.evaluateAll arguments with
              | error f => exact ⟨_, .argument hname hp harity hdepth hvalues⟩
              | ok values =>
                  obtain ⟨⟨m', fault⟩, hends⟩ := hbody p _ hdepth
                  exact ⟨_, .invoke hname hp harity hdepth hvalues hends⟩
            · exact ⟨_, .tooDeep hname hp harity hdepth⟩
          · exact ⟨_, .arity hname hp harity⟩

end

/-! ### Started tasks are smaller -/

namespace Activation

/-- How many frames can still be added. -/
def remaining (limit : Nat) (x : Activation) : Nat :=
  limit - x.machine.environment.frames.length

/-- First come the frames, then the size of the task, then its rounds. -/
def measure (limit : Nat) (x : Activation) : Nat × Nat × Nat :=
  (x.remaining limit, x.task.size, x.task.left)

/-- The order by which started tasks are smaller. -/
abbrev Below (limit : Nat) (y x : Activation) : Prop :=
  Prod.Lex (· < ·) (Prod.Lex (· < ·) (· < ·)) (y.measure limit) (x.measure limit)

theorem wellFounded_below (limit : Nat) : WellFounded (Below limit) :=
  InvImage.wf (measure limit)
    (Prod.lex Nat.lt_wfRel (Prod.lex Nat.lt_wfRel Nat.lt_wfRel)).wf

variable {limit : Nat} {x y : Activation}

theorem below_of_remaining (h : y.remaining limit < x.remaining limit) : Below limit y x :=
  .left _ _ h

theorem below_of_size (hremaining : y.remaining limit = x.remaining limit)
    (h : y.task.size < x.task.size) : Below limit y x := by
  rw [Below, measure, measure, hremaining]
  exact .right _ (.left _ _ h)

theorem below_of_left (hremaining : y.remaining limit = x.remaining limit)
    (hsize : y.task.size = x.task.size) (h : y.task.left < x.task.left) : Below limit y x := by
  rw [Below, measure, measure, hremaining, hsize]
  exact .right _ (.right _ h)

theorem remaining_of_ends {t : Task} {m : Machine} {o : Outcome} (h : Ends limit t m o)
    (t' : Task) :
    (⟨t', o.1⟩ : Activation).remaining limit = (⟨t, m⟩ : Activation).remaining limit :=
  congrArg (limit - ·) h.depth_eq

theorem remaining_push {m : Machine} (h : m.environment.frames.length < limit) (frame : Scope)
    (t t' : Task) :
    (⟨t', m.push frame⟩ : Activation).remaining limit < (⟨t, m⟩ : Activation).remaining limit := by
  simp only [remaining, Machine.push, Environment.push, List.length_cons]
  omega

/-- In which sense a started task is smaller than the one that starts it. -/
def Smaller (limit : Nat) (y x : Activation) : Prop :=
  match x.task with
  | .statement (.call ..) => y.remaining limit < x.remaining limit
  | .rounds i n body =>
    y.remaining limit = x.remaining limit ∧
      (y.task = .body body ∨ y.task = .rounds (i + 1) n body ∧ y.task.left < x.task.left)
  | _ => y.remaining limit = x.remaining limit ∧ y.task.size < x.task.size

theorem Smaller.below (h : Smaller limit y x) : Below limit y x := by
  obtain ⟨t, m⟩ := x
  cases t with
  | body ss => exact below_of_size h.1 h.2
  | rounds i n body =>
      obtain ⟨hremaining, hbody | ⟨hrounds, hleft⟩⟩ := h
      · apply below_of_size hremaining
        rw [hbody]
        exact Nat.lt_succ_self _
      · apply below_of_left hremaining _ hleft
        rw [hrounds]
        rfl
  | statement s =>
      cases s with
      | call line name arguments => exact below_of_remaining h
      | procedure line name parameters body => exact below_of_size h.1 h.2
      | assign line name e => exact below_of_size h.1 h.2
      | loop line count body => exact below_of_size h.1 h.2

end Activation

variable {limit : Nat} {x y : Activation}

theorem left_lt {i n : Int64} (h : i < n) (body : List Statement) :
    (Task.rounds (i + 1) n body).left < (Task.rounds i n body).left := by
  simp only [Task.left, left_succ h]
  exact Nat.lt_succ_self _

theorem size_first_lt (s : Statement) (rest : List Statement) :
    (Task.statement s).size < (Task.body (s :: rest)).size := by
  simp only [Task.size, bodySize]
  omega

theorem size_rest_lt (s : Statement) (rest : List Statement) :
    (Task.body rest).size < (Task.body (s :: rest)).size := by
  simp only [Task.size, bodySize]
  omega

theorem size_rounds_lt (line : Nat) (count : Expr) (i n : Int64) (body : List Statement) :
    (Task.rounds i n body).size < (Task.statement (.loop line count body)).size := by
  simp only [Task.size, Statement.size]
  omega

theorem Starts.smaller (h : Starts limit x y) : y.Smaller limit x := by
  cases h with
  | first => exact ⟨rfl, size_first_lt ..⟩
  | rest hfirst => exact ⟨Activation.remaining_of_ends hfirst _, size_rest_lt ..⟩
  | loop _ => exact ⟨rfl, size_rounds_lt ..⟩
  | round _ => exact ⟨rfl, .inl rfl⟩
  | again hi hbody => exact ⟨Activation.remaining_of_ends hbody _, .inr ⟨rfl, left_lt hi _⟩⟩
  | invoke _ _ _ hdepth _ => exact Activation.remaining_push hdepth ..

/-- No chain of started tasks goes on for ever. -/
theorem wellFounded_starts (limit : Nat) : WellFounded fun y x => Starts limit x y :=
  Subrelation.wf (fun h => h.smaller.below) (Activation.wellFounded_below limit)

/-! ### Every task ends -/

/-- The body of a loop or a procedure, or what is left of it, ends if all that is
smaller does. -/
theorem exists_ends_body (ss : List Statement) (m : Machine)
    (ih : ∀ y : Activation, y.Below limit ⟨.body ss, m⟩ → ∃ o, Ends limit y.task y.machine o) :
    ∃ o, Ends limit (.body ss) m o := by
  cases ss with
  | nil => exact ⟨_, .nil⟩
  | cons s rest =>
      obtain ⟨⟨m', fault⟩, hfirst⟩ :=
        ih ⟨.statement s, m⟩ (Activation.below_of_size rfl (size_first_lt s rest))
      cases fault with
      | some f => exact ⟨_, .stopped hfirst⟩
      | none =>
          have hremaining := Activation.remaining_of_ends hfirst (.body rest)
          obtain ⟨o, hrest⟩ :=
            ih ⟨.body rest, m'⟩ (Activation.below_of_size hremaining (size_rest_lt s rest))
          exact ⟨o, .next hfirst hrest⟩

theorem exists_ends_rounds (i n : Int64) (body : List Statement) (m : Machine)
    (ih : ∀ y : Activation, y.Below limit ⟨.rounds i n body, m⟩ →
      ∃ o, Ends limit y.task y.machine o) :
    ∃ o, Ends limit (.rounds i n body) m o := by
  by_cases hi : i < n
  · obtain ⟨⟨m', fault⟩, hbody⟩ :=
      ih ⟨.body body, m⟩ (Activation.below_of_size rfl (Nat.lt_succ_self _))
    cases fault with
    | some f => exact ⟨_, .broken hi hbody⟩
    | none =>
        have hremaining := Activation.remaining_of_ends hbody (.rounds (i + 1) n body)
        obtain ⟨o, hrounds⟩ := ih ⟨.rounds (i + 1) n body, m'⟩
          (Activation.below_of_left hremaining rfl (left_lt hi body))
        exact ⟨o, .round hi hbody hrounds⟩
  · exact ⟨_, .finished hi⟩

theorem exists_ends (limit : Nat) (x : Activation) : ∃ o, Ends limit x.task x.machine o := by
  induction x using (Activation.wellFounded_below limit).induction with
  | _ x ih =>
      obtain ⟨t, m⟩ := x
      match t with
      | .body ss => exact exists_ends_body ss m ih
      | .rounds i n body => exact exists_ends_rounds i n body m ih
      | .statement (.procedure line name parameters body) => exact ⟨_, .procedure⟩
      | .statement (.assign line name e) => exact ⟨_, .assign⟩
      | .statement (.loop line count body) =>
          cases hcount : m.environment.evaluate count with
          | error f => exact ⟨_, .noCount hcount⟩
          | ok n =>
              obtain ⟨o, hrounds⟩ := ih ⟨.rounds 0 n body, m⟩
                (Activation.below_of_size rfl (size_rounds_lt line count 0 n body))
              exact ⟨o, .loop hcount hrounds⟩
      | .statement (.call line name arguments) =>
          apply exists_ends_call
          intro p frame hdepth
          exact ih ⟨.body p.body, m.push frame⟩
            (Activation.below_of_remaining (Activation.remaining_push hdepth frame _ _))

/-- Every task ends with exactly one outcome, whatever procedures and frames there
are, and the outcome of a body is its run. This is so because a task only starts
smaller tasks: with a call there is one frame less that can be added, in any other
case less to run, or one round less of the same loop. The counter of a loop is the
number of rounds there were, at most as many as were asked for and none for a
negative number, and it never overflows. -/
theorem evaluation_ends (limit : Nat) :
    (∀ t m, ∃! o, Ends limit t m o) ∧
      (∀ ss m o, Ends limit (.body ss) m o ↔ o = run limit ss m) ∧
      WellFounded (fun y x => Starts limit x y) ∧
      (∀ x y, Starts limit x y → y.Smaller limit x) ∧
      ∀ n body k i m m', Rounds limit n body k i m m' →
        i.toInt = k ∧ (k : Int) ≤ max 0 n.toInt ∧ (i < n → (i + 1).toInt = i.toInt + 1) := by
  have hunique : ∀ t m, ∃! o, Ends limit t m o := by
    intro t m
    obtain ⟨o, hends⟩ := exists_ends limit ⟨t, m⟩
    exact ⟨o, hends, fun o' hends' => hends'.eq_outcome.trans hends.eq_outcome.symm⟩
  refine ⟨hunique, ?_, wellFounded_starts limit, fun x y h => h.smaller, ?_⟩
  · intro ss m o
    have hrun : (Task.body ss).outcome limit m = run limit ss m := by
      rw [run, runWithin_eq_calleeWithin]
      rfl
    constructor
    · intro hends
      rw [← hrun]
      exact hends.eq_outcome
    · rintro rfl
      obtain ⟨o, hends, -⟩ := hunique (.body ss) m
      rwa [← hrun, ← hends.eq_outcome]
  · intro n body k i m m' hrounds
    obtain ⟨hcounter, hcount⟩ := hrounds.counter
    exact ⟨hcounter, hcount, toInt_succ⟩

/-- A procedure that calls itself in a loop ends at the limit, in the first round of
each loop. A loop over an empty body counts its rounds. -/
theorem evaluation_ends_recursive :
    let again : Statement := .call 1 (ascii "f") []
    let f : Procedure := ⟨ascii "f", [], [.loop 1 ⟨1, .single (.number 9)⟩ [again]]⟩
    let m : Machine := ⟨⟨[], [], [f]⟩, #[]⟩
    let x : Activation := ⟨.statement again, m⟩
    let y : Activation := ⟨.body f.body, m.push []⟩
    (Starts 3 x y ∧ Rounds 3 3 [] 2 (0 + 1 + 1) m m) ∧
      (∃ o, Ends 3 (.body [again]) m o ∧ o.2 = some ⟨1, .callDepth (ascii "f") 3⟩) ∧
      y.remaining 3 < x.remaining 3 ∧
      (0 + 1 + 1 : Int64).toInt = 2 ∧ (0 + 1 + 1 + 1 : Int64).toInt = 3 := by
  intro again f m x y
  have hstarts : Starts 3 x y :=
    .invoke (p := f) (by decide) rfl rfl (by decide) rfl
  have hrounds : Rounds 3 3 [] 2 (0 + 1 + 1) m m :=
    .more (.more .none (by decide) .nil) (by decide) .nil
  obtain ⟨-, hends, -, hsmaller, hcounts⟩ := evaluation_ends 3
  obtain ⟨hcounter, -, hnext⟩ := hcounts _ _ _ _ _ _ hrounds
  have hfault : (run 3 [again] m).2 = some ⟨1, .callDepth (ascii "f") 3⟩ := by decide +kernel
  refine ⟨⟨hstarts, hrounds⟩, ⟨_, (hends _ _ _).2 rfl, hfault⟩, hsmaller x y hstarts, hcounter, ?_⟩
  rw [hnext (by decide), hcounter]
  rfl

end Turtle
