import Turtle.Number.Series
import Turtle.Proofs.Canvas.Arguments
import Turtle.Proofs.Evaluation.Scoping

/-!
Where instructions come from.

A run emits an instruction at a point where a command is called with as many
arguments as it takes, all of which have values there. Nothing that is emitted is
ever taken back or changed: what a run has emitted is the beginning of what it
will have emitted. So for the instruction at a place there is a point, among those
that the run comes to, at which just as many instructions were emitted before.

The proof follows the moves of a run, as the one for faults does. What a statement
emits is emitted at the statement itself, or in a body that it moves into.
-/

namespace Turtle

/-! ### Instructions stay -/

theorem Confined.emitted_getElem? {m m' : Machine} (h : Confined m m') {k : Nat}
    (hk : k < m.emitted.size) : m'.emitted[k]? = m.emitted[k]? := by
  obtain ⟨more, hmore⟩ := h.emitted
  rw [hmore, Array.getElem?_append_left hk]

theorem confined_body (limit budget : Nat) (ss : List Statement) (m : Machine) :
    Confined m (runBody limit (calleeWithin limit budget) ss m).1 := by
  rw [← runWithin_eq_calleeWithin]
  exact confined_runWithin limit budget ss m

/-- The outcome has emitted the instruction at the place, behind what the machine
had emitted. -/
structure Adds (m : Machine) (o : Outcome) (k : Nat) (i : Instruction) : Prop where
  behind : m.emitted.size ≤ k
  found : o.1.emitted[k]? = some i

theorem Adds.emitted_ne {m : Machine} {o : Outcome} {k : Nat} {i : Instruction}
    (h : Adds m o k i) : o.1.emitted ≠ m.emitted := by
  intro hsame
  have hfound := h.found
  rw [hsame, Array.getElem?_eq_none h.behind] at hfound
  cases hfound

/-- What one statement leaves to those behind it is added by it or by them. -/
theorem Adds.andThen {m : Machine} {o : Outcome} {run : Machine → Outcome} {k : Nat}
    {i : Instruction} (hrun : ∀ m', Confined m' (run m').1) (h : Adds m (o.andThen run) k i) :
    Adds m o k i ∨ ∃ m', o = m'.done ∧ Adds m' (run m') k i := by
  obtain ⟨m', fault⟩ := o
  cases fault with
  | some f => exact .inl h
  | none =>
      by_cases hk : k < m'.emitted.size
      · refine .inl ⟨h.behind, ?_⟩
        rw [← h.found]
        exact ((hrun m').emitted_getElem? hk).symm
      · exact .inr ⟨m', rfl, Nat.le_of_not_lt hk, h.found⟩

/-- What a loop adds is added in one of its rounds. -/
theorem Machine.exists_adding_round {run : Machine → Outcome}
    (hrun : ∀ m, Confined m (run m).1) {n k : Nat} {m : Machine} {i : Instruction}
    (h : Adds m (m.iterate run n) k i) :
    ∃ j < n, ∃ m', m.iterate run j = m'.done ∧ Adds m' (run m') k i := by
  induction n generalizing m with
  | zero =>
      rw [iterate] at h
      exact (h.emitted_ne rfl).elim
  | succ n ih =>
      have hrounds : ∀ m', Confined m' (m'.iterate run n).1 :=
        fun m' => preserves_confined.iterate_moves (fun m _ => hrun m) n trivial
      rw [iterate_succ] at h
      rcases h.andThen hrounds with hfirst | ⟨m', hdone, hlater⟩
      · exact ⟨0, Nat.succ_pos n, m, rfl, hfirst⟩
      · obtain ⟨j, hj, m'', hbefore, hround⟩ := ih hlater
        refine ⟨j + 1, Nat.succ_lt_succ hj, m'', ?_, hround⟩
        rw [iterate_succ, hdone]
        exact hbefore

/-! ### The point of an instruction -/

/-- At the point the instruction is emitted: its command is called with as many
arguments as it takes, and these have the values of the instruction. -/
inductive Emits : Point → Instruction → Prop
  | call {budget line : Nat} {name : Text} {arguments : List Expr} {rest : List Statement}
      {m : Machine} {i : Instruction} (hname : Command.find? name = some i.command)
      (harity : arguments.length = i.command.arity)
      (hvalues : m.environment.Gives arguments i.arguments) :
      Emits ⟨budget, .call line name arguments :: rest, m⟩ i

theorem Emits.complete {y : Point} {i : Instruction} (h : Emits y i) : i.Complete := by
  cases h with
  | call hname harity hvalues => exact hvalues.length_eq.symm.trans harity

section Statements

variable {limit budget k line : Nat} {name : Text} {arguments : List Expr} {m : Machine}
variable {i : Instruction}

theorem Machine.emitted_assign (m : Machine) (name : Text) (e : Expr) :
    (m.assign name e).1.emitted = m.emitted := by
  rw [assign]
  cases m.environment.evaluate e <;> rfl

theorem Machine.emitted_declare (m : Machine) (line : Nat) (p : Procedure) :
    (m.declare line p).1.emitted = m.emitted := by
  rw [declare_eq]
  split_ifs <;> rfl

/-- A command adds the instruction that it emits, behind all the others. -/
theorem emits_of_command {c : Command} (hname : Command.find? name = some c)
    (h : Adds m (m.command line name c arguments) k i) (rest : List Statement) :
    m.emitted.size = k ∧ Emits ⟨budget, .call line name arguments :: rest, m⟩ i := by
  rw [Machine.command] at h
  split_ifs at h with harity
  · exact (h.emitted_ne rfl).elim
  cases hvalues : m.environment.evaluateAll arguments with
  | error f =>
      rw [hvalues] at h
      exact (h.emitted_ne rfl).elim
  | ok values =>
      rw [hvalues] at h
      obtain ⟨hbehind, hfound⟩ := h
      have hpush : (m.emitted.push ⟨c, values⟩)[k]? = some i := hfound
      rw [Array.getElem?_push] at hpush
      split_ifs at hpush with hk
      · cases hpush
        exact ⟨hk.symm, .call hname (not_not.1 harity) (Environment.gives_of_evaluateAll hvalues)⟩
      · rw [Array.getElem?_eq_none hbehind] at hpush
        cases hpush

/-- The call of a procedure adds what the body of the procedure adds. -/
theorem moves_of_invoke {p : Procedure} (hname : Command.find? name = none)
    (hp : m.environment.procedure? name = some p)
    (h : Adds m (m.invoke limit (calleeWithin limit budget) line p arguments) k i)
    (rest : List Statement) :
    ∃ y, Moves limit ⟨budget, .call line name arguments :: rest, m⟩ y ∧
      Adds y.machine (y.outcome limit) k i := by
  unfold Machine.invoke at h
  split_ifs at h with harity
  · exact (h.emitted_ne rfl).elim
  cases budget with
  | zero => exact (h.emitted_ne rfl).elim
  | succ budget =>
      simp only [calleeWithin] at h
      cases hvalues : m.environment.evaluateAll arguments with
      | error f =>
          rw [hvalues] at h
          exact (h.emitted_ne rfl).elim
      | ok values =>
          rw [hvalues] at h
          exact ⟨_, .enter rest hname hp (not_not.1 harity) hvalues, h.behind, h.found⟩

/-- A statement adds an instruction where it is, or in a body that it moves into. -/
theorem emits_or_moves {s : Statement}
    (h : Adds m (runStatement limit (calleeWithin limit budget) s m) k i)
    (rest : List Statement) :
    (m.emitted.size = k ∧ Emits ⟨budget, s :: rest, m⟩ i) ∨
      ∃ y, Moves limit ⟨budget, s :: rest, m⟩ y ∧ Adds y.machine (y.outcome limit) k i := by
  cases s with
  | procedure line name parameters body =>
      rw [runStatement] at h
      exact (h.emitted_ne (m.emitted_declare line _)).elim
  | assign line name e =>
      rw [runStatement] at h
      exact (h.emitted_ne (m.emitted_assign name e)).elim
  | loop line count body =>
      rw [runStatement] at h
      cases hcount : m.environment.evaluate count with
      | error f =>
          rw [hcount] at h
          exact (h.emitted_ne rfl).elim
      | ok n =>
          rw [hcount] at h
          obtain ⟨j, hj, m', hrounds, hround⟩ :=
            Machine.exists_adding_round (confined_body limit budget body) h
          refine .inr ⟨⟨budget, body, m'⟩, .round rest hcount hj hrounds, ?_⟩
          rw [Point.outcome, runWithin_eq_calleeWithin]
          exact hround
  | call line name arguments =>
      rw [runStatement, Machine.call] at h
      cases hname : Command.find? name with
      | some c =>
          simp only [hname] at h
          exact .inl (emits_of_command hname h rest)
      | none =>
          cases hp : m.environment.procedure? name with
          | none =>
              simp only [hname, hp] at h
              exact (h.emitted_ne rfl).elim
          | some p =>
              simp only [hname, hp] at h
              exact .inr (moves_of_invoke hname hp h rest)

end Statements

/-- Whatever a run adds from a point on is emitted at a point that it comes to, and
there as many instructions were emitted before as stand in front of it. -/
theorem exists_emits {limit k : Nat} {i : Instruction} {x : Point}
    (h : Adds x.machine (x.outcome limit) k i) :
    ∃ y, Reaches limit x y ∧ y.machine.emitted.size = k ∧ Emits y i := by
  induction x using (wellFounded_moves limit).induction with
  | _ x ih =>
      obtain ⟨budget, ss, m⟩ := x
      have hlater : ∀ y, Moves limit ⟨budget, ss, m⟩ y → Adds y.machine (y.outcome limit) k i →
          ∃ z, Reaches limit ⟨budget, ss, m⟩ z ∧ z.machine.emitted.size = k ∧ Emits z i := by
        intro y hmoves hadds
        obtain ⟨z, hreaches, hemits⟩ := ih y hmoves hadds
        exact ⟨z, hreaches.head hmoves, hemits⟩
      rw [Point.outcome, runWithin_eq_calleeWithin] at h
      cases ss with
      | nil => exact (h.emitted_ne rfl).elim
      | cons s rest =>
          rw [runBody_cons] at h
          rcases h.andThen (confined_body limit budget rest) with hfirst | ⟨m', hdone, hbehind⟩
          · rcases emits_or_moves hfirst rest with hemits | ⟨y, hmoves, hadds⟩
            · exact ⟨_, .refl, hemits⟩
            · exact hlater y hmoves hadds
          · apply hlater ⟨budget, rest, m'⟩ (.next rest hdone)
            rw [Point.outcome, runWithin_eq_calleeWithin]
            exact hbehind

/-! ### Sessions -/

namespace Interpreter

theorem exists_emits_of_run {i : Interpreter} {source : Text} {k : Nat} {x : Instruction}
    (h : (i.run source).instructions[k]? = some x) :
    ∃ ss y, parseSource source = .ok ss ∧
      Reaches i.limit (.start i.limit ss ⟨i.environment, #[]⟩) y ∧
      y.machine.emitted.size = k ∧ Emits y x := by
  rw [run] at h
  cases hparse : parseSource source with
  | error f => simp [hparse] at h
  | ok ss =>
      rw [hparse] at h
      let start := Point.start i.limit ss ⟨i.environment, #[]⟩
      have hadds : Adds start.machine (start.outcome i.limit) k x := ⟨Nat.zero_le k, h⟩
      obtain ⟨y, hreaches, hemits⟩ := exists_emits hadds
      exact ⟨ss, y, rfl, hreaches, hemits⟩

/-- In any session, whether the source ends well or in a fault, its instruction at a
place was emitted at a point that the run of its statements came to, behind as many
others as stand in front of it. There the command was called, and the arguments are
the values that the expressions had there. So an instruction has just the arguments
that its command takes, three at most. Executing the instructions on a canvas reads
no argument that is not there. -/
theorem instructions_complete [Circle] (limit : Nat) (actions : List Action) (source : Text) :
    let i := session limit actions
    let is := (i.run source).instructions
    (∀ k x, is[k]? = some x →
      x.arguments.length = x.command.arity ∧ x.arguments.length ≤ 3 ∧
        ∃ ss y, parseSource source = .ok ss ∧
          Reaches i.limit (.start i.limit ss ⟨i.environment, #[]⟩) y ∧
          y.machine.emitted.size = k ∧ Emits y x) ∧
      ∀ c : Canvas, c.executeAll? is.toList =
        some (is.toList.foldl Canvas.execute c, is.toList.filterMap Instruction.shown?) := by
  intro i is
  constructor
  · intro k x hx
    obtain ⟨ss, y, hparse, hreaches, hplace, hemits⟩ := exists_emits_of_run hx
    have hcomplete : x.arguments.length = x.command.arity := hemits.complete
    refine ⟨hcomplete, ?_, ss, y, hparse, hreaches, hplace, hemits⟩
    rw [hcomplete]
    exact x.command.arity_le
  · intro c
    apply c.executeAll?_of_complete
    intro x hx
    obtain ⟨k, hk⟩ := List.mem_iff_getElem?.1 hx
    rw [Array.getElem?_toList] at hk
    obtain ⟨ss, y, -, -, -, hemits⟩ := exists_emits_of_run hk
    exact hemits.complete

/-- A loop in a procedure squares its variable, and in the second round the square is
too large. The instruction of this round has been emitted with the value from the
first one. -/
theorem instructions_complete_loop :
    let actions : List Action :=
      [.run (ascii "to f :n repeat 3 [ setxy :n :n*2 make \"n :n*:n ] end")]
    let source := ascii "f 2000000000"
    let i := session 10 actions
    let x : Instruction := ⟨.setXY, [4000000000000000000, 8000000000000000000]⟩
    (i.run source).instructions[1]? = some x ∧
      (i.run source).fault.map Fault.category = some .integerOverflow ∧
      (∃ ss y, parseSource source = .ok ss ∧
        Reaches i.limit (.start i.limit ss ⟨i.environment, #[]⟩) y ∧
        y.machine.emitted.size = 1 ∧ Emits y x) ∧
      ∀ c : Canvas, c.executeAll? (i.run source).instructions.toList =
        some ((i.run source).instructions.toList.foldl Canvas.execute c, []) := by
  intro actions source i x
  have hx : (i.run source).instructions[1]? = some x := by decide +kernel
  have hshown : (i.run source).instructions.toList.filterMap Instruction.shown? = [] := by
    decide +kernel
  obtain ⟨hplaces, hexecuted⟩ := instructions_complete 10 actions source
  obtain ⟨-, -, hpoint⟩ := hplaces 1 x hx
  refine ⟨hx, by decide +kernel, hpoint, ?_⟩
  intro c
  rw [hexecuted c, hshown]

end Interpreter

end Turtle
