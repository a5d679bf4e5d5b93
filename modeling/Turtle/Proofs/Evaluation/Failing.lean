import Turtle.Proofs.Evaluation.Fragments
import Turtle.Proofs.Evaluation.Reach
import Turtle.Proofs.Evaluation.Tables
import Turtle.Proofs.Expression.Postfix
import Turtle.Proofs.Grammar.Failure

/-!
What a run that fails has done.

A fault stops the statements in one of them. All statements before that one
have run, and none behind it does anything. What the one has done depends on
what it is. A declaration, an assignment and a command do all that they do at
once, and nothing if they fail. A call may have run a part of the procedure's
body; the frame of that part is gone, so that only its instructions are left.
A loop may have run some of its rounds. It does the same as that many copies of
its body in its place, and there the fault stops a smaller statement. So after
some unrolling it is found in a statement that is not a loop.
-/

namespace Turtle

variable {limit : Nat}

/-! ### Where the statements are stopped -/

/-- From the machine `m` the first `k` statements run through, to the machine
`m'`. The statement behind them is `s`, which a fault stops, and with it the
run of all statements has ended. -/
structure StoppedIn (limit : Nat) (ss : List Statement) (m : Machine) (k : Nat) (s : Statement)
    (m' : Machine) : Prop where
  before : run limit (ss.take k) m = m'.done
  next : ss[k]? = some s
  stopped : (run limit [s] m').2.isSome
  outcome : run limit ss m = run limit [s] m'

/-- A statement that is stopped ends the run of all. -/
theorem StoppedIn.of_stopped {ss : List Statement} {m m' : Machine} {k : Nat} {s : Statement}
    (before : run limit (ss.take k) m = m'.done) (next : ss[k]? = some s)
    (stopped : (run limit [s] m').2.isSome) : StoppedIn limit ss m k s m' := by
  refine ⟨before, next, stopped, ?_⟩
  obtain ⟨hk, rfl⟩ := List.getElem?_eq_some_iff.1 next
  have hsplit : ss = ss.take k ++ ss[k] :: ss.drop (k + 1) := by simp
  have hrun : run limit ss m = run limit (ss[k] :: ss.drop (k + 1)) m' := by
    conv_lhs => rw [hsplit, run_append, before]
    rfl
  rw [hrun, run_cons]
  cases hout : run limit [ss[k]] m' with
  | mk m'' fault =>
      rw [hout] at stopped
      cases fault with
      | none => cases stopped
      | some f => rfl

namespace StoppedIn

variable {ss : List Statement} {m m' : Machine} {k : Nat} {s : Statement}

/-- With fewer statements behind it, the statement is stopped as well. -/
theorem take (h : StoppedIn limit ss m k s m') {j : Nat} (hj : k < j) :
    StoppedIn limit (ss.take j) m k s m' := by
  apply of_stopped _ _ h.stopped
  · rw [List.take_take, Nat.min_eq_left hj.le]
    exact h.before
  · rw [List.getElem?_take_of_lt hj]
    exact h.next

/-- And so it is with more of them. -/
theorem append (h : StoppedIn limit ss m k s m') (rest : List Statement) :
    StoppedIn limit (ss ++ rest) m k s m' := by
  obtain ⟨hk, -⟩ := List.getElem?_eq_some_iff.1 h.next
  apply of_stopped _ _ h.stopped
  · rw [List.take_append_of_le_length hk.le]
    exact h.before
  · rw [List.getElem?_append_left hk]
    exact h.next

/-- Statements that run through can stand before it. -/
theorem behind {earlier : List Statement} {m₀ : Machine} (hrun : run limit earlier m₀ = m.done)
    (h : StoppedIn limit ss m k s m') :
    StoppedIn limit (earlier ++ ss) m₀ (earlier.length + k) s m' := by
  apply of_stopped _ _ h.stopped
  · rw [List.take_length_add_append, run_append, hrun]
    exact h.before
  · rw [List.getElem?_append_right (Nat.le_add_right _ _), Nat.add_sub_cancel_left]
    exact h.next

theorem index_le (h : StoppedIn limit ss m k s m') {k' : Nat} {s' : Statement} {m'' : Machine}
    (h' : StoppedIn limit ss m k' s' m'') : k' ≤ k := by
  by_contra hlt
  have hearlier : StoppedIn limit (ss.take k') m k s m' := h.take (Nat.lt_of_not_le hlt)
  have hstopped := hearlier.stopped
  rw [← hearlier.outcome, h'.before] at hstopped
  cases hstopped

theorem existsUnique (h : StoppedIn limit ss m k s m') :
    ∃! k, ∃ s m', StoppedIn limit ss m k s m' := by
  refine ⟨k, ⟨s, m', h⟩, ?_⟩
  rintro k' ⟨s', m'', h'⟩
  exact le_antisymm (h.index_le h') (h'.index_le h)

end StoppedIn

/-- If a fault stops the statements, it stops them in one of them. -/
theorem exists_stoppedIn {ss : List Statement} {m : Machine} (h : (run limit ss m).2.isSome) :
    ∃ k s m', StoppedIn limit ss m k s m' := by
  induction ss generalizing m with
  | nil =>
      rw [run_nil] at h
      cases h
  | cons s rest ih =>
      rw [run_cons] at h
      cases hout : run limit [s] m with
      | mk m' fault =>
          rw [hout] at h
          cases fault with
          | some f => exact ⟨0, s, m, .of_stopped (run_nil limit m) rfl (by rw [hout]; rfl)⟩
          | none =>
              obtain ⟨k, s', m'', hstopped⟩ := ih h
              exact ⟨1 + k, s', m'', hstopped.behind hout⟩

/-! ### A statement that is not a loop -/

/-- A command, an assignment or a declaration. -/
def Statement.Elementary : Statement → Prop
  | .procedure .. | .assign .. => True
  | .call _ name _ => (Command.find? name).isSome
  | .loop .. => False

/-- What does all that it does at once does nothing if it fails. -/
theorem Statement.Elementary.unchanged {s : Statement} (hs : s.Elementary)
    {callee : Machine.Callee} {m : Machine} (h : (runStatement limit callee s m).2.isSome) :
    (runStatement limit callee s m).1 = m := by
  cases s with
  | loop line count body => cases hs
  | procedure line name parameters body =>
      rw [runStatement, Machine.declare_eq] at h ⊢
      split_ifs at h ⊢ with htaken
      · rfl
      · cases h
  | assign line name value =>
      rw [runStatement, Machine.assign] at h ⊢
      cases hvalue : m.environment.evaluate value with
      | ok n => simp [hvalue, Machine.done] at h
      | error f => rfl
  | call line name arguments =>
      rw [runStatement] at h ⊢
      rcases m.call_cases limit callee line name arguments with
        ⟨f, hcall⟩ | ⟨i, hcall⟩ | ⟨p, hname, -, -⟩
      · rw [hcall]
      · rw [hcall] at h
        cases h
      · rw [Elementary, hname] at hs
        cases hs

/-- The statement is a loop whose rounds can be counted. -/
def Statement.Loops (m : Machine) (s : Statement) : Prop :=
  ∃ line count body n, s = .loop line count body ∧ m.environment.evaluate count = .ok n

/-- The instructions that the statement has emitted until it is stopped: none,
or those of the procedure that it calls. -/
inductive Contributes (limit : Nat) (m : Machine) : Statement → Array Instruction → Prop
  | refused {s : Statement} (h : (run limit [s] m).1 = m) : Contributes limit m s #[]
  | called {line : Nat} {name : Text} {arguments : List Expr} {p : Procedure}
      {values : List Int64} {m' : Machine} {fault : Option Fault} {more : Array Instruction}
      (hname : Command.find? name = none) (hp : m.environment.procedure? name = some p)
      (hvalues : m.environment.evaluateAll arguments = .ok values)
      (hbody : run limit p.body (m.push (p.parameters.zipWith Binding.mk values)) = (m', fault))
      (h : run limit [.call line name arguments] m = (m'.pop, fault))
      (hmore : m'.emitted = m.emitted ++ more) :
      Contributes limit m (.call line name arguments) more

/-- The frame of a call takes the one call from the budget that its body is run
with less. -/
theorem run_push {m : Machine} {callee : List Statement → Machine → Outcome}
    (h : calleeWithin limit (limit - m.environment.frames.length) = some callee)
    (ss : List Statement) (frame : Scope) :
    run limit ss (m.push frame) = callee ss (m.push frame) := by
  cases hbudget : limit - m.environment.frames.length with
  | zero =>
      rw [hbudget] at h
      cases h
  | succ budget =>
      rw [hbudget] at h
      cases h
      have hless : limit - (m.push frame).environment.frames.length = budget := by
        simp only [Machine.push, Environment.push, List.length_cons]
        omega
      rw [run, hless]

section

variable {m : Machine} {s : Statement}

theorem contributes_of_unchanged (h : (run limit [s] m).1 = m) :
    (run limit [s] m).1.environment = m.environment ∧
      ∃ more, (run limit [s] m).1.emitted = m.emitted ++ more ∧ Contributes limit m s more :=
  ⟨by rw [h], #[], by rw [h, Array.append_empty], .refused h⟩

/-- A call that is stopped is refused, or has run a part of a body. -/
theorem contributes_of_call (hm : m.environment.StoresInner) {line : Nat} {name : Text}
    {arguments : List Expr} (h : (run limit [.call line name arguments] m).2.isSome) :
    (run limit [.call line name arguments] m).1.environment = m.environment ∧
      ∃ more, (run limit [.call line name arguments] m).1.emitted = m.emitted ++ more ∧
        Contributes limit m (.call line name arguments) more := by
  have hrun := run_singleton limit (.call line name arguments) m
  rw [runStatement] at hrun
  rcases m.call_cases limit (calleeWithin limit (limit - m.environment.frames.length)) line
    name arguments with ⟨f, hcall⟩ | ⟨i, hcall⟩ | ⟨p, hname, hp, hcall⟩
  · exact contributes_of_unchanged (by rw [hrun, hcall])
  · rw [hrun, hcall] at h
    cases h
  rcases m.invoke_cases limit (calleeWithin limit (limit - m.environment.frames.length)) line
    p arguments with ⟨f, hinvoke⟩ | ⟨callee, values, hcallee, hvalues, hinvoke⟩
  · exact contributes_of_unchanged (by rw [hrun, hcall, hinvoke])
  rw [hcall, hinvoke, ← run_push hcallee] at hrun
  -- the frame is gone, but the instructions of the body are still there
  obtain ⟨henvironment, more, hmore⟩ := isolated_runWithin_call hm limit
    (limit - m.environment.frames.length) line name arguments
  refine ⟨henvironment, more, hmore, .called hname hp hvalues rfl hrun ?_⟩
  rw [← run, hrun] at hmore
  exact hmore

/-- A statement that is stopped and is not a loop leaves the environment as it
was. -/
theorem contributes_of_stopped (hm : m.environment.StoresInner) (hs : ¬ s.Loops m)
    (h : (run limit [s] m).2.isSome) :
    (run limit [s] m).1.environment = m.environment ∧
      ∃ more, (run limit [s] m).1.emitted = m.emitted ++ more ∧ Contributes limit m s more := by
  by_cases helementary : s.Elementary
  · apply contributes_of_unchanged
    rw [run_singleton] at h ⊢
    exact helementary.unchanged h
  cases s with
  | procedure => exact absurd trivial helementary
  | assign => exact absurd trivial helementary
  | call line name arguments => exact contributes_of_call hm h
  | loop line count body =>
      cases hcount : m.environment.evaluate count with
      | ok n => exact absurd ⟨line, count, body, n, rfl, hcount⟩ hs
      | error f =>
          apply contributes_of_unchanged
          rw [run_singleton, runStatement, hcount]

end

/-! ### A loop in the place of its rounds -/

theorem runBody_flatten_replicate (limit : Nat) (callee : Machine.Callee)
    (body : List Statement) (n : Nat) (m : Machine) :
    runBody limit callee (List.replicate n body).flatten m =
      m.iterate (runBody limit callee body) n := by
  induction n generalizing m with
  | zero => rfl
  | succ n ih =>
      rw [List.replicate_succ, List.flatten_cons, runBody_append, Machine.iterate]
      cases runBody limit callee body m with
      | mk m' fault =>
          cases fault with
          | none => exact ih m'
          | some f => rfl

/-- The statements with as many copies of the body as the loop has rounds, in
the place of the loop at index `k`. -/
def unrolled (ss : List Statement) (k n : Nat) (body : List Statement) : List Statement :=
  ss.take k ++ (List.replicate n body).flatten ++ ss.drop (k + 1)

/-- The second statements are the first ones with the loop unrolled in which
their run is stopped. -/
inductive Unrolls (limit : Nat) (m : Machine) : List Statement → List Statement → Prop
  | intro {ss body : List Statement} {k line : Nat} {count : Expr} {m' : Machine} {n : Int64}
      (h : StoppedIn limit ss m k (.loop line count body) m')
      (hcount : m'.environment.evaluate count = .ok n) :
      Unrolls limit m ss (unrolled ss k n.toInt.toNat body)

/-- The loop does the same as its rounds in a row. -/
theorem run_loop {m : Machine} {line : Nat} {count : Expr} {body : List Statement} {n : Int64}
    (hcount : m.environment.evaluate count = .ok n) :
    run limit [.loop line count body] m =
      run limit (List.replicate n.toInt.toNat body).flatten m := by
  rw [run_singleton, runStatement, hcount, run, runWithin_eq_calleeWithin,
    runBody_flatten_replicate]

namespace StoppedIn

variable {ss : List Statement} {m m' : Machine} {k line : Nat} {count : Expr}
variable {body : List Statement} {n : Int64}

/-- The unrolled statements run alike, and they are stopped in a statement of
the body. -/
theorem exists_unrolled (h : StoppedIn limit ss m k (.loop line count body) m')
    (hcount : m'.environment.evaluate count = .ok n) :
    run limit (unrolled ss k n.toInt.toNat body) m = run limit ss m ∧
      ∃ k' s m'', StoppedIn limit (unrolled ss k n.toInt.toNat body) m k' s m'' ∧ s ∈ body := by
  have hrounds := h.stopped
  rw [run_loop hcount] at hrounds
  obtain ⟨j, s, m'', hround⟩ := exists_stoppedIn hrounds
  have hstopped := (hround.behind h.before).append (ss.drop (k + 1))
  refine ⟨?_, _, s, m'', hstopped, ?_⟩
  · rw [h.outcome, run_loop hcount, hround.outcome]
    exact hstopped.outcome
  · obtain ⟨copy, hcopy, hs⟩ := List.mem_flatten.1 (List.mem_of_getElem? hround.next)
    rwa [List.eq_of_mem_replicate hcopy] at hs

end StoppedIn

/-- The second statements are the first ones after some unrolling. -/
abbrev Unrolled (limit : Nat) (m : Machine) : List Statement → List Statement → Prop :=
  Relation.ReflTransGen (Unrolls limit m)

section

variable {ss ss' : List Statement} {m : Machine}

theorem Unrolled.run_eq (h : Unrolled limit m ss ss') : run limit ss' m = run limit ss m := by
  induction h with
  | refl => rfl
  | tail _ hlast ih =>
      obtain ⟨h, hcount⟩ := hlast
      exact (h.exists_unrolled hcount).1.trans ih

theorem Unrolled.topLevel (h : Unrolled limit m ss ss') (hss : ∀ s ∈ ss, s.TopLevel) :
    ∀ s ∈ ss', s.TopLevel := by
  induction h with
  | refl => exact hss
  | tail _ hlast ih =>
      obtain ⟨h, hcount⟩ := hlast
      intro s hs
      rcases List.mem_append.1 hs with hfront | hback
      · rcases List.mem_append.1 hfront with hbefore | hround
        · exact ih s (List.mem_of_mem_take hbefore)
        · obtain ⟨copy, hcopy, hs⟩ := List.mem_flatten.1 hround
          rw [List.eq_of_mem_replicate hcopy] at hs
          have hloop := ih _ (List.mem_of_getElem? h.next)
          exact (Statement.Inner.of_mem_loop hloop s hs).topLevel
      · exact ih s (List.mem_of_mem_drop hback)

/-- Unrolling ends, as the statement that is stopped gets smaller. -/
theorem StoppedIn.exists_unrolled_end {k : Nat} {s : Statement} {m' : Machine}
    (h : StoppedIn limit ss m k s m') :
    ∃ ss' k' s' m'', Unrolled limit m ss ss' ∧ StoppedIn limit ss' m k' s' m'' ∧
      ¬ s'.Loops m'' := by
  induction hsize : sizeOf s using Nat.strongRecOn generalizing ss k s m' with
  | ind size ih =>
      by_cases hloops : s.Loops m'
      · obtain ⟨line, count, body, n, rfl, hcount⟩ := hloops
        obtain ⟨-, k', s', m'', hstopped, hmem⟩ := h.exists_unrolled hcount
        have hsmaller : sizeOf s' < size := by
          have hlt := List.sizeOf_lt_of_mem hmem
          rw [← hsize, Statement.loop.sizeOf_spec]
          omega
        obtain ⟨ss', k₁, s₁, m₁, hunrolled, hend⟩ := ih _ hsmaller hstopped rfl
        exact ⟨ss', k₁, s₁, m₁, .head (.intro h hcount) hunrolled, hend⟩
      · exact ⟨ss, k, s, m', .refl, h, hloops⟩

/-- Where the statements are stopped that have no loop to unroll, the machine is
the one behind those that have run through, with the instructions that were
emitted since. -/
theorem StoppedIn.contributes (hm : m.environment.StoresInner) (hss : ∀ s ∈ ss, s.TopLevel)
    {k : Nat} {s : Statement} {m' : Machine} (h : StoppedIn limit ss m k s m')
    (hloops : ¬ s.Loops m') :
    (run limit ss m).1.environment = m'.environment ∧
      ∃ more, (run limit ss m).1.emitted = m'.emitted ++ more ∧ Contributes limit m' s more := by
  have hm' : m'.environment.StoresInner := by
    have hbefore : (run limit (ss.take k) m).1.environment.StoresInner :=
      preserves_storesInner.runWithin_moves limit _ (ss.take k) m
        (fun s hs => hss s (List.mem_of_mem_take hs)) hm
    rw [h.before] at hbefore
    exact hbefore
  rw [h.outcome]
  exact contributes_of_stopped hm' hloops h.stopped

end

/-! ### Faults of runs -/

theorem Environment.stage_of_evaluate {env : Environment} {e : Expr} {f : Fault}
    (h : env.evaluate e = .error f) : f.stage = .runtime := by
  rw [Fault.stage]
  rcases category_of_evaluate h with hoperation | ⟨hinternal, -⟩
  · cases hcategory : f.category with
    | variableNotFound | typeMismatch | divisionByZero | integerOverflow => rfl
    | _ =>
        rw [hcategory] at hoperation
        cases hoperation
  · rw [hinternal]
    rfl

theorem Stops.stage_eq {y : Point} {f : Fault} (h : Stops limit y f) : f.stage = .runtime := by
  cases h with
  | value h => exact Environment.stage_of_evaluate h
  | count h => exact Environment.stage_of_evaluate h
  | argument h =>
      obtain ⟨e, -, he⟩ := Environment.exists_of_evaluateAll_error h
      exact Environment.stage_of_evaluate he
  | redeclared | unknown | arity | parameters | tooDeep => rfl

theorem stage_of_run {ss : List Statement} {m : Machine} {f : Fault}
    (h : (run limit ss m).2 = some f) : f.stage = .runtime := by
  obtain ⟨y, -, hstops⟩ := exists_stop (x := .start limit ss m) h
  exact hstops.stage_eq

/-! ### Sources -/

namespace Interpreter

/-- A fault either comes from the lexer or the parser, and then nothing has been
run, or it has stopped the run of the statements. -/
theorem run_fault_cases {i : Interpreter} {source : Text} {f : Fault}
    (h : (i.run source).fault = some f) :
    (f.stage ≠ .runtime ∧ (i.run source).interpreter = i ∧ (i.run source).instructions = #[]) ∨
      (f.stage = .runtime ∧ ∃ ss, parseSource source = .ok ss ∧
        Turtle.run i.limit ss ⟨i.environment, #[]⟩ =
          (⟨(i.run source).interpreter.environment, (i.run source).instructions⟩, some f)) := by
  cases hparse : parseSource source with
  | error g =>
      rw [run, hparse] at h ⊢
      cases h
      exact .inl ⟨stage_of_parseSource_error hparse, rfl, rfl⟩
  | ok ss =>
      rw [i.run_of_parse hparse] at h ⊢
      refine .inr ⟨stage_of_run h, ss, rfl, ?_⟩
      rw [← h]

/-- A source that the lexer or the parser refuses changes nothing. If a fault
stops the run of its statements, it does so behind exactly one number of them
that have run through, however much has been unrolled of the loops in which it
is found. Where it is not found in a loop, nothing is left of what has run
since, up to the instructions of the procedure that was being called; and
unrolling comes to such a place. A command, an assignment and a declaration
that fail do nothing anywhere. -/
theorem failing_run (limit : Nat) (actions : List Action) (source : Text) {f : Fault}
    (hf : ((session limit actions).run source).fault = some f) :
    let i := session limit actions
    let r := i.run source
    let m : Machine := ⟨i.environment, #[]⟩
    (f.stage ≠ .runtime → r.interpreter = i ∧ r.instructions = #[]) ∧
      (f.stage = .runtime → ∃ ss, parseSource source = .ok ss ∧
        (∀ ss', Unrolled i.limit m ss ss' →
          Turtle.run i.limit ss' m = (⟨r.interpreter.environment, r.instructions⟩, some f) ∧
          (∃! k, ∃ s m', StoppedIn i.limit ss' m k s m') ∧
          ∀ k s m', StoppedIn i.limit ss' m k s m' → ¬ s.Loops m' →
            r.interpreter.environment = m'.environment ∧
              ∃ more, r.instructions = m'.emitted ++ more ∧ Contributes i.limit m' s more) ∧
        ∃ ss' k s m', Unrolled i.limit m ss ss' ∧ StoppedIn i.limit ss' m k s m' ∧
          ¬ s.Loops m') ∧
      ∀ (callee : Machine.Callee) (s : Statement) (m : Machine), s.Elementary →
        (runStatement i.limit callee s m).2.isSome → (runStatement i.limit callee s m).1 = m := by
  intro i r m
  have hinner : m.environment.StoresInner := (session_consistent limit actions).1.inner
  refine ⟨?_, ?_, fun callee s m hs h => hs.unchanged h⟩
  · intro hstage
    rcases run_fault_cases hf with ⟨-, hsame⟩ | ⟨hruntime, -⟩
    · exact hsame
    · exact absurd hruntime hstage
  · intro hstage
    rcases run_fault_cases hf with ⟨hearly, -⟩ | ⟨-, ss, hparse, hrun⟩
    · exact absurd hstage hearly
    have hunrolled : ∀ ss', Unrolled i.limit m ss ss' →
        Turtle.run i.limit ss' m = (⟨r.interpreter.environment, r.instructions⟩, some f) ∧
        (∃! k, ∃ s m', StoppedIn i.limit ss' m k s m') ∧
        ∀ k s m', StoppedIn i.limit ss' m k s m' → ¬ s.Loops m' →
          r.interpreter.environment = m'.environment ∧
            ∃ more, r.instructions = m'.emitted ++ more ∧ Contributes i.limit m' s more := by
      intro ss' hunrolled
      have hrun' := hunrolled.run_eq.trans hrun
      have hss' := hunrolled.topLevel (topLevel_of_parseSource hparse)
      have hsome : (Turtle.run i.limit ss' m).2.isSome := by
        rw [hrun']
        rfl
      obtain ⟨k, s, m', hstopped⟩ := exists_stoppedIn hsome
      refine ⟨hrun', hstopped.existsUnique, ?_⟩
      intro k s m' hstopped hloops
      have hcontributes := hstopped.contributes hinner hss' hloops
      rw [hrun'] at hcontributes
      exact hcontributes
    obtain ⟨-, ⟨k, ⟨s, m', hstopped⟩, -⟩, -⟩ := hunrolled ss .refl
    exact ⟨ss, hparse, hunrolled, hstopped.exists_unrolled_end⟩

/-- A variable is missing in a procedure that is called in the first of two
rounds. Left are the instructions of the round and those of the procedure until
then. -/
theorem failing_run_in_round :
    let i := session 10 [.run (ascii "to f :n fd :n fd :x end")]
    let source := ascii "make \"a 1 repeat 2 [ fd :a f 5 ]"
    let r := i.run source
    let m : Machine := ⟨i.environment, #[]⟩
    (r.fault = some ⟨1, .unknownVariable (ascii "x")⟩ ∧
        r.instructions = #[⟨.forward, [1]⟩, ⟨.forward, [5]⟩]) ∧
      ∃ ss ss' k s m', parseSource source = .ok ss ∧ Unrolled i.limit m ss ss' ∧
        StoppedIn i.limit ss' m k s m' ∧ r.interpreter.environment = m'.environment ∧
        ∃ more, r.instructions = m'.emitted ++ more ∧ Contributes i.limit m' s more := by
  intro i source r m
  have hfault : r.fault = some ⟨1, .unknownVariable (ascii "x")⟩ := by
    decide +kernel
  have hinstructions : r.instructions = #[⟨.forward, [1]⟩, ⟨.forward, [5]⟩] := by
    decide +kernel
  obtain ⟨-, hruntime, -⟩ := failing_run 10 _ source hfault
  obtain ⟨ss, hparse, hunrolled, ss', k, s, m', hss', hstopped, hloops⟩ := hruntime rfl
  obtain ⟨-, -, hcontributes⟩ := hunrolled ss' hss'
  obtain ⟨henvironment, more, hmore⟩ := hcontributes k s m' hstopped hloops
  exact ⟨⟨hfault, hinstructions⟩, ss, ss', k, s, m', hparse, hss', hstopped, henvironment, more,
    hmore⟩

end Interpreter

end Turtle
