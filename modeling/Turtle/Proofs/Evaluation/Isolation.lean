import Turtle.Evaluation.Interpreter
import Turtle.Proofs.Evaluation.Preservation
import Turtle.Proofs.Grammar.Sound

/-!
Calls are isolated.

Three relations are preserved by runs. The first is about all of them: a run
can only change the innermost scope and the procedures, and can only append to
the instructions. The second is about statements in which nothing is declared:
they leave the procedures as they are. The third makes the second applicable:
the bodies that are stored come from the grammar, where no procedure can stand
in a body.

A call pushes a frame, so the innermost scope that its body can change is that
frame, and with it all changes are popped. No way out of the body skips this,
as the relations do not ask how a run ends.
-/

namespace Turtle

attribute [ext] Environment

/-! ### The innermost scope -/

/-- Between the machines only the innermost scope and the procedures can
differ, and instructions have been appended. -/
structure Confined (m m' : Machine) : Prop where
  depth : m'.environment.frames.length = m.environment.frames.length
  outer : m'.environment.frames.tail = m.environment.frames.tail
  globals : m.environment.frames ≠ [] → m'.environment.globals = m.environment.globals
  emitted : ∃ more, m'.emitted = m.emitted ++ more

namespace Confined

variable {m m' m'' : Machine}

theorem refl (m : Machine) : Confined m m :=
  ⟨rfl, rfl, fun _ => rfl, #[], by simp⟩

theorem trans (h : Confined m m') (h' : Confined m' m'') : Confined m m'' := by
  obtain ⟨more, hmore⟩ := h.emitted
  obtain ⟨more', hmore'⟩ := h'.emitted
  -- the globals are safe as long as a frame lies above them, and none is popped
  have hframes : m.environment.frames ≠ [] → m'.environment.frames ≠ [] := by
    intro hne hnil
    apply hne
    have hdepth := h.depth
    rw [hnil] at hdepth
    exact List.length_eq_zero_iff.1 hdepth.symm
  refine ⟨h'.depth.trans h.depth, h'.outer.trans h.outer, ?_, more ++ more', ?_⟩
  · intro hne
    exact (h'.globals (hframes hne)).trans (h.globals hne)
  · rw [hmore', hmore, Array.append_assoc]

theorem emit (m : Machine) (i : Instruction) : Confined m (m.emit i) :=
  ⟨rfl, rfl, fun _ => rfl, #[i], by simp [Machine.emit]⟩

theorem set (m : Machine) (name : Text) (n : Int64) : Confined m (m.set name n) := by
  have hemitted : (m.set name n).emitted = m.emitted ++ #[] := by
    simp [Machine.set]
  cases hframes : m.environment.frames with
  | nil =>
      have hset : (m.set name n).environment =
          { m.environment with globals := Scope.set m.environment.globals name n } := by
        simp [Machine.set, Environment.set, hframes]
      refine ⟨by rw [hset], by rw [hset], ?_, #[], hemitted⟩
      intro hne
      exact absurd hframes hne
  | cons frame frames =>
      have hset : (m.set name n).environment =
          { m.environment with frames := Scope.set frame name n :: frames } := by
        simp [Machine.set, Environment.set, hframes]
      refine ⟨by simp [hset, hframes], by simp [hset, hframes], ?_, #[], hemitted⟩
      intro _
      rw [hset]

theorem declare (m : Machine) (p : Procedure) :
    Confined m { m with environment := m.environment.declare p } :=
  ⟨rfl, rfl, fun _ => rfl, #[], by simp⟩

/-- When the frame in which a body ran is popped, the scopes are as before. -/
theorem leave {frame : Scope} (h : Confined (m.push frame) m') :
    m'.pop.environment.frames = m.environment.frames ∧
      m'.pop.environment.globals = m.environment.globals := by
  have hframes : m'.environment.frames.tail = m.environment.frames := h.outer
  have hglobals : m'.environment.globals = m.environment.globals := by
    apply h.globals
    simp [Machine.push, Environment.push]
  exact ⟨hframes, hglobals⟩

end Confined

theorem preserves_confined : Preserves (fun _ => True) (fun _ => True) Confined where
  refl := fun {m} _ => .refl m
  trans := Confined.trans
  keeps := fun _ _ => trivial
  looped := fun _ _ _ => trivial
  stored := fun _ _ _ _ _ => trivial
  emit := fun {m} _ i => .emit m i
  set := fun {m} _ name n => .set m name n
  declare := fun _ _ _ _ => .declare _ _
  enter := fun _ _ => trivial
  leave := by
    intro m frame m' _ h
    obtain ⟨hframes, hglobals⟩ := h.leave
    refine ⟨by rw [hframes], by rw [hframes], fun _ => hglobals, ?_⟩
    exact h.emitted

theorem confined_runWithin (limit budget : Nat) (ss : List Statement) (m : Machine) :
    Confined m (runWithin limit budget ss m).1 :=
  preserves_confined.runWithin_moves limit budget ss m (fun _ _ => trivial) trivial

/-! ### The procedures -/

/-- A statement in which no procedure is declared. -/
inductive Statement.Inner : Statement → Prop
  | call (line : Nat) (name : Text) (arguments : List Expr) : Inner (.call line name arguments)
  | assign (line : Nat) (name : Text) (value : Expr) : Inner (.assign line name value)
  | loop (line : Nat) (count : Expr) {body : List Statement} (h : ∀ s ∈ body, Inner s) :
      Inner (.loop line count body)

/-- A statement that declares at most the procedure that it is. -/
def Statement.TopLevel : Statement → Prop
  | .procedure _ _ _ body => ∀ s ∈ body, s.Inner
  | s => s.Inner

theorem Statement.Inner.topLevel {s : Statement} (h : s.Inner) : s.TopLevel := by
  cases h with
  | call line name arguments => exact .call line name arguments
  | assign line name value => exact .assign line name value
  | loop line count hbody => exact .loop line count hbody

theorem Statement.Inner.of_mem_loop {line : Nat} {count : Expr} {body : List Statement}
    (h : (Statement.loop line count body).Inner) : ∀ s ∈ body, s.Inner := by
  cases h with
  | loop line count hbody => exact hbody

/-- No stored body declares a procedure. -/
def Environment.StoresInner (env : Environment) : Prop :=
  ∀ p ∈ env.procedures, ∀ s ∈ p.body, s.Inner

theorem Environment.StoresInner.congr {env env' : Environment} (h : env.StoresInner)
    (hprocedures : env'.procedures = env.procedures) : env'.StoresInner :=
  Stores.congr h hprocedures

theorem Environment.StoresInner.declare {env : Environment} (h : env.StoresInner) {p : Procedure}
    (hp : ∀ s ∈ p.body, s.Inner) : (env.declare p).StoresInner :=
  Stores.declare h hp

theorem preserves_procedures : Preserves (fun m => m.environment.StoresInner) Statement.Inner
    (fun m m' => m'.environment.procedures = m.environment.procedures) where
  refl := fun _ => rfl
  trans := fun h h' => h'.trans h
  keeps := fun hm h => hm.congr h
  looped := Statement.Inner.of_mem_loop
  stored := fun hm => hm
  emit := fun _ _ => rfl
  set := fun {m} _ name n => m.environment.procedures_set name n
  declare := fun _ h _ _ => nomatch h
  enter := fun hm _ => hm
  leave := fun _ h => h

theorem preserves_storesInner : Preserves (fun m => m.environment.StoresInner) Statement.TopLevel
    (fun _ m' => m'.environment.StoresInner) :=
  preserves_stores
    -- a body is always inner, also that of a statement at the top level
    (fun h s hs => (Statement.Inner.of_mem_loop h s hs).topLevel)
    (fun _ h => h.topLevel) (fun h => h)

/-! ### The statements of a source -/

mutual

theorem Phrase.statement_inner (ph : Phrase) : ph.statement.Inner := by
  match ph with
  | .call line name arguments =>
      rw [Phrase.statement]
      exact .call line name _
  | .assign line nameLine name value =>
      rw [Phrase.statement]
      exact .assign line name _
  | .loop line count opening body closing =>
      rw [Phrase.statement]
      exact .loop line _ (bodyStatements_inner body)

theorem bodyStatements_inner (ps : List Phrase) : ∀ s ∈ bodyStatements ps, s.Inner := by
  match ps with
  | [] => simp [bodyStatements]
  | ph :: ps =>
      intro s hs
      rw [bodyStatements] at hs
      rcases List.mem_cons.1 hs with rfl | htail
      · exact ph.statement_inner
      · exact bodyStatements_inner ps s htail

end

theorem Clause.statement_topLevel (c : Clause) : c.statement.TopLevel := by
  cases c with
  | phrase ph => exact ph.statement_inner.topLevel
  | procedure line nameLine name parameters body closing => exact bodyStatements_inner body

theorem topLevel_of_parseSource {source : Text} {ss : List Statement}
    (h : parseSource source = .ok ss) : ∀ s ∈ ss, s.TopLevel := by
  obtain ⟨l, d, -, -, rfl⟩ := exists_derivation_of_parseSource h
  intro s hs
  obtain ⟨c, -, rfl⟩ := List.mem_map.1 hs
  exact c.statement_topLevel

/-! ### Calls -/

/-- The environment is as it was, and instructions have been appended. -/
def Isolated (m m' : Machine) : Prop :=
  m'.environment = m.environment ∧ ∃ more, m'.emitted = m.emitted ++ more

variable {m : Machine} {limit budget : Nat}

/-- What ran in a frame of its own leaves no trace in the environment. -/
theorem isolated_pop (hm : m.environment.StoresInner) {body : List Statement}
    (hbody : ∀ s ∈ body, s.Inner) (frame : Scope) :
    Isolated m (runWithin limit budget body (m.push frame)).1.pop := by
  have hconfined : Confined (m.push frame) (runWithin limit budget body (m.push frame)).1 :=
    confined_runWithin limit budget body (m.push frame)
  have hprocedures := preserves_procedures.runWithin_moves limit budget body (m.push frame) hbody hm
  obtain ⟨hframes, hglobals⟩ := hconfined.leave
  refine ⟨?_, hconfined.emitted⟩
  ext1
  · exact hglobals
  · exact hframes
  · exact hprocedures

theorem isolated_call (hm : m.environment.StoresInner) {callee : Machine.Callee}
    (hcallee : ∀ run, callee = some run → ∃ budget, run = runWithin limit budget)
    (line : Nat) (name : Text) (arguments : List Expr) :
    Isolated m (m.call limit callee line name arguments).1 := by
  rcases m.call_cases limit callee line name arguments with
    ⟨f, hcall⟩ | ⟨i, hcall⟩ | ⟨p, -, hp, hcall⟩
  · rw [hcall]
    exact ⟨rfl, #[], by simp⟩
  · rw [hcall]
    exact ⟨rfl, #[i], by simp [Machine.emit, Machine.done]⟩
  rw [hcall]
  rcases m.invoke_cases limit callee line p arguments with
    ⟨f, hinvoke⟩ | ⟨run, values, hrun, -, hinvoke⟩
  · rw [hinvoke]
    exact ⟨rfl, #[], by simp⟩
  · obtain ⟨budget, rfl⟩ := hcallee run hrun
    rw [hinvoke]
    exact isolated_pop hm (hm p (List.mem_of_find?_eq_some hp)) _

theorem runBody_singleton (limit : Nat) (callee : Machine.Callee) (s : Statement) (m : Machine) :
    runBody limit callee [s] m = runStatement limit callee s m := by
  rw [runBody]
  cases runStatement limit callee s m with
  | mk m' fault => cases fault <;> rfl

theorem isolated_runWithin_call (hm : m.environment.StoresInner) (limit budget line : Nat)
    (name : Text) (arguments : List Expr) :
    Isolated m (runWithin limit budget [.call line name arguments] m).1 := by
  obtain ⟨callee, heq, hcallee⟩ := runWithin_eq_runBody limit budget
  rw [heq, runBody_singleton, runStatement]
  apply isolated_call hm _ line name arguments
  intro run hrun
  obtain ⟨smaller, -, hsmaller⟩ := hcallee run hrun
  exact ⟨smaller, hsmaller⟩

/-! ### Sessions -/

namespace Interpreter

/-- A new interpreter after it has run the sources. -/
def after (limit : Nat) (sources : List Text) : Interpreter :=
  sources.foldl (fun i source => (i.run source).interpreter) (new limit)

/-- What holds of a new interpreter, and is kept by every run, holds between
any two sources. -/
theorem after_induction {P : Interpreter → Prop} {limit : Nat} (hnew : P (new limit))
    (hrun : ∀ i source, P i → P (i.run source).interpreter) (sources : List Text) :
    P (after limit sources) :=
  List.foldlRecOn sources _ hnew fun i hi source _ => hrun i source hi

/-- What holds between two sources: no call is in progress, and no stored body
declares a procedure. -/
structure Settled (i : Interpreter) : Prop where
  frames : i.environment.frames = []
  inner : i.environment.StoresInner

theorem settled_new (limit : Nat) : (new limit).Settled where
  frames := rfl
  inner := by
    intro p hp
    cases hp

theorem Settled.run {i : Interpreter} (h : i.Settled) (source : Text) :
    (i.run source).interpreter.Settled := by
  rw [Interpreter.run]
  cases hparse : parseSource source with
  | error f => exact h
  | ok ss =>
      have hconfined : Confined ⟨i.environment, #[]⟩
          (Turtle.run i.limit ss ⟨i.environment, #[]⟩).1 := confined_runWithin ..
      have hinner : (Turtle.run i.limit ss ⟨i.environment, #[]⟩).1.environment.StoresInner :=
        preserves_storesInner.runWithin_moves _ _ ss _ (topLevel_of_parseSource hparse) h.inner
      refine ⟨?_, hinner⟩
      apply List.length_eq_zero_iff.1
      rw [← List.length_eq_zero_iff.2 h.frames]
      exact hconfined.depth

theorem settled_after (limit : Nat) (sources : List Text) : (after limit sources).Settled :=
  after_induction (settled_new limit) (fun _ source h => h.run source) sources

/-- A call leaves the globals, the procedures and all frames below its own as
they were, whether it ends well or in a fault, and however many calls it is
made from. So no frame is left when a source has been run. -/
theorem call_isolated (limit : Nat) (sources : List Text) (frames : List Scope)
    (emitted : Array Instruction) (line : Nat) (name : Text) (arguments : List Expr) :
    let i := after limit sources
    let m : Machine := ⟨{ i.environment with frames }, emitted⟩
    let outcome := Turtle.run i.limit [.call line name arguments] m
    outcome.1.environment = m.environment ∧
      (∃ more, outcome.1.emitted = m.emitted ++ more) ∧
      ∀ source, (i.run source).interpreter.environment.frames = [] := by
  intro i m outcome
  have hsettled : i.Settled := settled_after limit sources
  have hinner : m.environment.StoresInner := hsettled.inner
  have hisolated : Isolated m outcome.1 := isolated_runWithin_call hinner _ _ line name arguments
  exact ⟨hisolated.1, hisolated.2, fun source => (hsettled.run source).frames⟩

end Interpreter

end Turtle
