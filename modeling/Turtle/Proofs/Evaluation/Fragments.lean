import Turtle.Proofs.Evaluation.Isolation
import Turtle.Proofs.Evaluation.Simulation
import Turtle.Proofs.Grammar.Relabel

/-!
Running a source in fragments.

A source that is cut at a line break runs like its two parts one after the
other. The parser gives the statements of both parts in a row, and a row of
statements is run one part after the other; what differs is that the lines of
the second part are counted on, and that its instructions come behind those of
the first. Both differences are carried through a run by a simulation.

The line of a fault is counted on only if the node that failed stands in the
second part. It can as well stand in a procedure that was declared before. To
tell the two apart, every line can be given a mark: all lines are doubled, and
one is added to those of the second part. A run does not look at lines, so the
run with marks tells everything about the runs without.
-/

namespace Turtle

/-! ### Relabelled environments -/

def Environment.relabel (φ : Nat → Nat) (env : Environment) : Environment :=
  { env with procedures := env.procedures.map (Procedure.relabel φ) }

theorem Environment.relabel_relabel (φ ψ : Nat → Nat) (env : Environment) :
    (env.relabel φ).relabel ψ = env.relabel (ψ ∘ φ) := by
  simp only [relabel, Procedure.map_relabel_relabel]

theorem Environment.relabel_id (env : Environment) : env.relabel id = env := by
  rw [relabel, Procedure.map_relabel_id]

/-- The second machine is the first one with other lines, and behind the
instructions of an earlier run. -/
structure Behind (φ : Nat → Nat) (earlier : Array Instruction) (m m' : Machine) : Prop where
  environment : m'.environment = m.environment.relabel φ
  emitted : m'.emitted = earlier ++ m.emitted

theorem simulates_behind (φ : Nat → Nat) (earlier : Array Instruction) :
    Simulates φ (Behind φ earlier) where
  lookup := by
    intro m m' h name
    rw [h.environment]
    rfl
  procedures := by
    intro m m' h name
    rw [h.environment]
    exact List.find?_map
  emit := by
    intro m m' h i
    refine ⟨h.environment, ?_⟩
    simp [Machine.emit, h.emitted]
  set := by
    intro m m' h name n
    refine ⟨?_, h.emitted⟩
    simp only [Machine.set, h.environment, Environment.set, Environment.relabel]
    cases m.environment.frames <;> rfl
  declare := by
    intro m m' h p
    refine ⟨?_, h.emitted⟩
    simp [Environment.declare, h.environment, Environment.relabel]
  push := by
    intro m m' h frame
    refine ⟨?_, h.emitted⟩
    simp [Machine.push, h.environment, Environment.push, Environment.relabel]
  pop := by
    intro m m' h
    refine ⟨?_, h.emitted⟩
    simp [Machine.pop, h.environment, Environment.pop, Environment.relabel]

/-- With other lines, and behind other instructions, a run does the same. -/
theorem run_behind (φ : Nat → Nat) (earlier : Array Instruction) (limit : Nat)
    (ss : List Statement) (env : Environment) (emitted : Array Instruction) :
    Alike φ (Behind φ earlier) (run limit ss ⟨env, emitted⟩)
      (run limit (ss.map (Statement.relabel φ)) ⟨env.relabel φ, earlier ++ emitted⟩) :=
  (simulates_behind φ earlier).runWithin_alike limit _ ss _ _ ⟨rfl, rfl⟩

/-! ### One part after the other -/

theorem runBody_append (limit : Nat) (callee : Machine.Callee) (ss ss' : List Statement)
    (m : Machine) :
    runBody limit callee (ss ++ ss') m =
      match runBody limit callee ss m with
      | (m', none) => runBody limit callee ss' m'
      | stopped => stopped := by
  induction ss generalizing m with
  | nil => rfl
  | cons s ss ih =>
      rw [List.cons_append, runBody, runBody]
      cases runStatement limit callee s m with
      | mk m' fault =>
          cases fault with
          | none => exact ih m'
          | some f => rfl

theorem run_nil (limit : Nat) (m : Machine) : run limit [] m = m.done := by
  obtain ⟨callee, heq, -⟩ := runWithin_eq_runBody limit (limit - m.environment.frames.length)
  rw [run, heq, runBody]

theorem run_append (limit : Nat) (ss ss' : List Statement) (m : Machine) :
    run limit (ss ++ ss') m =
      match run limit ss m with
      | (m', none) => run limit ss' m'
      | stopped => stopped := by
  have hwithin : ∀ budget, runWithin limit budget (ss ++ ss') m =
      match runWithin limit budget ss m with
      | (m', none) => runWithin limit budget ss' m'
      | stopped => stopped := by
    intro budget
    obtain ⟨callee, heq, -⟩ := runWithin_eq_runBody limit budget
    rw [heq]
    exact runBody_append ..
  rw [run, hwithin, run]
  -- both parts have the same budget, as the first leaves as many frames as it found
  have hdepth := (confined_runWithin limit (limit - m.environment.frames.length) ss m).depth
  cases hout : runWithin limit (limit - m.environment.frames.length) ss m with
  | mk m' fault =>
      cases fault with
      | none =>
          rw [hout] at hdepth
          show _ = runWithin limit (limit - m'.environment.frames.length) ss' m'
          rw [hdepth]
      | some f => rfl

theorem run_cons (limit : Nat) (s : Statement) (rest : List Statement) (m : Machine) :
    run limit (s :: rest) m =
      match run limit [s] m with
      | (m', none) => run limit rest m'
      | stopped => stopped :=
  run_append limit [s] rest m

/-! ### Declarations -/

theorem Statement.Inner.relabel {s : Statement} (h : s.Inner) (φ : Nat → Nat) :
    (s.relabel φ).Inner := by
  induction h with
  | call line name arguments =>
      rw [Statement.relabel]
      exact .call _ name _
  | assign line name value =>
      rw [Statement.relabel]
      exact .assign _ name _
  | loop line count hbody ih =>
      rw [Statement.relabel, relabelBody_eq_map]
      apply Inner.loop
      intro s hs
      obtain ⟨s, hmem, rfl⟩ := List.mem_map.1 hs
      exact ih s hmem

theorem Environment.StoresInner.relabel {env : Environment} (h : env.StoresInner)
    (φ : Nat → Nat) : (env.relabel φ).StoresInner := by
  intro p hp s hs
  obtain ⟨p, hmem, rfl⟩ := List.mem_map.1 hp
  obtain ⟨s, hbody, rfl⟩ := List.mem_map.1 hs
  exact (h p hmem s hbody).relabel φ

/-- A statement of the source, which carries its lines, or one of a stored
body, which declares nothing. -/
def Labelled (φ : Nat → Nat) (s : Statement) : Prop :=
  s.Inner ∨ ∃ s₀ : Statement, s₀.TopLevel ∧ s₀.relabel φ = s

/-- The procedures that were declared carry the lines of the source. -/
def DeclaresLabelled (φ : Nat → Nat) (m m' : Machine) : Prop :=
  m'.environment.StoresInner ∧
    ∃ declared : List Procedure,
      m'.environment.procedures = m.environment.procedures ++ declared.map (Procedure.relabel φ)

theorem preserves_declaresLabelled (φ : Nat → Nat) :
    Preserves (fun m => m.environment.StoresInner) (Labelled φ) (DeclaresLabelled φ) where
  refl := fun hm => ⟨hm, [], by simp⟩
  trans := by
    intro m m' m'' h h'
    obtain ⟨-, declared, hdeclared⟩ := h
    obtain ⟨hinner, declared', hdeclared'⟩ := h'
    exact ⟨hinner, declared ++ declared', by simp [hdeclared', hdeclared]⟩
  keeps := fun _ h => h.1
  looped := by
    intro line count body h s hs
    rcases h with hinner | ⟨s₀, hs₀, heq⟩
    · exact .inl (Statement.Inner.of_mem_loop hinner s hs)
    · cases s₀ with
      | loop line₀ count₀ body₀ =>
          rw [Statement.relabel, relabelBody_eq_map] at heq
          cases heq
          obtain ⟨s, hmem, rfl⟩ := List.mem_map.1 hs
          have hinner : s.Inner := Statement.Inner.of_mem_loop hs₀ s hmem
          exact .inl (hinner.relabel φ)
      | _ => cases heq
  stored := fun hm p hp s hs => .inl (hm p hp s hs)
  emit := fun hm _ => ⟨hm, [], by simp [Machine.emit]⟩
  set := by
    intro m hm name n
    have hprocedures := m.environment.procedures_set name n
    exact ⟨hm.congr hprocedures, [], by simpa [Machine.set] using hprocedures⟩
  declare := by
    intro m line name parameters body hm h _ _
    rcases h with hinner | ⟨s₀, hs₀, heq⟩
    · cases hinner
    · cases s₀ with
      | procedure line₀ name₀ parameters₀ body₀ =>
          rw [Statement.relabel, relabelBody_eq_map] at heq
          cases heq
          refine ⟨hm.declare ?_, [⟨name, parameters, body₀⟩], rfl⟩
          intro s hs
          obtain ⟨s, hmem, rfl⟩ := List.mem_map.1 hs
          exact (hs₀ s hmem).relabel φ
      | _ => cases heq
  enter := fun hm _ => hm
  leave := fun _ h => h

/-! ### Marks -/

/-- The mark on the lines of what was declared before. -/
def markBefore (n : Nat) : Nat :=
  2 * n

/-- The mark on the lines of the source that is run. -/
def markInside (n : Nat) : Nat :=
  2 * n + 1

/-- Takes the marks off. Lines of the source are then labelled by `φ`, other
lines by `ψ`. -/
def unmark (φ ψ : Nat → Nat) (n : Nat) : Nat :=
  if n % 2 = 1 then φ (n / 2) else ψ (n / 2)

theorem unmark_markInside (φ ψ : Nat → Nat) : unmark φ ψ ∘ markInside = φ := by
  ext n
  have hodd : (2 * n + 1) % 2 = 1 := by omega
  have hhalf : (2 * n + 1) / 2 = n := by omega
  simp [unmark, markInside, hodd, hhalf]

theorem unmark_markBefore (φ ψ : Nat → Nat) : unmark φ ψ ∘ markBefore = ψ := by
  ext n
  simp [unmark, markBefore]

/-- Runs the statements with marks on all lines. -/
def runMarked (limit : Nat) (ss : List Statement) (env : Environment) : Outcome :=
  run limit (ss.map (Statement.relabel markInside)) ⟨env.relabel markBefore, #[]⟩

/-- Whether the fault that stops the statements is found in one of their own
nodes, and not in a procedure that was declared before. Only their own lines
are odd in the run with marks. -/
def stopsInside (limit : Nat) (ss : List Statement) (env : Environment) : Bool :=
  match (runMarked limit ss env).2 with
  | some f => f.line % 2 == 1
  | none => false

/-- Every run of the statements is the run with marks, whatever their lines are. -/
theorem runMarked_alike (φ : Nat → Nat) (earlier : Array Instruction) (limit : Nat)
    (ss : List Statement) (env : Environment) :
    Alike (unmark φ id) (Behind (unmark φ id) earlier) (runMarked limit ss env)
      (run limit (ss.map (Statement.relabel φ)) ⟨env, earlier⟩) := by
  have halike := run_behind (unmark φ id) earlier limit (ss.map (Statement.relabel markInside))
    (env.relabel markBefore) #[]
  rw [Statement.map_relabel_relabel, unmark_markInside, Environment.relabel_relabel,
    unmark_markBefore, Environment.relabel_id, Array.append_empty] at halike
  exact halike

/-- The statements with other lines, run behind other instructions. What was
declared before keeps its lines, and so does a fault that is found there. -/
theorem run_relabel (φ : Nat → Nat) (earlier : Array Instruction) (limit : Nat)
    {ss : List Statement} {env : Environment} (hss : ∀ s ∈ ss, s.TopLevel)
    (henv : env.StoresInner) :
    let o := run limit ss ⟨env, #[]⟩
    let o' := run limit (ss.map (Statement.relabel φ)) ⟨env, earlier⟩
    o'.1.emitted = earlier ++ o.1.emitted ∧
      o'.1.environment.globals = o.1.environment.globals ∧
      o'.1.environment.frames = o.1.environment.frames ∧
      (∃ declared : List Procedure,
        o.1.environment.procedures = env.procedures ++ declared ∧
        o'.1.environment.procedures =
          env.procedures ++ declared.map (Procedure.relabel φ)) ∧
      o'.2 = o.2.map fun f => if stopsInside limit ss env then f.relabel φ else f := by
  intro o o'
  obtain ⟨hbehind, hfault⟩ := runMarked_alike id #[] limit ss env
  obtain ⟨hbehind', hfault'⟩ := runMarked_alike φ earlier limit ss env
  rw [Statement.map_relabel_id] at hbehind hfault
  have hlabelled : ∀ s ∈ ss.map (Statement.relabel markInside), Labelled markInside s := by
    intro s hs
    obtain ⟨s₀, hmem, rfl⟩ := List.mem_map.1 hs
    exact .inr ⟨s₀, hss s₀ hmem, rfl⟩
  have hdeclares : DeclaresLabelled markInside ⟨env.relabel markBefore, #[]⟩
      (runMarked limit ss env).1 :=
    (preserves_declaresLabelled markInside).runWithin_moves limit _ _ _ hlabelled
      (henv.relabel markBefore)
  obtain ⟨-, declared, hdeclared⟩ := hdeclares
  -- on what was declared before, taking the marks off undoes the marking
  have hprocedures : ∀ ψ : Nat → Nat,
      ((runMarked limit ss env).1.environment.relabel (unmark ψ id)).procedures =
        env.procedures ++ declared.map (Procedure.relabel ψ) := by
    intro ψ
    rw [Environment.relabel, hdeclared, Environment.relabel, List.map_append,
      Procedure.map_relabel_relabel, Procedure.map_relabel_relabel, unmark_markBefore,
      unmark_markInside, Procedure.map_relabel_id]
  refine ⟨?_, ?_, ?_, ⟨declared, ?_, ?_⟩, ?_⟩
  · rw [hbehind'.emitted, hbehind.emitted, Array.empty_append]
  · rw [hbehind'.environment, hbehind.environment]
    rfl
  · rw [hbehind'.environment, hbehind.environment]
    rfl
  · rw [hbehind.environment, hprocedures, Procedure.map_relabel_id]
  · rw [hbehind'.environment, hprocedures]
  · rw [hfault', hfault, stopsInside]
    cases (runMarked limit ss env).2 with
    | none => rfl
    | some f =>
        by_cases hodd : f.line % 2 = 1
        · simp [Fault.relabel, unmark, hodd]
        · simp [Fault.relabel, unmark, hodd]

/-! ### Sources -/

namespace Interpreter

theorem run_of_parse (i : Interpreter) {source : Text} {ss : List Statement}
    (h : parseSource source = .ok ss) :
    i.run source =
      let o := Turtle.run i.limit ss ⟨i.environment, #[]⟩
      ⟨{ i with environment := o.1.environment }, o.1.emitted, o.2⟩ := by
  rw [run, h]

/-- A source that is cut at a line break runs like its first part and then, if
no fault stops that, its second part. The lines of the second part are counted
on. -/
theorem run_append_newline (limit : Nat) (sources : List Text) {a b : Text}
    {sa sb : List Statement} (ha : parseSource a = .ok sa) (hb : parseSource b = .ok sb) :
    let later : Nat → Nat := (· + (a.newlines + 1))
    let i := after limit sources
    let first := i.run a
    let second := first.interpreter.run b
    let whole := i.run (a ++ Text.newline :: b)
    parseSource (a ++ Text.newline :: b) = .ok (sa ++ sb.map (Statement.relabel later)) ∧
      (first.fault ≠ none → whole = first) ∧
      (first.fault = none →
        whole.instructions = first.instructions ++ second.instructions ∧
        whole.interpreter.limit = second.interpreter.limit ∧
        whole.interpreter.environment.globals = second.interpreter.environment.globals ∧
        whole.interpreter.environment.frames = second.interpreter.environment.frames ∧
        (∃ declared : List Procedure,
          second.interpreter.environment.procedures =
            first.interpreter.environment.procedures ++ declared ∧
          whole.interpreter.environment.procedures =
            first.interpreter.environment.procedures ++ declared.map (Procedure.relabel later)) ∧
        whole.fault = second.fault.map fun f =>
          if stopsInside i.limit sb first.interpreter.environment then f.relabel later else f) := by
  intro later i first second whole
  have hparse : parseSource (a ++ Text.newline :: b) =
      .ok (sa ++ sb.map (Statement.relabel later)) := parseSource_append_newline ha hb
  have hsettled : first.interpreter.Settled := (settled_after limit sources).run a
  have hfirst : first = _ := i.run_of_parse ha
  have hwhole : whole = _ := i.run_of_parse hparse
  rw [run_append] at hwhole
  refine ⟨hparse, ?_⟩
  cases hout : Turtle.run i.limit sa ⟨i.environment, #[]⟩ with
  | mk m fault =>
      simp only [hout] at hfirst hwhole
      cases fault with
      | some f =>
          refine ⟨fun _ => hwhole.trans hfirst.symm, ?_⟩
          intro hnone
          rw [hfirst] at hnone
          cases hnone
      | none =>
          refine ⟨fun hsome => absurd (by rw [hfirst]) hsome, fun _ => ?_⟩
          -- the second part goes on in the environment that the first has left
          have hsecond : second = _ := first.interpreter.run_of_parse hb
          have hinner : m.environment.StoresInner := by
            have hstored := hsettled.inner
            rwa [hfirst] at hstored
          rw [hsecond, hwhole, hfirst]
          obtain ⟨hemitted, hglobals, hframes, hprocedures, hfault⟩ :=
            run_relabel later m.emitted i.limit (topLevel_of_parseSource hb) hinner
          exact ⟨hemitted, rfl, hglobals, hframes, hprocedures, hfault⟩

/-- A procedure from an earlier source is called in the second part, behind
which a variable of the second part is missing. -/
theorem run_append_newline_missing :
    let i := after 10 [ascii "to f fd :x end"]
    let a := ascii "make \"x 2"
    let b := ascii "f fd :y"
    let sa : List Statement := [.assign 1 (ascii "x") ⟨1, .single (.number 2)⟩]
    let sb : List Statement :=
      [.call 1 (ascii "f") [], .call 1 (ascii "fd") [⟨1, .single (.var (ascii "y"))⟩]]
    (parseSource a = .ok sa ∧ parseSource b = .ok sb) ∧
      parseSource (a ++ Text.newline :: b) = .ok (sa ++ sb.map (Statement.relabel (· + 1))) ∧
      (i.run (a ++ Text.newline :: b)).instructions = #[⟨.forward, [2]⟩] ∧
      (i.run (a ++ Text.newline :: b)).fault = some ⟨2, .unknownVariable (ascii "y")⟩ := by
  intro i a b sa sb
  have ha : parseSource a = .ok sa := by
    have hlex : lex a = .ok ⟨[⟨.keyword .make, 1⟩, ⟨.word (ascii "x"), 1⟩,
        ⟨.number (ascii "2"), 1⟩], 1⟩ := by
      decide +kernel
    rw [parseSource, hlex]
    rfl
  have hb : parseSource b = .ok sb := by
    have hlex : lex b = .ok ⟨[⟨.identifier (ascii "f"), 1⟩, ⟨.identifier (ascii "fd"), 1⟩,
        ⟨.var (ascii "y"), 1⟩], 1⟩ := by
      decide +kernel
    rw [parseSource, hlex]
    rfl
  have hfirst : (i.run a).fault = none := by
    decide +kernel
  obtain ⟨hparse, -, hrun⟩ := run_append_newline 10 [ascii "to f fd :x end"] ha hb
  obtain ⟨hinstructions, -, -, -, -, hfault⟩ := hrun hfirst
  have hsecond : ((i.run a).interpreter.run b).instructions = #[⟨.forward, [2]⟩] := by
    decide +kernel
  have hmissing : ((i.run a).interpreter.run b).fault =
      some ⟨1, .unknownVariable (ascii "y")⟩ := by
    decide +kernel
  have hinside : stopsInside i.limit sb (i.run a).interpreter.environment = true := by
    decide +kernel
  refine ⟨⟨ha, hb⟩, hparse, ?_, ?_⟩
  · have hempty : (i.run a).instructions = #[] := by
      decide +kernel
    rw [hinstructions, hempty, hsecond]
    rfl
  · rw [hfault, hmissing, Option.map_some, if_pos hinside]
    rfl

end Interpreter

end Turtle
