import Mathlib.Data.List.Nodup
import Turtle.Proofs.Console.Gist
import Turtle.Proofs.Evaluation.Reach
import Turtle.Proofs.Evaluation.Tables

/-!
The order of definitions.

The tables of a session keep the order in which names were defined, but nobody
sees it: whoever reads a table looks for the first entry of a name, and no name
has two. So a session goes on in the same way if its tables are put into another
order, and definitions that are made next to each other can change places.

What is carried through the runs is that two environments answer alike: they
give the same values and the same procedures. An assignment and a declaration
preserve it, as what they change can be told from the answers before.
-/

namespace Turtle

/-! ### Tables of names -/

section

variable {α : Type} {key : α → Text} {l l' : List α} {name : Text} {a : α}

theorem of_find?_eq_some (h : l.find? (key · == name) = some a) : a ∈ l ∧ key a = name := by
  have hname := List.find?_some (p := (key · == name)) h
  exact ⟨List.mem_of_find?_eq_some h, beq_iff_eq.1 hname⟩

/-- If no two entries have the same name, then whatever has the name is found. -/
theorem find?_eq_some_iff_mem (h : (l.map key).Nodup) :
    l.find? (key · == name) = some a ↔ a ∈ l ∧ key a = name := by
  constructor
  · exact of_find?_eq_some
  · rintro ⟨hmem, hname⟩
    cases hfound : l.find? (key · == name) with
    | none => exact absurd (beq_iff_eq.2 hname) (List.find?_eq_none.1 hfound a hmem)
    | some b =>
        obtain ⟨hb, hname'⟩ := of_find?_eq_some hfound
        exact congrArg some (List.inj_on_of_nodup_map h hb hmem (hname'.trans hname.symm))

theorem find?_eq_of_perm (h : (l.map key).Nodup) (hperm : l'.Perm l) (name : Text) :
    l'.find? (key · == name) = l.find? (key · == name) := by
  have h' : (l'.map key).Nodup := (hperm.map key).nodup_iff.2 h
  ext a
  rw [find?_eq_some_iff_mem h, find?_eq_some_iff_mem h', hperm.mem_iff]

end

theorem Scope.find?_cons (b : Binding) (s : Scope) (name : Text) :
    Scope.find? (b :: s) name = if b.name = name then some b.value else s.find? name := by
  rw [find?, List.find?_cons]
  by_cases hname : b.name = name
  · rw [beq_iff_eq.2 hname, if_pos hname]
    rfl
  · rw [beq_eq_false_iff_ne.2 hname, if_neg hname]
    rfl

theorem Scope.find?_set (s : Scope) (name : Text) (n : Int64) (name' : Text) :
    (Scope.set s name n).find? name' = if name = name' then some n else s.find? name' := by
  induction s with
  | nil => rw [set, find?_cons]
  | cons b s ih =>
      rw [set]
      by_cases hb : b.name = name
      · rw [if_pos (beq_iff_eq.2 hb), find?_cons, find?_cons, hb]
        split_ifs <;> rfl
      · have hb' : ¬ (b.name == name) = true := fun h => hb (beq_iff_eq.1 h)
        rw [if_neg hb', find?_cons, find?_cons, ih]
        split_ifs with hname hname'
        · exact absurd (hname.trans hname'.symm) hb
        · rfl
        · rfl
        · rfl

theorem Environment.procedure?_declare (env : Environment) (p : Procedure) (name : Text) :
    (env.declare p).procedure? name =
      (env.procedure? name).or (if p.name = name then some p else none) := by
  rw [procedure?, declare, List.find?_append, procedure?]
  by_cases hname : p.name = name <;> simp [hname]

/-! ### Environments that answer alike -/

/-- The environments give the same values and the same procedures, with other
lines in the second one. -/
structure Environment.AnswersAlike (φ : Nat → Nat) (env env' : Environment) : Prop where
  globals : ∀ name, env'.globals.find? name = env.globals.find? name
  frames : env'.frames = env.frames
  procedures : ∀ name, env'.procedure? name = (env.procedure? name).map (Procedure.relabel φ)

namespace Environment.AnswersAlike

variable {φ : Nat → Nat} {env env' : Environment}

theorem refl (env : Environment) : env.AnswersAlike id env where
  globals := fun _ => rfl
  frames := rfl
  procedures := fun _ => by rw [Procedure.relabel_id, Option.map_id, id]

theorem find? (h : env.AnswersAlike φ env') (name : Text) : env'.find? name = env.find? name := by
  rw [Environment.find?, Environment.find?, h.frames, h.globals]

theorem set (h : env.AnswersAlike φ env') (name : Text) (n : Int64) :
    (env.set name n).AnswersAlike φ (env'.set name n) := by
  rw [Environment.set, Environment.set, h.frames]
  cases env.frames with
  | nil =>
      refine ⟨?_, rfl, h.procedures⟩
      intro name'
      rw [Scope.find?_set, Scope.find?_set, h.globals]
  | cons frame frames => exact ⟨h.globals, rfl, h.procedures⟩

theorem declare (h : env.AnswersAlike φ env') (p : Procedure) :
    (env.declare p).AnswersAlike φ (env'.declare (p.relabel φ)) where
  globals := h.globals
  frames := h.frames
  procedures := by
    intro name
    have hname : (p.relabel φ).name = p.name := rfl
    rw [procedure?_declare, procedure?_declare, h.procedures, hname]
    split_ifs <;> cases env.procedure? name <;> rfl

theorem push (h : env.AnswersAlike φ env') (frame : Scope) :
    (env.push frame).AnswersAlike φ (env'.push frame) where
  globals := h.globals
  frames := congrArg (frame :: ·) h.frames
  procedures := h.procedures

theorem pop (h : env.AnswersAlike φ env') : env.pop.AnswersAlike φ env'.pop where
  globals := h.globals
  frames := congrArg List.tail h.frames
  procedures := h.procedures

theorem of_relabel (φ : Nat → Nat) (env : Environment) : env.AnswersAlike φ (env.relabel φ) where
  globals := fun _ => rfl
  frames := rfl
  procedures := fun _ => List.find?_map

/-- Tables in another order answer alike, if no two entries of one have the same
name. -/
theorem of_perm (h : env.Consistent) {globals : Scope} {procedures : List Procedure}
    (hglobals : globals.Perm env.globals) (hprocedures : procedures.Perm env.procedures) :
    env.AnswersAlike id { env with globals, procedures } where
  globals := by
    intro name
    rw [Scope.find?, Scope.find?, find?_eq_of_perm h.globals hglobals]
  frames := rfl
  procedures := by
    intro name
    rw [Procedure.relabel_id, Option.map_id, procedure?, find?_eq_of_perm h.procedures hprocedures]
    rfl

end Environment.AnswersAlike

/-- The environments answer alike, and the same instructions have been emitted. -/
def Machine.AnswersAlike (φ : Nat → Nat) (m m' : Machine) : Prop :=
  m.environment.AnswersAlike φ m'.environment ∧ m'.emitted = m.emitted

theorem simulates_answersAlike (φ : Nat → Nat) : Simulates φ (Machine.AnswersAlike φ) where
  lookup := fun h => h.1.find?
  procedures := fun h => h.1.procedures
  emit := fun h i => ⟨h.1, congrArg (Array.push · i) h.2⟩
  set := fun h name n => ⟨h.1.set name n, h.2⟩
  declare := fun h p => ⟨h.1.declare p, h.2⟩
  push := fun h frame => ⟨h.1.push frame, h.2⟩
  pop := fun h => ⟨h.1.pop, h.2⟩

theorem run_answersAlike {φ : Nat → Nat} {m m' : Machine} (h : m.AnswersAlike φ m') (limit : Nat)
    (ss : List Statement) :
    Alike φ (Machine.AnswersAlike φ) (run limit ss m)
      (run limit (ss.map (Statement.relabel φ)) m') := by
  rw [run, run, h.1.frames]
  exact (simulates_answersAlike φ).runWithin_alike limit _ ss m m' h

/-! ### Lines left out -/

/-- Forgets the lines of the procedures. -/
def Machine.noLines (m : Machine) : Machine :=
  { m with environment := m.environment.relabel noLine }

/-- Forgets the line of the fault, too. -/
def Outcome.noLines (o : Outcome) : Outcome :=
  (o.1.noLines, o.2.map (Fault.relabel noLine))

/-- The outcomes are the same up to lines. -/
def Outcome.Matches (o o' : Outcome) : Prop :=
  Alike noLine (Machine.AnswersAlike noLine) o o'.noLines

theorem Environment.AnswersAlike.noLines {env env' : Environment} (h : env.AnswersAlike id env') :
    env.AnswersAlike noLine (env'.relabel noLine) where
  globals := h.globals
  frames := h.frames
  procedures := by
    intro name
    rw [(of_relabel noLine env').procedures, h.procedures, Procedure.relabel_id, Option.map_id, id]

theorem Environment.AnswersAlike.forget {env env' : Environment}
    (h : env.AnswersAlike noLine (env'.relabel noLine)) :
    (env.relabel noLine).AnswersAlike id (env'.relabel noLine) where
  globals := h.globals
  frames := h.frames
  procedures := by
    intro name
    rw [h.procedures, (of_relabel noLine env).procedures, Procedure.relabel_id, Option.map_id, id]

theorem run_matches {m m' : Machine} (h : m.AnswersAlike noLine m'.noLines) (limit : Nat)
    {ss ss' : List Statement}
    (hss : ss'.map (Statement.relabel noLine) = ss.map (Statement.relabel noLine)) :
    (run limit ss m).Matches (run limit ss' m') := by
  -- without lines, the second run is the one that answers alike
  obtain ⟨hbehind, hfault⟩ := run_behind noLine #[] limit ss' m'.environment m'.emitted
  rw [Array.empty_append, hss] at hbehind hfault
  have hforgotten : (run limit ss' m').noLines =
      run limit (ss.map (Statement.relabel noLine)) m'.noLines := by
    apply Prod.ext _ hfault.symm
    have hemitted := hbehind.emitted
    rw [Array.empty_append] at hemitted
    rw [Outcome.noLines, Machine.noLines, ← hbehind.environment, ← hemitted]
    rfl
  rw [Outcome.Matches, hforgotten]
  exact run_answersAlike h limit ss

theorem Outcome.Matches.of_alike {o o' o'' : Outcome} (h : Alike id (Machine.AnswersAlike id) o o')
    (h' : o'.Matches o'') : o.Matches o'' := by
  obtain ⟨⟨henvironment, hemitted⟩, hfault⟩ := h
  obtain ⟨⟨henvironment', hemitted'⟩, hfault'⟩ := h'
  refine ⟨⟨⟨?_, ?_, ?_⟩, hemitted'.trans hemitted⟩, ?_⟩
  · exact fun name => (henvironment'.globals name).trans (henvironment.globals name)
  · exact henvironment'.frames.trans henvironment.frames
  · intro name
    rw [henvironment'.procedures, henvironment.procedures, Procedure.relabel_id, Option.map_id, id]
  · have hid : Fault.relabel id = id := rfl
    rw [hfault', hfault, hid, Option.map_id, id]

/-! ### Definitions that change places -/

namespace Machine

/-- A declaration succeeds if the name is free. -/
theorem declare_isNone_iff {m : Machine} {line : Nat} {p : Procedure} :
    (m.declare line p).2 = none ↔
      Command.find? p.name = none ∧ m.environment.procedure? p.name = none := by
  rw [declare_eq]
  cases Command.find? p.name <;> cases m.environment.procedure? p.name <;> simp [fail, done]

theorem declare_of_isNone {m : Machine} {line : Nat} {p : Procedure}
    (h : (m.declare line p).2 = none) :
    m.declare line p = done { m with environment := m.environment.declare p } := by
  obtain ⟨hcommand, hprocedure⟩ := declare_isNone_iff.1 h
  rw [declare_eq, hcommand, hprocedure]
  rfl

/-- The statements define different names: two variables, as constants, or two
procedures, and both declarations succeed. -/
inductive Defines (m : Machine) : Statement → Statement → Prop
  | assign (line line' : Nat) {name name' : Text} {e e' : Expr} {n n' : Int64}
      (differ : name ≠ name') (value : ∀ env : Environment, env.evaluate e = .ok n)
      (value' : ∀ env : Environment, env.evaluate e' = .ok n') :
      Defines m (.assign line name e) (.assign line' name' e')
  | declare {line line' : Nat} {p p' : Procedure} (differ : p.name ≠ p'.name)
      (succeeds : (m.declare line p).2 = none)
      (succeeds' : ((m.declare line p).1.declare line' p').2 = none) :
      Defines m (.procedure line p.name p.parameters p.body)
        (.procedure line' p'.name p'.parameters p'.body)

end Machine

namespace Environment

theorem answersAlike_set_set {env : Environment} (h : env.frames = []) {name name' : Text}
    (differ : name ≠ name') (n n' : Int64) :
    ((env.set name n).set name' n').AnswersAlike id ((env.set name' n').set name n) := by
  simp only [set, h]
  refine ⟨?_, rfl, ?_⟩
  · intro name''
    simp only [Scope.find?_set]
    split_ifs with hfirst hsecond
    · exact absurd (hfirst.trans hsecond.symm) differ
    · rfl
    · rfl
    · rfl
  · intro name''
    rw [Procedure.relabel_id, Option.map_id]
    rfl

theorem answersAlike_declare_declare (env : Environment) {p p' : Procedure}
    (differ : p.name ≠ p'.name) :
    ((env.declare p).declare p').AnswersAlike id ((env.declare p').declare p) := by
  refine ⟨fun _ => rfl, rfl, ?_⟩
  intro name
  simp only [procedure?_declare, Procedure.relabel_id, Option.map_id, id, Option.or_assoc]
  split_ifs with hsecond hfirst
  · exact absurd (hfirst.trans hsecond.symm) differ
  · rfl
  · rfl
  · rfl

end Environment

theorem run_assign {e : Expr} {n : Int64} (value : ∀ env : Environment, env.evaluate e = .ok n)
    (limit line : Nat) (name : Text) (m : Machine) :
    run limit [.assign line name e] m =
      Machine.done { m with environment := m.environment.set name n } := by
  rw [run_singleton, runStatement, Machine.assign, value]
  rfl

theorem run_procedure {m : Machine} {p : Procedure} (hcommand : Command.find? p.name = none)
    (hprocedure : m.environment.procedure? p.name = none) (limit line : Nat) :
    run limit [.procedure line p.name p.parameters p.body] m =
      Machine.done { m with environment := m.environment.declare p } := by
  rw [run_singleton, runStatement]
  exact Machine.declare_of_isNone (Machine.declare_isNone_iff.2 ⟨hcommand, hprocedure⟩)

/-- Each of the statements succeeds, in either order, and leaves nothing but a
changed environment; in the end the answers are the same. -/
theorem Machine.Defines.run {m : Machine} {a b : Statement} (h : m.Defines a b)
    (hframes : m.environment.frames = []) (limit : Nat) :
    ∃ ea eb eab eba : Environment,
      run limit [a] m = done { m with environment := ea } ∧
      run limit [b] { m with environment := ea } = done { m with environment := eab } ∧
      run limit [b] m = done { m with environment := eb } ∧
      run limit [a] { m with environment := eb } = done { m with environment := eba } ∧
      eab.AnswersAlike id eba := by
  cases h with
  | @assign line line' name name' e e' n n' differ value value' =>
      exact ⟨_, _, _, _, run_assign value limit line name m, run_assign value' limit line' name' _,
        run_assign value' limit line' name' m, run_assign value limit line name _,
        Environment.answersAlike_set_set hframes differ n n'⟩
  | @declare line line' p p' differ succeeds succeeds' =>
      obtain ⟨hcommand, hprocedure⟩ := declare_isNone_iff.1 succeeds
      rw [declare_of_isNone succeeds] at succeeds'
      obtain ⟨hcommand', hprocedure'⟩ := declare_isNone_iff.1 succeeds'
      -- the second name is free at once, and the first one still
      have hfree : m.environment.procedure? p'.name = none ∧
          (m.environment.declare p').procedure? p.name = none := by
        simp only [done, Environment.procedure?_declare, Option.or_eq_none_iff] at hprocedure' ⊢
        exact ⟨hprocedure'.1, hprocedure, if_neg (Ne.symm differ)⟩
      exact ⟨_, _, _, _, run_procedure hcommand hprocedure limit line,
        run_procedure hcommand' hprocedure' limit line', run_procedure hcommand' hfree.1 limit line',
        run_procedure hcommand hfree.2 limit line,
        m.environment.answersAlike_declare_declare differ⟩

theorem run_cons_of_done {limit : Nat} {s : Statement} {m m' : Machine}
    (h : run limit [s] m = m'.done) (ss : List Statement) :
    run limit (s :: ss) m = run limit ss m' := by
  rw [run_cons, h]
  rfl

theorem run_swapped {m : Machine} (hframes : m.environment.frames = []) (limit : Nat)
    {pre post : List Statement} {a b : Statement}
    (h : ∀ m' : Machine, run limit pre m = m'.done → m'.Defines a b) :
    Alike id (Machine.AnswersAlike id) (run limit (pre ++ a :: b :: post) m)
      (run limit (pre ++ b :: a :: post) m) := by
  have hdepth := (confined_runWithin limit (limit - m.environment.frames.length) pre m).depth
  rw [← run, hframes, List.length_nil, List.length_eq_zero_iff] at hdepth
  rw [run_append, run_append]
  cases hout : run limit pre m with
  | mk m' fault =>
      rw [hout] at hdepth
      cases fault with
      | some f => exact ⟨⟨.refl _, rfl⟩, rfl⟩
      | none =>
          obtain ⟨ea, eb, eab, eba, ha, hab, hb, hba, halike⟩ := (h m' hout).run hdepth limit
          have hboth : Machine.AnswersAlike id { m' with environment := eab }
              { m' with environment := eba } := ⟨halike, rfl⟩
          have hpost := run_answersAlike hboth limit post
          rw [Statement.map_relabel_id] at hpost
          show Alike id _ (run limit (a :: b :: post) m') (run limit (b :: a :: post) m')
          rw [run_cons_of_done ha, run_cons_of_done hab, run_cons_of_done hb, run_cons_of_done hba]
          exact hpost

/-! ### Sources -/

/-- The reports tell the same, and afterwards the names stand for the same. -/
structure Report.Matches (r r' : Report) : Prop where
  instructions : r'.instructions = r.instructions
  fault : r'.fault = r.fault
  values : ∀ name, r'.interpreter.environment.find? name = r.interpreter.environment.find? name
  procedures : ∀ name,
    r'.interpreter.environment.procedure? name = r.interpreter.environment.procedure? name

/-- Forgets the lines of the procedures and of the fault. -/
def Report.noLines (r : Report) : Report :=
  ⟨r.interpreter.noLines, r.instructions, r.fault.map (Fault.relabel noLine)⟩

theorem Report.Matches.of_answersAlike {r r' : Report}
    (h : r.interpreter.environment.AnswersAlike id r'.interpreter.environment)
    (hinstructions : r'.instructions = r.instructions) (hfault : r'.fault = r.fault) :
    r.Matches r' where
  instructions := hinstructions
  fault := hfault
  values := h.find?
  procedures := by
    intro name
    rw [h.procedures, Procedure.relabel_id, Option.map_id, id]

namespace Interpreter

variable {i j : Interpreter}

theorem run_matches (hlimit : j.limit = i.limit)
    (h : i.environment.AnswersAlike id j.environment) (source : Text) :
    (i.run source).Matches (j.run source) := by
  cases hparse : parseSource source with
  | error f =>
      rw [run, run, hparse]
      exact .of_answersAlike h rfl rfl
  | ok ss =>
      have hstart : Machine.AnswersAlike id ⟨i.environment, #[]⟩ ⟨j.environment, #[]⟩ := ⟨h, rfl⟩
      obtain ⟨⟨hend, hemitted⟩, hfault⟩ := run_answersAlike hstart i.limit ss
      rw [Statement.map_relabel_id] at hend hemitted hfault
      have hid : Fault.relabel id = id := rfl
      rw [hid, Option.map_id, id] at hfault
      rw [i.run_of_parse hparse, j.run_of_parse hparse, hlimit]
      exact .of_answersAlike hend hemitted hfault

/-- The interpreters answer alike, if lines are left out. -/
structure Like (i j : Interpreter) : Prop where
  limit : j.limit = i.limit
  environment : i.environment.AnswersAlike noLine (j.environment.relabel noLine)

theorem Like.of_matches (hlimit : j.limit = i.limit) {o o' : Outcome} (h : o.Matches o') :
    let r : Report := ⟨{ i with environment := o.1.environment }, o.1.emitted, o.2⟩
    let r' : Report := ⟨{ j with environment := o'.1.environment }, o'.1.emitted, o'.2⟩
    r.noLines.Matches r'.noLines ∧ r.interpreter.Like r'.interpreter := by
  obtain ⟨⟨henvironment, hemitted⟩, hfault⟩ := h
  exact ⟨.of_answersAlike henvironment.forget hemitted hfault, hlimit, henvironment⟩

theorem Like.run (h : i.Like j) (source : Text) :
    (i.run source).noLines.Matches (j.run source).noLines ∧
      (i.run source).interpreter.Like (j.run source).interpreter := by
  cases hparse : parseSource source with
  | error f =>
      rw [Interpreter.run, Interpreter.run, hparse]
      exact ⟨.of_answersAlike h.environment.forget rfl rfl, h⟩
  | ok ss =>
      have hstart : Machine.AnswersAlike noLine ⟨i.environment, #[]⟩
          (Machine.noLines ⟨j.environment, #[]⟩) := ⟨h.environment, rfl⟩
      have hrun : (Turtle.run i.limit ss ⟨i.environment, #[]⟩).Matches
          (Turtle.run j.limit ss ⟨j.environment, #[]⟩) := by
        rw [h.limit]
        exact Turtle.run_matches hstart i.limit rfl
      rw [i.run_of_parse hparse, j.run_of_parse hparse]
      exact Like.of_matches h.limit hrun

theorem Like.foldl_perform (h : i.Like j) (later : List Action) :
    (later.foldl perform i).Like (later.foldl perform j) := by
  induction later generalizing i j with
  | nil => exact h
  | cons a later ih =>
      rw [List.foldl_cons, List.foldl_cons]
      apply ih
      cases a with
      | run source => exact (h.run source).2
      | reset =>
          refine ⟨h.limit, ?_⟩
          exact .of_relabel noLine .empty

theorem session_frames (limit : Nat) (actions : List Action) :
    (session limit actions).environment.frames = [] := by
  have hsettled : (session limit actions).Settled := by
    apply List.foldlRecOn actions perform (settled_new limit)
    intro i hi a _
    cases a with
    | run source => exact hi.run source
    | reset => exact settled_new i.limit
  exact hsettled.frames

/-- A source in which two definitions next to each other have changed places. -/
theorem like_of_swapped (hframes : i.environment.frames = []) {source source' : Text}
    {pre post ss' : List Statement} {a b : Statement}
    (hparse : parseSource source = .ok (pre ++ a :: b :: post))
    (hparse' : parseSource source' = .ok ss')
    (hss' : ss'.map (Statement.relabel noLine) =
      (pre ++ b :: a :: post).map (Statement.relabel noLine))
    (h : ∀ m : Machine, Turtle.run i.limit pre ⟨i.environment, #[]⟩ = m.done → m.Defines a b) :
    (i.run source).noLines.Matches (i.run source').noLines ∧
      (i.run source).interpreter.Like (i.run source').interpreter := by
  rw [i.run_of_parse hparse, i.run_of_parse hparse']
  exact Like.of_matches rfl (.of_alike (run_swapped hframes i.limit h)
    (Turtle.run_matches ⟨.noLines (.refl _), rfl⟩ i.limit hss'))

/-- Two definitions that are sources of their own and have changed places. -/
theorem like_of_swapped_sources (hframes : i.environment.frames = []) {source source' : Text}
    {a b : Statement} (hparse : parseSource source = .ok [a])
    (hparse' : parseSource source' = .ok [b])
    (h : Machine.Defines ⟨i.environment, #[]⟩ a b) :
    (((i.run source).interpreter.run source').interpreter).Like
      ((i.run source').interpreter.run source).interpreter := by
  obtain ⟨ea, eb, eab, eba, ha, hab, hb, hba, halike⟩ := h.run hframes i.limit
  have hforth : (i.run source).interpreter = { i with environment := ea } := by
    rw [i.run_of_parse hparse, ha]
    rfl
  have hback : (i.run source').interpreter = { i with environment := eb } := by
    rw [i.run_of_parse hparse', hb]
    rfl
  rw [hforth, hback, run_of_parse _ hparse', run_of_parse _ hparse, hab, hba]
  exact ⟨rfl, halike.noLines⟩

/-- After any actions, nothing that a source does depends on the order of the
tables. Nor does it matter in which order two variables are defined next to each
other as constants, or two procedures declared: apart from lines, the source in
which they stand does the same, and so does every source that is run later. It
is the same for definitions in sources of their own. -/
theorem session_unordered (limit : Nat) (actions : List Action) :
    let i := session limit actions
    (∀ (globals : Scope) (procedures : List Procedure), globals.Perm i.environment.globals →
      procedures.Perm i.environment.procedures → ∀ source,
        (i.run source).Matches
          ({ i with environment := { i.environment with globals, procedures } }.run source)) ∧
      (∀ (source source' : Text) (pre post ss' : List Statement) (a b : Statement),
        parseSource source = .ok (pre ++ a :: b :: post) → parseSource source' = .ok ss' →
        ss'.map (Statement.relabel noLine) =
          (pre ++ b :: a :: post).map (Statement.relabel noLine) →
        (∀ m : Machine, Turtle.run i.limit pre ⟨i.environment, #[]⟩ = m.done → m.Defines a b) →
          (i.run source).noLines.Matches (i.run source').noLines ∧
          ∀ (later : List Action) (next : Text),
            ((later.foldl perform (i.run source).interpreter).run next).noLines.Matches
              ((later.foldl perform (i.run source').interpreter).run next).noLines) ∧
      ∀ (source source' : Text) (a b : Statement),
        parseSource source = .ok [a] → parseSource source' = .ok [b] →
        Machine.Defines ⟨i.environment, #[]⟩ a b →
          ∀ (later : List Action) (next : Text),
            ((later.foldl perform
                ((i.run source).interpreter.run source').interpreter).run next).noLines.Matches
              ((later.foldl perform
                ((i.run source').interpreter.run source).interpreter).run next).noLines := by
  intro i
  have hframes : i.environment.frames = [] := session_frames limit actions
  refine ⟨?_, ?_, ?_⟩
  · intro globals procedures hglobals hprocedures source
    have hconsistent := (session_consistent limit actions).1
    apply run_matches
    · rfl
    · exact .of_perm hconsistent hglobals hprocedures
  · intro source source' pre post ss' a b hparse hparse' hss' h
    obtain ⟨hmatches, hlike⟩ := like_of_swapped hframes hparse hparse' hss' h
    exact ⟨hmatches, fun later next => ((hlike.foldl_perform later).run next).1⟩
  · intro source source' a b hparse hparse' h later next
    have hlike := like_of_swapped_sources hframes hparse hparse' h
    exact ((hlike.foldl_perform later).run next).1

/-- Both tables reversed, before a source that comes to a variable that is not
there; two variables in lines that change places; and two procedures in sources
of their own. -/
theorem session_unordered_reversed :
    let i := session 10 [.run (ascii "make \"x 1 make \"y 2 to f fd :x end to g bk :y end")]
    let reversed : Interpreter := { i with
      environment := { i.environment with
        globals := i.environment.globals.reverse
        procedures := i.environment.procedures.reverse } }
    let r := reversed.run (ascii "f g fd :z")
    let swapped := i.run (ascii "make \"b 2\nmake \"a 1")
    let declared := ((i.run (ascii "to q bk :x end")).interpreter.run
      (ascii "to p fd :y end")).interpreter
    (r.instructions = #[⟨.forward, [1]⟩, ⟨.backward, [2]⟩] ∧
        r.fault = some ⟨1, .unknownVariable (ascii "z")⟩) ∧
      (swapped.interpreter.run (ascii "fd :a bk :b")).instructions =
        #[⟨.forward, [1]⟩, ⟨.backward, [2]⟩] ∧
      (declared.run (ascii "p q")).instructions = #[⟨.forward, [2]⟩, ⟨.backward, [1]⟩] := by
  intro i reversed r swapped declared
  obtain ⟨hpermuted, hswapped, hsources⟩ := session_unordered 10
    [.run (ascii "make \"x 1 make \"y 2 to f fd :x end to g bk :y end")]
  have hr := hpermuted i.environment.globals.reverse i.environment.procedures.reverse
    (List.reverse_perm _) (List.reverse_perm _) (ascii "f g fd :z")
  let a (line : Nat) : Statement := .assign line (ascii "a") ⟨line, .single (.number 1)⟩
  let b (line : Nat) : Statement := .assign line (ascii "b") ⟨line, .single (.number 2)⟩
  have hab : parseSource (ascii "make \"a 1\nmake \"b 2") = .ok [a 1, b 2] := by
    have hlex : lex (ascii "make \"a 1\nmake \"b 2") = .ok ⟨[⟨.keyword .make, 1⟩,
        ⟨.word (ascii "a"), 1⟩, ⟨.number (ascii "1"), 1⟩, ⟨.keyword .make, 2⟩,
        ⟨.word (ascii "b"), 2⟩, ⟨.number (ascii "2"), 2⟩], 2⟩ := by
      decide +kernel
    rw [parseSource, hlex]
    rfl
  have hba : parseSource (ascii "make \"b 2\nmake \"a 1") = .ok [b 1, a 2] := by
    have hlex : lex (ascii "make \"b 2\nmake \"a 1") = .ok ⟨[⟨.keyword .make, 1⟩,
        ⟨.word (ascii "b"), 1⟩, ⟨.number (ascii "2"), 1⟩, ⟨.keyword .make, 2⟩,
        ⟨.word (ascii "a"), 2⟩, ⟨.number (ascii "1"), 2⟩], 2⟩ := by
      decide +kernel
    rw [parseSource, hlex]
    rfl
  have hdefines : ∀ m : Machine, m.Defines (a 1) (b 2) :=
    fun m => .assign 1 2 (by decide) (fun _ => rfl) (fun _ => rfl)
  have hlater := (hswapped _ _ [] [] _ _ _ hab hba rfl fun m _ => hdefines m).2 []
    (ascii "fd :a bk :b")
  let p : Procedure := ⟨ascii "p", [], [.call 1 (ascii "fd") [⟨1, .single (.var (ascii "y"))⟩]]⟩
  let q : Procedure := ⟨ascii "q", [], [.call 1 (ascii "bk") [⟨1, .single (.var (ascii "x"))⟩]]⟩
  have hp : parseSource (ascii "to p fd :y end") =
      .ok [.procedure 1 p.name p.parameters p.body] := by
    have hlex : lex (ascii "to p fd :y end") = .ok ⟨[⟨.keyword .to, 1⟩,
        ⟨.identifier (ascii "p"), 1⟩, ⟨.identifier (ascii "fd"), 1⟩, ⟨.var (ascii "y"), 1⟩,
        ⟨.keyword .close, 1⟩], 1⟩ := by
      decide +kernel
    rw [parseSource, hlex]
    rfl
  have hq : parseSource (ascii "to q bk :x end") =
      .ok [.procedure 1 q.name q.parameters q.body] := by
    have hlex : lex (ascii "to q bk :x end") = .ok ⟨[⟨.keyword .to, 1⟩,
        ⟨.identifier (ascii "q"), 1⟩, ⟨.identifier (ascii "bk"), 1⟩, ⟨.var (ascii "x"), 1⟩,
        ⟨.keyword .close, 1⟩], 1⟩ := by
      decide +kernel
    rw [parseSource, hlex]
    rfl
  have hdeclares : Machine.Defines ⟨i.environment, #[]⟩
      (.procedure 1 p.name p.parameters p.body) (.procedure 1 q.name q.parameters q.body) :=
    .declare (by decide) (by decide +kernel) (by decide +kernel)
  have hnext := hsources _ _ _ _ hp hq hdeclares [] (ascii "p q")
  refine ⟨⟨hr.instructions.trans (by decide +kernel), hr.fault.trans (by decide +kernel)⟩, ?_, ?_⟩
  · exact hlater.instructions.trans (by decide +kernel)
  · exact hnext.instructions.trans (by decide +kernel)

end Interpreter

end Turtle
