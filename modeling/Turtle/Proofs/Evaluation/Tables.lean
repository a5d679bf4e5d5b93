import Turtle.Proofs.Evaluation.Isolation

/-!
The tables that a session keeps.

Between two sources an interpreter keeps its globals and its procedures. Each
is a table that is searched by name, and the first entry counts. So an entry
behind another one of the same name would be dead, and a procedure with the
name of a command could never be called. Neither comes up: an assignment
changes the binding that is there, a declaration is refused if its name is
taken. Nothing else is ever done to the tables, so the procedures only grow,
and each of them is what the parser made of a declaration.
-/

namespace Turtle

/-! ### Names in a scope -/

/-- An assignment adds the name, if it is not yet bound. -/
theorem Scope.names_set (s : Scope) (name : Text) (n : Int64) :
    (Scope.set s name n).map Binding.name =
      if name ∈ s.map Binding.name then s.map Binding.name else s.map Binding.name ++ [name] := by
  induction s with
  | nil => rfl
  | cons b s ih =>
      rw [set]
      by_cases hname : b.name = name
      · simp [hname]
      · have hother : name ≠ b.name := fun h => hname h.symm
        rw [if_neg (by simpa using hname), List.map_cons, ih, List.map_cons]
        split_ifs with hrest hall hall
        · rfl
        · exact absurd (List.mem_cons_of_mem _ hrest) hall
        · exact absurd (List.mem_of_ne_of_mem hother hall) hrest
        · rfl

theorem Scope.nodup_set {s : Scope} (h : (s.map Binding.name).Nodup) (name : Text) (n : Int64) :
    ((Scope.set s name n).map Binding.name).Nodup := by
  rw [names_set]
  split_ifs with hbound
  · exact h
  · simpa using h.concat hbound

/-! ### Consistent tables -/

/-- Every entry of the tables is the one that its name stands for, and no
stored body declares a procedure. -/
structure Environment.Consistent (env : Environment) : Prop where
  globals : (env.globals.map Binding.name).Nodup
  procedures : (env.procedures.map Procedure.name).Nodup
  commands : ∀ p ∈ env.procedures, Command.find? p.name = none
  inner : env.StoresInner

namespace Environment.Consistent

variable {env : Environment}

theorem empty : Environment.empty.Consistent where
  globals := List.nodup_nil
  procedures := List.nodup_nil
  commands := fun _ hp => nomatch hp
  inner := fun _ hp => nomatch hp

theorem set (h : env.Consistent) (name : Text) (n : Int64) : (env.set name n).Consistent := by
  rw [Environment.set]
  cases env.frames with
  | nil => exact { h with globals := Scope.nodup_set h.globals name n }
  | cons frame frames => exact { h with }

theorem declare (h : env.Consistent) {p : Procedure} (hcommand : Command.find? p.name = none)
    (hprocedure : env.procedure? p.name = none) (hp : ∀ s ∈ p.body, s.Inner) :
    (env.declare p).Consistent where
  globals := h.globals
  procedures := by
    have hnew : p.name ∉ env.procedures.map Procedure.name := by
      intro hmem
      obtain ⟨q, hq, hname⟩ := List.mem_map.1 hmem
      exact List.find?_eq_none.1 hprocedure q hq (beq_iff_eq.2 hname)
    simpa [Environment.declare] using h.procedures.concat hnew
  commands := by
    intro q hq
    rcases List.mem_append.1 hq with hold | hnew
    · exact h.commands q hold
    · rw [List.mem_singleton.1 hnew]
      exact hcommand
  inner := h.inner.declare hp

end Environment.Consistent

theorem Command.mem_all (c : Command) : c ∈ Command.all := by
  cases c <;> decide

/-- A name that stands for no command is neither the name nor the short name
of one. -/
theorem Command.ne_name_of_find? {name : Text} (h : Command.find? name = none) (c : Command) :
    name ≠ c.name ∧ c.abbreviation? ≠ some name := by
  have hc := List.find?_eq_none.1 h c c.mem_all
  simp only [Bool.or_eq_true, beq_iff_eq, not_or] at hc
  exact ⟨fun heq => hc.1 heq.symm, hc.2⟩

/-! ### What a run adds -/

/-- The tables are consistent, and the procedures are those from before with
some that the statements declare behind them. -/
def Extends (ss : List Statement) (m m' : Machine) : Prop :=
  m'.environment.Consistent ∧
    ∃ declared, m'.environment.procedures = m.environment.procedures ++ declared ∧
      ∀ p ∈ declared, ∃ line, .procedure line p.name p.parameters p.body ∈ ss

/-- Tables with the same procedures have none added. -/
theorem Extends.of_procedures {ss : List Statement} {m m' : Machine}
    (h : m'.environment.Consistent)
    (hprocedures : m'.environment.procedures = m.environment.procedures) : Extends ss m m' :=
  ⟨h, [], by rw [hprocedures, List.append_nil], fun _ hp => nomatch hp⟩

theorem Extends.trans {ss : List Statement} {m m' m'' : Machine} (h : Extends ss m m')
    (h' : Extends ss m' m'') : Extends ss m m'' := by
  obtain ⟨-, declared, hprocedures, hdeclared⟩ := h
  obtain ⟨hconsistent, declared', hprocedures', hdeclared'⟩ := h'
  refine ⟨hconsistent, declared ++ declared', ?_, ?_⟩
  · rw [hprocedures', hprocedures, List.append_assoc]
  · intro p hp
    rcases List.mem_append.1 hp with hearlier | hlater
    · exact hdeclared p hearlier
    · exact hdeclared' p hlater

/-- Only a statement of the source itself can declare a procedure. All others
that a run comes to stand in a body. -/
theorem preserves_extends (ss : List Statement) :
    Preserves (fun m => m.environment.Consistent) (fun s => (s ∈ ss ∧ s.TopLevel) ∨ s.Inner)
      (Extends ss) where
  refl := fun hm => .of_procedures hm rfl
  trans := Extends.trans
  keeps := fun _ h => h.1
  looped := by
    intro line count body h s hs
    rcases h with ⟨-, htop⟩ | hinner
    · exact .inr (Statement.Inner.of_mem_loop htop s hs)
    · exact .inr (hinner.of_mem_loop s hs)
  stored := fun hm p hp s hs => .inr (hm.inner p hp s hs)
  emit := fun hm _ => .of_procedures hm rfl
  set := fun {m} hm name n =>
    .of_procedures (hm.set name n) (m.environment.procedures_set name n)
  declare := by
    intro m line name parameters body hm h hcommand hprocedure
    rcases h with ⟨hmem, htop⟩ | hinner
    · refine ⟨hm.declare hcommand hprocedure htop, [⟨name, parameters, body⟩], rfl, ?_⟩
      intro p hp
      rw [List.mem_singleton.1 hp]
      exact ⟨line, hmem⟩
    · cases hinner
  enter := fun hm _ => { hm with }
  leave := fun _ h => ⟨{ h.1 with }, h.2⟩

/-! ### Sessions -/

/-- What can be done with an interpreter. -/
inductive Action
  | run (source : Text)
  | reset
  deriving DecidableEq, Repr

/-- The procedure is what the parser makes of a declaration in the source, with
the lines on which it stands there. -/
def Procedure.DeclaredIn (source : Text) (p : Procedure) : Prop :=
  ∃ ss line, parseSource source = .ok ss ∧ .procedure line p.name p.parameters p.body ∈ ss

namespace Interpreter

def perform (i : Interpreter) : Action → Interpreter
  | .run source => (i.run source).interpreter
  | .reset => i.reset

/-- A new interpreter after the actions of a session. -/
def session (limit : Nat) (actions : List Action) : Interpreter :=
  actions.foldl perform (new limit)

theorem session_append (limit : Nat) (actions later : List Action) :
    session limit (actions ++ later) = later.foldl perform (session limit actions) :=
  List.foldl_append

/-- A source keeps the tables consistent and adds only procedures that are
declared in it, whether a fault stops it or not. -/
theorem run_extends {i : Interpreter} (h : i.environment.Consistent) (source : Text) :
    (i.run source).interpreter.environment.Consistent ∧
      ∃ declared, (i.run source).interpreter.environment.procedures =
          i.environment.procedures ++ declared ∧ ∀ p ∈ declared, p.DeclaredIn source := by
  rw [run]
  cases hparse : parseSource source with
  | error f => exact ⟨h, [], by simp⟩
  | ok ss =>
      have hallowed : ∀ s ∈ ss, (s ∈ ss ∧ s.TopLevel) ∨ s.Inner :=
        fun s hs => .inl ⟨hs, topLevel_of_parseSource hparse s hs⟩
      obtain ⟨hconsistent, declared, hprocedures, hdeclared⟩ :=
        (preserves_extends ss).runWithin_moves i.limit _ ss ⟨i.environment, #[]⟩ hallowed h
      refine ⟨hconsistent, declared, hprocedures, ?_⟩
      intro p hp
      obtain ⟨line, hmem⟩ := hdeclared p hp
      exact ⟨ss, line, hparse, hmem⟩

/-- After any actions the tables are consistent, and what is stored was declared
in a source. -/
theorem session_consistent (limit : Nat) (actions : List Action) :
    (session limit actions).environment.Consistent ∧
      ∀ p ∈ (session limit actions).environment.procedures,
        ∃ source, .run source ∈ actions ∧ p.DeclaredIn source := by
  induction actions using List.reverseRecOn with
  | nil => exact ⟨.empty, fun _ hp => nomatch hp⟩
  | append_singleton actions a ih =>
      obtain ⟨hconsistent, hstored⟩ := ih
      rw [session_append, List.foldl_cons, List.foldl_nil]
      cases a with
      | reset => exact ⟨.empty, fun _ hp => nomatch hp⟩
      | run source =>
          obtain ⟨hconsistent', declared, hprocedures, hdeclared⟩ := run_extends hconsistent source
          refine ⟨hconsistent', ?_⟩
          intro p hp
          rw [perform, hprocedures] at hp
          rcases List.mem_append.1 hp with hold | hnew
          · obtain ⟨source', hmem, hp⟩ := hstored p hold
            exact ⟨source', List.mem_append_left _ hmem, hp⟩
          · exact ⟨source, by simp, hdeclared p hnew⟩

/-- As long as there is no reset, the procedures only grow. -/
theorem foldl_run_extends {i : Interpreter} (h : i.environment.Consistent) (sources : List Text) :
    ∃ declared, ((sources.map Action.run).foldl perform i).environment.procedures =
        i.environment.procedures ++ declared ∧
      ∀ p ∈ declared, ∃ source ∈ sources, p.DeclaredIn source := by
  induction sources generalizing i with
  | nil => exact ⟨[], by simp⟩
  | cons source sources ih =>
      obtain ⟨hconsistent, declared, hprocedures, hdeclared⟩ := run_extends h source
      obtain ⟨declared', hprocedures', hdeclared'⟩ := ih hconsistent
      refine ⟨declared ++ declared', ?_, ?_⟩
      · rw [List.map_cons, List.foldl_cons, perform, hprocedures', hprocedures, List.append_assoc]
      · intro p hp
        rcases List.mem_append.1 hp with hearlier | hlater
        · exact ⟨source, List.mem_cons_self, hdeclared p hearlier⟩
        · obtain ⟨source', hmem, hp⟩ := hdeclared' p hlater
          exact ⟨source', List.mem_cons_of_mem _ hmem, hp⟩

/-- After any actions no two globals have the same name, and no two procedures;
no procedure has a name of a command; no stored body declares a procedure, at
any depth; and every procedure is what a source declared. Sources that are run
after that leave the procedures as they are and add others behind them, which
they declare. -/
theorem session_tables (limit : Nat) (actions : List Action) :
    let i := session limit actions
    (i.environment.globals.map Binding.name).Nodup ∧
      (i.environment.procedures.map Procedure.name).Nodup ∧
      (∀ p ∈ i.environment.procedures, ∀ c : Command,
        p.name ≠ c.name ∧ c.abbreviation? ≠ some p.name) ∧
      (∀ p ∈ i.environment.procedures, ∀ s ∈ p.body, s.Inner) ∧
      (∀ p ∈ i.environment.procedures, ∃ source, .run source ∈ actions ∧ p.DeclaredIn source) ∧
      ∀ sources : List Text, ∃ declared,
        (session limit (actions ++ sources.map .run)).environment.procedures =
          i.environment.procedures ++ declared ∧
        ∀ p ∈ declared, ∃ source ∈ sources, p.DeclaredIn source := by
  intro i
  obtain ⟨hconsistent, hstored⟩ := session_consistent limit actions
  refine ⟨hconsistent.globals, hconsistent.procedures, ?_, hconsistent.inner, hstored, ?_⟩
  · intro p hp
    exact Command.ne_name_of_find? (hconsistent.commands p hp)
  · intro sources
    rw [session_append]
    exact foldl_run_extends hconsistent sources

/-- A procedure, and sources that follow: the first one is stopped in its first
statement, as the name is taken, and the second one behind an assignment. -/
theorem session_tables_redeclared :
    let source := ascii "to f fd 1 end"
    let p : Procedure := ⟨ascii "f", [], [.call 1 (ascii "fd") [⟨1, .single (.number 1)⟩]]⟩
    let later := [ascii "to f :n end to h end", ascii "make \"x 2 fd :y", ascii "to g end"]
    (session 10 [.run source]).environment.procedures = [p] ∧ p.DeclaredIn source ∧
      (∀ s ∈ p.body, s.Inner) ∧
      ∃ declared, (session 10 (.run source :: later.map .run)).environment.procedures =
          p :: declared ∧
        declared.map Procedure.name = [ascii "g"] := by
  intro source p later
  have hparse : parseSource source = .ok [.procedure 1 p.name p.parameters p.body] := by
    have hlex : lex source = .ok ⟨[⟨.keyword .to, 1⟩, ⟨.identifier (ascii "f"), 1⟩,
        ⟨.identifier (ascii "fd"), 1⟩, ⟨.number (ascii "1"), 1⟩, ⟨.keyword .close, 1⟩], 1⟩ := by
      decide +kernel
    rw [parseSource, hlex]
    rfl
  have hprocedures : (session 10 [.run source]).environment.procedures = [p] := by
    simp only [session, List.foldl_cons, List.foldl_nil, perform, run, hparse]
    rfl
  have hp : p ∈ (session 10 [.run source]).environment.procedures := by
    rw [hprocedures]
    exact List.mem_cons_self
  obtain ⟨-, -, -, hinner, hdeclared, hlater⟩ := session_tables 10 [.run source]
  obtain ⟨source', hmem, hp'⟩ := hdeclared p hp
  obtain rfl : source' = source := by simpa using hmem
  obtain ⟨declared, hgrown, -⟩ := hlater later
  rw [hprocedures] at hgrown
  have hnames : (session 10 ([.run source] ++ later.map .run)).environment.procedures.map
      Procedure.name = [ascii "f", ascii "g"] := by
    decide +kernel
  rw [hgrown] at hnames
  exact ⟨hprocedures, hp', hinner p hp, declared, hgrown, List.tail_eq_of_cons_eq hnames⟩

end Interpreter

end Turtle
