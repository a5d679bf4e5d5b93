import Turtle.Proofs.Evaluation.Reach
import Turtle.Proofs.Expression.Postfix
import Turtle.Proofs.Grammar.Failure

/-!
The parser and the evaluator agree on expressions.

The evaluator is prepared for sequences that cannot be worked off, and blames
itself for them. The parser only delivers postorders of trees. A declared body
is stored as it was parsed, and all that a run comes to stands in the source
or in a stored body. So the fault that stops a run is never such a one.
-/

namespace Turtle

/-! ### The expressions of a program -/

mutual

/-- The expressions of a statement and of all bodies in it. -/
def Statement.expressions : Statement → List Expr
  | .procedure _ _ _ body => bodyExpressions body
  | .call _ _ arguments => arguments
  | .assign _ _ value => [value]
  | .loop _ count body => count :: bodyExpressions body

def bodyExpressions : List Statement → List Expr
  | [] => []
  | s :: ss => s.expressions ++ bodyExpressions ss

end

theorem mem_bodyExpressions {e : Expr} {ss : List Statement} :
    e ∈ bodyExpressions ss ↔ ∃ s ∈ ss, e ∈ s.expressions := by
  induction ss with
  | nil => simp [bodyExpressions]
  | cons s ss ih => simp [bodyExpressions, ih]

/-- The expression is a single operand, or a sequence that can be worked off. -/
def Expr.WellFormed (e : Expr) : Prop :=
  ∀ items, e.form = .sequence items → Postfix items

def Statement.WellFormed (s : Statement) : Prop :=
  ∀ e ∈ s.expressions, e.WellFormed

/-! ### What the parser delivers -/

theorem Infix.wellFormed_expr (e : Infix) : e.expr.WellFormed := by
  intro items hitems
  cases e with
  | atom a => cases hitems
  | paren opening e closing =>
      cases hitems
      exact e.tree.postfix_postorder
  | binary l op line r =>
      cases hitems
      exact (Tree.node op l.tree r.tree).postfix_postorder

theorem Value.wellFormed_expr (v : Value) : v.expr.WellFormed := by
  cases v with
  | argument a => exact a.written.wellFormed_expr
  | word line name =>
      intro items hitems
      cases hitems

mutual

theorem Phrase.wellFormed_statement (ph : Phrase) : ph.statement.WellFormed := by
  match ph with
  | .call line name arguments =>
      intro e he
      rw [Phrase.statement, Statement.expressions] at he
      obtain ⟨a, -, rfl⟩ := List.mem_map.1 he
      exact a.written.wellFormed_expr
  | .assign line nameLine name value =>
      intro e he
      rw [Phrase.statement, Statement.expressions] at he
      rw [List.mem_singleton.1 he]
      exact value.wellFormed_expr
  | .loop line count opening body closing =>
      intro e he
      rw [Phrase.statement, Statement.expressions] at he
      rcases List.mem_cons.1 he with rfl | hbody
      · exact count.wellFormed_expr
      · obtain ⟨s, hs, hmem⟩ := mem_bodyExpressions.1 hbody
        exact wellFormed_bodyStatements body s hs e hmem

theorem wellFormed_bodyStatements (ps : List Phrase) :
    ∀ s ∈ bodyStatements ps, s.WellFormed := by
  match ps with
  | [] => simp [bodyStatements]
  | ph :: ps =>
      intro s hs
      rw [bodyStatements] at hs
      rcases List.mem_cons.1 hs with rfl | htail
      · exact ph.wellFormed_statement
      · exact wellFormed_bodyStatements ps s htail

end

theorem Clause.wellFormed_statement (c : Clause) : c.statement.WellFormed := by
  cases c with
  | phrase ph => exact ph.wellFormed_statement
  | procedure line nameLine name parameters body closing =>
      intro e he
      rw [Clause.statement, Statement.expressions] at he
      obtain ⟨s, hs, hmem⟩ := mem_bodyExpressions.1 he
      exact wellFormed_bodyStatements body s hs e hmem

theorem wellFormed_statements (d : Derivation) :
    ∀ s ∈ Derivation.statements d, s.WellFormed := by
  intro s hs
  obtain ⟨c, -, rfl⟩ := List.mem_map.1 hs
  exact c.wellFormed_statement

theorem wellFormed_of_parse {l : Lexed} {ss : List Statement} (h : parse l = .ok ss) :
    ∀ s ∈ ss, s.WellFormed := by
  obtain ⟨d, -, rfl⟩ := exists_derivation_of_parse h
  exact wellFormed_statements d

theorem wellFormed_of_parseSource {source : Text} {ss : List Statement}
    (h : parseSource source = .ok ss) : ∀ s ∈ ss, s.WellFormed := by
  obtain ⟨l, d, -, -, rfl⟩ := exists_derivation_of_parseSource h
  exact wellFormed_statements d

/-! ### What can stop a run -/

theorem Expr.WellFormed.category_ne_internal {e : Expr} (h : e.WellFormed) {env : Environment}
    {f : Fault} (hf : env.evaluate e = .error f) : f.category ≠ .internal := by
  rcases Environment.category_of_evaluate hf with hcategory | ⟨-, items, hform, hpostfix⟩
  · intro hinternal
    rw [hinternal] at hcategory
    cases hcategory
  · exact absurd (h items hform) hpostfix

theorem Stops.category_ne_internal {limit : Nat} {y : Point} {f : Fault} (h : Stops limit y f)
    (hallowed : ∀ s ∈ y.statements, s.WellFormed) : f.category ≠ .internal := by
  cases h with
  | @value budget line name e rest m f h =>
      have he : e ∈ (Statement.assign line name e).expressions := by simp [Statement.expressions]
      exact (hallowed _ List.mem_cons_self e he).category_ne_internal h
  | @count budget line e body rest m f h =>
      have he : e ∈ (Statement.loop line e body).expressions := by simp [Statement.expressions]
      exact (hallowed _ List.mem_cons_self e he).category_ne_internal h
  | @argument budget line name arguments rest m f h =>
      obtain ⟨e, he, hfault⟩ := Environment.exists_of_evaluateAll_error h
      exact (hallowed _ List.mem_cons_self e he).category_ne_internal hfault
  | redeclared | unknown | arity | parameters | tooDeep => simp [Fault.category, Cause.category]

theorem preserves_storesWellFormed :
    Preserves (fun m => m.environment.Stores Statement.WellFormed) Statement.WellFormed
      (fun _ m' => m'.environment.Stores Statement.WellFormed) :=
  preserves_stores
    (fun h s hs e he => h e (List.mem_cons_of_mem _ (mem_bodyExpressions.2 ⟨s, hs, he⟩)))
    (fun _ h => h)
    (fun h s hs e he => h e (mem_bodyExpressions.2 ⟨s, hs, he⟩))

theorem category_of_run {limit : Nat} {ss : List Statement} {m : Machine} {f : Fault}
    (hss : ∀ s ∈ ss, s.WellFormed) (hm : m.environment.Stores Statement.WellFormed)
    (h : (run limit ss m).2 = some f) : f.category ≠ .internal := by
  rw [← Point.outcome_start] at h
  obtain ⟨y, hreaches, hstops⟩ := exists_stop h
  exact hstops.category_ne_internal (preserves_storesWellFormed.reaches hreaches ⟨hm, hss⟩).2

/-! ### Sessions -/

namespace Interpreter

theorem storesWellFormed_after (limit : Nat) (sources : List Text) :
    (after limit sources).environment.Stores Statement.WellFormed := by
  apply after_induction (P := fun i => i.environment.Stores Statement.WellFormed)
  · intro p hp
    cases hp
  · intro i source h
    rw [run]
    cases hparse : parseSource source with
    | error f => exact h
    | ok ss =>
        exact preserves_storesWellFormed.runWithin_moves _ _ ss _
          (wellFormed_of_parseSource hparse) h

theorem category_of_run_fault {i : Interpreter}
    (h : i.environment.Stores Statement.WellFormed) {source : Text} {f : Fault}
    (hf : (i.run source).fault = some f) : f.category ≠ .internal := by
  rw [run] at hf
  cases hparse : parseSource source with
  | error g =>
      rw [hparse] at hf
      cases hf
      intro hinternal
      apply stage_of_parseSource_error hparse
      rw [Fault.stage, hinternal]
      rfl
  | ok ss =>
      rw [hparse] at hf
      exact category_of_run (wellFormed_of_parseSource hparse) h hf

/-- No source, whatever was run before it, ends in an internal fault. All
sequences that the parser returns can be worked off, and so can those in the
bodies that are stored. -/
theorem run_agrees_with_parse (limit : Nat) (sources : List Text) (source : Text) :
    let i := after limit sources
    (i.run source).fault.map Fault.category ≠ some .internal ∧
      (∀ p ∈ i.environment.procedures, ∀ e ∈ bodyExpressions p.body, ∀ items,
        e.form = .sequence items → Postfix items) ∧
      ∀ (l : Lexed) (ss : List Statement), parse l = .ok ss → ∀ e ∈ bodyExpressions ss, ∀ items,
        e.form = .sequence items → Postfix items := by
  intro i
  have hstored : i.environment.Stores Statement.WellFormed := storesWellFormed_after limit sources
  refine ⟨?_, ?_, ?_⟩
  · intro hfault
    obtain ⟨f, hf, hinternal⟩ := Option.map_eq_some_iff.1 hfault
    exact category_of_run_fault hstored hf hinternal
  · intro p hp e he
    obtain ⟨s, hs, hmem⟩ := mem_bodyExpressions.1 he
    exact hstored p hp s hs e hmem
  · intro l ss hparse e he
    obtain ⟨s, hs, hmem⟩ := mem_bodyExpressions.1 he
    exact wellFormed_of_parse hparse s hs e hmem

/-- The text `to f :n repeat 2 [ fd (:n+1)*2 ] end`. Its sequence is stored two
bodies deep, and a call with the largest number fails in the middle of it. -/
theorem run_agrees_with_parse_nested :
    let source := ascii "to f :n repeat 2 [ fd (:n+1)*2 ] end"
    let items : List Item := [.operand (.var (ascii "n")), .operand (.number 1), .operator .add,
      .operand (.number 2), .operator .mul]
    let body : List Statement :=
      [.loop 1 ⟨1, .single (.number 2)⟩ [.call 1 (ascii "fd") [⟨1, .sequence items⟩]]]
    let i := after 10 [source]
    ((i.run (ascii "f 9223372036854775807")).fault.map Fault.category ≠ some .internal ∧
        i.environment.procedures = [⟨ascii "f", [ascii "n"], body⟩]) ∧
      Postfix items := by
  intro source items body i
  have hparse : parseSource source = .ok [.procedure 1 (ascii "f") [ascii "n"] body] := by
    have hlex : lex source = .ok ⟨[⟨.keyword .to, 1⟩, ⟨.identifier (ascii "f"), 1⟩,
        ⟨.var (ascii "n"), 1⟩, ⟨.keyword .loop, 1⟩, ⟨.number (ascii "2"), 1⟩, ⟨.leftBracket, 1⟩,
        ⟨.identifier (ascii "fd"), 1⟩, ⟨.leftParen, 1⟩, ⟨.var (ascii "n"), 1⟩,
        ⟨.operator .add, 1⟩, ⟨.number (ascii "1"), 1⟩, ⟨.rightParen, 1⟩, ⟨.operator .mul, 1⟩,
        ⟨.number (ascii "2"), 1⟩, ⟨.rightBracket, 1⟩, ⟨.keyword .close, 1⟩], 1⟩ := by
      decide +kernel
    rw [parseSource, hlex]
    rfl
  have hstored : i.environment.procedures = [⟨ascii "f", [ascii "n"], body⟩] := by
    simp only [i, after, List.foldl_cons, List.foldl_nil, run, hparse]
    rfl
  obtain ⟨hfault, hbodies, -⟩ :=
    run_agrees_with_parse 10 [source] (ascii "f 9223372036854775807")
  refine ⟨⟨hfault, hstored⟩, ?_⟩
  apply hbodies ⟨ascii "f", [ascii "n"], body⟩ _ ⟨1, .sequence items⟩ _ items rfl
  · rw [hstored]
    exact List.mem_cons_self
  · simp [body, bodyExpressions, Statement.expressions]

end Interpreter

end Turtle
