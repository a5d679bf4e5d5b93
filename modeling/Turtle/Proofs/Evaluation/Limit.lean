import Turtle.Proofs.Evaluation.Reach
import Turtle.Proofs.Expression.Postfix

/-!
Runs with a larger limit.

The limit is only looked at when a procedure is called and no call is left in
the budget. Until then two runs with different limits do the same. Where the
smaller limit stops the one run, the other goes on, and all that it does then
comes behind the instructions emitted so far. So an outcome that is not cut
short by the limit is the outcome for every larger limit.

The frames and the budget add up to the same number at all points of a run. So
there are never more frames than the limit, and where it stops a run there are
as many.
-/

namespace Turtle

/-! ### Outcomes that are cut short -/

/-- The first outcome is the second one, or it is cut short by the limit. Then
the second one has gone on emitting. -/
def Cut (o o' : Outcome) : Prop :=
  o' = o ∨ (∃ f, o.2 = some f ∧ f.category = .callDepth) ∧
    ∃ more, o'.1.emitted = o.1.emitted ++ more

theorem Cut.refl (o : Outcome) : Cut o o :=
  .inl rfl

/-- The limit has stopped a call before it did anything. -/
theorem Cut.of_confined {m : Machine} {o' : Outcome} (line limit : Nat) (name : Text)
    (h : Confined m o'.1) : Cut (m.fail line (.callDepth name limit)) o' :=
  .inr ⟨⟨_, rfl, rfl⟩, h.emitted⟩

theorem Cut.andThen {o o' : Outcome} (h : Cut o o') {k k' : Machine → Outcome}
    (hk : ∀ m, Cut (k m) (k' m)) (hconfined : ∀ m, Confined m (k' m).1) :
    Cut (Outcome.andThen o k) (Outcome.andThen o' k') := by
  obtain ⟨m, fault⟩ := o
  rcases h with rfl | ⟨⟨f, hf, hcategory⟩, more, hmore⟩
  · cases fault with
    | none => exact hk m
    | some f => exact .refl _
  · cases hf
    refine .inr ⟨⟨f, rfl, hcategory⟩, ?_⟩
    obtain ⟨m', fault'⟩ := o'
    cases fault' with
    | some g => exact ⟨more, hmore⟩
    | none =>
        obtain ⟨later, hlater⟩ := (hconfined m').emitted
        have hmiddle : m'.emitted = m.emitted ++ more := hmore
        refine ⟨more ++ later, ?_⟩
        calc (k' m').1.emitted = m'.emitted ++ later := hlater
          _ = m.emitted ++ more ++ later := by rw [hmiddle]
          _ = m.emitted ++ (more ++ later) := Array.append_assoc

/-- The second way to run a body does the same, unless the first is cut short. -/
def CutsBodies (run run' : List Statement → Machine → Outcome) : Prop :=
  ∀ ss m, Cut (run ss m) (run' ss m)

/-- The second budget allows the calls that the first allows, and these are cut
short at most. -/
structure CutsCalls (callee callee' : Machine.Callee) : Prop where
  allowed : ∀ run, callee = some run → ∃ run', callee' = some run' ∧ CutsBodies run run'
  confined : ∀ run', callee' = some run' →
    Respects (fun _ => True) (fun _ => True) Confined run'

namespace CutsCalls

variable {limit limit' : Nat} {callee callee' : Machine.Callee}

theorem call_cut (h : CutsCalls callee callee') (line : Nat) (name : Text)
    (arguments : List Expr) (m : Machine) :
    Cut (m.call limit callee line name arguments) (m.call limit' callee' line name arguments) := by
  have hconfined : Confined m (m.call limit' callee' line name arguments).1 :=
    preserves_confined.call_move trivial h.confined line name arguments
  unfold Machine.call at hconfined ⊢
  cases hname : Command.find? name with
  | some c => exact .refl _
  | none =>
      cases hp : m.environment.procedure? name with
      | none => exact .refl _
      | some p =>
          simp only [hname, hp] at hconfined ⊢
          unfold Machine.invoke at hconfined ⊢
          split_ifs at hconfined ⊢ with harity
          · exact .refl _
          · cases hcallee : callee with
            | none => exact .of_confined line limit p.name hconfined
            | some run =>
                obtain ⟨run', hrun', hcuts⟩ := h.allowed run hcallee
                rw [hrun']
                cases m.environment.evaluateAll arguments with
                | error f => exact .refl _
                | ok values =>
                    have hbody := hcuts p.body (m.push (p.parameters.zipWith Binding.mk values))
                    rcases hbody with heq | ⟨hfault, hmore⟩
                    · simp only [heq]
                      exact .refl _
                    · exact .inr ⟨hfault, hmore⟩

theorem iterate_cut {run run' : Machine → Outcome} (hrun : ∀ m, Cut (run m) (run' m))
    (hconfined : ∀ m, Confined m (run' m).1) (n : Nat) (m : Machine) :
    Cut (m.iterate run n) (m.iterate run' n) := by
  induction n generalizing m with
  | zero => exact .refl _
  | succ n ih =>
      rw [Machine.iterate_succ, Machine.iterate_succ]
      apply (hrun m).andThen ih
      intro m
      exact preserves_confined.iterate_moves (fun m _ => hconfined m) n trivial

theorem confined_runBody (h : CutsCalls callee callee') (ss : List Statement) (m : Machine) :
    Confined m (runBody limit' callee' ss m).1 :=
  preserves_confined.runBody_moves h.confined ss (fun _ _ => trivial) trivial

mutual

theorem runStatement_cut (h : CutsCalls callee callee') (s : Statement) (m : Machine) :
    Cut (runStatement limit callee s m) (runStatement limit' callee' s m) := by
  match s with
  | .procedure line name parameters body =>
      rw [runStatement, runStatement]
      exact .refl _
  | .call line name arguments =>
      rw [runStatement, runStatement]
      exact h.call_cut line name arguments m
  | .assign line name value =>
      rw [runStatement, runStatement]
      exact .refl _
  | .loop line count body =>
      rw [runStatement, runStatement]
      cases m.environment.evaluate count with
      | error f => exact .refl _
      | ok n =>
          exact iterate_cut (runBody_cut h body) (h.confined_runBody body) n.toInt.toNat m

theorem runBody_cut (h : CutsCalls callee callee') (ss : List Statement) :
    ∀ m, Cut (runBody limit callee ss m) (runBody limit' callee' ss m) := by
  match ss with
  | [] => exact fun m => .refl _
  | s :: rest =>
      intro m
      rw [runBody_cons, runBody_cons]
      exact (runStatement_cut h s m).andThen (runBody_cut h rest) (h.confined_runBody rest)

end

end CutsCalls

/-- A smaller budget only cuts runs short. -/
theorem runWithin_cuts (limit limit' : Nat) {budget budget' : Nat} (h : budget ≤ budget') :
    CutsBodies (runWithin limit budget) (runWithin limit' budget') := by
  induction budget generalizing budget' with
  | zero =>
      have hcalls : CutsCalls none (calleeWithin limit' budget') :=
        ⟨fun _ hrun => (nomatch hrun), preserves_confined.respects_callee limit' budget'⟩
      rw [runWithin_eq_calleeWithin limit']
      exact hcalls.runBody_cut
  | succ budget ih =>
      obtain ⟨budget', rfl⟩ := Nat.exists_eq_succ_of_ne_zero (by omega : budget' ≠ 0)
      have hcalls :
          CutsCalls (some (runWithin limit budget)) (some (runWithin limit' budget')) := by
        refine ⟨?_, preserves_confined.respects_callee limit' (budget' + 1)⟩
        intro run hrun
        cases hrun
        exact ⟨_, rfl, ih (Nat.le_of_succ_le_succ h)⟩
      exact hcalls.runBody_cut

/-! ### The limit -/

/-- No expression is blamed on the limit. -/
theorem Environment.category_ne_callDepth {env : Environment} {e : Expr} {f : Fault}
    (h : env.evaluate e = .error f) : f.category ≠ .callDepth := by
  intro hcategory
  rcases category_of_evaluate h with hoperation | ⟨hinternal, -⟩
  · rw [hcategory] at hoperation
    cases hoperation
  · rw [hcategory] at hinternal
    cases hinternal

/-- The limit only stops a run where the budget is used up. -/
theorem Stops.budget_eq_zero {limit : Nat} {y : Point} {f : Fault} (h : Stops limit y f)
    (hf : f.category = .callDepth) : y.budget = 0 := by
  cases h with
  | tooDeep => rfl
  | value h => exact absurd hf (Environment.category_ne_callDepth h)
  | count h => exact absurd hf (Environment.category_ne_callDepth h)
  | argument h =>
      obtain ⟨e, -, he⟩ := Environment.exists_of_evaluateAll_error h
      exact absurd hf (Environment.category_ne_callDepth he)
  | redeclared | unknown | arity | parameters => cases hf

/-- A run that the limit stops has come to a point with as many frames as the
limit allows. -/
theorem exists_frames_eq_limit {d : Nat} {ss : List Statement} {m : Machine} {f : Fault}
    (hframes : m.environment.frames.length ≤ d) (h : (run d ss m).2 = some f)
    (hf : f.category = .callDepth) :
    ∃ y, Reaches d (.start d ss m) y ∧ y.machine.environment.frames.length = d := by
  obtain ⟨y, hreaches, hstops⟩ := exists_stop (x := .start d ss m) h
  refine ⟨y, hreaches, ?_⟩
  have hbudget := hstops.budget_eq_zero hf
  have hdepth := hreaches.depth_eq
  simp only [Point.depth, Point.start] at hdepth
  omega

/-- A larger limit changes nothing, unless the smaller one stopped the run. In
that case the instructions emitted until then are the first ones with the
larger limit as well. A run that starts with no more frames than the limit
never has more. -/
theorem run_limit {d d' : Nat} (h : d ≤ d') (ss : List Statement) (m : Machine) :
    let o := run d ss m
    let o' := run d' ss m
    ((∀ f, o.2 = some f → f.category ≠ .callDepth) → o' = o) ∧
      (∀ f, o.2 = some f → f.category = .callDepth →
        ∃ more, o'.1.emitted = o.1.emitted ++ more) ∧
      (m.environment.frames.length ≤ d →
        ∀ y, Reaches d (.start d ss m) y → y.machine.environment.frames.length ≤ d) := by
  intro o o'
  have hcut : Cut o o' := runWithin_cuts d d' (Nat.sub_le_sub_right h _) ss m
  refine ⟨?_, ?_, ?_⟩
  · intro hfault
    rcases hcut with heq | ⟨⟨f, hf, hcategory⟩, -⟩
    · exact heq
    · exact absurd hcategory (hfault f hf)
  · intro f hf hcategory
    rcases hcut with heq | ⟨-, hmore⟩
    · exact ⟨#[], by rw [heq, Array.append_empty]⟩
    · exact hmore
  · intro hframes y hy
    have hdepth := hy.depth_eq
    simp only [Point.depth, Point.start] at hdepth
    omega

/-- A procedure that draws and then calls itself. Each of the two limits cuts it
short, the smaller one earlier, when as many calls are in progress as it allows. -/
theorem run_limit_recursive :
    let n : Expr := ⟨1, .single (.var (ascii "n"))⟩
    let more : Expr := ⟨1, .sequence [.operand (.var (ascii "n")), .operand (.number 1),
      .operator .add]⟩
    let p : Procedure := ⟨ascii "f", [ascii "n"],
      [.call 1 (ascii "fd") [n], .call 1 (ascii "f") [more]]⟩
    let m : Machine := ⟨⟨[], [], [p]⟩, #[]⟩
    let ss : List Statement := [.call 2 (ascii "f") [⟨2, .single (.number 7)⟩]]
    (2 ≤ 3 ∧ m.environment.frames.length ≤ 2 ∧
      (run 2 ss m).2 = some ⟨1, .callDepth (ascii "f") 2⟩) ∧
      (run 2 ss m).1.emitted = #[⟨.forward, [7]⟩, ⟨.forward, [8]⟩] ∧
      (∃ more, (run 3 ss m).1.emitted = (run 2 ss m).1.emitted ++ more) ∧
      (∀ y, Reaches 2 (.start 2 ss m) y → y.machine.environment.frames.length ≤ 2) ∧
      ∃ y, Reaches 2 (.start 2 ss m) y ∧ y.machine.environment.frames.length = 2 := by
  intro n more p m ss
  have hfault : (run 2 ss m).2 = some ⟨1, .callDepth (ascii "f") 2⟩ := by decide +kernel
  have hemitted : (run 2 ss m).1.emitted = #[⟨.forward, [7]⟩, ⟨.forward, [8]⟩] := by
    decide +kernel
  have hframes : m.environment.frames.length ≤ 2 := Nat.zero_le 2
  have hle : 2 ≤ 3 := by decide
  obtain ⟨-, hprefix, hbound⟩ := run_limit hle ss m
  exact ⟨⟨hle, hframes, hfault⟩, hemitted, hprefix _ hfault rfl, hbound hframes,
    exists_frames_eq_limit hframes hfault rfl⟩

end Turtle
