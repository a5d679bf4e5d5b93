import Turtle.Proofs.Evaluation.Failing
import Turtle.Proofs.Evaluation.Termination

/-!
A loop and its body, written out.

The number of rounds is settled before the first of them. So a loop can be
replaced by as many copies of its body, one behind the other, in the place where
it stands. Nothing of this depends on what the body does: it may assign to the
variables of the count, and if it fails in one of the rounds, then the copy for
this round fails with the same fault, and the machine is left the same.

This is shown of the evaluator that counts its rounds in a word. A derivation for
the rounds that are left is taken apart from the front, and so is one for the
copies that are left. In both of them there is first a body, and either it is
stopped, or there is one round less to come.
-/

namespace Turtle

section

variable {limit : Nat} {m m' : Machine} {o : Outcome}

/-! ### Bodies one behind the other -/

theorem Ends.append {ss ss' : List Statement} (hfirst : Ends limit (.body ss) m m'.done)
    (hsecond : Ends limit (.body ss') m' o) : Ends limit (.body (ss ++ ss')) m o := by
  induction ss generalizing m with
  | nil =>
      cases hfirst
      exact hsecond
  | cons s rest ih =>
      cases hfirst with
      | next hs hrest => exact .next hs (ih hrest)

theorem Ends.append_of_stopped {ss : List Statement} {f : Fault}
    (h : Ends limit (.body ss) m (m', some f)) (ss' : List Statement) :
    Ends limit (.body (ss ++ ss')) m (m', some f) := by
  induction ss generalizing m with
  | nil => cases h
  | cons s rest ih =>
      cases h with
      | next hs hrest => exact .next hs (ih hrest)
      | stopped hs => exact .stopped hs

/-- Statements behind others are run from where these end, unless these are
stopped. -/
theorem ends_append_iff {ss ss' : List Statement} : Ends limit (.body (ss ++ ss')) m o ↔
    (∃ m', Ends limit (.body ss) m m'.done ∧ Ends limit (.body ss') m' o) ∨
      ∃ m' f, Ends limit (.body ss) m (m', some f) ∧ o = (m', some f) := by
  constructor
  · intro h
    induction ss generalizing m with
    | nil => exact .inl ⟨m, .nil, h⟩
    | cons s rest ih =>
        cases h with
        | next hs hrest =>
            rcases ih hrest with ⟨m', hfirst, hsecond⟩ | ⟨m', f, hfirst, ho⟩
            · exact .inl ⟨m', .next hs hfirst, hsecond⟩
            · exact .inr ⟨m', f, .next hs hfirst, ho⟩
        | stopped hs => exact .inr ⟨_, _, .stopped hs, rfl⟩
  · rintro (⟨m', hfirst, hsecond⟩ | ⟨m', f, hfirst, rfl⟩)
    · exact hfirst.append hsecond
    · exact hfirst.append_of_stopped ss'

/-! ### Rounds one behind the other -/

/-- The rounds that are left end as that many copies of the body. -/
theorem ends_rounds_iff {i n : Int64} {body : List Statement} :
    Ends limit (.rounds i n body) m o ↔
      Ends limit (.body (List.replicate (n.toInt - i.toInt).toNat body).flatten) m o := by
  induction hleft : (n.toInt - i.toInt).toNat generalizing i m with
  | zero =>
      have hi : ¬ i < n := by
        intro hi
        rw [left_succ hi] at hleft
        omega
      constructor
      · intro h
        cases h with
        | finished => exact .nil
        | round hlt => exact absurd hlt hi
        | broken hlt => exact absurd hlt hi
      · intro h
        cases h
        exact .finished hi
  | succ left ih =>
      have hi : i < n := by
        by_contra hi
        rw [left_of_not_lt hi] at hleft
        omega
      have hnext : (n.toInt - (i + 1).toInt).toNat = left := by
        rw [left_succ hi] at hleft
        omega
      rw [List.replicate_succ, List.flatten_cons, ends_append_iff]
      constructor
      · intro h
        cases h with
        | finished hdone => exact absurd hi hdone
        | round _ hbody hrounds => exact .inl ⟨_, hbody, (ih hnext).1 hrounds⟩
        | broken _ hbody => exact .inr ⟨_, _, hbody, rfl⟩
      · rintro (⟨m', hbody, hcopies⟩ | ⟨m', f, hbody, rfl⟩)
        · exact .round hi hbody ((ih hnext).2 hcopies)
        · exact .broken hi hbody

/-- A loop ends as the copies of its body. -/
theorem ends_loop_iff {line : Nat} {count : Expr} {body : List Statement} {n : Int64}
    (hcount : m.environment.evaluate count = .ok n) :
    Ends limit (.statement (.loop line count body)) m o ↔
      Ends limit (.body (List.replicate n.toInt.toNat body).flatten) m o := by
  have hrounds : Ends limit (.rounds 0 n body) m o ↔
      Ends limit (.body (List.replicate n.toInt.toNat body).flatten) m o := by
    rw [ends_rounds_iff, Int64.toInt_zero, Int.sub_zero]
  rw [← hrounds]
  constructor
  · intro h
    cases h with
    | noCount hfault =>
        rw [hcount] at hfault
        cases hfault
    | loop hcount' h =>
        rw [hcount] at hcount'
        cases hcount'
        exact h
  · exact .loop hcount

/-- A loop without a count is stopped before its first round. -/
theorem ends_loop_of_error_iff {line : Nat} {count : Expr} {body : List Statement} {f : Fault}
    (hcount : m.environment.evaluate count = .error f) :
    Ends limit (.statement (.loop line count body)) m o ↔ o = (m, some f) := by
  constructor
  · intro h
    cases h with
    | noCount hfault =>
        rw [hcount] at hfault
        cases hfault
        rfl
    | loop hcount' =>
        rw [hcount] at hcount'
        cases hcount'
  · rintro rfl
    exact .noCount hcount

end

/-- In any machine a loop whose count has a value ends as its body that is written
out that many times, and not at all if the value is negative: with the same fault
or with none, with the same variables, frames and procedures, and with the same
instructions. So it does in front of further statements. If the count has no value,
then its fault is all that comes of the loop. -/
theorem loop_unrolls (limit line : Nat) (count : Expr) (body rest : List Statement)
    (m : Machine) :
    (∀ n, m.environment.evaluate count = .ok n →
      let copies := (List.replicate (max 0 n.toInt).toNat body).flatten
      (∀ o, Ends limit (.statement (.loop line count body)) m o ↔
        Ends limit (.body copies) m o) ∧
      run limit (.loop line count body :: rest) m = run limit (copies ++ rest) m) ∧
    ∀ f, m.environment.evaluate count = .error f →
      (∀ o, Ends limit (.statement (.loop line count body)) m o ↔ o = (m, some f)) ∧
      run limit (.loop line count body :: rest) m = (m, some f) := by
  constructor
  · intro n hcount copies
    have hcopies : copies = (List.replicate n.toInt.toNat body).flatten := by
      have hnone : (max 0 n.toInt).toNat = n.toInt.toNat := by omega
      rw [← hnone]
    rw [hcopies]
    refine ⟨fun o => ends_loop_iff hcount, ?_⟩
    rw [run_cons, run_loop hcount, run_append]
  · intro f hcount
    refine ⟨fun o => ends_loop_of_error_iff hcount, ?_⟩
    rw [run_cons, run_singleton, runStatement, hcount]

/-- The body takes one off the variable of the count, and the last one of the three
rounds divides by zero. The statement behind the loop is not reached. With a count
that has no value not even the first round begins. -/
theorem loop_unrolls_failing :
    let n : Text := ascii "n"
    let forward (form : Form) : Statement := .call 1 (ascii "fd") [⟨1, form⟩]
    let body : List Statement :=
      [.assign 1 n ⟨1, .sequence [.operand (.var n), .operand (.number 1), .operator .sub]⟩,
        forward (.sequence [.operand (.number 6), .operand (.var n), .operator .div])]
    let rest : List Statement := [forward (.single (.number 1))]
    let loop (name : Text) : Statement := .loop 1 ⟨1, .single (.var name)⟩ body
    let m : Machine := ⟨⟨[⟨n, 3⟩], [[]], []⟩, #[]⟩
    run 9 (loop n :: rest) m = run 9 (body ++ (body ++ (body ++ rest))) m ∧
      (run 9 (loop n :: rest) m).2 = some ⟨1, .divisionByZero 6 0⟩ ∧
      (run 9 (loop n :: rest) m).1.emitted = #[⟨.forward, [3]⟩, ⟨.forward, [6]⟩] ∧
      (run 9 (loop n :: rest) m).1.environment.frames = [[⟨n, 0⟩]] ∧
      run 9 (loop (ascii "k") :: rest) m = (m, some ⟨1, .unknownVariable (ascii "k")⟩) := by
  intro n forward body rest loop m
  obtain ⟨-, hrun⟩ :=
    (loop_unrolls 9 1 ⟨1, .single (.var n)⟩ body rest m).1 3 (by decide +kernel)
  obtain ⟨-, hfault⟩ :=
    (loop_unrolls 9 1 ⟨1, .single (.var (ascii "k"))⟩ body rest m).2
      ⟨1, .unknownVariable (ascii "k")⟩ (by decide +kernel)
  have hcopies : run 9 (loop n :: rest) m = run 9 (body ++ (body ++ (body ++ rest))) m := hrun
  refine ⟨hcopies, ?_, ?_, ?_, hfault⟩
  all_goals
    rw [hcopies]
    decide +kernel

end Turtle
