import Turtle.Proofs.Expression.Tree

/-!
The four operations, and what their guards compute.

An operation must not be carried out when its result is out of range, so a guard
is asked first. But a guard computes as well, with the same words, and what it
computes has to be in range for its answer to mean anything. So the guards are
written down here as tests of a small language, and each test has two readings.
One computes with words, which wrap around: this is what the evaluator runs. The
other one asks whether everything that is computed on the way is in range, with
no division by zero. What is on the way depends on the operands, since a test is
only made if those before it leave the answer open.
-/

namespace Turtle

namespace Operator

/-- The operation on words, which wraps around. Division by zero yields zero. -/
def wrapped : Operator → Int64 → Int64 → Int64
  | .add, l, r => l + r
  | .sub, l, r => l - r
  | .mul, l, r => l * r
  | .div, l, r => l / r

end Operator

namespace Guard

/-! ### Tests -/

/-- A number that is computed from the two operands of an operation. -/
inductive Term
  | left
  | right
  | constant (n : Int64)
  | operation (o : Operator) (a b : Term)
  deriving DecidableEq, Repr

namespace Term

def zero : Term := constant 0
def max : Term := constant Checked.max
def min : Term := constant Checked.min

def value (l r : Int64) : Term → Int64
  | left => l
  | right => r
  | constant n => n
  | operation o a b => o.wrapped (a.value l r) (b.value l r)

/-- The exact results of all operations are in range, and no divisor is zero. -/
def Defined (l r : Int64) : Term → Prop
  | left | right | constant _ => True
  | operation o a b =>
    a.Defined l r ∧ b.Defined l r ∧ ¬ (o = .div ∧ b.value l r = 0) ∧
      Numeral.fits (o.exact (a.value l r).toInt (b.value l r).toInt)

end Term

inductive Test
  | never
  | less (a b : Term)
  | equal (a b : Term)
  | not (p : Test)
  /-- The second test is made if the first one holds. -/
  | both (p q : Test)
  /-- The second test is made if the first one does not hold. -/
  | either (p q : Test)
  /-- One of the last two tests is made, depending on the first one. -/
  | choose (p yes no : Test)
  deriving DecidableEq, Repr

namespace Test

variable (l r : Int64)

def holds : Test → Bool
  | never => false
  | less a b => a.value l r < b.value l r
  | equal a b => a.value l r == b.value l r
  | not p => !p.holds
  | both p q => p.holds && q.holds
  | either p q => p.holds || q.holds
  | choose p yes no => bif p.holds then yes.holds else no.holds

/-- All that is computed for the tests that are made is defined. -/
def Defined : Test → Prop
  | never => True
  | less a b | equal a b => a.Defined l r ∧ b.Defined l r
  | not p => p.Defined
  | both p q => p.Defined ∧ (p.holds l r = true → q.Defined)
  | either p q => p.Defined ∧ (p.holds l r = false → q.Defined)
  | choose p yes no =>
    p.Defined ∧ (p.holds l r = true → yes.Defined) ∧ (p.holds l r = false → no.Defined)

end Test

/-! ### What is defined -/

namespace Term

variable {l r : Int64} {o : Operator} {a b : Term}

/-- An operation is defined if the one on words is exact. -/
theorem defined_operation (ha : a.Defined l r) (hb : b.Defined l r)
    (hzero : ¬ (o = .div ∧ b.value l r = 0))
    (hexact : (o.wrapped (a.value l r) (b.value l r)).toInt =
      o.exact (a.value l r).toInt (b.value l r).toInt) :
    (operation o a b).Defined l r := by
  refine ⟨ha, hb, hzero, Checked.fits_iff.2 ?_⟩
  rw [← hexact]
  exact ⟨Int64.le_toInt _, Int64.toInt_lt _⟩

theorem value_ne_zero (h : (b.value l r).toInt ≠ 0) : ¬ (o = .div ∧ b.value l r = 0) := by
  rintro ⟨-, hzero⟩
  exact h (Int64.toInt_inj.2 hzero)

end Term

namespace Test

variable {l r : Int64} {a : Term} {q yes no : Test}

theorem positive (h : (less .zero a).holds l r = true) : 0 < (a.value l r).toInt :=
  Checked.pos_iff.1 (of_decide_eq_true h)

theorem negative (h : (less a .zero).holds l r = true) : (a.value l r).toInt < 0 :=
  Checked.neg_iff.1 (of_decide_eq_true h)

theorem defined_both_positive (ha : a.Defined l r)
    (hq : 0 < (a.value l r).toInt → q.Defined l r) : (both (less .zero a) q).Defined l r :=
  ⟨⟨trivial, ha⟩, fun h => hq (positive h)⟩

theorem defined_both_negative (ha : a.Defined l r)
    (hq : (a.value l r).toInt < 0 → q.Defined l r) : (both (less a .zero) q).Defined l r :=
  ⟨⟨ha, trivial⟩, fun h => hq (negative h)⟩

theorem defined_choose_positive (ha : a.Defined l r)
    (hyes : 0 < (a.value l r).toInt → yes.Defined l r) (hno : no.Defined l r) :
    (choose (less .zero a) yes no).Defined l r :=
  ⟨⟨trivial, ha⟩, fun h => hyes (positive h), fun _ => hno⟩

theorem defined_choose_negative (ha : a.Defined l r)
    (hyes : (a.value l r).toInt < 0 → yes.Defined l r) (hno : no.Defined l r) :
    (choose (less a .zero) yes no).Defined l r :=
  ⟨⟨ha, trivial⟩, fun h => hyes (negative h), fun _ => hno⟩

end Test

end Guard

/-! ### The guards -/

namespace Operator

open Guard Guard.Term Guard.Test

/-- The test whether the result of the operation is out of range. -/
def guard : Operator → Guard.Test
  | .add =>
    either (both (less zero right) (less (operation .sub max right) left))
      (both (less right zero) (less left (operation .sub min right)))
  | .sub =>
    either (both (less right zero) (less (operation .add max right) left))
      (both (less zero right) (less left (operation .add min right)))
  | .mul =>
    choose (less zero left)
      (choose (less zero right) (less (operation .div max right) left)
        (less right (operation .div min left)))
      (choose (less left zero)
        (choose (less zero right) (less left (operation .div min right))
          (both (not (equal right zero)) (less right (operation .div max left))))
        never)
  | .div => both (equal left min) (equal right (constant (-1)))

variable (o : Operator) (l r : Int64)

theorem holds_guard_mul : (guard .mul).holds l r = Checked.mulOverflows l r := by
  simp only [guard, Checked.mulOverflows, holds, Bool.cond_decide]
  rfl

theorem explain_guarded (overflows : Bool) (n : Int64) :
    (match Checked.guarded overflows n with
      | .ok n => .ok n
      | .error .overflow => .error (.overflow l o r)
      | .error .divisionByZero => .error (.divisionByZero l r) : Except Cause Int64) =
      if overflows then .error (.overflow l o r) else .ok n := by
  cases overflows <;> rfl

/-- An operation is what its guard and the operation on words make of it. -/
theorem apply_eq_guarded :
    o.apply l r =
      if o = .div ∧ r = 0 then .error (.divisionByZero l r)
      else if o.guard.holds l r then .error (.overflow l o r)
      else .ok (o.wrapped l r) := by
  cases o with
  | add => exact (explain_guarded .add l r _ _).trans (if_neg (by simp)).symm
  | sub => exact (explain_guarded .sub l r _ _).trans (if_neg (by simp)).symm
  | mul =>
      rw [holds_guard_mul]
      exact (explain_guarded .mul l r _ _).trans (if_neg (by simp)).symm
  | div =>
      by_cases hr : r = 0
      · simp [apply, Checked.div, hr]
      · rw [if_neg (by simp [hr]), apply, Checked.div, if_neg (by simp [hr])]
        exact explain_guarded .div l r _ _

/-- What a guard computes never leaves the range. -/
theorem defined_guard : o.guard.Defined l r := by
  cases o with
  | add =>
      refine ⟨defined_both_positive trivial ?_, fun _ => defined_both_negative trivial ?_⟩
      · intro hr
        exact ⟨defined_operation trivial trivial (by simp) (Checked.toInt_max_sub hr), trivial⟩
      · intro hr
        exact ⟨trivial, defined_operation trivial trivial (by simp) (Checked.toInt_min_sub hr)⟩
  | sub =>
      refine ⟨defined_both_negative trivial ?_, fun _ => defined_both_positive trivial ?_⟩
      · intro hr
        exact ⟨defined_operation trivial trivial (by simp) (Checked.toInt_max_add hr), trivial⟩
      · intro hr
        exact ⟨trivial, defined_operation trivial trivial (by simp) (Checked.toInt_min_add hr)⟩
  | mul =>
      have hmax : ∀ a : Term, a.Defined l r → (a.value l r).toInt ≠ 0 →
          (operation .div max a).Defined l r :=
        fun a ha hne => defined_operation trivial ha (value_ne_zero hne) (Checked.toInt_max_div hne)
      have hmin : ∀ a : Term, a.Defined l r → 0 < (a.value l r).toInt →
          (operation .div min a).Defined l r :=
        fun a ha hlt =>
          defined_operation trivial ha (value_ne_zero hlt.ne') (Checked.toInt_min_div hlt)
      -- the least integer is only divided by something positive, so its quotient is in range
      refine defined_choose_positive trivial ?_ ?_
      · intro hl
        refine defined_choose_positive trivial ?_ ?_
        · intro hr
          exact ⟨hmax right trivial hr.ne', trivial⟩
        · exact ⟨trivial, hmin left trivial hl⟩
      · refine defined_choose_negative trivial ?_ ?_
        · intro hl
          refine defined_choose_positive trivial ?_ ?_
          · intro hr
            exact ⟨trivial, hmin right trivial hr⟩
          · exact ⟨⟨trivial, trivial⟩, fun _ => ⟨trivial, hmax left trivial hl.ne⟩⟩
        · trivial
  | div => exact ⟨⟨trivial, trivial⟩, fun _ => ⟨trivial, trivial⟩⟩

/-! ### Exact results -/

theorem checked_eq_ok_iff (n : Int64) :
    o.checked l r = .ok n ↔
      ¬ (o = .div ∧ r = 0) ∧ n.toInt = o.exact l.toInt r.toInt := by
  rw [checked]
  split_ifs with hzero hfits
  · simp [hzero]
  · have hword : (Int64.ofInt (o.exact l.toInt r.toInt)).toInt = o.exact l.toInt r.toInt :=
      Int64.toInt_ofInt.trans (Checked.bmod_of_fits hfits)
    rw [Except.ok.injEq, ← Int64.toInt_inj, hword, eq_comm]
    exact (and_iff_right hzero).symm
  · have hrange : ∀ n : Int64, n.toInt ≠ o.exact l.toInt r.toInt := by
      intro n hn
      rw [← hn, Checked.fits_iff] at hfits
      exact hfits ⟨n.le_toInt, n.toInt_lt⟩
    simp [hrange n]

theorem checked_eq_error_iff (cause : Cause) :
    o.checked l r = .error cause ↔
      (o = .div ∧ r = 0 ∧ cause = .divisionByZero l r) ∨
        (¬ (o = .div ∧ r = 0) ∧
          ¬ (-2 ^ 63 ≤ o.exact l.toInt r.toInt ∧ o.exact l.toInt r.toInt < 2 ^ 63) ∧
          cause = .overflow l o r) := by
  rw [checked, ← Checked.fits_iff, ← and_assoc]
  split_ifs with hzero hfits
  · rw [Except.error.injEq, eq_comm]
    tauto
  · simp [hzero, hfits]
  · rw [Except.error.injEq, eq_comm]
    tauto

/-- The operations are exact. The result is the one on the integers whenever that
is a 64-bit number; otherwise the operation overflows, and only a division by zero
is reported as such. It is the guard that tells this, and neither the guard nor
the operation behind it ever computes something out of range or divides by zero. -/
theorem apply_exact :
    (∀ n, o.apply l r = .ok n ↔ ¬ (o = .div ∧ r = 0) ∧ n.toInt = o.exact l.toInt r.toInt) ∧
      (∀ cause, o.apply l r = .error cause ↔
        (o = .div ∧ r = 0 ∧ cause = .divisionByZero l r) ∨
          (¬ (o = .div ∧ r = 0) ∧
            ¬ (-2 ^ 63 ≤ o.exact l.toInt r.toInt ∧ o.exact l.toInt r.toInt < 2 ^ 63) ∧
            cause = .overflow l o r)) ∧
      o.apply l r = (if o = .div ∧ r = 0 then .error (.divisionByZero l r)
        else if o.guard.holds l r then .error (.overflow l o r)
        else .ok (o.wrapped l r)) ∧
      o.guard.Defined l r ∧
      ((∃ n, o.apply l r = .ok n) → (operation o left right).Defined l r) := by
  rw [apply_eq_checked]
  refine ⟨checked_eq_ok_iff o l r, checked_eq_error_iff o l r, ?_, defined_guard o l r, ?_⟩
  · rw [← apply_eq_checked]
    exact apply_eq_guarded o l r
  · rintro ⟨n, hn⟩
    have hword : n = o.wrapped l r := by
      rw [← apply_eq_checked, apply_eq_guarded] at hn
      split_ifs at hn
      exact (Except.ok.inj hn).symm
    obtain ⟨hzero, hexact⟩ := (checked_eq_ok_iff o l r n).1 hn
    exact defined_operation trivial trivial hzero (hword ▸ hexact)

/-- The least integer times minus one is out of range by one, and the greatest one
times minus one is in range. -/
theorem apply_exact_least :
    Operator.mul.apply Int64.minValue (-1) = .error (.overflow Int64.minValue .mul (-1)) ∧
      Operator.mul.apply (-1) Int64.maxValue = .ok (Int64.minValue + 1) ∧
      (operation .mul left right).Defined (-1) Int64.maxValue := by
  obtain ⟨-, hleast, -⟩ := apply_exact .mul Int64.minValue (-1)
  obtain ⟨hgreatest, -, -, -, hdefined⟩ := apply_exact .mul (-1) Int64.maxValue
  have hproduct : Operator.mul.apply (-1) Int64.maxValue = .ok (Int64.minValue + 1) :=
    (hgreatest _).2 ⟨by decide, by decide⟩
  refine ⟨(hleast _).2 (.inr ⟨by decide, by decide, rfl⟩), hproduct, hdefined ⟨_, hproduct⟩⟩

end Operator

end Turtle
