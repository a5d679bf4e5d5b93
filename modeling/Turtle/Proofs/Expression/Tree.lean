import Turtle.Evaluation.Arithmetic
import Turtle.Proofs.Number.Exact

/-!
Expressions as trees, and their value.

The evaluator never sees a tree: it works a sequence off on a stack. A tree
is what such a sequence is the postorder of, and its value is defined by
recursion, the left operand first, then the right one, then the operation on
the exact integers. The stack adds nothing to that. Whatever lies on it stays
there, whatever follows the sequence goes on from the value, and the fault
that stops the one evaluation is the fault that stops the other.
-/

namespace Turtle

inductive Tree
  | leaf (o : Operand)
  | node (op : Operator) (left right : Tree)
  deriving DecidableEq, Repr

namespace Operator

/-- The exact result. Division truncates toward zero. -/
def exact : Operator → Int → Int → Int
  | .add, l, r => l + r
  | .sub, l, r => l - r
  | .mul, l, r => l * r
  | .div, l, r => l.tdiv r

/-- The exact result as a 64-bit number, or the reason why there is none. -/
def checked (o : Operator) (l r : Int64) : Except Cause Int64 :=
  if o = .div ∧ r = 0 then .error (.divisionByZero l r)
  else if Numeral.fits (o.exact l.toInt r.toInt) then .ok (.ofInt (o.exact l.toInt r.toInt))
  else .error (.overflow l o r)

theorem explain_ranged (o : Operator) (l r : Int64) (n : Int) :
    (match Checked.ranged n with
      | .ok n => .ok n
      | .error .overflow => .error (.overflow l o r)
      | .error .divisionByZero => .error (.divisionByZero l r) : Except Cause Int64) =
      if Numeral.fits n then .ok (.ofInt n) else .error (.overflow l o r) := by
  rw [Checked.ranged]
  by_cases hfits : Numeral.fits n = true <;> simp [hfits]

theorem apply_eq_checked (o : Operator) (l r : Int64) : o.apply l r = o.checked l r := by
  cases o
  case div =>
    by_cases hr : r = 0
    · simp [apply, checked, Checked.div, hr]
    · rw [apply, checked, if_neg (by simp [hr])]
      exact (Checked.div_eq_ranged l r hr).symm ▸ explain_ranged .div l r _
  all_goals
    rw [apply, checked, if_neg (by simp)]
  case add => exact (Checked.add_eq_ranged l r).symm ▸ explain_ranged .add l r _
  case sub => exact (Checked.sub_eq_ranged l r).symm ▸ explain_ranged .sub l r _
  case mul => exact (Checked.mul_eq_ranged l r).symm ▸ explain_ranged .mul l r _

end Operator

namespace Tree

/-- The items of a tree, each operator behind its operands. -/
def postorder : Tree → List Item
  | leaf o => [.operand o]
  | node op l r => l.postorder ++ (r.postorder ++ [.operator op])

/-- The value of a tree, or the first reason why it has none. -/
def value (env : Environment) : Tree → Except Cause Int64
  | leaf o => env.value o
  | node op l r => do
    let m ← l.value env
    let n ← r.value env
    op.checked m n

theorem work_operator (env : Environment) (op : Operator) (m n : Int64) (stack : List Int64) :
    env.work (n :: m :: stack) (.operator op) = (· :: stack) <$> op.checked m n := by
  rw [← Operator.apply_eq_checked]
  rfl

/-- The postorder of a tree pushes the value of the tree. -/
theorem foldlM_postorder (env : Environment) (t : Tree) (items : List Item)
    (stack : List Int64) :
    (t.postorder ++ items).foldlM env.work stack =
      t.value env >>= fun n => items.foldlM env.work (n :: stack) := by
  induction t generalizing items stack with
  | leaf o =>
      rw [postorder, value, List.singleton_append, List.foldlM_cons, Environment.work,
        bind_map_left]
  | node op l r ihl ihr =>
      simp only [postorder, value, List.append_assoc, List.singleton_append, ihl, ihr, bind_assoc,
        List.foldlM_cons, work_operator, bind_map_left]

theorem sequence_postorder (env : Environment) (t : Tree) :
    env.sequence t.postorder = t.value env := by
  have h := foldlM_postorder env t [] []
  rw [List.append_nil] at h
  rw [Environment.sequence, h, bind_assoc]
  cases t.value env <;> rfl

end Tree

end Turtle
