import Turtle.Program.Yard
import Turtle.Proofs.Expression.Infix

/-!
The yard reads written expressions.

The one invariant of the two rows says what a yard holds after the tokens of
a derivation. The output is not yet the postorder of its tree: some of its
operators still wait. But all of these lie above what was waiting before, and
none binds less strongly than the derivation's level, so whatever comes next,
an operator that could follow at this level, a closing parenthesis or the
end, first sends them where they belong. Up to that the yard is the one in
which the postorder has been put out as a whole.

`Reads` states this, `Infix.read` proves it by induction on the derivation, and
no later proof looks at the two rows again.
-/

namespace Turtle

/-! ### Numbers -/

/-- A number token that spells an operand is read as it, and any other number
token is refused. -/
theorem spells_number_iff {digits : Text} {o : Operand} (line : Nat) :
    Spells (.number digits) o ↔ Operand.ofDigits line digits = .ok o := by
  have hfits : ∀ n : Int, Numeral.fits n = true ↔ -2 ^ 63 ≤ n ∧ n ≤ 2 ^ 63 - 1 := by
    intro n
    rw [Checked.fits_iff]
    omega
  rw [Operand.ofDigits, Numeral.readInt64?]
  constructor
  · intro h
    cases h with
    | number hread hlower hupper =>
        rw [hread, Option.bind_some, Numeral.toInt64?, if_pos ((hfits _).2 ⟨hlower, hupper⟩)]
  · intro h
    cases hread : Numeral.readInt? digits with
    | none => simp [hread] at h
    | some n =>
        rw [hread, Option.bind_some, Numeral.toInt64?] at h
        split_ifs at h with hn
        obtain ⟨hlower, hupper⟩ := (hfits n).1 hn
        cases h
        exact .number hread hlower hupper

namespace Yard

/-! ### Waiting operators -/

/-- The innermost waiting operator, if no parenthesis is open above it, binds
less strongly than the given level. -/
def Below (k : Nat) : List Waiting → Prop
  | .operator o :: _ => o.precedence < k
  | _ => True

theorem Below.mono {j k : Nat} (hjk : j ≤ k) {waiting : List Waiting} (h : Below j waiting) :
    Below k waiting := by
  match waiting with
  | [] => trivial
  | .paren :: _ => trivial
  | .operator o :: _ => exact Nat.lt_of_lt_of_le h hjk

theorem release_of_below {k : Nat} {waiting : List Waiting} (h : Below k waiting)
    (output : List Item) : release k output waiting = (output, waiting) := by
  match waiting with
  | [] => rfl
  | .paren :: _ => rfl
  | .operator o :: _ => rw [release, if_neg (Nat.not_le.2 h)]

/-- Operators that have been sent to the output, the first of them first. -/
def send (pending : List Operator) (output : List Item) : List Item :=
  (pending.map Item.operator).reverse ++ output

@[simp] theorem send_cons (o : Operator) (pending : List Operator) (output : List Item) :
    send (o :: pending) output = send pending (.operator o :: output) := by
  simp [send]

theorem send_snoc (o : Operator) (pending : List Operator) (output : List Item) :
    send (pending ++ [o]) output = .operator o :: send pending output := by
  simp [send]

theorem release_pending {k : Nat} {pending : List Operator}
    (hk : ∀ o ∈ pending, k ≤ o.precedence) (output : List Item) (waiting : List Waiting) :
    release k output (pending.map .operator ++ waiting) =
      release k (send pending output) waiting := by
  induction pending generalizing output with
  | nil => rfl
  | cons o pending ih =>
      rw [List.map_cons, List.cons_append, release, if_pos (hk o List.mem_cons_self),
        ih fun o' ho' => hk o' (List.mem_cons_of_mem o ho'), send_cons]

theorem closeParen_pending (pending : List Operator) (output : List Item)
    (waiting : List Waiting) :
    closeParen output (pending.map .operator ++ waiting) =
      closeParen (send pending output) waiting := by
  induction pending generalizing output with
  | nil => rfl
  | cons o pending ih => rw [List.map_cons, List.cons_append, closeParen, ih, send_cons]

theorem drain_pending (pending : List Operator) (output : List Item) (waiting : List Waiting) :
    drain output (pending.map .operator ++ waiting) = drain (send pending output) waiting := by
  induction pending generalizing output with
  | nil => rfl
  | cons o pending ih => rw [List.map_cons, List.cons_append, drain, ih, send_cons]

/-! ### Taking a row of tokens -/

/-- The yard takes all of the tokens, one after the other. -/
inductive Takes : Yard → List Token → Yard → Prop
  | nil (y : Yard) : Takes y [] y
  | cons {y y₁ y₂ : Yard} {t : Token} {ts : List Token} (step : y.step t = .ok (some y₁))
      (rest : Takes y₁ ts y₂) : Takes y (t :: ts) y₂

theorem Takes.append {y y₁ y₂ : Yard} {ts us : List Token} (h : Takes y ts y₁)
    (h' : Takes y₁ us y₂) : Takes y (ts ++ us) y₂ := by
  induction h with
  | nil => exact h'
  | cons step _ ih => exact .cons step (ih h')

theorem Takes.append_inv {y y₁ y₂ : Yard} {ts us : List Token} (h : Takes y ts y₁)
    (h' : Takes y (ts ++ us) y₂) : Takes y₁ us y₂ := by
  induction h with
  | nil => exact h'
  | cons step _ ih =>
      cases h' with
      | cons step' rest' =>
          rw [step] at step'
          cases step'
          exact ih rest'

theorem Takes.single {y y' : Yard} {t : Token} (h : y.step t = .ok (some y')) : Takes y [t] y' :=
  .cons h (.nil y')

/-! ### Reading a derivation -/

/-- What `y'` holds of a tree, at a level, beyond what `y` holds. -/
structure Reads (k : Nat) (y : Yard) (t : Tree) (y' : Yard) : Prop where
  rows : ∃ pending : List Operator, (∀ o ∈ pending, k ≤ o.precedence) ∧
    y'.waiting = pending.map .operator ++ y.waiting ∧
    send pending y'.output = t.postorder.reverse ++ y.output
  depth : y'.depth = y.depth
  behindOperand : y'.expectsOperand = false

theorem step_operand {y : Yard} (hy : y.expectsOperand = true) {t : Token} {o : Operand}
    (h : Spells t.lexeme o) : y.step t = .ok (some (y.pushOperand o)) := by
  rw [step, if_pos hy, stepOperand]
  cases hl : t.lexeme with
  | number digits =>
      rw [hl] at h
      simp only [(spells_number_iff t.line).1 h]
      rfl
  | var name => rw [hl] at h; cases h; rfl
  | word name => rw [hl] at h; cases h; rfl
  | _ => rw [hl] at h; cases h

theorem step_leftParen {y : Yard} (hy : y.expectsOperand = true) (line : Nat) :
    y.step ⟨.leftParen, line⟩ = .ok (some y.pushParen) := by
  rw [step, if_pos hy]
  rfl

theorem step_operator {y : Yard} (hy : y.expectsOperand = false) (op : Operator) (line : Nat) :
    y.step ⟨.operator op, line⟩ = .ok (some (y.pushOperator op)) := by
  rw [step, hy]
  rfl

theorem step_rightParen {y : Yard} (hy : y.expectsOperand = false) (line : Nat)
    {output : List Item} {waiting : List Waiting}
    (h : closeParen y.output y.waiting = some (output, waiting)) :
    y.step ⟨.rightParen, line⟩ = .ok (some { y with output, waiting, depth := y.depth - 1 }) := by
  rw [step, if_neg (by simp [hy])]
  simp only [stepOperator, h]

/-- An operator that follows a derivation of its level finds the postorder in
the output. -/
theorem Reads.pushOperator {y y' : Yard} {t : Tree} {op : Operator}
    (h : Reads op.precedence y t y') (hbelow : Below op.precedence y.waiting) :
    y'.pushOperator op =
      ⟨t.postorder.reverse ++ y.output, .operator op :: y.waiting, y.depth, true⟩ := by
  obtain ⟨pending, hpending, hwaiting, houtput⟩ := h.rows
  rw [Yard.pushOperator, hwaiting, release_pending hpending, houtput, release_of_below hbelow]
  simp [h.depth]

theorem Reads.closeParen {y y' : Yard} {t : Tree} {k : Nat} (h : Reads k y.pushParen t y') :
    closeParen y'.output y'.waiting = some (t.postorder.reverse ++ y.output, y.waiting) := by
  obtain ⟨pending, -, hwaiting, houtput⟩ := h.rows
  rw [hwaiting, closeParen_pending, houtput]
  rfl

/-- Where no parenthesis was opened, none can be closed. -/
theorem Reads.closeParen_eq_none {y y' : Yard} {t : Tree} {k : Nat} (h : Reads k y t y')
    (hwaiting : y.waiting = []) : Yard.closeParen y'.output y'.waiting = none := by
  obtain ⟨pending, -, hwaiting', -⟩ := h.rows
  rw [hwaiting', closeParen_pending, hwaiting]
  rfl

theorem Reads.isOpen_pushParen {y y' : Yard} {t : Tree} {k : Nat} (h : Reads k y.pushParen t y') :
    y'.isOpen = true := by
  obtain ⟨pending, -, hwaiting, -⟩ := h.rows
  rw [Yard.isOpen, hwaiting]
  simp [pushParen]

theorem Reads.items {y y' : Yard} {t : Tree} {k : Nat} (h : Reads k y t y')
    (houtput : y.output = []) (hwaiting : y.waiting = []) : y'.items = t.postorder := by
  obtain ⟨pending, -, hwaiting', houtput'⟩ := h.rows
  rw [Yard.items, hwaiting', drain_pending, houtput', hwaiting, houtput, List.append_nil, drain,
    List.reverse_reverse]

theorem Reads.isOpen {y y' : Yard} {t : Tree} {k : Nat} (h : Reads k y t y')
    (hwaiting : y.waiting = []) : y'.isOpen = false := by
  obtain ⟨pending, -, hwaiting', -⟩ := h.rows
  rw [Yard.isOpen, hwaiting', hwaiting, List.append_nil]
  simp

end Yard

namespace Infix

open Yard

/-- A yard that expects an operand takes every derivation whose level is
above the operator that waits. -/
theorem read {k : Nat} {e : Infix} (he : e.Grouped k) {y : Yard} (hy : y.expectsOperand = true)
    (hbelow : Below k y.waiting) : ∃ y', y.Takes e.tokens y' ∧ Reads k y e.tree y' := by
  induction e generalizing k y with
  | atom a =>
      exact ⟨y.pushOperand a.operand, .single (step_operand hy a.spelled),
        ⟨⟨[], by simp, rfl, rfl⟩, rfl, rfl⟩⟩
  | paren opening e closing ih =>
      -- above the mark of the parenthesis no operator waits, so every level may begin
      obtain ⟨y₁, htakes, hreads⟩ := ih (y := y.pushParen) he hy trivial
      have hclose := step_rightParen hreads.behindOperand closing hreads.closeParen
      refine ⟨_, .cons (step_leftParen hy opening) (htakes.append (.single hclose)), ?_⟩
      exact ⟨⟨[], by simp, rfl, rfl⟩, by simp [hreads.depth, pushParen], hreads.behindOperand⟩
  | binary l op line r ihl ihr =>
      obtain ⟨hk, hl, hr⟩ := he
      have hbelow' : Below op.precedence y.waiting := hbelow.mono hk
      obtain ⟨y₁, htakes₁, hreads₁⟩ := ihl hl hy hbelow'
      have hop := step_operator hreads₁.behindOperand op line
      rw [hreads₁.pushOperator hbelow'] at hop
      obtain ⟨y₂, htakes₂, hreads₂⟩ := ihr (y := ⟨_, .operator op :: y.waiting, y.depth, true⟩)
        hr rfl (Nat.lt_succ_self op.precedence)
      -- the operator itself waits below those that wait for the right operand
      refine ⟨y₂, htakes₁.append (.cons hop htakes₂), ?_⟩
      obtain ⟨pending, hpending, hwaiting, houtput⟩ := hreads₂.rows
      refine ⟨⟨pending ++ [op], ?_, ?_, ?_⟩, hreads₂.depth, hreads₂.behindOperand⟩
      · intro o ho
        rcases List.mem_append.1 ho with ho | ho
        · exact hk.trans (Nat.le_of_succ_le (hpending o ho))
        · rw [List.mem_singleton.1 ho]
          exact hk
      · rw [hwaiting]
        simp
      · rw [send_snoc, houtput]
        simp [tree, Tree.postorder]

end Infix

end Turtle
