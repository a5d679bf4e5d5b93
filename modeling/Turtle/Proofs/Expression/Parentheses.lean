import Turtle.Proofs.Expression.Yard

/-!
Open parentheses.

A yard keeps the number of open parentheses beside the row of waiting
operators, where each of them has its mark. Every step keeps the two in
agreement. So as many closing parentheses as the yard counts close all that is
open, none of them is unmatched, and behind them the expression is complete.
-/

namespace Turtle

namespace Yard

/-- The yard counts the parentheses that have their marks in the row. -/
def Counted (y : Yard) : Prop :=
  y.depth = y.waiting.count .paren

theorem counted_afterOperand (o : Operand) : (afterOperand o).Counted := rfl

theorem counted_afterParen : afterParen.Counted := rfl

theorem counted_pushOperand {y : Yard} (h : y.Counted) (o : Operand) :
    (y.pushOperand o).Counted := h

theorem counted_pushParen {y : Yard} (h : y.Counted) : y.pushParen.Counted := by
  have hdepth : y.depth = y.waiting.count .paren := h
  simp [Counted, pushParen, hdepth]

/-! ### Moving operators to the output -/

theorem count_release (precedence : Nat) (output : List Item) (waiting : List Waiting) :
    (release precedence output waiting).2.count .paren = waiting.count .paren := by
  induction waiting generalizing output with
  | nil => rfl
  | cons w waiting ih =>
      cases w with
      | paren => rfl
      | operator o =>
          rw [release]
          split_ifs
          · simp [ih]
          · rfl

theorem counted_pushOperator {y : Yard} (h : y.Counted) (o : Operator) :
    (y.pushOperator o).Counted := by
  have hdepth : y.depth = y.waiting.count .paren := h
  simp [Counted, pushOperator, count_release, hdepth]

/-- Closing a parenthesis takes exactly its mark away. -/
theorem count_of_closeParen {output output' : List Item} {waiting waiting' : List Waiting}
    (h : closeParen output waiting = some (output', waiting')) :
    waiting.count .paren = waiting'.count .paren + 1 := by
  induction waiting generalizing output with
  | nil => cases h
  | cons w waiting ih =>
      cases w with
      | paren =>
          cases h
          simp
      | operator o =>
          rw [closeParen] at h
          simp [ih h]

/-- Where a mark stands in the row, a parenthesis can be closed. -/
theorem exists_closeParen {waiting : List Waiting} (h : 0 < waiting.count .paren)
    (output : List Item) : ∃ r, closeParen output waiting = some r := by
  induction waiting generalizing output with
  | nil => simp at h
  | cons w waiting ih =>
      cases w with
      | paren => exact ⟨_, rfl⟩
      | operator o =>
          rw [closeParen]
          exact ih (by simpa using h) _

/-! ### Steps -/

theorem stepOperand_cases {y y' : Yard} {t : Token} (h : y.stepOperand t = .ok y') :
    (∃ o, Spells t.lexeme o ∧ y' = y.pushOperand o) ∨
      t.lexeme = .leftParen ∧ y' = y.pushParen := by
  obtain ⟨l, line⟩ := t
  cases l with
  | number digits =>
      simp only [stepOperand] at h
      cases hread : Operand.ofDigits line digits with
      | ok o =>
          rw [hread] at h
          cases h
          exact .inl ⟨o, (spells_number_iff line).2 hread, rfl⟩
      | error f =>
          rw [hread] at h
          cases h
  | var name =>
      cases h
      exact .inl ⟨.var name, .var name, rfl⟩
  | word name =>
      cases h
      exact .inl ⟨.word name, .word name, rfl⟩
  | leftParen =>
      cases h
      exact .inr ⟨rfl, rfl⟩
  | _ => cases h

theorem stepOperator_cases {y y' : Yard} {t : Token} (h : y.stepOperator t = .ok (some y')) :
    (∃ op, t.lexeme = .operator op ∧ y' = y.pushOperator op) ∨
      t.lexeme = .rightParen ∧ ∃ output waiting,
        closeParen y.output y.waiting = some (output, waiting) ∧
          y' = { y with output, waiting, depth := y.depth - 1 } := by
  obtain ⟨l, line⟩ := t
  cases l with
  | operator op =>
      cases h
      exact .inl ⟨op, rfl, rfl⟩
  | rightParen =>
      simp only [stepOperator] at h
      cases hclose : closeParen y.output y.waiting with
      | none => simp [hclose] at h
      | some r =>
          simp only [hclose] at h
          cases h
          exact .inr ⟨rfl, r.1, r.2, rfl, rfl⟩
  | _ =>
      simp only [stepOperator] at h
      split_ifs at h
      cases h

/-- All that a step can do when it takes its token. -/
theorem step_cases {y y' : Yard} {t : Token} (h : y.step t = .ok (some y')) :
    (y.expectsOperand = true ∧ ((∃ o, Spells t.lexeme o ∧ y' = y.pushOperand o) ∨
        t.lexeme = .leftParen ∧ y' = y.pushParen)) ∨
      (y.expectsOperand = false ∧ ((∃ op, t.lexeme = .operator op ∧ y' = y.pushOperator op) ∨
        t.lexeme = .rightParen ∧ ∃ output waiting,
          closeParen y.output y.waiting = some (output, waiting) ∧
            y' = { y with output, waiting, depth := y.depth - 1 })) := by
  rw [step] at h
  split_ifs at h with hexpects
  · refine .inl ⟨hexpects, ?_⟩
    cases hoperand : y.stepOperand t with
    | error f =>
        rw [hoperand] at h
        cases h
    | ok y₁ =>
        rw [hoperand] at h
        cases h
        exact stepOperand_cases hoperand
  · exact .inr ⟨by simpa using hexpects, stepOperator_cases h⟩

theorem Counted.step {y y' : Yard} {t : Token} (h : y.Counted)
    (hstep : y.step t = .ok (some y')) : y'.Counted := by
  rcases step_cases hstep with ⟨-, ⟨o, -, rfl⟩ | ⟨-, rfl⟩⟩ |
    ⟨-, ⟨op, -, rfl⟩ | ⟨-, output, waiting, hclose, rfl⟩⟩
  · exact counted_pushOperand h o
  · exact counted_pushParen h
  · exact counted_pushOperator h op
  · have hcount := count_of_closeParen hclose
    have hdepth : y.depth = y.waiting.count .paren := h
    show y.depth - 1 = waiting.count .paren
    omega

/-! ### Closing all that is open -/

/-- Behind an operand, with no parenthesis open: the expression may end. -/
structure Settled (y : Yard) : Prop where
  behindOperand : y.expectsOperand = false
  depth : y.depth = 0
  closed : y.isOpen = false

theorem Counted.settled {y : Yard} (h : y.Counted) (hy : y.expectsOperand = false)
    (hdepth : y.depth = 0) : y.Settled := by
  refine ⟨hy, hdepth, ?_⟩
  have hcount : y.waiting.count .paren = 0 := h.symm.trans hdepth
  rw [isOpen, List.contains_eq_mem, decide_eq_false_iff_not]
  exact List.count_eq_zero.1 hcount

/-- A yard takes a closing parenthesis for each one that it counts. -/
theorem Counted.takes_closing {y : Yard} (h : y.Counted) (hy : y.expectsOperand = false)
    {ts : List Token} (hts : ts.map Token.lexeme = List.replicate y.depth .rightParen) :
    ∃ y', y.Takes ts y' ∧ y'.Settled := by
  induction hdepth : y.depth generalizing y ts with
  | zero =>
      rw [hdepth, List.replicate_zero, List.map_eq_nil_iff] at hts
      subst hts
      exact ⟨y, .nil y, h.settled hy hdepth⟩
  | succ n ih =>
      rw [hdepth, List.replicate_succ, List.map_eq_cons_iff] at hts
      obtain ⟨⟨l, line⟩, us, rfl, rfl, hus⟩ := hts
      have hpos : 0 < y.waiting.count .paren := by
        rw [← h, hdepth]
        exact Nat.succ_pos n
      obtain ⟨⟨output, waiting⟩, hclose⟩ := exists_closeParen hpos y.output
      have hstep := step_rightParen hy line hclose
      obtain ⟨y', htakes, hsettled⟩ := ih (h.step hstep) hy (by simpa [hdepth] using hus)
        (by simp [hdepth])
      exact ⟨y', .cons hstep htakes, hsettled⟩

end Yard

end Turtle
