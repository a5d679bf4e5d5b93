import Turtle.Proofs.Expression.Postfix
import Turtle.Proofs.Grammar.Complete

/-!
The rounds in which an expression is read.

Behind a leading operand or an opening parenthesis the yard is offered the tokens
one after the other, one in each round, until in a last round the expression is
over, the token is refused, or the input has ended too soon.

Three rows are kept in step from round to round. The counter of open parentheses
agrees with their marks among the waiting operators. Between two marks, and above
the last one, the operators bind the more strongly the later they have come. And
the output, taken together with the operators that still wait, has as many operands
as operators where an operand is expected, and one more behind an operand. `InStep`
says so, each of the five ways in which a yard goes on keeps it, and so it holds at
the beginning of every round. `outcome` tells what becomes of the last round: what
the parser concludes that has offered the same tokens to its yard.
-/

namespace Turtle

/-! ### Rounds -/

/-- Where the reading of an expression stands: the yard, and the tokens that have
not been taken. -/
structure Reading where
  yard : Yard
  rest : List Token
  deriving DecidableEq, Repr

/-- How a round ends. -/
inductive Round
  /-- Another round follows. -/
  | again (r : Reading)
  | over
  | refused (f : Fault)
  /-- The input has ended where an operand has to follow. -/
  | cut
  deriving DecidableEq, Repr

namespace Reading

/-- Looks at the next token, and takes it if the yard goes on with it. -/
def round (r : Reading) : Round :=
  match r.rest.head? with
  | none => if r.yard.expectsOperand then .cut else .over
  | some t =>
    match r.yard.step t with
    | .ok (some y) => .again ⟨y, r.rest.tail⟩
    | .ok none => .over
    | .error f => .refused f

/-- Where the reading stands after so many rounds, if each of them is followed by
another one. -/
def after (r : Reading) : Nat → Option Reading
  | 0 => some r
  | n + 1 =>
    (r.after n).bind fun r' =>
      match r'.round with
      | .again r'' => some r''
      | _ => none

/-- Where the rounds begin, given the first token of the expression and all that
follow: behind an operand with an operator, or behind an opening parenthesis. -/
inductive Begins (t : Token) (rest : List Token) : Reading → Prop
  | operand {o : Operand} (hspells : Spells t.lexeme o) (hword : ∀ name, t.lexeme ≠ .word name)
      (hoperator : ∃ op line us, rest = ⟨.operator op, line⟩ :: us) :
      Begins t rest ⟨.afterOperand o, rest⟩
  | paren (hparen : t.lexeme = .leftParen) : Begins t rest ⟨.afterParen, rest⟩

/-- What a parser concludes that reads an expression for the slot, and offers a token
in a round. -/
def outcome (r : Reading) (p : Parser) (slot : Slot) (line last : Nat) :
    Except Fault (List Statement) :=
  match r.round with
  | .again r' => (p.look (.yard slot line r'.yard)).conclude last r'.rest
  | .over =>
    if r.yard.isOpen then .error ⟨last, .unclosedParen⟩
    else (p.deliver ⟨line, .sequence r.yard.items⟩ slot).conclude last r.rest
  | .refused f => .error f
  | .cut => .error ⟨last, .endOfInput .operand⟩

variable {start r r' : Reading} {n : Nat}

theorem round_eq_again_iff :
    r.round = .again r' ↔ ∃ t, r.rest = t :: r'.rest ∧ r.yard.step t = .ok (some r'.yard) := by
  obtain ⟨y, ts⟩ := r
  obtain ⟨y', ts'⟩ := r'
  cases ts with
  | nil =>
      simp only [round, List.head?_nil]
      split_ifs <;> simp
  | cons t ts =>
      simp only [round, List.head?_cons, List.tail_cons]
      cases hstep : y.step t with
      | error f => simp [hstep]
      | ok result =>
          cases result with
          | none => simp [hstep]
          | some y₁ => simp [hstep, and_comm]

theorem after_succ_iff :
    start.after (n + 1) = some r' ↔ ∃ r, start.after n = some r ∧ r.round = .again r' := by
  rw [after, Option.bind_eq_some_iff]
  refine exists_congr fun r => and_congr_right fun _ => ?_
  cases r.round <;> simp

/-- After some rounds the yard has taken as many tokens. -/
theorem exists_taken (h : start.after n = some r) :
    ∃ taken, taken.length = n ∧ start.rest = taken ++ r.rest ∧ start.yard.Takes taken r.yard := by
  induction n generalizing r with
  | zero =>
      cases h
      exact ⟨[], rfl, rfl, .nil _⟩
  | succ n ih =>
      obtain ⟨r₁, hafter, hround⟩ := after_succ_iff.1 h
      obtain ⟨taken, hlength, hrest, htakes⟩ := ih hafter
      obtain ⟨t, hnext, hstep⟩ := round_eq_again_iff.1 hround
      refine ⟨taken ++ [t], by simp [hlength], ?_, htakes.append (.single hstep)⟩
      rw [hrest, hnext, List.append_assoc, List.singleton_append]

/-- As a round that is followed by another one takes a token, there is a last one. -/
theorem exists_last (start : Reading) :
    ∃ n r, start.after n = some r ∧ ∀ r', r.round ≠ .again r' := by
  by_contra hnone
  simp only [not_exists, not_and, not_forall, not_not] at hnone
  have hall : ∀ n, ∃ r, start.after n = some r := by
    intro n
    induction n with
    | zero => exact ⟨start, rfl⟩
    | succ n ih =>
        obtain ⟨r, hr⟩ := ih
        obtain ⟨r', hr'⟩ := hnone n r hr
        exact ⟨r', after_succ_iff.2 ⟨r, hr, hr'⟩⟩
  -- there are not so many tokens
  obtain ⟨r, hr⟩ := hall (start.rest.length + 1)
  obtain ⟨taken, hlength, hrest, -⟩ := exists_taken hr
  rw [hrest, List.length_append] at hlength
  omega

end Reading

/-! ### Rows in step -/

@[simp] theorem operands_cons_operand (o : Operand) (items : List Item) :
    operands (.operand o :: items) = operands items + 1 :=
  List.countP_cons_of_pos rfl

@[simp] theorem operators_cons_operand (o : Operand) (items : List Item) :
    operators (.operand o :: items) = operators items := rfl

@[simp] theorem operands_cons_operator (o : Operator) (items : List Item) :
    operands (.operator o :: items) = operands items := rfl

@[simp] theorem operators_cons_operator (o : Operator) (items : List Item) :
    operators (.operator o :: items) = operators items + 1 :=
  List.countP_cons_of_pos rfl

namespace Yard

/-- How many operators wait. -/
def pending (waiting : List Waiting) : Nat :=
  waiting.countP (· != .paren)

/-- An operator that waits directly above another one binds more strongly. -/
def Climbing : List Waiting → Prop
  | [] => True
  | .paren :: waiting => Climbing waiting
  | .operator o :: waiting => Below o.precedence waiting ∧ Climbing waiting

/-- With the operators that wait, the output has as many operands as operators, and
one more behind an operand. -/
def Matched (y : Yard) : Prop :=
  operands y.output = operators y.output + pending y.waiting + if y.expectsOperand then 0 else 1

structure InStep (y : Yard) : Prop where
  counted : y.Counted
  climbing : Climbing y.waiting
  matched : y.Matched

theorem Climbing.right {inner outer : List Waiting} (h : Climbing (inner ++ outer)) :
    Climbing outer := by
  induction inner with
  | nil => exact h
  | cons w inner ih =>
      cases w with
      | paren => exact ih h
      | operator o => exact ih h.2

/-- Of operators with no mark between them, each binds more strongly than all below it. -/
theorem Climbing.pairwise {ops : List Operator} {outer : List Waiting}
    (h : Climbing (ops.map .operator ++ outer)) :
    ops.Pairwise fun o o' => o'.precedence < o.precedence := by
  rw [← List.isChain_iff_pairwise]
  induction ops with
  | nil => exact .nil
  | cons o ops ih =>
      cases ops with
      | nil => exact .singleton o
      | cons o' ops => exact .cons_cons h.1 (ih h.2)

/-! ### What is sent to the output -/

@[simp] theorem pending_paren (waiting : List Waiting) :
    pending (.paren :: waiting) = pending waiting := rfl

@[simp] theorem pending_operator (o : Operator) (waiting : List Waiting) :
    pending (.operator o :: waiting) = pending waiting + 1 :=
  List.countP_cons_of_pos (by simp)

theorem pending_sent (sent : List Operator) (waiting : List Waiting) :
    pending (sent.map .operator ++ waiting) = sent.length + pending waiting := by
  induction sent with
  | nil => exact (Nat.zero_add _).symm
  | cons o sent ih =>
      rw [List.map_cons, List.cons_append, pending_operator, ih, List.length_cons]
      omega

theorem operands_send (sent : List Operator) (output : List Item) :
    operands (send sent output) = operands output := by
  induction sent generalizing output with
  | nil => rfl
  | cons o sent ih => rw [send_cons, ih, operands_cons_operator]

theorem operators_send (sent : List Operator) (output : List Item) :
    operators (send sent output) = operators output + sent.length := by
  induction sent generalizing output with
  | nil => rfl
  | cons o sent ih =>
      rw [send_cons, ih, operators_cons_operator, List.length_cons]
      omega

/-- An arriving operator sends those above it that bind at least as strongly, so that
what it then waits upon binds less strongly. -/
theorem release_sends (k : Nat) (output : List Item) (waiting : List Waiting) :
    ∃ sent : List Operator, waiting = sent.map .operator ++ (release k output waiting).2 ∧
      (release k output waiting).1 = send sent output ∧ Below k (release k output waiting).2 := by
  induction waiting generalizing output with
  | nil => exact ⟨[], rfl, rfl, trivial⟩
  | cons w waiting ih =>
      cases w with
      | paren => exact ⟨[], rfl, rfl, trivial⟩
      | operator o =>
          rw [release]
          split_ifs with hk
          · obtain ⟨sent, hwaiting, houtput, hbelow⟩ := ih (.operator o :: output)
            refine ⟨o :: sent, ?_, ?_, hbelow⟩
            · rw [List.map_cons, List.cons_append, ← hwaiting]
            · rw [houtput, send_cons]
          · exact ⟨[], rfl, rfl, Nat.not_le.1 hk⟩

/-- A closing parenthesis sends all operators down to the last mark. -/
theorem closeParen_sends {output output' : List Item} {waiting waiting' : List Waiting}
    (h : closeParen output waiting = some (output', waiting')) :
    ∃ sent : List Operator, waiting = sent.map .operator ++ .paren :: waiting' ∧
      output' = send sent output := by
  induction waiting generalizing output with
  | nil => cases h
  | cons w waiting ih =>
      cases w with
      | paren =>
          cases h
          exact ⟨[], rfl, rfl⟩
      | operator o =>
          rw [closeParen] at h
          obtain ⟨sent, hwaiting, houtput⟩ := ih h
          refine ⟨o :: sent, ?_, ?_⟩
          · rw [hwaiting, List.map_cons, List.cons_append]
          · rw [houtput, send_cons]

/-! ### Steps -/

variable {y y' : Yard} {t : Token}

theorem Climbing.step (h : Climbing y.waiting) (hstep : y.step t = .ok (some y')) :
    Climbing y'.waiting := by
  rcases step_cases hstep with ⟨-, ⟨o, -, rfl⟩ | ⟨-, rfl⟩⟩ |
    ⟨-, ⟨op, -, rfl⟩ | ⟨-, output, waiting, hclose, rfl⟩⟩
  · exact h
  · exact h
  · obtain ⟨sent, hwaiting, -, hbelow⟩ := release_sends op.precedence y.output y.waiting
    rw [hwaiting] at h
    exact ⟨hbelow, h.right⟩
  · obtain ⟨sent, hwaiting, -⟩ := closeParen_sends hclose
    rw [hwaiting] at h
    exact h.right

/-- Sending operators to the output leaves the sum as it is. -/
theorem Matched.send {sent : List Operator} {waiting : List Waiting} (h : y.Matched)
    (hwaiting : y.waiting = sent.map .operator ++ waiting) :
    operands (send sent y.output) = operators (send sent y.output) + pending waiting +
      if y.expectsOperand then 0 else 1 := by
  rw [Matched, hwaiting, pending_sent] at h
  rw [operands_send, operators_send, h]
  omega

theorem Matched.step (h : y.Matched) (hstep : y.step t = .ok (some y')) : y'.Matched := by
  rcases step_cases hstep with ⟨hexpects, ⟨o, -, rfl⟩ | ⟨-, rfl⟩⟩ |
    ⟨hexpects, ⟨op, -, rfl⟩ | ⟨-, output, waiting, hclose, rfl⟩⟩
  · rw [Matched, hexpects] at h
    simp only [Matched, pushOperand, operands_cons_operand, operators_cons_operand, h]
    simp
  · exact h
  · obtain ⟨sent, hwaiting, houtput, -⟩ := release_sends op.precedence y.output y.waiting
    have hsent := h.send hwaiting
    -- the operator that arrives waits for its right operand
    rw [← houtput, hexpects] at hsent
    simp only [Matched, pushOperator, pending_operator, hsent]
    simp [Nat.add_assoc]
  · obtain ⟨sent, hwaiting, rfl⟩ := closeParen_sends hclose
    have hsent := h.send hwaiting
    rw [pending_paren] at hsent
    exact hsent

/-- Each way in which a yard goes on keeps the rows in step. -/
theorem InStep.step (h : y.InStep) (hstep : y.step t = .ok (some y')) : y'.InStep :=
  ⟨h.counted.step hstep, h.climbing.step hstep, h.matched.step hstep⟩

theorem Takes.inStep {ts : List Token} (htakes : y.Takes ts y') (h : y.InStep) : y'.InStep := by
  induction htakes with
  | nil => exact h
  | cons step rest ih => exact ih (h.step step)

theorem inStep_afterOperand (o : Operand) : (afterOperand o).InStep :=
  ⟨counted_afterOperand o, trivial, rfl⟩

theorem inStep_afterParen : afterParen.InStep :=
  ⟨counted_afterParen, trivial, rfl⟩

/-- Where no mark waits, none is counted. -/
theorem Counted.settled_of_closed (h : y.Counted) (hexpects : y.expectsOperand = false)
    (hopen : y.isOpen = false) : y.Settled := by
  have hdepth : y.depth = y.waiting.count .paren := h
  rw [isOpen, List.contains_eq_mem, decide_eq_false_iff_not] at hopen
  exact h.settled hexpects (hdepth.trans (List.count_eq_zero.2 hopen))

/-- To take a closing parenthesis, the yard has to count one. -/
theorem Counted.depth_of_step {line : Nat} (h : y.Counted)
    (hstep : y.step ⟨.rightParen, line⟩ = .ok (some y')) : y.depth = y'.depth + 1 := by
  have hdepth : y.depth = y.waiting.count .paren := h
  rcases step_cases hstep with ⟨-, ⟨o, hspells, -⟩ | ⟨hparen, -⟩⟩ |
    ⟨-, ⟨op, hop, -⟩ | ⟨-, output, waiting, hclose, rfl⟩⟩
  · cases hspells
  · cases hparen
  · cases hop
  · have hcount := count_of_closeParen hclose
    show y.depth = y.depth - 1 + 1
    omega

end Yard

namespace Reading

variable {start r : Reading} {t : Token} {rest taken : List Token} {y : Yard} {n : Nat}

theorem Begins.inStep (h : start.Begins t rest) : start.yard.InStep := by
  cases h with
  | operand => exact Yard.inStep_afterOperand _
  | paren => exact Yard.inStep_afterParen

theorem Begins.rest_eq (h : start.Begins t rest) : start.rest = rest := by
  cases h <;> rfl

/-! ### The parser -/

/-- Only where an expression may end is a token left to what follows. -/
theorem settled_of_step (h : y.Counted) (hstep : y.step t = .ok none) :
    y.Settled ∧ t.lexeme.continues = false := by
  rw [Yard.step] at hstep
  split_ifs at hstep with hexpects
  · cases hoperand : y.stepOperand t with
    | error f => simp [hoperand] at hstep
    | ok y' => simp [hoperand] at hstep
  · have hleft : y.depth = 0 ∧ t.lexeme.continues = false := by
      rw [Yard.stepOperator] at hstep
      cases hl : t.lexeme with
      | operator op => simp [hl] at hstep
      | rightParen =>
          cases hclose : Yard.closeParen y.output y.waiting <;> simp [hl, hclose] at hstep
      | _ => simpa [hl, Lexeme.continues] using hstep
    exact ⟨h.settled (by simpa using hexpects) hleft.1, hleft.2⟩

/-- With no token left, the parser ends the expression, or cannot end there. -/
theorem conclude_nil_eq_outcome (h : y.Counted) (p : Parser) (slot : Slot) (line last : Nat) :
    (p.look (.yard slot line y)).conclude last [] =
      outcome ⟨y, []⟩ p slot line last := by
  rw [Parser.conclude_nil]
  cases hexpects : y.expectsOperand with
  | true => simp [outcome, round, Parser.finish, Parser.look, hexpects, Except.mapError]
  | false =>
      cases hopen : y.isOpen with
      | true => simp [outcome, round, Parser.finish, Parser.look, hexpects, hopen, Except.mapError]
      | false =>
          have hholds := p.holds_settled slot line (h.settled_of_closed hexpects hopen)
          simp [outcome, round, hexpects, hopen, hholds.finish, Parser.conclude_nil]

/-- A round is what the parser does with the next token, or at the end of the input. -/
theorem conclude_eq_outcome (h : r.yard.Counted) (p : Parser) (slot : Slot) (line last : Nat) :
    (p.look (.yard slot line r.yard)).conclude last r.rest = r.outcome p slot line last := by
  obtain ⟨y, ts⟩ := r
  cases ts with
  | nil => exact conclude_nil_eq_outcome h p slot line last
  | cons t ts =>
      cases hstep : y.step t with
      | error f =>
          have hfeed : (p.look (.yard slot line y)).feed t = .error f := by
            simp only [Parser.feed, Parser.look, hstep]
          simp only [outcome, round, List.head?_cons, hstep]
          exact Parser.conclude_of_feed_error hfeed ts
      | ok result =>
          cases result with
          | some y' =>
              have hfeed : (p.look (.yard slot line y)).feed t =
                  .ok (p.look (.yard slot line y')) := by
                simp only [Parser.feed, Parser.look, hstep]
              simp only [outcome, round, List.head?_cons, List.tail_cons, hstep]
              exact Parser.conclude_of_feed hfeed ts
          | none =>
              obtain ⟨hsettled, hends⟩ := settled_of_step h hstep
              have hholds := p.holds_settled slot line hsettled
              simp only [outcome, round, List.head?_cons, hstep, hsettled.closed]
              -- the token is left to the parser that has the expression
              apply Parser.conclude_congr
              · intro u hu
                cases hu
                exact hholds.feed t hends
              · intro hnil
                cases hnil

/-- What the yard takes from there on is what the parser takes, wherever an expression
is read. A bare operand is not yet a matter of the yard. -/
theorem Begins.feedAll (h : start.Begins t rest) (htakes : start.yard.Takes taken y)
    (hbegun : t.lexeme = .leftParen ∨ taken ≠ []) (p : Parser) (slot : Slot) :
    (p.await slot).feedAll (t :: taken) = .ok (p.look (.yard slot t.line y)) := by
  cases h with
  | operand hspells hword =>
      have hparen : t.lexeme ≠ .leftParen := by
        intro hparen
        rw [hparen] at hspells
        cases hspells
      obtain ⟨u, us, rfl⟩ := List.exists_cons_of_ne_nil (hbegun.resolve_left hparen)
      exact (Parser.feedAll_cons_ok (Parser.feed_await_operand p slot hspells hword) _).trans
        (Parser.feedAll_operand_takes p slot t.line htakes)
  | paren hparen =>
      obtain ⟨l, line⟩ := t
      cases hparen
      exact (Parser.feedAll_cons_ok (Parser.feed_await_leftParen p slot line) _).trans
        (Parser.feedAll_takes p slot line htakes)

/-- The first round of a reading that begins behind an operand is not the last. -/
theorem Begins.begun (h : start.Begins t rest) (hafter : start.after n = some r)
    (hlast : ∀ r', r.round ≠ .again r') : t.lexeme = .leftParen ∨ 0 < n := by
  cases h with
  | operand hspells hword hoperator =>
      obtain ⟨op, line, us, rfl⟩ := hoperator
      refine .inr (Nat.pos_of_ne_zero ?_)
      rintro rfl
      cases hafter
      -- the operator is there to be taken
      exact hlast ⟨_, us⟩ (round_eq_again_iff.2 ⟨_, rfl, Yard.step_operator rfl op line⟩)
  | paren hparen => exact .inl hparen

/-- An expression is read in rounds, one of which is the last, whatever tokens follow. At
the beginning of every round the counter agrees with the marks of open parentheses, so
that it is zero exactly if there is none. Of waiting operators with no mark between them,
each binds more strongly than all below it. And the operands in the output, less the
operators there and those that wait, are one behind an operand and none where one is
expected. Every round but the last takes exactly one token, and a closing parenthesis
only if one is counted. The parser that has taken the same tokens has the same yard, and
how the last round ends is what it concludes. -/
theorem rounds_in_step (h : start.Begins t rest) :
    (∃ n final, start.after n = some final ∧ (∀ r, final.round ≠ .again r) ∧
      ∀ (p : Parser) (slot : Slot) (last : Nat),
        (p.await slot).conclude last (t :: rest) = final.outcome p slot t.line last) ∧
    ∀ n r, start.after n = some r →
      (r.yard.depth = r.yard.waiting.count .paren ∧ (r.yard.depth = 0 ↔ .paren ∉ r.yard.waiting)) ∧
      (∀ (inner outer : List Waiting) (ops : List Operator),
        r.yard.waiting = inner ++ (ops.map .operator ++ outer) →
          ops.Pairwise fun o o' => o'.precedence < o.precedence) ∧
      (operands r.yard.output : Int) - operators r.yard.output - Yard.pending r.yard.waiting =
        (if r.yard.expectsOperand then 0 else 1) ∧
      (∀ r', r.round = .again r' → ∃ u, r.rest = u :: r'.rest ∧
        (u.lexeme = .rightParen → r.yard.depth = r'.yard.depth + 1)) ∧
      ∃ taken, taken.length = n ∧ rest = taken ++ r.rest ∧
        ∀ (p : Parser) (slot : Slot), t.lexeme = .leftParen ∨ taken ≠ [] →
          (p.await slot).feedAll (t :: taken) = .ok (p.look (.yard slot t.line r.yard)) := by
  constructor
  · obtain ⟨n, final, hafter, hlast⟩ := exists_last start
    refine ⟨n, final, hafter, hlast, fun p slot last => ?_⟩
    obtain ⟨taken, hlength, hrest, htakes⟩ := exists_taken hafter
    have hbegun : t.lexeme = .leftParen ∨ taken ≠ [] := by
      refine (h.begun hafter hlast).imp_right fun hpos => ?_
      rwa [← hlength, List.length_pos_iff] at hpos
    have hfeed := h.feedAll htakes hbegun p slot
    calc (p.await slot).conclude last (t :: rest)
        = (p.await slot).conclude last ((t :: taken) ++ final.rest) := by
          rw [← h.rest_eq, hrest, List.cons_append]
      _ = (p.look (.yard slot t.line final.yard)).conclude last final.rest :=
          Parser.conclude_of_feedAll hfeed final.rest
      _ = final.outcome p slot t.line last :=
          conclude_eq_outcome (htakes.inStep h.inStep).counted p slot t.line last
  intro n r hr
  obtain ⟨taken, hlength, hrest, htakes⟩ := exists_taken hr
  have hin := htakes.inStep h.inStep
  have hdepth : r.yard.depth = r.yard.waiting.count .paren := hin.counted
  refine ⟨⟨hdepth, ?_⟩, ?_, ?_, ?_, taken, hlength, ?_, ?_⟩
  · rw [hdepth, List.count_eq_zero]
  · intro inner outer ops hwaiting
    have hclimbing := hin.climbing
    rw [hwaiting] at hclimbing
    exact hclimbing.right.pairwise
  · have hmatched := hin.matched
    rw [Yard.Matched] at hmatched
    split_ifs at hmatched ⊢ <;> omega
  · intro r' hround
    obtain ⟨⟨l, line⟩, hnext, hstep⟩ := round_eq_again_iff.1 hround
    refine ⟨⟨l, line⟩, hnext, ?_⟩
    rintro rfl
    exact hin.counted.depth_of_step hstep
  · rw [← hrest, h.rest_eq]
  · intro p slot hbegun
    exact h.feedAll htakes hbegun p slot

/-- In `(1-2*(:x` the multiplication waits above the subtraction, each parenthesis has
its mark, and three operands stand against two operators that wait. -/
theorem rounds_in_step_open :
    let rest : List Token := [⟨.number (ascii "1"), 1⟩, ⟨.operator .sub, 1⟩,
      ⟨.number (ascii "2"), 1⟩, ⟨.operator .mul, 1⟩, ⟨.leftParen, 1⟩, ⟨.var (ascii "x"), 1⟩]
    let y : Yard := ⟨[.operand (.var (ascii "x")), .operand (.number 2), .operand (.number 1)],
      [.paren, .operator .mul, .operator .sub, .paren], 2, false⟩
    Begins ⟨.leftParen, 1⟩ rest ⟨.afterParen, rest⟩ ∧
      (⟨.afterParen, rest⟩ : Reading).after 6 = some ⟨y, []⟩ ∧
      y.depth = y.waiting.count .paren ∧
      [Operator.mul, .sub].Pairwise (fun o o' => o'.precedence < o.precedence) ∧
      (operands y.output : Int) - operators y.output - Yard.pending y.waiting = 1 ∧
      (Parser.start.await (.count 1)).feedAll (⟨.leftParen, 1⟩ :: rest) =
        .ok (Parser.start.look (.yard (.count 1) 1 y)) := by
  intro rest y
  have hbegins : Begins ⟨.leftParen, 1⟩ rest ⟨.afterParen, rest⟩ := .paren rfl
  have hafter : (⟨.afterParen, rest⟩ : Reading).after 6 = some ⟨y, []⟩ := by decide +kernel
  obtain ⟨-, hrounds⟩ := rounds_in_step hbegins
  obtain ⟨⟨hdepth, -⟩, hclimbing, hmatched, -, taken, -, htaken, hparser⟩ := hrounds 6 _ hafter
  rw [List.append_nil] at htaken
  subst htaken
  exact ⟨hbegins, hafter, hdepth, hclimbing [.paren] [.paren] [.mul, .sub] rfl, hmatched,
    hparser Parser.start (.count 1) (.inl rfl)⟩

end Reading

end Turtle
