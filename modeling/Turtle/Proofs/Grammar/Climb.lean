import Turtle.Proofs.Grammar.Complete

/-!
Expressions that the parser accepts are derived by the grammar.

Acceptance is read backwards: a parser that accepts the rest of the tokens
where an expression is read must have met a derivation at their beginning.

This is the climb through the levels. Behind an operand, an operator that may
stand at the level is followed by a phrase of the next level, which is cut off
first; then the two join, and the climb goes on behind them. What makes the
join well grouped is that nothing stronger can follow a phrase that was cut
off.
-/

namespace Turtle

namespace Parser

/-- Reads the tokens and the end of the input without a fault. -/
def Accepts (p : Parser) (last : Nat) (tokens : List Token) : Prop :=
  ∃ statements, p.conclude last tokens = .ok statements

variable {p q : Parser} {last : Nat}

theorem Accepts.congr {ts us : List Token} (h : p.Accepts last ts)
    (heq : p.conclude last ts = q.conclude last us) : q.Accepts last us := by
  obtain ⟨statements, hs⟩ := h
  exact ⟨statements, heq ▸ hs⟩

theorem Accepts.cons {t : Token} {ts : List Token} (h : p.Accepts last (t :: ts)) :
    ∃ q, p.feed t = .ok q ∧ q.Accepts last ts := by
  cases hfeed : p.feed t with
  | error f =>
      obtain ⟨statements, hs⟩ := h
      rw [conclude_of_feed_error hfeed] at hs
      cases hs
  | ok q => exact ⟨q, rfl, h.congr (conclude_of_feed hfeed ts)⟩

theorem Accepts.of_feed {t : Token} {ts : List Token} (h : p.Accepts last (t :: ts))
    (hfeed : p.feed t = .ok q) : q.Accepts last ts :=
  h.congr (conclude_of_feed hfeed ts)

theorem Accepts.of_feedAll {ts us : List Token} (h : p.Accepts last (ts ++ us))
    (hfeed : p.feedAll ts = .ok q) : q.Accepts last us :=
  h.congr (conclude_of_feedAll hfeed us)

theorem Accepts.finish (h : p.Accepts last []) (cause : Cause) : p.finish ≠ .error cause := by
  obtain ⟨statements, hs⟩ := h
  intro hfinish
  rw [conclude_nil, hfinish] at hs
  cases hs

theorem not_accepts_of_feed_error {t : Token} {ts : List Token} {f : Fault}
    (hfeed : p.feed t = .error f) : ¬ p.Accepts last (t :: ts) := by
  intro h
  obtain ⟨q, hq, -⟩ := h.cons
  rw [hfeed] at hq
  cases hq

/-! ### The yard -/

variable {slot : Slot} {line : Nat} {y : Yard}

/-- The parser that reads an expression accepts the tokens. -/
def YardAccepts (p : Parser) (last : Nat) (slot : Slot) (line : Nat) (y : Yard)
    (tokens : List Token) : Prop :=
  (p.look (.yard slot line y)).Accepts last tokens

theorem YardAccepts.of_takes {y' : Yard} {ts us : List Token}
    (h : YardAccepts p last slot line y (ts ++ us)) (htakes : y.Takes ts y') :
    YardAccepts p last slot line y' us :=
  Accepts.of_feedAll h (feedAll_takes p slot line htakes)

theorem YardAccepts.of_step {y' : Yard} {t : Token} {us : List Token}
    (h : YardAccepts p last slot line y (t :: us)) (hstep : y.step t = .ok (some y')) :
    YardAccepts p last slot line y' us := by
  have htakes : y.Takes [t] y' := .single hstep
  exact YardAccepts.of_takes h htakes

theorem YardAccepts.stepOperand_ok {t : Token} {ts : List Token}
    (h : YardAccepts p last slot line y (t :: ts)) (hy : y.expectsOperand = true) :
    ∃ y', y.stepOperand t = .ok y' := by
  cases hstep : y.stepOperand t with
  | ok y' => exact ⟨y', rfl⟩
  | error f =>
      refine absurd h (not_accepts_of_feed_error (f := f) ?_)
      simp [Parser.feed, look, Yard.step, hy, hstep]

/-- Where an operand is expected, an operand or a parenthesis stands. -/
theorem YardAccepts.operand {ts : List Token} (h : YardAccepts p last slot line y ts)
    (hy : y.expectsOperand = true) :
    (∃ (a : Atom) (us : List Token), ts = a.token :: us) ∨
      ∃ (opening : Nat) (us : List Token), ts = ⟨.leftParen, opening⟩ :: us ∧
        YardAccepts p last slot line y.pushParen us := by
  cases ts with
  | nil =>
      refine absurd ?_ (Accepts.finish h (.endOfInput .operand))
      simp [Parser.finish, look, hy]
  | cons t ts =>
      obtain ⟨y', hstep⟩ := h.stepOperand_ok hy
      obtain ⟨l, tline⟩ := t
      cases l with
      | number digits =>
          cases hread : Operand.ofDigits tline digits with
          | ok o =>
              have hspells := (spells_number_iff tline).2 hread
              exact .inl ⟨⟨⟨.number digits, tline⟩, o, hspells⟩, ts, rfl⟩
          | error f => simp [Yard.stepOperand, hread] at hstep
      | var name => exact .inl ⟨⟨_, _, .var name⟩, ts, rfl⟩
      | word name => exact .inl ⟨⟨_, _, .word name⟩, ts, rfl⟩
      | leftParen =>
          exact .inr ⟨tline, ts, rfl, h.of_step (Yard.step_leftParen hy tline)⟩
      | _ => cases hstep

/-- Inside parentheses an expression is followed by an operator or a
closing parenthesis. -/
theorem YardAccepts.inside {ts : List Token} (h : YardAccepts p last slot line y ts)
    (hy : y.expectsOperand = false) (hdepth : y.depth ≠ 0) (hopen : y.isOpen = true) :
    ∃ t us, ts = t :: us ∧ t.lexeme.continues = true := by
  cases ts with
  | nil =>
      refine absurd ?_ (Accepts.finish h .unclosedParen)
      simp [Parser.finish, look, hy, hopen]
  | cons t ts =>
      refine ⟨t, ts, rfl, ?_⟩
      by_contra hcontinues
      obtain ⟨l, tline⟩ := t
      have herror : ∃ f, (p.look (.yard slot line y)).feed ⟨l, tline⟩ = .error f := by
        cases l <;>
          simp_all [Parser.feed, look, Yard.step, Yard.stepOperator, Lexeme.continues]
      obtain ⟨f, hf⟩ := herror
      exact not_accepts_of_feed_error hf h

/-! ### Expressions -/

/-- What stands behind a phrase of a level: no operator of that level. -/
def Stops (k : Nat) (rest : List Token) : Prop :=
  ∀ op opLine, rest.head? = some ⟨.operator op, opLine⟩ → op.precedence < k

/-- Phrases of every level can be cut off tokens up to a number. -/
def CutsBelow (p : Parser) (last : Nat) (slot : Slot) (line : Nat) (n : Nat) : Prop :=
  ∀ (k : Nat) (y : Yard) (ts : List Token), ts.length < n → y.expectsOperand = true →
    Yard.Below k y.waiting → YardAccepts p last slot line y ts →
    ∃ (e : Infix) (rest : List Token), e.Grouped k ∧ ts = e.tokens ++ rest ∧ Stops k rest

/-- Behind a phrase of a level the climb goes on as long as an operator of
the level follows. -/
theorem CutsBelow.climb {n k : Nat} (ih : CutsBelow p last slot line n)
    (hy : y.expectsOperand = true) (hbelow : Yard.Below k y.waiting) {e : Infix}
    {rest : List Token} (hn : rest.length ≤ n)
    (he : e.Grouped k)
    (hnext : ∀ op opLine, rest.head? = some ⟨.operator op, opLine⟩ → k ≤ op.precedence →
      e.Grouped op.precedence)
    (h : YardAccepts p last slot line y (e.tokens ++ rest)) :
    ∃ (e' : Infix) (rest' : List Token), e'.Grouped k ∧ e.tokens ++ rest = e'.tokens ++ rest' ∧
      Stops k rest' := by
  induction hm : rest.length using Nat.strong_induction_on generalizing e rest with
  | _ m ihm =>
      by_cases hstop : Stops k rest
      · exact ⟨e, rest, he, rfl, hstop⟩
      simp only [Stops, not_forall, Nat.not_lt] at hstop
      obtain ⟨op, opLine, hhead, hk⟩ := hstop
      obtain ⟨us, rfl⟩ : ∃ us, rest = ⟨.operator op, opLine⟩ :: us :=
        List.head?_eq_some_iff.1 hhead
      rw [List.length_cons] at hn hm
      have hleft : e.Grouped op.precedence := hnext op opLine hhead hk
      have hbelow' : Yard.Below op.precedence y.waiting := hbelow.mono hk
      obtain ⟨y₁, htakes, hreads⟩ := Infix.read hleft hy hbelow'
      have hop := Yard.step_operator hreads.behindOperand op opLine
      rw [hreads.pushOperator hbelow'] at hop
      -- the right operand stands one level up, where only stronger operators belong to it
      have hoperand := (h.of_takes htakes).of_step hop
      obtain ⟨e₂, rest₂, hright, rfl, hstop₂⟩ := ih (op.precedence + 1)
        ⟨e.tree.postorder.reverse ++ y.output, .operator op :: y.waiting, y.depth, true⟩ us
        (by omega) rfl (Nat.lt_succ_self op.precedence) hoperand
      rw [List.length_append] at hn hm
      have htokens : e.tokens ++ ⟨.operator op, opLine⟩ :: (e₂.tokens ++ rest₂) =
          (Infix.binary e op opLine e₂).tokens ++ rest₂ := by
        simp [Infix.tokens]
      rw [htokens] at h ⊢
      -- an operator that follows does not bind more strongly, so it takes all of this as its left
      refine ihm rest₂.length (by omega) (by omega) ⟨hk, hleft, hright⟩ ?_ h rfl
      intro op' opLine' hhead' hk'
      have hlt := hstop₂ op' opLine' hhead'
      exact ⟨by omega, hleft, hright⟩

theorem cutsBelow (p : Parser) (last : Nat) (slot : Slot) (line n : Nat) :
    CutsBelow p last slot line n := by
  induction n with
  | zero => intro k y ts hn; omega
  | succ n ih =>
      intro k y ts hn hy hbelow h
      rcases h.operand hy with ⟨a, us, rfl⟩ | ⟨opening, us, rfl, hus⟩
      · rw [List.length_cons] at hn
        have hatom : YardAccepts p last slot line y ((Infix.atom a).tokens ++ us) := h
        have hgrouped : ∀ j, (Infix.atom a).Grouped j := fun _ => trivial
        exact ih.climb hy hbelow (by omega) (hgrouped k) (fun op _ _ _ => hgrouped op.precedence)
          hatom
      · rw [List.length_cons] at hn
        -- the inner expression is cut off at level 1, so no operator stands behind it
        obtain ⟨e, rest, he, rfl, hstop⟩ := ih 1 y.pushParen us (by omega) hy trivial hus
        obtain ⟨y₁, htakes, hreads⟩ := Infix.read he (y := y.pushParen) hy trivial
        obtain ⟨t, us, rfl, ht⟩ := (hus.of_takes htakes).inside hreads.behindOperand
          (by simp [hreads.depth, Yard.pushParen]) (hreads.isOpen_pushParen)
        obtain ⟨l, closing⟩ := t
        cases l with
        | operator op =>
            have hlt := hstop op closing rfl
            have hone := op.one_le_precedence
            omega
        | rightParen =>
            have htokens : (⟨.leftParen, opening⟩ :: (e.tokens ++ ⟨.rightParen, closing⟩ :: us) :
                List Token) = (Infix.paren opening e closing).tokens ++ us := by
              simp [Infix.tokens]
            rw [htokens] at h ⊢
            simp only [List.length_append, List.length_cons] at hn
            exact ih.climb hy hbelow (by omega) he (fun _ _ _ _ => he) h
        | _ => cases ht

/-- A whole expression is cut off where nothing goes on with it. -/
theorem YardAccepts.cut {ts : List Token} (h : YardAccepts p last slot line .blank ts) :
    ∃ (e : Infix) (rest : List Token), e.Grouped 1 ∧ ts = e.tokens ++ rest ∧
      EndsExpression rest := by
  obtain ⟨e, rest, he, rfl, hstop⟩ :=
    cutsBelow p last slot line _ 1 .blank ts (Nat.lt_succ_self _) rfl trivial h
  refine ⟨e, rest, he, rfl, fun t ht => ?_⟩
  obtain ⟨us, rfl⟩ := List.head?_eq_some_iff.1 ht
  obtain ⟨y', htakes, hreads⟩ := Infix.read he (y := .blank) rfl trivial
  obtain ⟨l, tline⟩ := t
  cases l with
  | operator op =>
      have hlt := hstop op tline rfl
      have hone := op.one_le_precedence
      omega
  | rightParen =>
      refine absurd (h.of_takes htakes)
        (not_accepts_of_feed_error (f := ⟨tline, .unmatchedParen⟩) ?_)
      simp [Parser.feed, look, Yard.step, Yard.stepOperator, hreads.behindOperand,
        hreads.closeParen_eq_none rfl]
  | _ => rfl

/-- An operand behind which no operator stands is the whole expression. -/
theorem Accepts.cut_operand {o : Operand} {ts : List Token}
    (h : (p.look (.operand slot line o)).Accepts last ts) :
    EndsExpression ts ∨ YardAccepts p last slot line (.afterOperand o) ts := by
  cases ts with
  | nil => exact .inl (by simp [EndsExpression])
  | cons t ts =>
      obtain ⟨l, tline⟩ := t
      cases l with
      | operator op =>
          have hyard := h.of_feed (t := ⟨.operator op, tline⟩) rfl
          exact .inr (hyard.congr (conclude_of_feed rfl ts).symm)
      | rightParen =>
          have herror : ∃ f, (p.look (.operand slot line o)).feed ⟨.rightParen, tline⟩ =
              .error f := by
            cases slot <;> exact ⟨_, rfl⟩
          obtain ⟨f, hf⟩ := herror
          exact absurd h (not_accepts_of_feed_error hf)
      | _ =>
          refine .inl fun t ht => ?_
          cases ht
          rfl

/-- A token with which an argument begins is an operand or a parenthesis. -/
theorem Accepts.atom_of_starts {t : Token} {ts : List Token}
    (h : (p.await slot).Accepts last (t :: ts)) (ht : t.lexeme.startsArgument = true)
    (hparen : t.lexeme ≠ .leftParen) : ∃ a : Atom, a.token = t := by
  obtain ⟨l, tline⟩ := t
  cases l with
  | number digits =>
      cases hread : Operand.ofDigits tline digits with
      | ok o => exact ⟨⟨_, o, (spells_number_iff tline).2 hread⟩, rfl⟩
      | error f =>
          refine absurd h (not_accepts_of_feed_error (f := f) ?_)
          cases slot <;>
            simp [await, Parser.feed, look, feedValue, feedArguments, beginExpression?, hread]
  | var name => exact ⟨⟨_, _, .var name⟩, rfl⟩
  | leftParen => exact absurd rfl hparen
  | _ => cases ht

/-- An argument is cut off where one can begin. -/
theorem Accepts.cut_argument (slot : Slot) {t : Token} {ts : List Token}
    (h : (p.await slot).Accepts last (t :: ts)) (ht : t.lexeme.startsArgument = true) :
    ∃ (a : Argument) (rest : List Token), t :: ts = a.tokens ++ rest ∧
      (p.deliver a.expr slot).Accepts last rest := by
  have hcut : ∃ (e : Infix) (rest : List Token), e.Grouped 1 ∧ t :: ts = e.tokens ++ rest ∧
      EndsExpression rest := by
    by_cases hparen : t.lexeme = .leftParen
    · obtain ⟨l, tline⟩ := t
      cases hparen
      have hyard := h.of_feed (feed_await_leftParen p slot tline)
      have hblank : YardAccepts p last slot tline .blank (⟨.leftParen, tline⟩ :: ts) :=
        hyard.congr (conclude_of_feed rfl ts).symm
      exact hblank.cut
    · obtain ⟨a, rfl⟩ : ∃ a : Atom, a.token = t := h.atom_of_starts ht hparen
      have hword : ∀ name, a.token.lexeme ≠ .word name := by
        intro name hname
        rw [hname] at ht
        cases ht
      have hoperand := h.of_feed (feed_await_operand p slot a.spelled hword)
      rcases hoperand.cut_operand with hends | hyard
      · exact ⟨.atom a, ts, trivial, rfl, hends⟩
      · have hfeed : (p.look (.yard slot a.token.line .blank)).feed a.token =
            .ok (p.look (.yard slot a.token.line (.afterOperand a.operand))) := by
          simp only [Parser.feed, look, Yard.step_operand (y := .blank) rfl a.spelled]
          rfl
        have hblank : YardAccepts p last slot a.token.line .blank (a.token :: ts) :=
          hyard.congr (conclude_of_feed hfeed ts).symm
        exact hblank.cut
  obtain ⟨e, rest, he, htokens, hends⟩ := hcut
  have hfirst : e.first = t := by
    obtain ⟨us, hus⟩ := e.tokens_eq_cons
    rw [hus] at htokens
    exact (List.cons.inj htokens).1.symm
  have hword : ∀ name, e.first.lexeme ≠ .word name := by
    intro name hname
    rw [← hfirst, hname] at ht
    cases ht
  refine ⟨⟨e, he, hword⟩, rest, htokens, ?_⟩
  rw [htokens] at h
  exact h.congr (conclude_await p slot ⟨e, he, hword⟩ hends)

end Parser

end Turtle
