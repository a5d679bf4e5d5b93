import Turtle.Proofs.Grammar.Failure

/-!
The token that a fault is found at.

A fault of the parser that more input cannot mend is found at one token: the tokens
before it begin a program, and with it they do not begin any. The fault is told on
the line of this token, and if a kind of token is told as found, it is the kind of
this one. Every other fault is told on the last line.
-/

namespace Turtle

/-- The fault is the token's: it is told on its line, no other token is told as
found, and few kinds of tokens are told as expected. -/
structure Fault.Blames (f : Fault) (t : Token) : Prop where
  line : f.line = t.line
  found : ∀ k, f.cause.found = some k → k = t.lexeme.kind
  expected : f.cause.expected.length ≤ 5

theorem Fault.blames_of_plain {cause : Cause} (hfound : cause.found = none)
    (hexpected : cause.expected = []) (t : Token) : Fault.Blames ⟨t.line, cause⟩ t where
  line := rfl
  found k hk := by
    rw [hfound] at hk
    cases hk
  expected := by
    rw [hexpected]
    exact Nat.zero_le 5

theorem Fault.blames_found {cause : Cause} {t : Token} (hfound : cause.found = some t.lexeme.kind)
    (hexpected : cause.expected.length ≤ 5) : Fault.Blames ⟨t.line, cause⟩ t where
  line := rfl
  found _ hk := Option.some.inj (hk.symm.trans hfound)
  expected := hexpected

theorem Fault.blames_unexpected (t : Token) {kinds : List Kind} (hkinds : kinds.length ≤ 5) :
    Fault.Blames ⟨t.line, .unexpected t.lexeme kinds⟩ t :=
  Fault.blames_found rfl hkinds

/-- The tokens begin a program. -/
def BeginsProgram (tokens : List Token) : Prop :=
  ∃ more last statements, parse ⟨tokens ++ more, last⟩ = .ok statements

namespace Parser

/-- What taking a token ends in: a parser, or a fault of this token. -/
def BlamesOnly {α : Type} (t : Token) : Except Fault α → Prop
  | .ok _ => True
  | .error f => f.Blames t

/-! ### Taking a token -/

theorem blamesOnly_feedStatement (p : Parser) (t : Token) : BlamesOnly t (p.feedStatement t) := by
  obtain ⟨l, line⟩ := t
  obtain ⟨focus, statements, enclosing⟩ := p
  cases l with
  | identifier name => trivial
  | rightBracket =>
      match enclosing with
      | [] => exact Fault.blames_of_plain rfl rfl _
      | (.loop .., before) :: enclosing => trivial
      | (.procedure .., before) :: enclosing => exact Fault.blames_of_plain rfl rfl _
  | keyword k =>
      cases k with
      | loop | make => trivial
      | close =>
          match enclosing with
          | [] => exact Fault.blames_found (t := ⟨.keyword _, line⟩) rfl (Nat.zero_le 5)
          | (.loop .., before) :: enclosing =>
              exact Fault.blames_found (t := ⟨.keyword _, line⟩) rfl (Nat.zero_le 5)
          | (.procedure .., before) :: enclosing => trivial
      | _ =>
          cases enclosing with
          | nil => trivial
          | cons e enclosing =>
              exact Fault.blames_found (t := ⟨.keyword _, line⟩) rfl (Nat.zero_le 5)
  | _ => exact Fault.blames_unexpected _ (by decide)

theorem blamesOnly_ofDigits {α : Type} (digits : Text) (line : Nat) (f : Operand → α) :
    BlamesOnly ⟨.number digits, line⟩ (f <$> Operand.ofDigits line digits) := by
  rw [Operand.ofDigits]
  cases Numeral.readInt64? digits with
  | some n => trivial
  | none => exact Fault.blames_of_plain rfl rfl ⟨.number digits, line⟩

theorem blamesOnly_beginExpression? {p : Parser} {slot : Slot} {t : Token}
    {r : Except Fault Parser} (h : p.beginExpression? slot t = some r) : BlamesOnly t r := by
  obtain ⟨l, line⟩ := t
  cases l with
  | number digits =>
      cases h
      exact blamesOnly_ofDigits digits line _
  | var | leftParen =>
      cases h
      trivial
  | _ => cases h

theorem blamesOnly_feedValue (p : Parser) (slot : Slot) (t : Token) :
    BlamesOnly t (p.feedValue slot t) := by
  rw [feedValue]
  cases hbegin : p.beginExpression? slot t with
  | some r => exact blamesOnly_beginExpression? hbegin
  | none =>
      obtain ⟨l, line⟩ := t
      cases l with
      | word name => trivial
      | _ => exact Fault.blames_unexpected _ (by decide)

theorem blamesOnly_feedArguments (p : Parser) (line : Nat) (name : Text) (before : List Expr)
    (t : Token) : BlamesOnly t (p.feedArguments line name before t) := by
  rw [feedArguments]
  cases hbegin : p.beginExpression? (.argument line name before) t with
  | some r => exact blamesOnly_beginExpression? hbegin
  | none => exact blamesOnly_feedStatement _ t

theorem blamesOnly_feedLoopOpening (p : Parser) (line : Nat) (count : Expr) (t : Token) :
    BlamesOnly t (p.feedLoopOpening line count t) := by
  obtain ⟨l, opening⟩ := t
  cases l with
  | leftBracket => trivial
  | _ => exact Fault.blames_unexpected _ (by decide)

theorem blamesOnly_feedDelivered (p : Parser) (t : Token) : BlamesOnly t (p.feedDelivered t) := by
  rw [feedDelivered]
  split
  · exact blamesOnly_feedArguments ..
  · exact blamesOnly_feedLoopOpening ..
  · exact blamesOnly_feedStatement p t

theorem blamesOnly_step (y : Yard) (t : Token) : BlamesOnly t (y.step t) := by
  have hfew : Yard.continuations.length ≤ 5 := by decide
  obtain ⟨l, line⟩ := t
  rw [Yard.step]
  split_ifs
  · cases l with
    | number digits =>
        simp only [Yard.stepOperand, ← comp_map]
        exact blamesOnly_ofDigits digits line _
    | var | word | leftParen => trivial
    | _ => exact Fault.blames_unexpected _ (by decide)
  · cases l with
    | operator op => trivial
    | rightParen =>
        simp only [Yard.stepOperator]
        cases Yard.closeParen y.output y.waiting with
        | some r => trivial
        | none => exact Fault.blames_of_plain rfl rfl ⟨.rightParen, line⟩
    | _ =>
        simp only [Yard.stepOperator]
        split_ifs
        · trivial
        · exact Fault.blames_unexpected ⟨_, line⟩ hfew

theorem blamesOnly_feed (p : Parser) (t : Token) : BlamesOnly t (p.feed t) := by
  obtain ⟨focus, statements, enclosing⟩ := p
  cases focus with
  | statement => exact blamesOnly_feedStatement _ t
  | value slot => exact blamesOnly_feedValue _ slot t
  | arguments line name before => exact blamesOnly_feedArguments _ line name before t
  | loopOpening line count => exact blamesOnly_feedLoopOpening _ line count t
  | procedureName line =>
      obtain ⟨l, tline⟩ := t
      cases l with
      | identifier name => trivial
      | _ => exact Fault.blames_unexpected _ (by decide)
  | assignedName line =>
      obtain ⟨l, tline⟩ := t
      cases l with
      | word name => trivial
      | _ => exact Fault.blames_unexpected _ (by decide)
  | parameters line name before =>
      have hbody := blamesOnly_feedStatement
        (enter ⟨.parameters line name before, statements, enclosing⟩
          (.procedure line name before.reverse)) t
      obtain ⟨l, tline⟩ := t
      cases l with
      | var parameter => trivial
      | _ => exact hbody
  | operand slot line o =>
      have hdelivered := blamesOnly_feedDelivered
        (deliver ⟨.operand slot line o, statements, enclosing⟩ ⟨line, .single o⟩ slot) t
      obtain ⟨l, tline⟩ := t
      cases l with
      | operator op => trivial
      | _ => exact hdelivered
  | yard slot line y =>
      have hstep := blamesOnly_step y t
      simp only [feed]
      cases hy : y.step t with
      | error f =>
          rw [hy] at hstep
          exact hstep
      | ok r =>
          cases r with
          | some y' => trivial
          | none => exact blamesOnly_feedDelivered _ t

/-! ### Taking all tokens -/

/-- Where a row of tokens is refused. -/
theorem exists_offending {p : Parser} {ts : List Token} {f : Fault}
    (h : p.feedAll ts = .error f) :
    ∃ before t after q, ts = before ++ t :: after ∧ p.feedAll before = .ok q ∧
      q.feed t = .error f := by
  induction ts generalizing p with
  | nil => cases h
  | cons t ts ih =>
      rw [feedAll_cons] at h
      cases hfeed : p.feed t with
      | error g =>
          rw [hfeed] at h
          cases h
          exact ⟨[], t, ts, p, rfl, rfl, hfeed⟩
      | ok q =>
          rw [hfeed] at h
          obtain ⟨before, u, after, r, rfl, hbefore, hu⟩ := ih h
          refine ⟨t :: before, u, after, r, rfl, ?_, hu⟩
          rw [feedAll_cons, hfeed]
          exact hbefore

/-- Tokens that the parser takes begin a program. -/
theorem beginsProgram_of_feedAll {q : Parser} {tokens : List Token}
    (h : start.feedAll tokens = .ok q) : BeginsProgram tokens := by
  have hlasting : Lasting (start.feedAll tokens) := lasting_feedAll (p := start) trivial tokens
  rw [h] at hlasting
  have haccepts : q.Accepts 1 (q.missing.map (⟨·, 1⟩)) := by
    apply accepts_missing hlasting
    simp [Function.comp_def]
  obtain ⟨statements, hstatements⟩ := haccepts
  refine ⟨q.missing.map (⟨·, 1⟩), 1, statements, ?_⟩
  rw [parse_eq_conclude, conclude_of_feedAll h]
  exact hstatements

theorem not_beginsProgram_of_feed {q : Parser} {before : List Token} {t : Token} {f : Fault}
    (h : start.feedAll before = .ok q) (ht : q.feed t = .error f) :
    ¬ BeginsProgram (before ++ [t]) := by
  rintro ⟨more, last, statements, hparse⟩
  rw [parse_eq_conclude, List.append_assoc, conclude_of_feedAll h] at hparse
  exact not_accepts_of_feed_error ht ⟨statements, hparse⟩

theorem expected_of_finish {p : Parser} {cause : Cause} (h : p.finish = .error cause) :
    cause.expected.length ≤ 5 := by
  have hsoon := tooSoon_of_finish h
  cases cause with
  | endOfInput place => cases place <;> decide
  | unclosedParen => exact Nat.zero_le 5
  | _ => cases hsoon

end Parser

/-- A fault of the parser is told on the last line if the input has ended too soon.
Otherwise it is the fault of the first token that no program has behind the tokens
before it. -/
theorem parse_error_at {l : Lexed} {f : Fault} (h : parse l = .error f) :
    f.stage = .parser ∧ f.cause.expected.length ≤ 5 ∧
      ((f.cause.tooSoon = true ∧ f.line = l.lastLine) ∨
        (f.cause.tooSoon = false ∧ ∃ before t after, l.tokens = before ++ t :: after ∧
          f.Blames t ∧ BeginsProgram before ∧ ¬ BeginsProgram (before ++ [t]))) := by
  rcases parse_error_cases h with ⟨hfeed, hstage, hlate⟩ | ⟨p, -, -, hfinish, hline, hsoon⟩
  · obtain ⟨before, t, after, q, htokens, hbefore, ht⟩ := Parser.exists_offending hfeed
    have hblames : f.Blames t := by
      have hall := Parser.blamesOnly_feed q t
      rwa [ht] at hall
    exact ⟨hstage, hblames.expected, .inr ⟨hlate, before, t, after, htokens, hblames,
      Parser.beginsProgram_of_feedAll hbefore, Parser.not_beginsProgram_of_feed hbefore ht⟩⟩
  · have hexpected := Parser.expected_of_finish hfinish
    have hstage : f.stage = .parser := by
      rcases (tooSoon_iff f).1 hsoon with hend | hopen
      · rw [Fault.stage, hend]
        rfl
      · rw [Fault.stage, Fault.category, hopen]
        rfl
    exact ⟨hstage, hexpected, .inl ⟨hsoon, hline⟩⟩

end Turtle
