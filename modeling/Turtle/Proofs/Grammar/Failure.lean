import Turtle.Proofs.Grammar.Completion
import Turtle.Proofs.Grammar.Relabel

/-!
Faults that more input can mend.

Taking a token, the parser either goes on to a state that can be completed, or
fails with a fault that no later token can mend, as none is looked at. What
the end of the input is blamed for is that it comes too soon, and these faults
are told from the others by their cause. So the fault of a source tells
whether more lines can make it a program.
-/

namespace Turtle

/-- The input has ended too soon: inside of a construct, or with a parenthesis
left open. -/
def Cause.tooSoon : Cause → Bool
  | .endOfInput _ | .unclosedParen => true
  | _ => false

theorem tooSoon_iff (f : Fault) :
    f.cause.tooSoon = true ↔ f.category = .endOfInput ∨ f.cause = .unclosedParen := by
  obtain ⟨line, cause⟩ := f
  cases cause <;> simp [Cause.tooSoon, Fault.category, Cause.category]

namespace Parser

/-! ### Taking a token -/

/-- What taking tokens ends in: a parser that can be completed, or a fault that
no later token can mend. -/
def Lasting : Except Fault Parser → Prop
  | .ok p => p.focus.Counted
  | .error f => f.stage = .parser ∧ f.cause.tooSoon = false

theorem lasting_feedStatement (p : Parser) (t : Token) : Lasting (p.feedStatement t) := by
  obtain ⟨l, line⟩ := t
  obtain ⟨focus, statements, enclosing⟩ := p
  cases l with
  | identifier name => trivial
  | rightBracket =>
      match enclosing with
      | [] => exact ⟨rfl, rfl⟩
      | (.loop .., before) :: enclosing => trivial
      | (.procedure .., before) :: enclosing => exact ⟨rfl, rfl⟩
  | keyword k =>
      cases k with
      | loop | make => trivial
      | close =>
          match enclosing with
          | [] => exact ⟨rfl, rfl⟩
          | (.loop .., before) :: enclosing => exact ⟨rfl, rfl⟩
          | (.procedure .., before) :: enclosing => trivial
      | _ =>
          cases enclosing with
          | nil => trivial
          | cons e enclosing => exact ⟨rfl, rfl⟩
  | _ => exact ⟨rfl, rfl⟩

theorem lasting_beginExpression? {p : Parser} {slot : Slot} {t : Token}
    {r : Except Fault Parser} (h : p.beginExpression? slot t = some r) : Lasting r := by
  obtain ⟨l, line⟩ := t
  cases l with
  | number digits =>
      simp only [beginExpression?, Operand.ofDigits, Option.some.injEq] at h
      subst h
      cases Numeral.readInt64? digits with
      | some n => trivial
      | none => exact ⟨rfl, rfl⟩
  | var name =>
      cases h
      trivial
  | leftParen =>
      cases h
      exact Yard.counted_afterParen
  | _ => cases h

theorem lasting_deliver (p : Parser) (e : Expr) (slot : Slot) :
    (p.deliver e slot).focus.Counted := by
  cases slot <;> trivial

theorem lasting_feedValue (p : Parser) (slot : Slot) (t : Token) :
    Lasting (p.feedValue slot t) := by
  rw [feedValue]
  cases hbegin : p.beginExpression? slot t with
  | some r => exact lasting_beginExpression? hbegin
  | none =>
      obtain ⟨l, line⟩ := t
      cases l with
      | word name => exact lasting_deliver p _ slot
      | _ => exact ⟨rfl, rfl⟩

theorem lasting_feedArguments (p : Parser) (line : Nat) (name : Text) (before : List Expr)
    (t : Token) : Lasting (p.feedArguments line name before t) := by
  rw [feedArguments]
  cases hbegin : p.beginExpression? (.argument line name before) t with
  | some r => exact lasting_beginExpression? hbegin
  | none => exact lasting_feedStatement _ t

theorem lasting_feedLoopOpening (p : Parser) (line : Nat) (count : Expr) (t : Token) :
    Lasting (p.feedLoopOpening line count t) := by
  obtain ⟨l, opening⟩ := t
  cases l with
  | leftBracket => trivial
  | _ => exact ⟨rfl, rfl⟩

theorem lasting_feedDelivered (p : Parser) (t : Token) : Lasting (p.feedDelivered t) := by
  rw [feedDelivered]
  split
  · exact lasting_feedArguments ..
  · exact lasting_feedLoopOpening ..
  · exact lasting_feedStatement p t

theorem lasting_step_error {y : Yard} {t : Token} {f : Fault} (h : y.step t = .error f) :
    f.stage = .parser ∧ f.cause.tooSoon = false := by
  obtain ⟨l, line⟩ := t
  rw [Yard.step] at h
  split_ifs at h
  · cases l with
    | number digits =>
        simp only [Yard.stepOperand, Operand.ofDigits] at h
        cases hread : Numeral.readInt64? digits with
        | some n =>
            rw [hread] at h
            cases h
        | none =>
            rw [hread] at h
            cases h
            exact ⟨rfl, rfl⟩
    | var | word | leftParen => cases h
    | _ =>
        cases h
        exact ⟨rfl, rfl⟩
  · cases l with
    | operator op => cases h
    | rightParen =>
        simp only [Yard.stepOperator] at h
        cases hclose : Yard.closeParen y.output y.waiting with
        | some r => simp [hclose] at h
        | none =>
            simp only [hclose] at h
            cases h
            exact ⟨rfl, rfl⟩
    | _ =>
        simp only [Yard.stepOperator] at h
        split_ifs at h
        cases h
        exact ⟨rfl, rfl⟩

theorem lasting_feed {p : Parser} (hp : p.focus.Counted) (t : Token) : Lasting (p.feed t) := by
  obtain ⟨focus, statements, enclosing⟩ := p
  cases focus with
  | statement => exact lasting_feedStatement _ t
  | value slot => exact lasting_feedValue _ slot t
  | arguments line name before => exact lasting_feedArguments _ line name before t
  | loopOpening line count => exact lasting_feedLoopOpening _ line count t
  | procedureName line =>
      obtain ⟨l, tline⟩ := t
      cases l with
      | identifier name => trivial
      | _ => exact ⟨rfl, rfl⟩
  | assignedName line =>
      obtain ⟨l, tline⟩ := t
      cases l with
      | word name => trivial
      | _ => exact ⟨rfl, rfl⟩
  | parameters line name before =>
      have hbody := lasting_feedStatement
        (enter ⟨.parameters line name before, statements, enclosing⟩
          (.procedure line name before.reverse)) t
      obtain ⟨l, tline⟩ := t
      cases l with
      | var parameter => trivial
      | _ => exact hbody
  | operand slot line o =>
      have hdelivered := lasting_feedDelivered
        (deliver ⟨.operand slot line o, statements, enclosing⟩ ⟨line, .single o⟩ slot) t
      obtain ⟨l, tline⟩ := t
      cases l with
      | operator op => exact Yard.counted_pushOperator (Yard.counted_afterOperand o) op
      | _ => exact hdelivered
  | yard slot line y =>
      simp only [feed]
      cases hstep : y.step t with
      | error f => exact lasting_step_error hstep
      | ok r =>
          cases r with
          | some y' => exact Yard.Counted.step hp hstep
          | none => exact lasting_feedDelivered _ t

theorem lasting_feedAll {p : Parser} (hp : p.focus.Counted) (ts : List Token) :
    Lasting (p.feedAll ts) := by
  induction ts generalizing p with
  | nil => exact hp
  | cons t ts ih =>
      have hfeed : Lasting (p.feed t) := lasting_feed hp t
      rw [feedAll_cons]
      cases hq : p.feed t with
      | error f =>
          rw [hq] at hfeed
          exact hfeed
      | ok q =>
          rw [hq] at hfeed
          exact ih hfeed

/-! ### The end of the input -/

theorem tooSoon_of_finishStatements {p : Parser} {cause : Cause}
    (h : p.finishStatements = .error cause) : cause.tooSoon = true := by
  obtain ⟨focus, statements, enclosing⟩ := p
  match enclosing with
  | [] => cases h
  | (.loop .., before) :: enclosing =>
      cases h
      rfl
  | (.procedure .., before) :: enclosing =>
      cases h
      rfl

theorem tooSoon_of_finishDelivered {p : Parser} {cause : Cause}
    (h : p.finishDelivered = .error cause) : cause.tooSoon = true := by
  rw [finishDelivered] at h
  split at h
  · exact tooSoon_of_finishStatements h
  · cases h
    rfl
  · exact tooSoon_of_finishStatements h

/-- What the end of the input is blamed for is that it comes too soon. -/
theorem tooSoon_of_finish {p : Parser} {cause : Cause} (h : p.finish = .error cause) :
    cause.tooSoon = true := by
  rw [finish] at h
  split at h
  · exact tooSoon_of_finishStatements h
  · cases h
    rfl
  · exact tooSoon_of_finishStatements h
  · cases h
    rfl
  · cases h
    rfl
  · exact tooSoon_of_finishDelivered h
  · split_ifs at h
    · cases h
      rfl
    · cases h
      rfl
    · exact tooSoon_of_finishDelivered h
  · exact tooSoon_of_finishDelivered h
  · exact tooSoon_of_finishDelivered h

end Parser

/-! ### Sources -/

/-- The fault of a parse is found at a token or at the end. -/
theorem parse_error_cases {l : Lexed} {f : Fault} (h : parse l = .error f) :
    (Parser.start.feedAll l.tokens = .error f ∧ f.stage = .parser ∧ f.cause.tooSoon = false) ∨
      ∃ p, Parser.start.feedAll l.tokens = .ok p ∧ p.focus.Counted ∧
        p.finish = .error f.cause ∧ f.line = l.lastLine ∧ f.cause.tooSoon = true := by
  have hlasting : Parser.Lasting (Parser.start.feedAll l.tokens) :=
    Parser.lasting_feedAll (p := .start) trivial l.tokens
  rw [parse] at h
  cases hfeed : Parser.start.feedAll l.tokens with
  | error g =>
      rw [hfeed] at h hlasting
      cases h
      exact .inl ⟨rfl, hlasting⟩
  | ok p =>
      rw [hfeed] at h hlasting
      cases hfinish : p.finish with
      | ok ss => simp [hfinish] at h
      | error cause =>
          simp only [hfinish] at h
          cases h
          exact .inr ⟨p, rfl, hlasting, hfinish, rfl, Parser.tooSoon_of_finish hfinish⟩

theorem parse_append_of_feedAll {l : Lexed} {p : Parser}
    (h : Parser.start.feedAll l.tokens = .ok p) (l' : Lexed) :
    parse (l.append l') = p.conclude l'.lastLine l'.tokens := by
  rw [Parser.parse_eq_conclude]
  exact Parser.conclude_of_feedAll h l'.tokens

theorem parse_append_of_feedAll_error {l : Lexed} {f : Fault}
    (h : Parser.start.feedAll l.tokens = .error f) (l' : Lexed) :
    parse (l.append l') = .error f := by
  rw [parse, Lexed.append, Parser.feedAll_append, h]
  rfl

theorem parseSource_of_lex {s : Text} {l : Lexed} (h : lex s = .ok l) :
    parseSource s = parse l := by
  rw [parseSource, h]

theorem lex_append_newline_of_lex {s t : Text} {l l' : Lexed} (hs : lex s = .ok l)
    (ht : lex t = .ok l') :
    lex (s ++ Text.newline :: t) = .ok (l.append (l'.relabel (· + l.lastLine))) := by
  rw [lex_append_newline, hs, ht]
  rfl

variable {s : Text} {f : Fault}

theorem tooSoon_of_lex_error (h : lex s = .error f) : f.cause.tooSoon = false := by
  obtain ⟨b, hb⟩ := cause_of_lex_error h
  rw [hb]
  rfl

/-- What the lexer or the parser refuses is not blamed on a run. -/
theorem stage_of_parseSource_error (h : parseSource s = .error f) : f.stage ≠ .runtime := by
  cases hlex : lex s with
  | error g =>
      rw [parseSource, hlex] at h
      cases h
      obtain ⟨b, hb⟩ := cause_of_lex_error hlex
      simp [Fault.stage, Fault.category, hb, Cause.category, Category.stage]
  | ok l =>
      rw [parseSource_of_lex hlex] at h
      rcases parse_error_cases h with ⟨-, hstage, -⟩ | ⟨p, -, -, -, -, hsoon⟩
      · simp [hstage]
      · rcases (tooSoon_iff f).1 hsoon with hend | hopen
        · simp [Fault.stage, hend, Category.stage]
        · simp [Fault.stage, Fault.category, hopen, Cause.category, Category.stage]

/-- A source that has ended too soon can be completed. -/
theorem exists_completion (h : parseSource s = .error f) (hf : f.cause.tooSoon = true) :
    ∃ t ss, parseSource (s ++ Text.newline :: t) = .ok ss := by
  cases hlex : lex s with
  | error g =>
      rw [parseSource, hlex] at h
      cases h
      rw [tooSoon_of_lex_error hlex] at hf
      cases hf
  | ok l =>
      rw [parseSource_of_lex hlex] at h
      rcases parse_error_cases h with ⟨-, -, hlate⟩ | ⟨p, hfeed, hcounted, -⟩
      · rw [hf] at hlate
        cases hlate
      · have hmissing := lex_spaced p.wellFormed_missing
        have haccepts : p.Accepts (1 + l.lastLine)
            ((p.missing.map (⟨·, 1⟩)).map (Token.relabel (· + l.lastLine))) := by
          apply Parser.accepts_missing hcounted
          simp [Token.relabel, Function.comp_def]
        obtain ⟨ss, hss⟩ := haccepts
        refine ⟨spaced p.missing, ss, ?_⟩
        rw [parseSource_of_lex (lex_append_newline_of_lex hlex hmissing),
          parse_append_of_feedAll hfeed]
        exact hss

/-- Any other fault stays, as long as the lexer does not fail behind it. -/
theorem parseSource_append_of_error (h : parseSource s = .error f)
    (hf : f.cause.tooSoon = false) (t : Text)
    (hlexes : f.stage = .parser → ∃ l, lex (s ++ Text.newline :: t) = .ok l) :
    parseSource (s ++ Text.newline :: t) = .error f := by
  cases hlex : lex s with
  | error g =>
      rw [parseSource, hlex] at h
      cases h
      rw [parseSource, lex_append_newline, hlex]
  | ok l =>
      rw [parseSource_of_lex hlex] at h
      rcases parse_error_cases h with ⟨hfeed, hstage, -⟩ | ⟨p, -, -, -, -, hsoon⟩
      · obtain ⟨whole, hwhole⟩ := hlexes hstage
        cases ht : lex t with
        | error g =>
            rw [lex_append_newline, hlex, ht] at hwhole
            cases hwhole
        | ok l' =>
            rw [parseSource_of_lex (lex_append_newline_of_lex hlex ht),
              parse_append_of_feedAll_error hfeed]
      · rw [hf] at hsoon
        cases hsoon

/-- More lines can complete a source only if it has ended too soon. -/
theorem completable_iff (h : parseSource s = .error f) :
    (∃ t ss, parseSource (s ++ Text.newline :: t) = .ok ss) ↔ f.cause.tooSoon = true := by
  constructor
  · rintro ⟨t, ss, hparse⟩
    by_contra hlate
    have hlexes : f.stage = .parser → ∃ l, lex (s ++ Text.newline :: t) = .ok l := by
      intro _
      cases hlex : lex (s ++ Text.newline :: t) with
      | ok l => exact ⟨l, rfl⟩
      | error g =>
          rw [parseSource, hlex] at hparse
          cases hparse
    have herror := parseSource_append_of_error h (Bool.not_eq_true _ ▸ hlate) t hlexes
    rw [herror] at hparse
    cases hparse
  · exact exists_completion h

/-- A line break at the end changes nothing but the line of a fault. -/
theorem parseSource_append_newline_cases (s : Text) :
    (∃ ss, parseSource (s ++ [Text.newline]) = .ok ss ∧ parseSource s = .ok ss) ∨
      ∃ f g, parseSource (s ++ [Text.newline]) = .error f ∧ parseSource s = .error g ∧
        g.cause = f.cause := by
  cases hlex : lex s with
  | error g =>
      refine .inr ⟨g, g, ?_, ?_, rfl⟩
      · rw [parseSource, lex_append_newline, hlex]
      · rw [parseSource, hlex]
  | ok l =>
      have hnil : lex [] = .ok ⟨[], 1⟩ := Lexer.lexFrom_nil 1 false []
      rw [parseSource_of_lex (lex_append_newline_of_lex hlex hnil), parseSource_of_lex hlex]
      cases hfeed : Parser.start.feedAll l.tokens with
      | error g =>
          rw [parse_append_of_feedAll_error hfeed, parse, hfeed]
          exact .inr ⟨g, g, rfl, rfl, rfl⟩
      | ok p =>
          rw [parse_append_of_feedAll hfeed, parse, hfeed]
          change (∃ ss, p.finish.mapError _ = _ ∧ _) ∨ ∃ f g, p.finish.mapError _ = _ ∧ _
          cases hfinish : p.finish with
          | ok ss => exact .inl ⟨ss, rfl, by simp only [hfinish]⟩
          | error cause => exact .inr ⟨_, ⟨l.lastLine, cause⟩, rfl, by simp only [hfinish], rfl⟩

theorem parseSource_of_append_newline {ss : List Statement}
    (h : parseSource (s ++ [Text.newline]) = .ok ss) : parseSource s = .ok ss := by
  rcases parseSource_append_newline_cases s with ⟨ss', hline, hparse⟩ | ⟨f, g, hline, -, -⟩
  · rw [hline] at h
    cases h
    exact hparse
  · rw [hline] at h
    cases h

theorem cause_of_append_newline (h : parseSource (s ++ [Text.newline]) = .error f) :
    ∃ g, parseSource s = .error g ∧ g.cause = f.cause := by
  rcases parseSource_append_newline_cases s with ⟨ss, hline, -⟩ | ⟨f', g, hline, hparse, hcause⟩
  · rw [hline] at h
    cases h
  · rw [hline] at h
    cases h
    exact ⟨g, hparse, hcause⟩

/-- A fault that says that the input has ended too soon can be mended by more
lines, and any other fault cannot: it is the fault of every source that goes
on with more lines, unless the lexer fails in these. -/
theorem parse_failure_completable_or_permanent (h : parseSource s = .error f) :
    (f.category = .endOfInput ∨ f.cause = .unclosedParen →
        ∃ t ss, parseSource (s ++ Text.newline :: t) = .ok ss) ∧
      (¬ (f.category = .endOfInput ∨ f.cause = .unclosedParen) →
        ∀ t, (f.stage = .parser → ∃ l, lex (s ++ Text.newline :: t) = .ok l) →
          parseSource (s ++ Text.newline :: t) = .error f) := by
  constructor
  · intro hsoon
    exact exists_completion h ((tooSoon_iff f).2 hsoon)
  · intro hlate t hlexes
    have htooSoon : f.cause.tooSoon = false := by
      rw [← Bool.not_eq_true, tooSoon_iff]
      exact hlate
    exact parseSource_append_of_error h htooSoon t hlexes

/-- In both texts the body of a loop is open. In the first a parenthesis is
open as well, and more lines can close both; in the second one is closed that
was never opened, and closing the body does not mend this. -/
theorem parse_failure_completable_or_permanent_open :
    let a := ascii "to f :n\nrepeat :n [ fd (1 + :n"
    let b := ascii "repeat 2 [\nfd 1 + :n)"
    (parseSource a = .error ⟨2, .unclosedParen⟩ ∧ parseSource b = .error ⟨2, .unmatchedParen⟩) ∧
      (∃ t ss, parseSource (a ++ Text.newline :: t) = .ok ss) ∧
      parseSource (b ++ Text.newline :: ascii "]") = .error ⟨2, .unmatchedParen⟩ := by
  intro a b
  have ha : parseSource a = .error ⟨2, .unclosedParen⟩ := by
    have hlex : lex a = .ok ⟨[⟨.keyword .to, 1⟩, ⟨.identifier (ascii "f"), 1⟩,
        ⟨.var (ascii "n"), 1⟩, ⟨.keyword .loop, 2⟩, ⟨.var (ascii "n"), 2⟩, ⟨.leftBracket, 2⟩,
        ⟨.identifier (ascii "fd"), 2⟩, ⟨.leftParen, 2⟩, ⟨.number (ascii "1"), 2⟩,
        ⟨.operator .add, 2⟩, ⟨.var (ascii "n"), 2⟩], 2⟩ := by
      decide +kernel
    rw [parseSource, hlex]
    rfl
  have hb : parseSource b = .error ⟨2, .unmatchedParen⟩ := by
    have hlex : lex b = .ok ⟨[⟨.keyword .loop, 1⟩, ⟨.number (ascii "2"), 1⟩, ⟨.leftBracket, 1⟩,
        ⟨.identifier (ascii "fd"), 2⟩, ⟨.number (ascii "1"), 2⟩, ⟨.operator .add, 2⟩,
        ⟨.var (ascii "n"), 2⟩, ⟨.rightParen, 2⟩], 2⟩ := by
      decide +kernel
    rw [parseSource, hlex]
    rfl
  have hlexes : ∃ l, lex (b ++ Text.newline :: ascii "]") = .ok l := by
    have hlex : lex (b ++ Text.newline :: ascii "]") = .ok ⟨[⟨.keyword .loop, 1⟩,
        ⟨.number (ascii "2"), 1⟩, ⟨.leftBracket, 1⟩, ⟨.identifier (ascii "fd"), 2⟩,
        ⟨.number (ascii "1"), 2⟩, ⟨.operator .add, 2⟩, ⟨.var (ascii "n"), 2⟩, ⟨.rightParen, 2⟩,
        ⟨.rightBracket, 3⟩], 3⟩ := by
      decide +kernel
    exact ⟨_, hlex⟩
  refine ⟨⟨ha, hb⟩, ?_, ?_⟩
  · exact (parse_failure_completable_or_permanent ha).1 (.inr rfl)
  · have hlate : ¬ ((Fault.mk 2 .unmatchedParen).category = .endOfInput ∨
        (Fault.mk 2 .unmatchedParen).cause = .unclosedParen) := by
      decide
    exact (parse_failure_completable_or_permanent hb).2 hlate _ fun _ => hlexes

end Turtle
