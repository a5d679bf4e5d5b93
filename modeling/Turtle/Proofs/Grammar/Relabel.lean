import Turtle.Proofs.Grammar.Sound
import Turtle.Proofs.Token.LineBreak

/-!
The parser and line numbers.

Relabelling the lines of all that a parser holds commutes with everything it
does. Together with the grammar this tells how a source is parsed that is cut
at a line break: as the two parts one after the other, because a statement
that ends the first part is not taken up by a token that begins another.
-/

namespace Turtle

variable (φ : Nat → Nat)

/-! ### Relabelled parsers -/

def Slot.relabel : Slot → Slot
  | .argument line name before => .argument (φ line) name (before.map (Expr.relabel φ))
  | .assigned line name => .assigned (φ line) name
  | .count line => .count (φ line)

def Focus.relabel : Focus → Focus
  | .statement => .statement
  | .procedureName line => .procedureName (φ line)
  | .parameters line name before => .parameters (φ line) name before
  | .assignedName line => .assignedName (φ line)
  | .value slot => .value (slot.relabel φ)
  | .operand slot line o => .operand (slot.relabel φ) (φ line) o
  | .yard slot line y => .yard (slot.relabel φ) (φ line) y
  | .arguments line name before => .arguments (φ line) name (before.map (Expr.relabel φ))
  | .loopOpening line count => .loopOpening (φ line) (count.relabel φ)

def Opened.relabel : Opened → Opened
  | .loop line count => .loop (φ line) (count.relabel φ)
  | .procedure line name parameters => .procedure (φ line) name parameters

theorem Yard.step_relabel (y : Yard) (t : Token) :
    y.step (t.relabel φ) = relabelResult φ id (y.step t) := by
  obtain ⟨l, line⟩ := t
  cases hy : y.expectsOperand with
  | true =>
      simp only [step, hy, if_true]
      cases l with
      | number digits =>
          simp only [stepOperand, Token.relabel, Operand.ofDigits]
          cases Numeral.readInt64? digits <;> rfl
      | _ => rfl
  | false =>
      simp only [step, hy, Bool.false_eq_true, if_false]
      cases l with
      | operator op => rfl
      | rightParen =>
          simp only [stepOperator, Token.relabel]
          cases closeParen y.output y.waiting <;> rfl
      | _ =>
          simp only [stepOperator, Token.relabel]
          split_ifs <;> rfl

namespace Parser

def relabel (p : Parser) : Parser :=
  ⟨p.focus.relabel φ, p.statements.map (Statement.relabel φ),
    p.enclosing.map fun e => (e.1.relabel φ, e.2.map (Statement.relabel φ))⟩

theorem deliver_relabel (p : Parser) (e : Expr) (slot : Slot) :
    (p.relabel φ).deliver (e.relabel φ) (slot.relabel φ) = (p.deliver e slot).relabel φ := by
  cases slot <;> rfl

/-! ### Taking a token -/

theorem feedStatement_relabel (p : Parser) (t : Token) :
    (p.relabel φ).feedStatement (t.relabel φ) =
      relabelResult φ (relabel φ) (p.feedStatement t) := by
  obtain ⟨l, line⟩ := t
  obtain ⟨focus, statements, enclosing⟩ := p
  cases l with
  | rightBracket =>
      match enclosing with
      | [] => rfl
      | (.loop .., before) :: enclosing =>
          simp [feedStatement, relabel, Token.relabel, Opened.relabel, relabelResult, Focus.relabel,
            Statement.relabel]
      | (.procedure .., before) :: enclosing => rfl
  | keyword k =>
      cases k with
      | close =>
          match enclosing with
          | [] => rfl
          | (.loop .., before) :: enclosing => rfl
          | (.procedure .., before) :: enclosing =>
              simp [feedStatement, relabel, Token.relabel, Opened.relabel, relabelResult,
                Focus.relabel, Statement.relabel]
      | loop | make => rfl
      | _ => cases enclosing <;> rfl
  | _ => rfl

theorem beginExpression?_relabel (p : Parser) (slot : Slot) (t : Token) :
    (p.relabel φ).beginExpression? (slot.relabel φ) (t.relabel φ) =
      (p.beginExpression? slot t).map (relabelResult φ (relabel φ)) := by
  obtain ⟨l, line⟩ := t
  cases l with
  | number digits =>
      simp only [beginExpression?, Token.relabel, Operand.ofDigits]
      cases Numeral.readInt64? digits <;> rfl
  | _ => rfl

theorem feedValue_relabel (p : Parser) (slot : Slot) (t : Token) :
    (p.relabel φ).feedValue (slot.relabel φ) (t.relabel φ) =
      relabelResult φ (relabel φ) (p.feedValue slot t) := by
  rw [feedValue, beginExpression?_relabel, feedValue]
  cases p.beginExpression? slot t with
  | some result => rfl
  | none =>
      obtain ⟨l, line⟩ := t
      cases l with
      | word name =>
          have hdeliver := p.deliver_relabel φ ⟨line, .single (.word name)⟩ slot
          exact congrArg Except.ok hdeliver
      | _ => rfl

theorem feedArguments_relabel (p : Parser) (line : Nat) (name : Text) (before : List Expr)
    (t : Token) :
    (p.relabel φ).feedArguments (φ line) name (before.map (Expr.relabel φ)) (t.relabel φ) =
      relabelResult φ (relabel φ) (p.feedArguments line name before t) := by
  have hbegin := p.beginExpression?_relabel φ (.argument line name before) t
  rw [Slot.relabel] at hbegin
  rw [feedArguments, hbegin, feedArguments]
  cases p.beginExpression? (.argument line name before) t with
  | some result => rfl
  | none =>
      have hstatement := (p.complete (.call line name before.reverse)).feedStatement_relabel φ t
      rw [← List.map_reverse]
      exact hstatement

theorem feedLoopOpening_relabel (p : Parser) (line : Nat) (count : Expr) (t : Token) :
    (p.relabel φ).feedLoopOpening (φ line) (count.relabel φ) (t.relabel φ) =
      relabelResult φ (relabel φ) (p.feedLoopOpening line count t) := by
  obtain ⟨l, tline⟩ := t
  cases l <;> rfl

theorem feedDelivered_relabel (p : Parser) (t : Token) :
    (p.relabel φ).feedDelivered (t.relabel φ) =
      relabelResult φ (relabel φ) (p.feedDelivered t) := by
  obtain ⟨focus, statements, enclosing⟩ := p
  cases focus with
  | arguments line name before => exact feedArguments_relabel φ _ line name before t
  | loopOpening line count => exact feedLoopOpening_relabel φ _ line count t
  | _ => exact feedStatement_relabel φ _ t

theorem feed_relabel (p : Parser) (t : Token) :
    (p.relabel φ).feed (t.relabel φ) = relabelResult φ (relabel φ) (p.feed t) := by
  obtain ⟨focus, statements, enclosing⟩ := p
  cases focus with
  | statement => exact feedStatement_relabel φ _ t
  | value slot => exact feedValue_relabel φ _ slot t
  | arguments line name before => exact feedArguments_relabel φ _ line name before t
  | loopOpening line count => exact feedLoopOpening_relabel φ _ line count t
  | procedureName line =>
      obtain ⟨l, tline⟩ := t
      cases l <;> rfl
  | assignedName line =>
      obtain ⟨l, tline⟩ := t
      cases l <;> rfl
  | parameters line name before =>
      -- any token but a variable is taken behind the parameters, in the body
      have henter := feedStatement_relabel φ
        (enter ⟨.parameters line name before, statements, enclosing⟩
          (.procedure line name before.reverse)) t
      obtain ⟨l, tline⟩ := t
      cases l with
      | var parameter => rfl
      | _ => exact henter
  | operand slot line o =>
      have hdelivered := feedDelivered_relabel φ
        (deliver ⟨.operand slot line o, statements, enclosing⟩ ⟨line, .single o⟩ slot) t
      rw [← deliver_relabel] at hdelivered
      obtain ⟨l, tline⟩ := t
      cases l with
      | operator op => rfl
      | _ => exact hdelivered
  | yard slot line y =>
      have hdelivered := feedDelivered_relabel φ
        (deliver ⟨.yard slot line y, statements, enclosing⟩ ⟨line, .sequence y.items⟩ slot) t
      rw [← deliver_relabel] at hdelivered
      simp only [feed, relabel, Focus.relabel, Yard.step_relabel]
      cases y.step t with
      | error f => rfl
      | ok r =>
          cases r with
          | some y' => rfl
          | none => exact hdelivered

theorem feedAll_relabel (p : Parser) (ts : List Token) :
    (p.relabel φ).feedAll (ts.map (Token.relabel φ)) =
      relabelResult φ (relabel φ) (p.feedAll ts) := by
  induction ts generalizing p with
  | nil => rfl
  | cons t ts ih =>
      rw [List.map_cons, feedAll_cons, feedAll_cons, feed_relabel]
      cases p.feed t with
      | error f => rfl
      | ok q => exact ih q

/-! ### The end of the input -/

theorem finishStatements_relabel (p : Parser) :
    (p.relabel φ).finishStatements =
      p.finishStatements.map (List.map (Statement.relabel φ)) := by
  obtain ⟨focus, statements, enclosing⟩ := p
  match enclosing with
  | [] => simp [finishStatements, relabel, Except.map]
  | (.loop .., before) :: enclosing => rfl
  | (.procedure .., before) :: enclosing => rfl

theorem finishDelivered_relabel (p : Parser) :
    (p.relabel φ).finishDelivered = p.finishDelivered.map (List.map (Statement.relabel φ)) := by
  obtain ⟨focus, statements, enclosing⟩ := p
  cases focus with
  | arguments line name before =>
      have hcall := finishStatements_relabel φ
        (complete ⟨.arguments line name before, statements, enclosing⟩
          (.call line name before.reverse))
      show ((relabel φ ⟨.arguments line name before, statements, enclosing⟩).complete
        (.call (φ line) name (before.map (Expr.relabel φ)).reverse)).finishStatements = _
      rw [← List.map_reverse]
      exact hcall
  | loopOpening line count => rfl
  | _ => exact finishStatements_relabel φ _

theorem finish_relabel (p : Parser) :
    (p.relabel φ).finish = p.finish.map (List.map (Statement.relabel φ)) := by
  obtain ⟨focus, statements, enclosing⟩ := p
  cases focus with
  | statement => exact finishStatements_relabel φ _
  | arguments line name before =>
      exact finishDelivered_relabel φ ⟨.arguments line name before, statements, enclosing⟩
  | parameters line name before =>
      exact finishStatements_relabel φ
        (enter ⟨.parameters line name before, statements, enclosing⟩
          (.procedure line name before.reverse))
  | operand slot line o =>
      have hdelivered := finishDelivered_relabel φ
        (deliver ⟨.operand slot line o, statements, enclosing⟩ ⟨line, .single o⟩ slot)
      rw [← deliver_relabel] at hdelivered
      exact hdelivered
  | yard slot line y =>
      have hdelivered := finishDelivered_relabel φ
        (deliver ⟨.yard slot line y, statements, enclosing⟩ ⟨line, .sequence y.items⟩ slot)
      rw [← deliver_relabel] at hdelivered
      simp only [finish, relabel, Focus.relabel]
      split_ifs
      · rfl
      · rfl
      · exact hdelivered
  | _ => rfl

end Parser

theorem parse_relabel (l : Lexed) :
    parse (l.relabel φ) = relabelResult φ (List.map (Statement.relabel φ)) (parse l) := by
  have hfeed : Parser.start.feedAll (l.relabel φ).tokens =
      relabelResult φ (Parser.relabel φ) (Parser.start.feedAll l.tokens) :=
    Parser.feedAll_relabel φ Parser.start l.tokens
  rw [parse, hfeed, parse]
  cases Parser.start.feedAll l.tokens with
  | error f => rfl
  | ok p =>
      simp only [relabelResult, Parser.finish_relabel]
      cases p.finish <;> rfl

/-! ### Parsing line by line -/

/-- Statements are never continued by what stands behind them. -/
theorem parse_append {l l' : Lexed} {ss ss' : List Statement} (h : parse l = .ok ss)
    (h' : parse l' = .ok ss') : parse (l.append l') = .ok (ss ++ ss') := by
  obtain ⟨d, hd, rfl⟩ := exists_derivation_of_parse h
  obtain ⟨d', hd', rfl⟩ := exists_derivation_of_parse h'
  have htokens : Derivation.tokens (d ++ d') = (l.append l').tokens := by
    rw [Derivation.tokens, List.flatMap_append]
    exact congrArg₂ (· ++ ·) hd hd'
  rw [parse_of_derivation htokens, Derivation.statements, List.map_append]
  rfl

/-- A source that is cut at a line break is parsed like its two parts, with
the lines of the second counted on. -/
theorem parseSource_append_newline {a b : Text} {sa sb : List Statement}
    (ha : parseSource a = .ok sa) (hb : parseSource b = .ok sb) :
    parseSource (a ++ Text.newline :: b) =
      .ok (sa ++ sb.map (Statement.relabel (· + (a.newlines + 1)))) := by
  rw [parseSource] at ha hb
  rw [parseSource, lex_append_newline]
  cases hla : lex a with
  | error f => simp [hla] at ha
  | ok la =>
      cases hlb : lex b with
      | error f => simp [hlb] at hb
      | ok lb =>
          simp only [hla] at ha
          simp only [hlb] at hb
          have hshifted : parse (lb.relabel (· + la.lastLine)) =
              .ok (sb.map (Statement.relabel (· + la.lastLine))) := by
            rw [parse_relabel, hb]
            rfl
          have hparse := parse_append ha hshifted
          rw [lastLine_of_lex hla] at hparse
          simp only [relabelResult, lastLine_of_lex hla]
          exact hparse

end Turtle
