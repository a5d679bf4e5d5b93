import Turtle.Proofs.Grammar.Unique

/-!
The parser accepts what the grammar derives.

`Parser.conclude` runs a parser over the rest of the tokens and the end of the
input. For each rule there is one equation: reading the tokens of a phrase and
then the rest is reading the rest with the phrase's statement complete. The
only side condition is that the rest does not go on with the phrase. So the
equations chain, and hold as well where the rest ends in a fault.
-/

namespace Turtle

namespace Parser

/-- Takes the tokens and then the end of the input, on the given last line. -/
def conclude (p : Parser) (last : Nat) (tokens : List Token) : Except Fault (List Statement) :=
  match p.feedAll tokens with
  | .error f => .error f
  | .ok q => q.finish.mapError (Fault.mk last)

theorem parse_eq_conclude (l : Lexed) : parse l = Parser.start.conclude l.lastLine l.tokens := by
  rw [parse, conclude]
  cases Parser.start.feedAll l.tokens with
  | error f => rfl
  | ok p => cases hfinish : p.finish <;> simp [hfinish, Except.mapError]

variable {p q : Parser} {last : Nat}

theorem conclude_nil (p : Parser) (last : Nat) :
    p.conclude last [] = p.finish.mapError (Fault.mk last) := rfl

theorem conclude_of_feedAll {ts : List Token} (h : p.feedAll ts = .ok q) (rest : List Token) :
    p.conclude last (ts ++ rest) = q.conclude last rest := by
  rw [conclude, feedAll_append, h]
  rfl

theorem conclude_of_feed {t : Token} (h : p.feed t = .ok q) (rest : List Token) :
    p.conclude last (t :: rest) = q.conclude last rest := by
  rw [conclude, feedAll_cons_ok h]
  rfl

theorem conclude_of_feed_error {t : Token} {f : Fault} (h : p.feed t = .error f)
    (rest : List Token) : p.conclude last (t :: rest) = .error f := by
  rw [conclude, feedAll_cons, h]
  rfl

/-- Parsers that take the next token alike, or the end of the input alike,
conclude alike. -/
theorem conclude_congr {rest : List Token} (hfeed : ∀ t ∈ rest.head?, p.feed t = q.feed t)
    (hfinish : rest = [] → p.finish = q.finish) : p.conclude last rest = q.conclude last rest := by
  cases rest with
  | nil => rw [conclude_nil, conclude_nil, hfinish rfl]
  | cons t rest =>
      rw [conclude, conclude, feedAll_cons, feedAll_cons, hfeed t (by simp)]

/-! ### Expressions -/

theorem conclude_await (p : Parser) (slot : Slot) (a : Argument) {rest : List Token}
    (hrest : EndsExpression rest) :
    (p.await slot).conclude last (a.tokens ++ rest) =
      (p.deliver a.expr slot).conclude last rest := by
  obtain ⟨q, hq, hholds⟩ := p.exists_holds slot a.grouped a.notWord
  rw [Argument.tokens, conclude_of_feedAll hq]
  exact conclude_congr (fun t ht => hholds.feed t (hrest t ht)) fun _ => hholds.finish

/-- A slot for a whole value, in which a quoted word may stand. -/
def TakesValue : Slot → Prop
  | .argument .. => False
  | _ => True

theorem conclude_value (p : Parser) (slot : Slot) (hslot : TakesValue slot) (v : Value)
    {rest : List Token} (hrest : EndsExpression rest) :
    (p.look (.value slot)).conclude last (v.tokens ++ rest) =
      (p.deliver v.expr slot).conclude last rest := by
  have hawait : p.await slot = p.look (.value slot) := by
    cases slot with
    | argument => exact hslot.elim
    | _ => rfl
  cases v with
  | argument a => exact hawait ▸ conclude_await p slot a hrest
  | word line name =>
      have hfeed : (p.look (.value slot)).feed ⟨.word name, line⟩ =
          .ok (p.deliver ⟨line, .single (.word name)⟩ slot) := by
        rw [← deliver_look p (.value slot)]
        rfl
      exact conclude_of_feed hfeed rest

theorem conclude_arguments (p : Parser) (line : Nat) (name : Text) (before : List Expr)
    (arguments : List Argument) {rest : List Token} (hrest : Boundary rest) :
    (p.look (.arguments line name before)).conclude last
        (arguments.flatMap Argument.tokens ++ rest) =
      (p.look (.arguments line name ((arguments.map Argument.expr).reverse ++ before))).conclude
        last rest := by
  induction arguments generalizing before with
  | nil => rfl
  | cons a arguments ih =>
      rw [List.flatMap_cons, List.append_assoc]
      refine (conclude_await p (.argument line name before) a
        (endsExpression_arguments arguments hrest)).trans ?_
      rw [deliver, ih]
      simp

/-- A call is over where no argument follows. -/
theorem conclude_endCall (p : Parser) (line : Nat) (name : Text) (before : List Expr)
    {rest : List Token} (hrest : NoArgument rest) :
    (p.look (.arguments line name before)).conclude last rest =
      (p.complete (.call line name before.reverse)).conclude last rest := by
  refine conclude_congr (fun t ht => ?_) fun _ => rfl
  have hends := hrest t ht
  obtain ⟨l, tline⟩ := t
  cases l <;> first | rfl | cases hends

/-! ### Phrases and bodies -/

/-- The parser at the beginning of a statement. -/
def between (statements : List Statement) (enclosing : List (Opened × List Statement)) : Parser :=
  ⟨.statement, statements, enclosing⟩

theorem feed_closeLoop (statements before : List Statement)
    (enclosing : List (Opened × List Statement)) (line closing : Nat) (count : Expr) :
    (between statements ((.loop line count, before) :: enclosing)).feed ⟨.rightBracket, closing⟩ =
      .ok (between (.loop line count statements.reverse :: before) enclosing) := rfl

theorem feed_closeProcedure (statements before : List Statement) (line closing : Nat) (name : Text)
    (parameters : List Text) :
    (between statements [(.procedure line name parameters, before)]).feed
        ⟨.keyword .close, closing⟩ =
      .ok (between (.procedure line name parameters statements.reverse :: before) []) := rfl

theorem conclude_call (statements : List Statement) (enclosing : List (Opened × List Statement))
    (line : Nat) (name : Text) (arguments : List Argument) {rest : List Token}
    (hrest : Boundary rest) :
    (between statements enclosing).conclude last
        ((Phrase.call line name arguments).tokens ++ rest) =
      (between (.call line name (arguments.map Argument.expr) :: statements) enclosing).conclude
        last rest := by
  rw [Phrase.tokens, List.cons_append, conclude_of_feed rfl]
  refine (conclude_arguments _ line name [] arguments hrest).trans ?_
  rw [conclude_endCall _ line name _ hrest.noArgument, List.append_nil, List.reverse_reverse]
  rfl

theorem conclude_assign (statements : List Statement) (enclosing : List (Opened × List Statement))
    (line nameLine : Nat) (name : Text) (v : Value) {rest : List Token} (hrest : Boundary rest) :
    (between statements enclosing).conclude last
        ((Phrase.assign line nameLine name v).tokens ++ rest) =
      (between (.assign line name v.expr :: statements) enclosing).conclude last rest := by
  rw [Phrase.tokens, List.cons_append, List.cons_append, conclude_of_feed rfl, conclude_of_feed rfl]
  exact conclude_value (between statements enclosing) (.assigned line name) trivial v
    hrest.endsExpression

/-- The tokens that open a loop lead into its body. -/
theorem conclude_openLoop (statements : List Statement)
    (enclosing : List (Opened × List Statement)) (line : Nat) (count : Value) (opening : Nat)
    (rest : List Token) :
    (between statements enclosing).conclude last
        (⟨.keyword .loop, line⟩ :: (count.tokens ++ ⟨.leftBracket, opening⟩ :: rest)) =
      (between [] ((.loop line count.expr, statements) :: enclosing)).conclude last rest := by
  have hbracket : EndsExpression (⟨.leftBracket, opening⟩ :: rest) := by
    simp [EndsExpression, Lexeme.continues]
  rw [conclude_of_feed rfl]
  refine (conclude_value (between statements enclosing) (.count line) trivial count
    hbracket).trans ?_
  exact conclude_of_feed rfl rest

mutual

theorem conclude_phrase (ph : Phrase) (statements : List Statement)
    (enclosing : List (Opened × List Statement)) {rest : List Token} (hrest : Boundary rest) :
    (between statements enclosing).conclude last (ph.tokens ++ rest) =
      (between (ph.statement :: statements) enclosing).conclude last rest := by
  match ph with
  | .call line name arguments =>
      exact conclude_call statements enclosing line name arguments hrest
  | .assign line nameLine name v =>
      exact conclude_assign statements enclosing line nameLine name v hrest
  | .loop line count opening body closing =>
      simp only [Phrase.tokens, List.cons_append, List.append_assoc, List.nil_append]
      rw [conclude_openLoop, conclude_body body _ _ (boundary_cons rfl _),
        conclude_of_feed (feed_closeLoop ..), List.append_nil, List.reverse_reverse]
      rfl

theorem conclude_body (ps : List Phrase) (statements : List Statement)
    (enclosing : List (Opened × List Statement)) {rest : List Token} (hrest : Boundary rest) :
    (between statements enclosing).conclude last (bodyTokens ps ++ rest) =
      (between ((bodyStatements ps).reverse ++ statements) enclosing).conclude last rest := by
  match ps with
  | [] => rfl
  | ph :: ps =>
      rw [bodyTokens, List.append_assoc, conclude_phrase ph _ _ (boundary_bodyTokens ps hrest),
        conclude_body ps _ _ hrest]
      simp [bodyStatements]

end

/-! ### Programs -/

theorem conclude_parameters (p : Parser) (line : Nat) (name : Text) (before : List Text)
    (ps : List Parameter) (rest : List Token) :
    (p.look (.parameters line name before)).conclude last (ps.map Parameter.token ++ rest) =
      (p.look (.parameters line name ((ps.map Parameter.name).reverse ++ before))).conclude
        last rest := by
  induction ps generalizing before with
  | nil => rfl
  | cons q ps ih =>
      rw [List.map_cons, List.cons_append, conclude_of_feed rfl]
      refine (ih _).trans ?_
      simp

/-- The body of a procedure begins where no parameter follows. -/
theorem conclude_endParameters (p : Parser) (line : Nat) (name : Text) (before : List Text)
    {rest : List Token} (hrest : NoParameter rest) :
    (p.look (.parameters line name before)).conclude last rest =
      (p.enter (.procedure line name before.reverse)).conclude last rest := by
  refine conclude_congr (fun t ht => ?_) fun _ => rfl
  obtain ⟨l, tline⟩ := t
  cases l with
  | var parameter => exact absurd ht (hrest ⟨tline, parameter⟩)
  | _ => rfl

theorem conclude_openProcedure (statements : List Statement) (line nameLine : Nat) (name : Text)
    (ps : List Parameter) {rest : List Token} (hrest : NoParameter rest) :
    (between statements []).conclude last (⟨.keyword .to, line⟩ :: ⟨.identifier name, nameLine⟩ ::
        (ps.map Parameter.token ++ rest)) =
      (between [] [(.procedure line name (ps.map Parameter.name), statements)]).conclude last
        rest := by
  rw [conclude_of_feed rfl, conclude_of_feed rfl]
  refine (conclude_parameters _ line name [] ps rest).trans ?_
  rw [conclude_endParameters _ line name _ hrest, List.append_nil, List.reverse_reverse]
  rfl

theorem conclude_clause (c : Clause) (statements : List Statement) {rest : List Token}
    (hrest : Boundary rest) :
    (between statements []).conclude last (c.tokens ++ rest) =
      (between (c.statement :: statements) []).conclude last rest := by
  cases c with
  | phrase ph => exact conclude_phrase ph statements [] hrest
  | procedure line nameLine name ps body closing =>
      simp only [Clause.tokens, List.cons_append, List.append_assoc, List.nil_append]
      rw [conclude_openProcedure _ _ _ _ _ (noParameter_body body closing rest),
        conclude_body body _ _ (boundary_cons rfl _), conclude_of_feed (feed_closeProcedure ..),
        List.append_nil, List.reverse_reverse]
      rfl

theorem conclude_derivation (d : Derivation) (statements : List Statement) :
    (between statements []).conclude last (Derivation.tokens d) =
      .ok (statements.reverse ++ Derivation.statements d) := by
  induction d generalizing statements with
  | nil =>
      rw [Derivation.statements, List.map_nil, List.append_nil]
      rfl
  | cons c d ih =>
      refine (conclude_clause c statements (boundary_tokens d)).trans ((ih _).trans ?_)
      simp [Derivation.statements]

end Parser

/-- A derivation of the tokens is what the parser returns. -/
theorem parse_of_derivation {l : Lexed} {d : Derivation} (h : Derivation.tokens d = l.tokens) :
    parse l = .ok (Derivation.statements d) := by
  rw [Parser.parse_eq_conclude, ← h]
  exact Parser.conclude_derivation d []

end Turtle
