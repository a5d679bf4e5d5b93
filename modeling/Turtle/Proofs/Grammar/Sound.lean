import Turtle.Proofs.Grammar.Climb

/-!
Programs that the parser accepts are derived by the grammar.

Each construct of the parser has a lemma that cuts its derivation off the
tokens and tells which parser accepts the rest. Phrases contain bodies and
bodies contain phrases, so the two are cut off together, by induction on the
number of tokens. Only what stands at the outermost level can declare a
procedure.
-/

namespace Turtle

namespace Parser

variable {p : Parser} {last : Nat}

/-! ### Values, arguments and parameters -/

theorem Accepts.cut_value (slot : Slot) (hslot : TakesValue slot) {ts : List Token}
    (h : (p.look (.value slot)).Accepts last ts) :
    ∃ (v : Value) (rest : List Token), ts = v.tokens ++ rest ∧
      (p.deliver v.expr slot).Accepts last rest := by
  cases ts with
  | nil =>
      exact absurd rfl (h.finish (.endOfInput .value))
  | cons t ts =>
      have hawait : p.await slot = p.look (.value slot) := by
        cases slot with
        | argument => exact hslot.elim
        | _ => rfl
      by_cases hstarts : t.lexeme.startsArgument = true
      · rw [← hawait] at h
        obtain ⟨a, rest, hrest, haccepts⟩ := h.cut_argument slot hstarts
        exact ⟨.argument a, rest, hrest, haccepts⟩
      · obtain ⟨l, tline⟩ := t
        cases l with
        | word name =>
            refine ⟨.word tline name, ts, rfl, ?_⟩
            have hdeliver := h.of_feed (q := (p.look (.value slot)).deliver _ slot) rfl
            rw [deliver_look] at hdeliver
            exact hdeliver
        | number | var | leftParen => exact absurd rfl hstarts
        | _ => exact absurd h (not_accepts_of_feed_error rfl)

theorem Accepts.cut_arguments {line : Nat} {name : Text} {before : List Expr} {ts : List Token}
    (h : (p.look (.arguments line name before)).Accepts last ts) :
    ∃ (arguments : List Argument) (rest : List Token),
      ts = arguments.flatMap Argument.tokens ++ rest ∧
      (p.complete (.call line name (before.reverse ++ arguments.map Argument.expr))).Accepts
        last rest := by
  induction hm : ts.length using Nat.strong_induction_on generalizing before ts with
  | _ m ih =>
      by_cases hno : NoArgument ts
      · refine ⟨[], ts, rfl, ?_⟩
        rw [List.map_nil, List.append_nil]
        exact h.congr (conclude_endCall p line name before hno)
      · obtain ⟨t, us, rfl, hstarts⟩ : ∃ t us, ts = t :: us ∧ t.lexeme.startsArgument = true := by
          simp only [NoArgument, not_forall, Bool.not_eq_false] at hno
          obtain ⟨t, ht, hstarts⟩ := hno
          obtain ⟨us, rfl⟩ := List.head?_eq_some_iff.1 ht
          exact ⟨t, us, rfl, hstarts⟩
        obtain ⟨a, rest, hrest, haccepts⟩ :=
          Accepts.cut_argument (.argument line name before) h hstarts
        -- an argument has a token of its own
        have hlt : rest.length < m := by
          obtain ⟨u, vs, hvs, -⟩ := a.tokens_eq_cons
          have hlength := congrArg List.length hrest
          simp only [hvs, List.length_append, List.length_cons] at hlength hm
          omega
        obtain ⟨arguments, rest', rfl, haccepts'⟩ := ih rest.length hlt haccepts rfl
        refine ⟨a :: arguments, rest', by rw [hrest]; simp, ?_⟩
        simpa using haccepts'

theorem Accepts.cut_parameters {line : Nat} {name : Text} {before : List Text} {ts : List Token}
    (h : (p.look (.parameters line name before)).Accepts last ts) :
    ∃ (ps : List Parameter) (rest : List Token), ts = ps.map Parameter.token ++ rest ∧
      (p.enter (.procedure line name (before.reverse ++ ps.map Parameter.name))).Accepts
        last rest := by
  induction ts generalizing before with
  | nil =>
      have hends := h.congr (conclude_endParameters p line name before (by simp [NoParameter]))
      exact ⟨[], [], rfl, by simpa using hends⟩
  | cons t ts ih =>
      obtain ⟨l, tline⟩ := t
      cases l with
      | var parameter =>
          have hnext : (p.look (.parameters line name (parameter :: before))).Accepts last ts :=
            h.of_feed rfl
          obtain ⟨ps, rest, rfl, haccepts⟩ := ih hnext
          exact ⟨⟨tline, parameter⟩ :: ps, rest, rfl, by simpa using haccepts⟩
      | _ =>
          refine ⟨[], _, rfl, ?_⟩
          rw [List.map_nil, List.append_nil]
          exact h.congr (conclude_endParameters p line name before
            (by simp [NoParameter, Parameter.token]))

/-! ### Phrases and bodies -/

/-- The lexeme that closes the body of a statement. -/
def closer : Opened → Lexeme
  | .loop .. => .rightBracket
  | .procedure .. => .keyword .close

/-- A body of fewer than `n` tokens can be cut off, with the token that closes
it. -/
def CutsBodies (last n : Nat) : Prop :=
  ∀ (statements : List Statement) (o : Opened) (before : List Statement)
    (enclosing : List (Opened × List Statement)) (ts : List Token), ts.length < n →
    (between statements ((o, before) :: enclosing)).Accepts last ts →
    ∃ (ps : List Phrase) (closing : Nat) (rest : List Token),
      ts = bodyTokens ps ++ ⟨closer o, closing⟩ :: rest

variable {statements : List Statement} {enclosing : List (Opened × List Statement)}

theorem Accepts.cut_call {line : Nat} {name : Text} {ts : List Token}
    (h : (between statements enclosing).Accepts last (⟨.identifier name, line⟩ :: ts)) :
    ∃ (ph : Phrase) (rest : List Token), ⟨.identifier name, line⟩ :: ts = ph.tokens ++ rest ∧
      (between (ph.statement :: statements) enclosing).Accepts last rest := by
  have hcall : ((between statements enclosing).look (.arguments line name [])).Accepts last ts :=
    h.of_feed rfl
  obtain ⟨arguments, rest, rfl, haccepts⟩ := hcall.cut_arguments
  refine ⟨.call line name arguments, rest, by simp [Phrase.tokens], ?_⟩
  rw [Phrase.statement]
  exact haccepts

theorem Accepts.cut_assign {line : Nat} {ts : List Token}
    (h : (between statements enclosing).Accepts last (⟨.keyword .make, line⟩ :: ts)) :
    ∃ (ph : Phrase) (rest : List Token), ⟨.keyword .make, line⟩ :: ts = ph.tokens ++ rest ∧
      (between (ph.statement :: statements) enclosing).Accepts last rest := by
  have hname : ((between statements enclosing).look (.assignedName line)).Accepts last ts :=
    h.of_feed rfl
  cases ts with
  | nil => exact absurd rfl (hname.finish (.endOfInput .assignedName))
  | cons t ts =>
      obtain ⟨l, nameLine⟩ := t
      cases l with
      | word name =>
          have hvalue : ((between statements enclosing).look
              (.value (.assigned line name))).Accepts last ts := hname.of_feed rfl
          obtain ⟨v, rest, rfl, haccepts⟩ := hvalue.cut_value (.assigned line name) trivial
          refine ⟨.assign line nameLine name v, rest, by simp [Phrase.tokens], ?_⟩
          rwa [Phrase.statement]
      | _ => exact absurd hname (not_accepts_of_feed_error rfl)

theorem Accepts.cut_loop {n : Nat} (ih : CutsBodies last n) {line : Nat} {ts : List Token}
    (hlt : ts.length < n)
    (h : (between statements enclosing).Accepts last (⟨.keyword .loop, line⟩ :: ts)) :
    ∃ (ph : Phrase) (rest : List Token), ⟨.keyword .loop, line⟩ :: ts = ph.tokens ++ rest ∧
      (between (ph.statement :: statements) enclosing).Accepts last rest := by
  have hvalue : ((between statements enclosing).look (.value (.count line))).Accepts last ts :=
    h.of_feed rfl
  obtain ⟨count, us, rfl, hopening⟩ := hvalue.cut_value (.count line) trivial
  cases us with
  | nil => exact absurd rfl (hopening.finish (.endOfInput .loopOpening))
  | cons t us =>
      obtain ⟨l, opening⟩ := t
      cases l with
      | leftBracket =>
          have hbody : (between [] ((.loop line count.expr, statements) :: enclosing)).Accepts
              last us := hopening.of_feed rfl
          have hus : us.length < n := by
            simp only [List.length_append, List.length_cons] at hlt
            omega
          obtain ⟨body, closing, rest, rfl⟩ := ih _ _ _ _ us hus hbody
          have htokens : ⟨.keyword .loop, line⟩ :: (count.tokens ++ ⟨.leftBracket, opening⟩ ::
              (bodyTokens body ++ ⟨.rightBracket, closing⟩ :: rest)) =
              (Phrase.loop line count opening body closing).tokens ++ rest := by
            simp [Phrase.tokens]
          refine ⟨.loop line count opening body closing, rest, htokens, ?_⟩
          have hclosed := hbody.congr (conclude_body body [] _ (boundary_cons rfl _))
          have haccepts := hclosed.of_feed (feed_closeLoop ..)
          simpa [Phrase.statement] using haccepts
      | _ => exact absurd hopening (not_accepts_of_feed_error rfl)

theorem Accepts.cut_phrase {n : Nat} (ih : CutsBodies last n) {t : Token} {ts : List Token}
    (hlt : ts.length < n) (hstarts : t.lexeme.startsPhrase = true)
    (h : (between statements enclosing).Accepts last (t :: ts)) :
    ∃ (ph : Phrase) (rest : List Token), t :: ts = ph.tokens ++ rest ∧
      (between (ph.statement :: statements) enclosing).Accepts last rest := by
  obtain ⟨l, line⟩ := t
  cases l with
  | identifier name => exact h.cut_call
  | keyword k =>
      cases k with
      | make => exact h.cut_assign
      | loop => exact h.cut_loop ih hlt
      | _ => cases hstarts
  | _ => cases hstarts

theorem not_accepts_body_nil (o : Opened) (before : List Statement) :
    ¬ (between statements ((o, before) :: enclosing)).Accepts last [] := by
  intro h
  cases o with
  | loop => exact h.finish (.endOfInput .loopBody) rfl
  | procedure => exact h.finish (.endOfInput .procedureBody) rfl

/-- In a body, a token that begins no phrase is the one that closes it. -/
theorem Accepts.lexeme_eq_closer {o : Opened} {before : List Statement} {t : Token}
    {ts : List Token}
    (h : (between statements ((o, before) :: enclosing)).Accepts last (t :: ts))
    (hstarts : t.lexeme.startsPhrase = false) : t.lexeme = closer o := by
  obtain ⟨l, line⟩ := t
  cases l with
  | identifier => cases hstarts
  | rightBracket =>
      cases o with
      | loop => rfl
      | procedure => exact absurd h (not_accepts_of_feed_error rfl)
  | keyword k =>
      cases k with
      | make | loop => cases hstarts
      | close =>
          cases o with
          | loop => exact absurd h (not_accepts_of_feed_error rfl)
          | procedure => rfl
      | _ => exact absurd h (not_accepts_of_feed_error rfl)
  | _ => exact absurd h (not_accepts_of_feed_error rfl)

theorem cutsBodies (last n : Nat) : CutsBodies last n := by
  induction n with
  | zero => exact fun _ _ _ _ _ hlt => absurd hlt (Nat.not_lt_zero _)
  | succ n ih =>
      intro statements o before enclosing ts hlt h
      cases ts with
      | nil => exact absurd h (not_accepts_body_nil o before)
      | cons t ts =>
          have hts : ts.length < n := by
            rw [List.length_cons] at hlt
            omega
          cases hstarts : t.lexeme.startsPhrase with
          | false =>
              obtain ⟨l, closing⟩ := t
              have hl : l = closer o := h.lexeme_eq_closer hstarts
              exact ⟨[], closing, ts, by rw [hl]; rfl⟩
          | true =>
              obtain ⟨ph, rest, hrest, haccepts⟩ := h.cut_phrase ih hts hstarts
              -- a phrase has a token of its own, so what is behind it is shorter
              have hlt' : rest.length < n := by
                obtain ⟨u, us, hus, -⟩ := ph.tokens_eq_cons
                have hlength := congrArg List.length hrest
                simp only [hus, List.length_append, List.length_cons] at hlength
                omega
              obtain ⟨ps, closing, rest', rfl⟩ := ih _ _ _ _ rest hlt' haccepts
              refine ⟨ph :: ps, closing, rest', ?_⟩
              rw [hrest, bodyTokens, List.append_assoc]

/-! ### Programs -/

theorem Accepts.cut_procedure {line : Nat} {ts : List Token}
    (h : (between statements []).Accepts last (⟨.keyword .to, line⟩ :: ts)) :
    ∃ (c : Clause) (rest : List Token), ⟨.keyword .to, line⟩ :: ts = c.tokens ++ rest ∧
      (between (c.statement :: statements) []).Accepts last rest := by
  have hname : ((between statements []).look (.procedureName line)).Accepts last ts :=
    h.of_feed rfl
  cases ts with
  | nil => exact absurd rfl (hname.finish (.endOfInput .procedureName))
  | cons t ts =>
      obtain ⟨l, nameLine⟩ := t
      cases l with
      | identifier name =>
          have hparameters : ((between statements []).look (.parameters line name [])).Accepts
              last ts := hname.of_feed rfl
          obtain ⟨ps, us, rfl, hbody⟩ := hparameters.cut_parameters
          obtain ⟨body, closing, rest, rfl⟩ :=
            cutsBodies last _ _ _ _ _ us (Nat.lt_succ_self _) hbody
          refine ⟨.procedure line nameLine name ps body closing, rest,
            by simp [Clause.tokens, closer], ?_⟩
          have hclosed := hbody.congr (conclude_body body [] _ (boundary_cons rfl _))
          have haccepts := hclosed.of_feed (feed_closeProcedure ..)
          rw [List.append_nil, List.reverse_reverse] at haccepts
          exact haccepts
      | _ => exact absurd hname (not_accepts_of_feed_error rfl)

theorem Accepts.cut_clause {t : Token} {ts : List Token}
    (h : (between statements []).Accepts last (t :: ts)) :
    ∃ (c : Clause) (rest : List Token), t :: ts = c.tokens ++ rest ∧
      (between (c.statement :: statements) []).Accepts last rest := by
  cases hstarts : t.lexeme.startsPhrase with
  | true =>
      obtain ⟨ph, rest, hrest, haccepts⟩ :=
        h.cut_phrase (cutsBodies last _) (Nat.lt_succ_self _) hstarts
      exact ⟨.phrase ph, rest, hrest, haccepts⟩
  | false =>
      obtain ⟨l, line⟩ := t
      cases l with
      | identifier => cases hstarts
      | keyword k =>
          cases k with
          | make | loop => cases hstarts
          | close => exact absurd h (not_accepts_of_feed_error rfl)
          | _ => exact h.cut_procedure
      | _ => exact absurd h (not_accepts_of_feed_error rfl)

theorem Accepts.exists_derivation {ts : List Token} (h : (between statements []).Accepts last ts) :
    ∃ d, Derivation.tokens d = ts := by
  induction hm : ts.length using Nat.strong_induction_on generalizing statements ts with
  | _ m ih =>
      cases ts with
      | nil => exact ⟨[], rfl⟩
      | cons t ts =>
          obtain ⟨c, rest, hrest, haccepts⟩ := h.cut_clause
          have hlt : rest.length < m := by
            obtain ⟨u, us, hus, -⟩ := c.tokens_eq_cons
            have hlength := congrArg List.length hrest
            simp only [hus, List.length_append, List.length_cons] at hlength hm
            omega
          obtain ⟨d, rfl⟩ := ih rest.length hlt haccepts rfl
          exact ⟨c :: d, hrest.symm⟩

end Parser

/-- What the parser returns is the program of a derivation of the tokens. -/
theorem exists_derivation_of_parse {l : Lexed} {statements : List Statement}
    (h : parse l = .ok statements) :
    ∃ d, Derivation.tokens d = l.tokens ∧ Derivation.statements d = statements := by
  rw [Parser.parse_eq_conclude] at h
  have haccepts : (Parser.between [] []).Accepts l.lastLine l.tokens := ⟨statements, h⟩
  obtain ⟨d, hd⟩ := haccepts.exists_derivation
  have hstatements := parse_of_derivation hd
  rw [Parser.parse_eq_conclude, h] at hstatements
  exact ⟨d, hd, (Except.ok.inj hstatements).symm⟩

theorem exists_derivation_of_parseSource {source : Text} {statements : List Statement}
    (h : parseSource source = .ok statements) :
    ∃ l d, lex source = .ok l ∧ Derivation.tokens d = l.tokens ∧
      Derivation.statements d = statements := by
  rw [parseSource] at h
  cases hlex : lex source with
  | error f => simp [hlex] at h
  | ok l =>
      simp only [hlex] at h
      obtain ⟨d, hd, hstatements⟩ := exists_derivation_of_parse h
      exact ⟨l, d, rfl, hd, hstatements⟩

/-! ### The language -/

/-- The parser accepts the token lists that have a derivation. A list has at
most one, in which no list of arguments or parameters is cut short, and the
program of this derivation is what the parser returns. -/
theorem parse_accepts_exactly_the_language (l : Lexed) :
    ((∃ statements, parse l = .ok statements) ↔
        ∃ d : Derivation, Derivation.tokens d = l.tokens ∧ Derivation.Uncut d) ∧
      ∀ d : Derivation, Derivation.tokens d = l.tokens →
        parse l = .ok (Derivation.statements d) ∧ Derivation.Uncut d ∧
          ∀ d' : Derivation, Derivation.tokens d' = l.tokens → d' = d := by
  refine ⟨⟨?_, ?_⟩, ?_⟩
  · rintro ⟨statements, h⟩
    obtain ⟨d, hd, -⟩ := exists_derivation_of_parse h
    exact ⟨d, hd, Derivation.uncut d⟩
  · rintro ⟨d, hd, -⟩
    exact ⟨Derivation.statements d, parse_of_derivation hd⟩
  · intro d hd
    refine ⟨parse_of_derivation hd, Derivation.uncut d, ?_⟩
    intro d' hd'
    exact Derivation.tokens_injective (hd'.trans hd.symm)

/-- The text `to f :n repeat :n [ fd (:n)/2 ] end f 3`, with the loop on the
second line and the call on the third. -/
theorem parse_accepts_exactly_the_language_nested :
    let n : Atom := ⟨⟨.var (ascii "n"), 2⟩, _, .var _⟩
    let two : Atom := ⟨⟨.number (ascii "2"), 2⟩, _,
      .number (n := 2) (by decide) (by decide) (by decide)⟩
    let three : Atom := ⟨⟨.number (ascii "3"), 3⟩, _,
      .number (n := 3) (by decide) (by decide) (by decide)⟩
    let half : Argument := ⟨.binary (.paren 2 (.atom n) 2) .div 2 (.atom two),
      by simp [Infix.Grouped, Operator.precedence], fun _ h => by cases h⟩
    let d : Derivation :=
      [.procedure 1 1 (ascii "f") [⟨1, ascii "n"⟩]
        [.loop 2 (.argument ⟨.atom n, trivial, fun _ h => by cases h⟩) 2
          [.call 2 (ascii "fd") [half]] 2] 2,
        .phrase (.call 3 (ascii "f") [⟨.atom three, trivial, fun _ h => by cases h⟩])]
    let l : Lexed := ⟨[⟨.keyword .to, 1⟩, ⟨.identifier (ascii "f"), 1⟩, ⟨.var (ascii "n"), 1⟩,
      ⟨.keyword .loop, 2⟩, n.token, ⟨.leftBracket, 2⟩, ⟨.identifier (ascii "fd"), 2⟩,
      ⟨.leftParen, 2⟩, n.token, ⟨.rightParen, 2⟩, ⟨.operator .div, 2⟩, two.token,
      ⟨.rightBracket, 2⟩, ⟨.keyword .close, 2⟩, ⟨.identifier (ascii "f"), 3⟩, three.token], 3⟩
    Derivation.tokens d = l.tokens ∧
      parse l = .ok
        [.procedure 1 (ascii "f") [ascii "n"]
          [.loop 2 ⟨2, .single (.var (ascii "n"))⟩
            [.call 2 (ascii "fd") [⟨2, .sequence
              [.operand (.var (ascii "n")), .operand (.number 2), .operator .div]⟩]]],
          .call 3 (ascii "f") [⟨3, .single (.number 3)⟩]] ∧
      ∀ d' : Derivation, Derivation.tokens d' = l.tokens → d' = d := by
  intro n two three half d l
  have htokens : Derivation.tokens d = l.tokens := by
    simp [d, l, half, Derivation.tokens, Clause.tokens, Phrase.tokens, bodyTokens, Value.tokens,
      Argument.tokens, Infix.tokens, Parameter.token]
  obtain ⟨hparse, -, hunique⟩ := (parse_accepts_exactly_the_language l).2 d htokens
  refine ⟨htokens, ?_, hunique⟩
  rw [hparse]
  simp [d, n, two, three, half, Derivation.statements, Clause.statement, Phrase.statement,
    bodyStatements, Value.expr, Argument.expr, Infix.expr, Infix.form, Infix.tree, Infix.first,
    Tree.postorder]

end Turtle
