import Turtle.Proofs.Grammar.Derivation

/-!
The grammar is unambiguous.

Two derivations of the same tokens are the same. Expressions are compared from
the right, which `Infix.tokens_injective` does, but only once it is known that
they end at the same place; that is where the yard finds them complete. All
else is compared from the left, where the first token of a phrase tells the
rule, and what stands behind a phrase is a boundary.

Greedy lists cost nothing: what can stand behind a call never begins an
argument, so no derivation cuts a list short.
-/

namespace Turtle

/-! ### Expressions end at the same place -/

/-- The token behind a complete expression is not taken by the yard. -/
theorem Infix.not_takes_append {e : Infix} (he : e.Grouped 1) {y : Yard} {t : Token}
    {ts : List Token} (ht : t.lexeme.continues = false) :
    ¬ Yard.blank.Takes (e.tokens ++ t :: ts) y := by
  intro htakes
  obtain ⟨y', htakes', hreads⟩ := Infix.read he (y := .blank) rfl trivial
  cases htakes'.append_inv htakes with
  | cons step rest =>
      rw [Parser.step_of_not_continues hreads.behindOperand hreads.depth ht] at step
      cases step

/-- No token goes on with an expression before the tokens. -/
def EndsExpression (tokens : List Token) : Prop :=
  ∀ t ∈ tokens.head?, t.lexeme.continues = false

theorem Boundary.endsExpression {tokens : List Token} (h : Boundary tokens) :
    EndsExpression tokens := by
  intro t ht
  have hends := h t ht
  rw [Lexeme.endsStatement, Bool.and_eq_true, Bool.not_eq_true'] at hends
  exact hends.1

/-- No argument stands at the beginning of the tokens. -/
def NoArgument (tokens : List Token) : Prop :=
  ∀ t ∈ tokens.head?, t.lexeme.startsArgument = false

theorem Boundary.noArgument {tokens : List Token} (h : Boundary tokens) : NoArgument tokens := by
  intro t ht
  have hends := h t ht
  rw [Lexeme.endsStatement, Bool.and_eq_true, Bool.not_eq_true', Bool.not_eq_true'] at hends
  exact hends.2

theorem Infix.append_eq_nil {e : Infix} (he : e.Grouped 1) {e' : Infix} (he' : e'.Grouped 1)
    {ts rest : List Token} (hrest : EndsExpression (ts ++ rest))
    (h : e'.tokens = e.tokens ++ ts) : ts = [] := by
  cases ts with
  | nil => rfl
  | cons t ts =>
      obtain ⟨y, htakes, -⟩ := Infix.read he' (y := .blank) rfl trivial
      rw [h] at htakes
      exact absurd htakes (not_takes_append he (hrest t (by simp)))

theorem Infix.append_inj {e e' : Infix} (he : e.Grouped 1) (he' : e'.Grouped 1)
    {rest rest' : List Token} (hrest : EndsExpression rest) (hrest' : EndsExpression rest')
    (h : e.tokens ++ rest = e'.tokens ++ rest') : e = e' ∧ rest = rest' := by
  -- the longer expression goes on with the rest of the shorter one, by no token at all
  rcases List.append_eq_append_iff.1 h with ⟨ts, hts, rfl⟩ | ⟨ts, hts, rfl⟩
  · have hnil := append_eq_nil he he' hrest hts
    subst hnil
    rw [List.append_nil] at hts
    exact ⟨tokens_injective he he' hts.symm, rfl⟩
  · have hnil := append_eq_nil he' he hrest' hts
    subst hnil
    rw [List.append_nil] at hts
    exact ⟨tokens_injective he he' hts, rfl⟩

/-! ### Arguments, values and parameters -/

theorem Argument.append_inj {a a' : Argument} {rest rest' : List Token}
    (hrest : EndsExpression rest) (hrest' : EndsExpression rest')
    (h : a.tokens ++ rest = a'.tokens ++ rest') : a = a' ∧ rest = rest' := by
  obtain ⟨e, he, hword⟩ := a
  obtain ⟨e', he', hword'⟩ := a'
  obtain ⟨rfl, hrests⟩ := Infix.append_inj he he' hrest hrest' h
  exact ⟨rfl, hrests⟩

/-- An argument does not begin with a quoted word. -/
theorem Argument.append_ne_word (a : Argument) (rest rest' : List Token) (line : Nat)
    (name : Text) : a.tokens ++ rest ≠ ⟨.word name, line⟩ :: rest' := by
  obtain ⟨t, ts, hts, ht⟩ := a.tokens_eq_cons
  intro h
  rw [hts] at h
  rw [(List.cons.inj h).1] at ht
  cases ht

theorem Value.append_inj {v v' : Value} {rest rest' : List Token}
    (hrest : EndsExpression rest) (hrest' : EndsExpression rest')
    (h : v.tokens ++ rest = v'.tokens ++ rest') : v = v' ∧ rest = rest' := by
  match v, v' with
  | .argument a, .argument a' =>
      obtain ⟨rfl, hrests⟩ := Argument.append_inj hrest hrest' h
      exact ⟨rfl, hrests⟩
  | .argument a, .word line name => exact absurd h (a.append_ne_word rest rest' line name)
  | .word line name, .argument a => exact absurd h.symm (a.append_ne_word rest' rest line name)
  | .word line name, .word line' name' =>
      cases h
      exact ⟨rfl, rfl⟩

theorem endsExpression_arguments (arguments : List Argument) {rest : List Token}
    (h : Boundary rest) : EndsExpression (arguments.flatMap Argument.tokens ++ rest) := by
  cases arguments with
  | nil => exact h.endsExpression
  | cons a arguments =>
      obtain ⟨t, ts, hts, ht⟩ := a.tokens_eq_cons
      intro u hu
      simp only [List.flatMap_cons, hts, List.cons_append, List.head?_cons, Option.mem_def,
        Option.some.injEq] at hu
      subst hu
      cases hl : t.lexeme <;> first | rfl | simp [hl, Lexeme.startsArgument] at ht

/-- An argument does not stand where a call has ended. -/
theorem Boundary.ne_argument {rest : List Token} (h : Boundary rest) (a : Argument)
    (ts : List Token) : rest ≠ a.tokens ++ ts := by
  obtain ⟨t, us, hus, ht⟩ := a.tokens_eq_cons
  rintro rfl
  have hends := h t (by simp [hus])
  simp [Lexeme.endsStatement, ht] at hends

theorem arguments_append_inj {as as' : List Argument} {rest rest' : List Token}
    (hrest : Boundary rest) (hrest' : Boundary rest')
    (h : as.flatMap Argument.tokens ++ rest = as'.flatMap Argument.tokens ++ rest') :
    as = as' ∧ rest = rest' := by
  induction as generalizing as' with
  | nil =>
      cases as' with
      | nil => exact ⟨rfl, h⟩
      | cons a' as' =>
          rw [List.flatMap_cons, List.append_assoc] at h
          exact absurd h (hrest.ne_argument a' _)
  | cons a as ih =>
      cases as' with
      | nil =>
          rw [List.flatMap_cons, List.append_assoc] at h
          exact absurd h.symm (hrest'.ne_argument a _)
      | cons a' as' =>
          simp only [List.flatMap_cons, List.append_assoc] at h
          obtain ⟨rfl, htail⟩ := Argument.append_inj (endsExpression_arguments as hrest)
            (endsExpression_arguments as' hrest') h
          obtain ⟨rfl, hrests⟩ := ih htail
          exact ⟨rfl, hrests⟩

theorem Parameter.token_injective : Function.Injective Parameter.token := by
  rintro ⟨line, name⟩ ⟨line', name'⟩ h
  cases h
  rfl

/-- No parameter stands at the beginning of the tokens. -/
def NoParameter (tokens : List Token) : Prop :=
  ∀ p : Parameter, tokens.head? ≠ some p.token

theorem parameters_append_inj {ps ps' : List Parameter} {rest rest' : List Token}
    (hrest : NoParameter rest) (hrest' : NoParameter rest')
    (h : ps.map Parameter.token ++ rest = ps'.map Parameter.token ++ rest') :
    ps = ps' ∧ rest = rest' := by
  induction ps generalizing ps' with
  | nil =>
      cases ps' with
      | nil => exact ⟨rfl, h⟩
      | cons p' ps' =>
          have hhead := congrArg List.head? h
          exact absurd hhead (hrest p')
  | cons p ps ih =>
      cases ps' with
      | nil =>
          have hhead := congrArg List.head? h.symm
          exact absurd hhead (hrest' p)
      | cons p' ps' =>
          obtain ⟨htoken, htail⟩ := List.cons.inj h
          obtain ⟨rfl, hrests⟩ := ih htail
          exact ⟨by rw [Parameter.token_injective htoken], hrests⟩

/-! ### Phrases and bodies -/

/-- The tokens behind a body: none, or one that closes it. -/
def Closing (tokens : List Token) : Prop :=
  ∀ t ∈ tokens.head?, t.lexeme.endsStatement = true ∧ t.lexeme.startsPhrase = false

theorem closing_cons {t : Token} (h : t.lexeme.endsStatement = true)
    (h' : t.lexeme.startsPhrase = false) (ts : List Token) : Closing (t :: ts) := by
  simp [Closing, h, h']

theorem Closing.boundary {tokens : List Token} (h : Closing tokens) : Boundary tokens :=
  fun t ht => (h t ht).1

theorem Closing.ne_phrase {rest : List Token} (h : Closing rest) (p : Phrase) (ts : List Token) :
    rest ≠ p.tokens ++ ts := by
  obtain ⟨t, us, hus, ht⟩ := p.tokens_eq_cons
  rintro rfl
  have hclosing := (h t (by simp [hus])).2
  simp [ht] at hclosing

mutual

theorem Phrase.append_inj (p p' : Phrase) {rest rest' : List Token} (hrest : Boundary rest)
    (hrest' : Boundary rest') (h : p.tokens ++ rest = p'.tokens ++ rest') :
    p = p' ∧ rest = rest' := by
  match p, p' with
  | .call line name as, .call line' name' as' =>
      simp only [Phrase.tokens, List.cons_append, List.cons.injEq, Token.mk.injEq,
        Lexeme.identifier.injEq] at h
      obtain ⟨⟨rfl, rfl⟩, htail⟩ := h
      obtain ⟨rfl, hrests⟩ := arguments_append_inj hrest hrest' htail
      exact ⟨rfl, hrests⟩
  | .assign line nameLine name v, .assign line' nameLine' name' v' =>
      simp only [Phrase.tokens, List.cons_append, List.cons.injEq, Token.mk.injEq,
        Lexeme.word.injEq, true_and] at h
      obtain ⟨rfl, ⟨rfl, rfl⟩, htail⟩ := h
      obtain ⟨rfl, hrests⟩ := Value.append_inj hrest.endsExpression hrest'.endsExpression htail
      exact ⟨rfl, hrests⟩
  | .loop line count opening body closing, .loop line' count' opening' body' closing' =>
      simp only [Phrase.tokens, List.cons_append, List.append_assoc, List.cons.injEq,
        Token.mk.injEq, true_and] at h
      obtain ⟨rfl, htail⟩ := h
      have hbracket : ∀ line ts, EndsExpression (⟨.leftBracket, line⟩ :: ts) := by
        intro line ts
        simp [EndsExpression, Lexeme.continues]
      obtain ⟨rfl, hopening⟩ := Value.append_inj (hbracket _ _) (hbracket _ _) htail
      simp only [List.cons.injEq, Token.mk.injEq, true_and] at hopening
      obtain ⟨rfl, hbody⟩ := hopening
      obtain ⟨rfl, hclosing⟩ := bodyTokens_append_inj body body' (closing_cons rfl rfl _)
        (closing_cons rfl rfl _) hbody
      cases hclosing
      exact ⟨rfl, rfl⟩
  | .call .., .assign .. => simp [Phrase.tokens] at h
  | .call .., .loop .. => simp [Phrase.tokens] at h
  | .assign .., .call .. => simp [Phrase.tokens] at h
  | .assign .., .loop .. => simp [Phrase.tokens] at h
  | .loop .., .call .. => simp [Phrase.tokens] at h
  | .loop .., .assign .. => simp [Phrase.tokens] at h

theorem bodyTokens_append_inj (ps ps' : List Phrase) {rest rest' : List Token}
    (hrest : Closing rest) (hrest' : Closing rest')
    (h : bodyTokens ps ++ rest = bodyTokens ps' ++ rest') : ps = ps' ∧ rest = rest' := by
  match ps, ps' with
  | [], [] => exact ⟨rfl, h⟩
  | [], p' :: ps' =>
      simp only [bodyTokens, List.append_assoc, List.nil_append] at h
      exact absurd h (hrest.ne_phrase p' _)
  | p :: ps, [] =>
      simp only [bodyTokens, List.append_assoc, List.nil_append] at h
      exact absurd h.symm (hrest'.ne_phrase p _)
  | p :: ps, p' :: ps' =>
      simp only [bodyTokens, List.append_assoc] at h
      obtain ⟨rfl, htail⟩ := Phrase.append_inj p p' (boundary_bodyTokens ps hrest.boundary)
        (boundary_bodyTokens ps' hrest'.boundary) h
      obtain ⟨rfl, hrests⟩ := bodyTokens_append_inj ps ps' hrest hrest' htail
      exact ⟨rfl, hrests⟩

end

theorem noParameter_body (ps : List Phrase) (line : Nat) (rest : List Token) :
    NoParameter (bodyTokens ps ++ ⟨.keyword .close, line⟩ :: rest) := by
  intro p
  cases ps with
  | nil => simp [bodyTokens, Parameter.token]
  | cons q ps =>
      obtain ⟨t, ts, hts, ht⟩ := q.tokens_eq_cons
      simp only [bodyTokens, hts, List.cons_append, List.head?_cons, ne_eq, Option.some.injEq]
      rintro rfl
      cases ht

/-! ### Programs -/

theorem Clause.append_inj (c c' : Clause) {rest rest' : List Token} (hrest : Boundary rest)
    (hrest' : Boundary rest') (h : c.tokens ++ rest = c'.tokens ++ rest') :
    c = c' ∧ rest = rest' := by
  match c, c' with
  | .phrase p, .phrase p' =>
      obtain ⟨rfl, hrests⟩ := Phrase.append_inj p p' hrest hrest' h
      exact ⟨rfl, hrests⟩
  | .procedure line nameLine name ps body closing,
    .procedure line' nameLine' name' ps' body' closing' =>
      simp only [Clause.tokens, List.cons_append, List.append_assoc, List.cons.injEq,
        Token.mk.injEq, Lexeme.identifier.injEq, true_and] at h
      obtain ⟨rfl, ⟨rfl, rfl⟩, htail⟩ := h
      obtain ⟨rfl, hbody⟩ := parameters_append_inj (noParameter_body _ _ _)
        (noParameter_body _ _ _) htail
      obtain ⟨rfl, hclosing⟩ := bodyTokens_append_inj body body' (closing_cons rfl rfl _)
        (closing_cons rfl rfl _) hbody
      cases hclosing
      exact ⟨rfl, rfl⟩
  | .phrase p, .procedure .. =>
      obtain ⟨t, ts, hts, ht⟩ := p.tokens_eq_cons
      simp only [Clause.tokens, hts, List.cons_append, List.cons.injEq] at h
      rw [h.1] at ht
      cases ht
  | .procedure .., .phrase p =>
      obtain ⟨t, ts, hts, ht⟩ := p.tokens_eq_cons
      simp only [Clause.tokens, hts, List.cons_append, List.cons.injEq] at h
      rw [← h.1] at ht
      cases ht

/-- The tokens of a program have no other derivation. -/
theorem Derivation.tokens_injective {d d' : Derivation}
    (h : Derivation.tokens d = Derivation.tokens d') : d = d' := by
  induction d generalizing d' with
  | nil =>
      cases d' with
      | nil => rfl
      | cons c' d' =>
          obtain ⟨t, ts, hts, -⟩ := c'.tokens_eq_cons
          simp [Derivation.tokens, hts] at h
  | cons c d ih =>
      cases d' with
      | nil =>
          obtain ⟨t, ts, hts, -⟩ := c.tokens_eq_cons
          simp [Derivation.tokens, hts] at h
      | cons c' d' =>
          obtain ⟨rfl, htail⟩ := Clause.append_inj c c' (boundary_tokens d) (boundary_tokens d') h
          rw [ih htail]

/-! ### No list is cut short -/

mutual

theorem Phrase.uncut (p : Phrase) {next : Option Token}
    (h : ∀ t, next = some t → t.lexeme.endsStatement = true) : p.Uncut next := by
  match p with
  | .call line name arguments =>
      intro t ht
      exact (boundary_cons (h t ht) []).noArgument t rfl
  | .assign .. => trivial
  | .loop line count opening body closing =>
      refine bodyUncut body fun t ht => ?_
      cases ht
      rfl

theorem bodyUncut (ps : List Phrase) {next : Option Token}
    (h : ∀ t, next = some t → t.lexeme.endsStatement = true) : BodyUncut next ps := by
  match ps with
  | [] => trivial
  | p :: ps =>
      refine ⟨Phrase.uncut p fun t ht => ?_, bodyUncut ps h⟩
      cases ps with
      | nil => exact h t ht
      | cons q ps =>
          obtain ⟨u, us, hus, hu⟩ := q.tokens_eq_cons
          simp only [bodyTokens, hus, List.cons_append, List.head?_cons, Option.some_or,
            Option.some.injEq] at ht
          exact Lexeme.endsStatement_of_startsPhrase (ht ▸ hu)

end

theorem Derivation.uncut (d : Derivation) : Derivation.Uncut d := by
  induction d with
  | nil => trivial
  | cons c d ih =>
      refine ⟨?_, ih⟩
      cases c with
      | phrase p => exact p.uncut fun t ht => boundary_tokens d t ht
      | procedure line nameLine name ps body closing =>
          refine ⟨fun name line hhead => ?_, bodyUncut body fun t ht => by cases ht; rfl⟩
          have hno := noParameter_body body closing [] ⟨line, name⟩
          rw [List.head?_append, hhead] at hno
          exact hno rfl

end Turtle
