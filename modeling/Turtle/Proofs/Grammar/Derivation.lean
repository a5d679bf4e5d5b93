import Turtle.Proofs.Expression.Reading

/-!
The grammar of the language.

A derivation is a tree that keeps all that is written: every token with its
line, and every pair of parentheses. It has `tokens`, the list it derives,
and `statements`, the program it stands for.

The types are the rules of the grammar. A `Phrase` is a statement as it may
stand in a body; only a `Clause`, which stands at the top level, can declare a
procedure, so that a procedure in a body cannot be written down here. An
argument is a whole arithmetic expression that does not begin with a quoted
word; a value is an argument or a single quoted word.
-/

namespace Turtle

/-- Whether an argument of a call can begin with the lexeme. -/
def Lexeme.startsArgument : Lexeme → Bool
  | .number _ | .var _ | .leftParen => true
  | _ => false

structure Argument where
  written : Infix
  grouped : written.Grouped 1
  notWord : ∀ name, written.first.lexeme ≠ .word name

inductive Value
  | argument (a : Argument)
  | word (line : Nat) (name : Text)

structure Parameter where
  line : Nat
  name : Text

inductive Phrase
  | call (line : Nat) (name : Text) (arguments : List Argument)
  | assign (line nameLine : Nat) (name : Text) (value : Value)
  | loop (line : Nat) (count : Value) (opening : Nat) (body : List Phrase) (closing : Nat)

inductive Clause
  | phrase (p : Phrase)
  | procedure (line nameLine : Nat) (name : Text) (parameters : List Parameter)
      (body : List Phrase) (closing : Nat)

abbrev Derivation := List Clause

/-! ### The tokens of a derivation -/

def Argument.tokens (a : Argument) : List Token :=
  a.written.tokens

def Value.tokens : Value → List Token
  | argument a => a.tokens
  | word line name => [⟨.word name, line⟩]

def Parameter.token (p : Parameter) : Token :=
  ⟨.var p.name, p.line⟩

mutual

def Phrase.tokens : Phrase → List Token
  | .call line name arguments => ⟨.identifier name, line⟩ :: arguments.flatMap Argument.tokens
  | .assign line nameLine name value =>
    ⟨.keyword .make, line⟩ :: ⟨.word name, nameLine⟩ :: value.tokens
  | .loop line count opening body closing =>
    ⟨.keyword .loop, line⟩ :: (count.tokens ++ ⟨.leftBracket, opening⟩ ::
      (bodyTokens body ++ [⟨.rightBracket, closing⟩]))

def bodyTokens : List Phrase → List Token
  | [] => []
  | p :: ps => p.tokens ++ bodyTokens ps

end

def Clause.tokens : Clause → List Token
  | phrase p => p.tokens
  | procedure line nameLine name parameters body closing =>
    ⟨.keyword .to, line⟩ :: ⟨.identifier name, nameLine⟩ ::
      (parameters.map Parameter.token ++ (bodyTokens body ++ [⟨.keyword .close, closing⟩]))

def Derivation.tokens (d : Derivation) : List Token :=
  d.flatMap Clause.tokens

/-! ### The program of a derivation -/

def Argument.expr (a : Argument) : Expr :=
  a.written.expr

def Value.expr : Value → Expr
  | argument a => a.expr
  | word line name => ⟨line, .single (.word name)⟩

mutual

def Phrase.statement : Phrase → Statement
  | .call line name arguments => .call line name (arguments.map Argument.expr)
  | .assign line _ name value => .assign line name value.expr
  | .loop line count _ body _ => .loop line count.expr (bodyStatements body)

def bodyStatements : List Phrase → List Statement
  | [] => []
  | p :: ps => p.statement :: bodyStatements ps

end

def Clause.statement : Clause → Statement
  | phrase p => p.statement
  | procedure line _ name parameters body _ =>
    .procedure line name (parameters.map Parameter.name) (bodyStatements body)

def Derivation.statements (d : Derivation) : List Statement :=
  d.map Clause.statement

/-! ### Greedy lists

The arguments of a call and the parameters of a procedure go on as long as
they can: what stands behind the last of them is no argument or parameter.
`next` is the token behind a phrase or a body, if there is one. -/

mutual

def Phrase.Uncut (next : Option Token) : Phrase → Prop
  | .call .. => ∀ t, next = some t → t.lexeme.startsArgument = false
  | .assign .. => True
  | .loop _ _ _ body closing => BodyUncut (some ⟨.rightBracket, closing⟩) body

def BodyUncut (next : Option Token) : List Phrase → Prop
  | [] => True
  | p :: ps => p.Uncut ((bodyTokens ps).head?.or next) ∧ BodyUncut next ps

end

def Clause.Uncut (next : Option Token) : Clause → Prop
  | phrase p => p.Uncut next
  | procedure _ _ _ _ body closing =>
    (∀ name line, (bodyTokens body).head? ≠ some ⟨.var name, line⟩) ∧
      BodyUncut (some ⟨.keyword .close, closing⟩) body

def Derivation.Uncut : Derivation → Prop
  | [] => True
  | c :: cs => c.Uncut (Derivation.tokens cs).head? ∧ Derivation.Uncut cs

/-! ### First tokens -/

/-- Whether a phrase can begin with the lexeme. -/
def Lexeme.startsPhrase : Lexeme → Bool
  | .identifier _ | .keyword .make | .keyword .loop => true
  | _ => false

/-- Whether a lexeme can stand behind a complete statement: it neither goes on
with an expression nor begins another argument. -/
def Lexeme.endsStatement (l : Lexeme) : Bool :=
  !l.continues && !l.startsArgument

/-- No token goes on with the statement before the tokens. -/
def Boundary (tokens : List Token) : Prop :=
  ∀ t ∈ tokens.head?, t.lexeme.endsStatement = true

theorem boundary_nil : Boundary [] := by
  simp [Boundary]

theorem boundary_cons {t : Token} (h : t.lexeme.endsStatement = true) (ts : List Token) :
    Boundary (t :: ts) := by
  simpa [Boundary] using h

theorem Lexeme.endsStatement_of_startsPhrase {l : Lexeme} (h : l.startsPhrase = true) :
    l.endsStatement = true := by
  cases l <;> first | rfl | cases h

theorem Argument.tokens_eq_cons (a : Argument) :
    ∃ t ts, a.tokens = t :: ts ∧ t.lexeme.startsArgument = true := by
  obtain ⟨ts, hts⟩ := a.written.tokens_eq_cons
  refine ⟨a.written.first, ts, hts, ?_⟩
  rcases a.written.first_spells_or_leftParen with ⟨o, ho⟩ | hparen
  · cases hl : a.written.first.lexeme with
    | number => rfl
    | var => rfl
    | word name => exact absurd hl (a.notWord name)
    | _ => rw [hl] at ho; cases ho
  · rw [hparen]
    rfl

theorem Phrase.tokens_eq_cons (p : Phrase) :
    ∃ t ts, p.tokens = t :: ts ∧ t.lexeme.startsPhrase = true := by
  cases p <;> exact ⟨_, _, by rw [Phrase.tokens], rfl⟩

theorem boundary_bodyTokens (ps : List Phrase) {rest : List Token} (h : Boundary rest) :
    Boundary (bodyTokens ps ++ rest) := by
  cases ps with
  | nil => exact h
  | cons p ps =>
      obtain ⟨t, ts, hts, ht⟩ := p.tokens_eq_cons
      rw [bodyTokens, hts]
      exact boundary_cons (Lexeme.endsStatement_of_startsPhrase ht) _

theorem Clause.tokens_eq_cons (c : Clause) :
    ∃ t ts, c.tokens = t :: ts ∧ t.lexeme.endsStatement = true := by
  cases c with
  | phrase p =>
      obtain ⟨t, ts, hts, ht⟩ := p.tokens_eq_cons
      exact ⟨t, ts, hts, Lexeme.endsStatement_of_startsPhrase ht⟩
  | procedure => exact ⟨_, _, rfl, rfl⟩

theorem boundary_tokens (d : Derivation) : Boundary (Derivation.tokens d) := by
  cases d with
  | nil => exact boundary_nil
  | cons c cs =>
      obtain ⟨t, ts, hts, ht⟩ := c.tokens_eq_cons
      rw [Derivation.tokens, List.flatMap_cons, hts]
      exact boundary_cons ht _

end Turtle
