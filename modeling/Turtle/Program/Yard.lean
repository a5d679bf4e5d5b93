import Turtle.Fault
import Turtle.Program.Basic

/-!
Reading an arithmetic expression, one token at a time.

The yard holds two rows: the output, in which every operator already stands behind its operands,
and the operators that still wait for their right operand, with a mark for each parenthesis that is
open. An operator that arrives first sends those to the output that bind at least as strongly, so
that equal ones apply from left to right; a closing parenthesis sends all up to its mark.

A step either takes the token or finds that the expression has ended before it. It can only end
where no parenthesis is open, as an operand there begins the next argument of a call.
-/

namespace Turtle

inductive Waiting
  | paren
  | operator (o : Operator)
  deriving DecidableEq, Repr

structure Yard where
  /-- The latest item first. -/
  output : List Item
  /-- The innermost operator first. -/
  waiting : List Waiting
  /-- How many parentheses are open. -/
  depth : Nat
  expectsOperand : Bool
  deriving DecidableEq, Repr

/-- The operand that a number stands for. -/
def Operand.ofDigits (line : Nat) (digits : Text) : Except Fault Operand :=
  match Numeral.readInt64? digits with
  | some n => .ok (.number n)
  | none => .error ⟨line, .malformedNumber digits⟩

namespace Yard

/-! ### Where an expression begins -/

def afterOperand (o : Operand) : Yard :=
  ⟨[.operand o], [], 0, false⟩

def afterParen : Yard :=
  ⟨[], [.paren], 1, true⟩

/-! ### Moving operators to the output -/

/-- Sends the operators that bind at least as strongly as the given precedence. -/
def release (precedence : Nat) (output : List Item) : List Waiting → List Item × List Waiting
  | .operator o :: waiting =>
    if precedence ≤ o.precedence then release precedence (.operator o :: output) waiting
    else (output, .operator o :: waiting)
  | waiting => (output, waiting)

/-- Sends the operators down to the innermost open parenthesis, if one is open. -/
def closeParen (output : List Item) : List Waiting → Option (List Item × List Waiting)
  | [] => none
  | .paren :: waiting => some (output, waiting)
  | .operator o :: waiting => closeParen (.operator o :: output) waiting

/-- Sends all operators. -/
def drain (output : List Item) : List Waiting → List Item
  | [] => output
  | .paren :: waiting => drain output waiting
  | .operator o :: waiting => drain (.operator o :: output) waiting

/-! ### Steps -/

def pushOperand (y : Yard) (o : Operand) : Yard :=
  { y with output := .operand o :: y.output, expectsOperand := false }

def pushParen (y : Yard) : Yard :=
  { y with waiting := .paren :: y.waiting, depth := y.depth + 1 }

def pushOperator (y : Yard) (o : Operator) : Yard :=
  let (output, waiting) := release o.precedence y.output y.waiting
  { y with output, waiting := .operator o :: waiting, expectsOperand := true }

/-- The kinds expected inside parentheses behind an operand. -/
def continuations : List Kind :=
  [.operator .add, .operator .sub, .operator .mul, .operator .div, .rightParen]

def stepOperand (y : Yard) (t : Token) : Except Fault Yard :=
  match t.lexeme with
  | .number digits => y.pushOperand <$> Operand.ofDigits t.line digits
  | .var name => .ok (y.pushOperand (.var name))
  | .word name => .ok (y.pushOperand (.word name))
  | .leftParen => .ok y.pushParen
  | l => .error ⟨t.line, .unexpected l Place.operand.expected⟩

def stepOperator (y : Yard) (t : Token) : Except Fault (Option Yard) :=
  match t.lexeme with
  | .operator o => .ok (some (y.pushOperator o))
  | .rightParen =>
    match closeParen y.output y.waiting with
    | some (output, waiting) => .ok (some { y with output, waiting, depth := y.depth - 1 })
    | none => .error ⟨t.line, .unmatchedParen⟩
  | l =>
    if y.depth = 0 then .ok none else .error ⟨t.line, .unexpected l continuations⟩

/-- Takes the token, or finds that the expression ends before it. -/
def step (y : Yard) (t : Token) : Except Fault (Option Yard) :=
  if y.expectsOperand then some <$> y.stepOperand t else y.stepOperator t

/-- Whether a parenthesis is open. -/
def isOpen (y : Yard) : Bool :=
  y.waiting.contains .paren

/-- The finished sequence. -/
def items (y : Yard) : List Item :=
  (drain y.output y.waiting).reverse

end Yard

end Turtle
