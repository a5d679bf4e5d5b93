import Turtle.Token.Basic

/-!
Programs as trees.

An expression is either a single operand or a sequence in which each operator stands behind its two
operands, so that no parentheses are left. Statements and expressions know the line on which they
begin.
-/

namespace Turtle

inductive Operand
  | number (value : Int64)
  | var (name : Text)
  | word (name : Text)
  deriving DecidableEq, Repr

inductive Item
  | operand (o : Operand)
  | operator (o : Operator)
  deriving DecidableEq, Repr

inductive Form
  | single (o : Operand)
  | sequence (items : List Item)
  deriving DecidableEq, Repr

structure Expr where
  line : Nat
  form : Form
  deriving DecidableEq, Repr

inductive Statement
  | procedure (line : Nat) (name : Text) (parameters : List Text) (body : List Statement)
  | call (line : Nat) (name : Text) (arguments : List Expr)
  | assign (line : Nat) (name : Text) (value : Expr)
  | loop (line : Nat) (count : Expr) (body : List Statement)
  deriving Repr

namespace Statement

def line : Statement → Nat
  | procedure line .. | call line .. | assign line .. | loop line .. => line

end Statement

end Turtle
