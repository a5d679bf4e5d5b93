import Turtle.Text.Template
import Turtle.Token.Basic

/-!
What can go wrong in a program, and how it is told.

A `Cause` says what happened and carries what its message mentions; a `Fault` is a cause at a line.
All else that a report shows follows from the cause: the stage that rejected the program, the type
of the fault, the token found and the tokens expected in its place, and the message.
-/

namespace Turtle

/-- The places at which the input may not end. -/
inductive Place
  /-- Inside an expression, where an operand has to follow. -/
  | operand
  /-- Where a whole value has to follow. -/
  | value
  | loopOpening
  | assignedName
  | procedureName
  | loopBody
  | procedureBody
  deriving DecidableEq, Repr

inductive Stage
  | lexer
  | parser
  | runtime
  deriving DecidableEq, Repr

inductive Category
  | unrecognizedToken
  | endOfInput
  | unexpectedToken
  | malformedNumber
  | unbalancedParentheses
  | unbalancedBrackets
  | redeclaredProcedure
  | procedureNotFound
  | variableNotFound
  | argumentCount
  | typeMismatch
  | divisionByZero
  | integerOverflow
  | callDepth
  | internal
  deriving DecidableEq, Repr

inductive Cause
  /-- A byte that starts no token. -/
  | strayByte (byte : UInt8)
  | endOfInput (place : Place)
  | unexpected (found : Lexeme) (expected : List Kind)
  /-- A procedure declared inside a body. -/
  | nestedProcedure
  /-- The end of a procedure where none is being declared. -/
  | strayEnd
  | malformedNumber (digits : Text)
  | unmatchedParen
  | unclosedParen
  | unmatchedBracket
  | redeclared (name : Text)
  | unknownProcedure (name : Text)
  | unknownVariable (name : Text)
  | argumentCount (name : Text) (expected got : Nat)
  /-- A quoted word where a number is needed. -/
  | wordValue (name : Text)
  | divisionByZero (left right : Int64)
  | overflow (left : Int64) (operator : Operator) (right : Int64)
  | callDepth (name : Text) (limit : Nat)
  | operatorWithoutOperands
  | leftoverValues (count : Nat)
  deriving DecidableEq, Repr

structure Fault where
  line : Nat
  cause : Cause
  deriving DecidableEq, Repr

namespace Place

def phrase : Place → Text
  | .operand => ascii "in an arithmetic expression"
  | .value => ascii "where an expression was expected"
  | .loopOpening => ascii "after the repeat count"
  | .assignedName => ascii "after 'make'"
  | .procedureName => ascii "after 'to'"
  | .loopBody => ascii "inside a repeat body"
  | .procedureBody => ascii "inside a procedure body"

/-- What could have followed. -/
def expected : Place → List Kind
  | .operand => [.number, .var, .leftParen]
  | .value => [.number, .var, .leftParen, .word]
  | .loopOpening => [.leftBracket]
  | .assignedName => [.word]
  | .procedureName => [.identifier]
  | .loopBody => [.rightBracket]
  | .procedureBody => [.keyword .close]

end Place

namespace Stage

/-- How a message starts; the percent sign stands for the line. -/
def heading : Stage → String
  | .lexer => "[Lexer error] Line %: "
  | .parser => "[Syntax error] Line %: "
  | .runtime => "[Runtime error] Line %: "

end Stage

namespace Category

def name : Category → Text
  | .unrecognizedToken => ascii "unrecognized token"
  | .endOfInput => ascii "unexpected end of input"
  | .unexpectedToken => ascii "unexpected token"
  | .malformedNumber => ascii "malformed number"
  | .unbalancedParentheses => ascii "unbalanced parentheses"
  | .unbalancedBrackets => ascii "unbalanced brackets"
  | .redeclaredProcedure => ascii "redeclared procedure"
  | .procedureNotFound => ascii "procedure not found"
  | .variableNotFound => ascii "variable not found"
  | .argumentCount => ascii "argument count mismatch"
  | .typeMismatch => ascii "type mismatch"
  | .divisionByZero => ascii "division by zero"
  | .integerOverflow => ascii "integer overflow"
  | .callDepth => ascii "call depth exceeded"
  | .internal => ascii "internal error"

def stage : Category → Stage
  | .unrecognizedToken => .lexer
  | .endOfInput | .unexpectedToken | .malformedNumber | .unbalancedParentheses
  | .unbalancedBrackets => .parser
  | _ => .runtime

end Category

namespace Cause

def category : Cause → Category
  | .strayByte _ => .unrecognizedToken
  | .endOfInput _ => .endOfInput
  | .unexpected .. | .nestedProcedure | .strayEnd => .unexpectedToken
  | .malformedNumber _ => .malformedNumber
  | .unmatchedParen | .unclosedParen => .unbalancedParentheses
  | .unmatchedBracket => .unbalancedBrackets
  | .redeclared _ => .redeclaredProcedure
  | .unknownProcedure _ => .procedureNotFound
  | .unknownVariable _ => .variableNotFound
  | .argumentCount .. => .argumentCount
  | .wordValue _ => .typeMismatch
  | .divisionByZero .. => .divisionByZero
  | .overflow .. => .integerOverflow
  | .callDepth .. => .callDepth
  | .operatorWithoutOperands | .leftoverValues _ => .internal

def found : Cause → Option Kind
  | .unexpected l _ => some l.kind
  | .nestedProcedure => some (.keyword .to)
  | .strayEnd => some (.keyword .close)
  | _ => none

def expected : Cause → List Kind
  | .endOfInput place => place.expected
  | .unexpected _ kinds => kinds
  | _ => []

/-- How many arguments the command or procedure takes; zero for every other cause. -/
def expectedCount : Cause → Nat
  | .argumentCount _ n _ => n
  | _ => 0

/-- The middle part of the message, as a template and its fields. -/
def body : Cause → String × List Field
  | .strayByte b => ("Unrecognized token '%'.", [.byte b])
  | .endOfInput place => ("Unexpected end of input %.", [.text place.phrase])
  | .unexpected l _ => ("Unexpected token '%'.", [.text l.label])
  | .nestedProcedure =>
    ("Unexpected token 'to'. Procedures can only be declared at the top level.", [])
  | .strayEnd => ("Unexpected token 'end' outside of a procedure declaration.", [])
  | .malformedNumber digits => ("Couldn't convert '%' to a 64 bit integer.", [.text digits])
  | .unmatchedParen => ("Unmatched ')'.", [])
  | .unclosedParen => ("Missing ')' at the end of input.", [])
  | .unmatchedBracket => ("Unmatched ']'.", [])
  | .redeclared name => ("Procedure '%' is already defined.", [.text name])
  | .unknownProcedure name => ("I don't know how to '%'.", [.text name])
  | .unknownVariable name => ("Variable ':%' is not defined.", [.text name])
  | .argumentCount name n got =>
    ("'%' expects % %, got %.",
      [.text name, .natural n, .text (ascii (if n == 1 then "argument" else "arguments")),
        .natural got])
  | .wordValue name => ("Expected a number, got the word '\"%'.", [.text name])
  | .divisionByZero l r =>
    ("Division by zero in '% / %'.", [.integer l.toInt, .integer r.toInt])
  | .overflow l o r =>
    ("Integer overflow in '% % %'.", [.integer l.toInt, .byte o.symbol, .integer r.toInt])
  | .callDepth name limit =>
    ("Calling '%' exceeds the maximum call depth of %.", [.text name, .natural limit])
  | .operatorWithoutOperands =>
    ("Malformed postfix expression: operator without two operands.", [])
  | .leftoverValues count =>
    ("Malformed postfix expression: % values left on the stack.", [.natural count])

end Cause

/-- A message has room for 511 bytes. -/
abbrev Message := Bounded 512

namespace Message

/-- Adds the names of kinds, the last one after an "or". -/
def addKinds (m : Message) : List Kind → Message
  | [] => m
  | [k] => m.add k.name
  | [j, k] => ((m.add j.name).add (ascii " or ")).add k.name
  | k :: kinds => addKinds ((m.add k.name).add (ascii ", ")) kinds

/-- Adds what was expected, if that is known. -/
def addExpected (m : Message) (kinds : List Kind) : Message :=
  if kinds.isEmpty then m
  else (addKinds (m.add (ascii " Expected ")) kinds).add (ascii ".")

end Message

namespace Fault

def category (f : Fault) : Category :=
  f.cause.category

def stage (f : Fault) : Stage :=
  f.category.stage

def message (f : Fault) : Text :=
  let heading := (Bounded.empty : Message).addFormat f.stage.heading [.natural f.line]
  let body := heading.addFormat f.cause.body.1 f.cause.body.2
  (Message.addExpected body f.cause.expected).text

end Fault

end Turtle
