import Turtle.Token.Lexer
import Turtle.Program.Yard

/-!
From tokens to programs.

The parser is a pushdown machine: it takes the tokens one after the other, and between two tokens it
is in a state that says what is being read, which statements of the current body are complete, and
which bodies are open around it. Where the next token decides whether a construct goes on or has
ended, the machine waits for that token, ends the construct if it has to, and takes the token in the
state behind it.

Faults are thus of two sorts. One that `feed` finds lies in a token, and no later token can mend it.
One that `finish` finds is that the input has ended too soon.
-/

namespace Turtle

/-- What an expression is read for. -/
inductive Slot
  /-- An argument of a call, behind others of which the latest comes first. -/
  | argument (line : Nat) (name : Text) (before : List Expr)
  | assigned (line : Nat) (name : Text)
  | count (line : Nat)
  deriving DecidableEq, Repr

/-- What is being read. -/
inductive Focus
  | statement
  | procedureName (line : Nat)
  /-- The parameters of a procedure, of which the latest comes first. -/
  | parameters (line : Nat) (name : Text) (before : List Text)
  | assignedName (line : Nat)
  | value (slot : Slot)
  /-- A single operand that an operator may follow. -/
  | operand (slot : Slot) (line : Nat) (o : Operand)
  | yard (slot : Slot) (line : Nat) (y : Yard)
  /-- The arguments of a call, of which the latest comes first. -/
  | arguments (line : Nat) (name : Text) (before : List Expr)
  | loopOpening (line : Nat) (count : Expr)
  deriving DecidableEq, Repr

/-- A statement whose body is being read. -/
inductive Opened
  | loop (line : Nat) (count : Expr)
  | procedure (line : Nat) (name : Text) (parameters : List Text)
  deriving DecidableEq, Repr

structure Parser where
  focus : Focus
  /-- The complete statements of the innermost open body, the latest first. -/
  statements : List Statement
  /-- The open statements, the innermost first, each with the statements before it. -/
  enclosing : List (Opened × List Statement)
  deriving Repr

namespace Parser

def start : Parser :=
  ⟨.statement, [], []⟩

def look (p : Parser) (focus : Focus) : Parser :=
  { p with focus }

/-! ### Completing what was read -/

def complete (p : Parser) (s : Statement) : Parser :=
  { p with focus := .statement, statements := s :: p.statements }

/-- Begins the body of a statement. -/
def enter (p : Parser) (o : Opened) : Parser :=
  ⟨.statement, [], (o, p.statements) :: p.enclosing⟩

/-- Puts an expression where it was read for. -/
def deliver (p : Parser) (e : Expr) : Slot → Parser
  | .argument line name before => p.look (.arguments line name (e :: before))
  | .assigned line name => p.complete (.assign line name e)
  | .count line => p.look (.loopOpening line e)

/-! ### Taking a token -/

/-- The kinds that can begin a statement. -/
def statementStarts : List Kind :=
  [.identifier, .keyword .loop, .keyword .make, .keyword .to]

/-- A token that begins a statement, or ends a body. -/
def feedStatement (p : Parser) (t : Token) : Except Fault Parser :=
  match t.lexeme with
  | .rightBracket =>
    match p.enclosing with
    | (.loop line count, before) :: enclosing =>
      .ok ⟨.statement, .loop line count p.statements.reverse :: before, enclosing⟩
    | _ => .error ⟨t.line, .unmatchedBracket⟩
  | .keyword .close =>
    match p.enclosing with
    | (.procedure line name parameters, before) :: enclosing =>
      .ok ⟨.statement, .procedure line name parameters p.statements.reverse :: before, enclosing⟩
    | _ => .error ⟨t.line, .strayEnd⟩
  | .keyword .loop => .ok (p.look (.value (.count t.line)))
  | .keyword .make => .ok (p.look (.assignedName t.line))
  | .keyword .to =>
    if p.enclosing.isEmpty then .ok (p.look (.procedureName t.line))
    else .error ⟨t.line, .nestedProcedure⟩
  | .identifier name => .ok (p.look (.arguments t.line name []))
  | l => .error ⟨t.line, .unexpected l statementStarts⟩

/-- A token that begins an arithmetic expression, if it is one. -/
def beginExpression? (p : Parser) (slot : Slot) (t : Token) : Option (Except Fault Parser) :=
  match t.lexeme with
  | .number digits =>
    some ((fun o => p.look (.operand slot t.line o)) <$> Operand.ofDigits t.line digits)
  | .var name => some (.ok (p.look (.operand slot t.line (.var name))))
  | .leftParen => some (.ok (p.look (.yard slot t.line .afterParen)))
  | _ => none

/-- A token that begins a value: an arithmetic expression or a quoted word. -/
def feedValue (p : Parser) (slot : Slot) (t : Token) : Except Fault Parser :=
  match p.beginExpression? slot t with
  | some result => result
  | none =>
    match t.lexeme with
    | .word name => .ok (p.deliver ⟨t.line, .single (.word name)⟩ slot)
    | l => .error ⟨t.line, .unexpected l Place.value.expected⟩

/-- A token behind an argument: the next one, or the end of the call. -/
def feedArguments (p : Parser) (line : Nat) (name : Text) (before : List Expr) (t : Token) :
    Except Fault Parser :=
  match p.beginExpression? (.argument line name before) t with
  | some result => result
  | none => (p.complete (.call line name before.reverse)).feedStatement t

def feedLoopOpening (p : Parser) (line : Nat) (count : Expr) (t : Token) : Except Fault Parser :=
  match t.lexeme with
  | .leftBracket => .ok (p.enter (.loop line count))
  | l => .error ⟨t.line, .unexpected l Place.loopOpening.expected⟩

/-- A token behind an expression that has just been delivered. -/
def feedDelivered (p : Parser) (t : Token) : Except Fault Parser :=
  match p.focus with
  | .arguments line name before => p.feedArguments line name before t
  | .loopOpening line count => p.feedLoopOpening line count t
  | _ => p.feedStatement t

def feed (p : Parser) (t : Token) : Except Fault Parser :=
  match p.focus with
  | .statement => p.feedStatement t
  | .procedureName line =>
    match t.lexeme with
    | .identifier name => .ok (p.look (.parameters line name []))
    | l => .error ⟨t.line, .unexpected l Place.procedureName.expected⟩
  | .parameters line name before =>
    match t.lexeme with
    | .var parameter => .ok (p.look (.parameters line name (parameter :: before)))
    | _ => (p.enter (.procedure line name before.reverse)).feedStatement t
  | .assignedName line =>
    match t.lexeme with
    | .word name => .ok (p.look (.value (.assigned line name)))
    | l => .error ⟨t.line, .unexpected l Place.assignedName.expected⟩
  | .value slot => p.feedValue slot t
  | .operand slot line o =>
    match t.lexeme with
    | .operator op => .ok (p.look (.yard slot line ((Yard.afterOperand o).pushOperator op)))
    | _ => (p.deliver ⟨line, .single o⟩ slot).feedDelivered t
  | .yard slot line y =>
    match y.step t with
    | .ok (some y) => .ok (p.look (.yard slot line y))
    | .ok none => (p.deliver ⟨line, .sequence y.items⟩ slot).feedDelivered t
    | .error f => .error f
  | .arguments line name before => p.feedArguments line name before t
  | .loopOpening line count => p.feedLoopOpening line count t

/-- Takes a row of tokens. -/
def feedAll (p : Parser) (tokens : List Token) : Except Fault Parser :=
  tokens.foldlM feed p

/-! ### The end of the input -/

/-- The statements, if no body is open. -/
def finishStatements (p : Parser) : Except Cause (List Statement) :=
  match p.enclosing with
  | [] => .ok p.statements.reverse
  | (.loop .., _) :: _ => .error (.endOfInput .loopBody)
  | (.procedure .., _) :: _ => .error (.endOfInput .procedureBody)

def finishDelivered (p : Parser) : Except Cause (List Statement) :=
  match p.focus with
  | .arguments line name before => (p.complete (.call line name before.reverse)).finishStatements
  | .loopOpening .. => .error (.endOfInput .loopOpening)
  | _ => p.finishStatements

def finish (p : Parser) : Except Cause (List Statement) :=
  match p.focus with
  | .statement => p.finishStatements
  | .procedureName _ => .error (.endOfInput .procedureName)
  | .parameters line name before =>
    (p.enter (.procedure line name before.reverse)).finishStatements
  | .assignedName _ => .error (.endOfInput .assignedName)
  | .value _ => .error (.endOfInput .value)
  | .operand slot line o => (p.deliver ⟨line, .single o⟩ slot).finishDelivered
  | .yard slot line y =>
    if y.expectsOperand then .error (.endOfInput .operand)
    else if y.isOpen then .error .unclosedParen
    else (p.deliver ⟨line, .sequence y.items⟩ slot).finishDelivered
  | .arguments .. => p.finishDelivered
  | .loopOpening .. => p.finishDelivered

end Parser

/-- The program that the tokens spell. What is missing at the end is reported on the last line. -/
def parse (l : Lexed) : Except Fault (List Statement) :=
  match Parser.start.feedAll l.tokens with
  | .error f => .error f
  | .ok p =>
    match p.finish with
    | .ok statements => .ok statements
    | .error cause => .error ⟨l.lastLine, cause⟩

/-- Lexes and parses a source. -/
def parseSource (source : Text) : Except Fault (List Statement) :=
  match lex source with
  | .error f => .error f
  | .ok l => parse l

end Turtle
