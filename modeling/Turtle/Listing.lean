import Turtle.Program.Parser
import Turtle.Evaluation.Execution

/-!
Listings: tokens, statements and instructions written out for a reader.

Each thing stands on lines of its own, and what belongs to a statement is indented one step further
than the statement.
-/

namespace Turtle

namespace Listing

def line (template : String) (fields : List Field) : Text :=
  Template.render (ascii template) fields

def indent (depth : Nat) : Text :=
  List.replicate (4 * depth) ' '.toUInt8

/-- Joins texts with single spaces. -/
def spaced (ts : List Text) : Text :=
  (ts.intersperse (ascii " ")).flatten

/-! ### Tokens -/

def token (t : Token) : Text :=
  line "    [line %] % %\n" [.natural t.line, .text t.lexeme.kind.name, .text t.lexeme.label]

def tokens (ts : List Token) : Text :=
  line "Tokens (%):\n" [.natural ts.length] ++ ts.flatMap token

/-! ### Statements -/

def operand : Operand → Text
  | .number n => Numeral.ofInt64 n
  | .var name => ascii ":" ++ name
  | .word name => ascii "\"" ++ name

def item : Item → Text
  | .operand o => operand o
  | .operator o => [o.symbol]

def form : Form → Text
  | .single (.number n) => ascii "Number " ++ Numeral.ofInt64 n
  | .single (.var name) => ascii "Variable :" ++ name
  | .single (.word name) => ascii "Word \"" ++ name
  | .sequence items => ascii "Postfix [" ++ spaced (items.map item) ++ ascii "]"

def expr (depth : Nat) (e : Expr) : Text :=
  indent depth ++ form e.form ++ ascii "\n"

mutual

def statement (depth : Nat) : Statement → Text
  | .procedure _ name parameters body =>
    indent depth ++ ascii "Procedure " ++ name ++ ascii " (" ++
      spaced (parameters.map (ascii ":" ++ ·)) ++ ascii "):\n" ++ statements (depth + 1) body
  | .call _ name arguments =>
    indent depth ++
      line "Call % (% %)\n" [.text name, .natural arguments.length,
        .text (ascii (if arguments.length == 1 then "arg" else "args"))] ++
      arguments.flatMap (expr (depth + 1))
  | .assign _ name value =>
    indent depth ++ ascii "Make \"" ++ name ++ ascii "\n" ++ expr (depth + 1) value
  | .loop _ count body =>
    indent depth ++ ascii "Repeat\n" ++ expr (depth + 1) count ++
      indent depth ++ ascii "Body:\n" ++ statements (depth + 1) body

def statements (depth : Nat) : List Statement → Text
  | [] => []
  | s :: rest => statement depth s ++ statements depth rest

end

def program (ss : List Statement) : Text :=
  line "Statements (%):\n" [.natural ss.length] ++ statements 1 ss

/-! ### Instructions -/

def instruction (i : Instruction) : Text :=
  spaced (i.command.name :: i.arguments.map Numeral.ofInt64) ++ ascii "\n"

def instructions (is : List Instruction) : Text :=
  line "Instructions (%):\n" [.natural is.length] ++ is.flatMap (ascii "    " ++ instruction ·)

/-! ### Sources -/

/-- The tokens of a source if it can be lexed, and its statements if it can be parsed too. -/
def source (t : Text) : Text :=
  match lex t with
  | .error _ => []
  | .ok l =>
    tokens l.tokens ++
      match parse l with
      | .error _ => []
      | .ok ss => program ss

end Listing

end Turtle
