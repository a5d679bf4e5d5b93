import Turtle.Canvas.Basic
import Turtle.Canvas.Bitmap
import Turtle.Canvas.Create
import Turtle.Canvas.Execute
import Turtle.Canvas.Fill
import Turtle.Canvas.Line
import Turtle.Command
import Turtle.Console.Directory
import Turtle.Console.FileSystem
import Turtle.Console.Options
import Turtle.Console.Run
import Turtle.Console.Session
import Turtle.Console.Shell
import Turtle.Evaluation.Arithmetic
import Turtle.Evaluation.Environment
import Turtle.Evaluation.Execution
import Turtle.Evaluation.Interpreter
import Turtle.Fault
import Turtle.Listing
import Turtle.Main
import Turtle.Notice
import Turtle.Number.Binary64
import Turtle.Number.Checked
import Turtle.Number.Circle
import Turtle.Number.Fixed
import Turtle.Number.Series
import Turtle.Program.Basic
import Turtle.Program.Copy
import Turtle.Program.Parser
import Turtle.Program.Yard
import Turtle.Proofs.Canvas.Arguments
import Turtle.Proofs.Canvas.Backdrop
import Turtle.Proofs.Canvas.Heading
import Turtle.Proofs.Canvas.Pose
import Turtle.Proofs.Canvas.Repainting
import Turtle.Proofs.Canvas.Straight
import Turtle.Proofs.Canvas.Stroke
import Turtle.Proofs.Canvas.Visible
import Turtle.Proofs.Console.CommandLine
import Turtle.Proofs.Console.Dialogue
import Turtle.Proofs.Console.Gist
import Turtle.Proofs.Console.Lines
import Turtle.Proofs.Console.Listings
import Turtle.Proofs.Console.Picture
import Turtle.Proofs.Console.Quiet
import Turtle.Proofs.Console.Saved
import Turtle.Proofs.Console.Script
import Turtle.Proofs.Console.Segments
import Turtle.Proofs.Evaluation.Agreement
import Turtle.Proofs.Evaluation.Emission
import Turtle.Proofs.Evaluation.Failing
import Turtle.Proofs.Evaluation.Fragments
import Turtle.Proofs.Evaluation.Isolation
import Turtle.Proofs.Evaluation.Limit
import Turtle.Proofs.Evaluation.Order
import Turtle.Proofs.Evaluation.Preservation
import Turtle.Proofs.Evaluation.Reach
import Turtle.Proofs.Evaluation.Scoping
import Turtle.Proofs.Evaluation.Simulation
import Turtle.Proofs.Evaluation.Tables
import Turtle.Proofs.Evaluation.Termination
import Turtle.Proofs.Evaluation.Unrolling
import Turtle.Proofs.Expression.Forest
import Turtle.Proofs.Expression.Guard
import Turtle.Proofs.Expression.Infix
import Turtle.Proofs.Expression.Postfix
import Turtle.Proofs.Expression.Reading
import Turtle.Proofs.Expression.Tree
import Turtle.Proofs.Expression.Yard
import Turtle.Proofs.Fault.Reported
import Turtle.Proofs.Grammar.Climb
import Turtle.Proofs.Grammar.Complete
import Turtle.Proofs.Grammar.Completion
import Turtle.Proofs.Grammar.Derivation
import Turtle.Proofs.Grammar.Failure
import Turtle.Proofs.Grammar.Relabel
import Turtle.Proofs.Grammar.Rounds
import Turtle.Proofs.Grammar.Sound
import Turtle.Proofs.Grammar.Unique
import Turtle.Proofs.Listing.Faithful
import Turtle.Proofs.Listing.Outline
import Turtle.Proofs.Listing.Rows
import Turtle.Proofs.Listing.Spelled
import Turtle.Proofs.Number.Exact
import Turtle.Proofs.Number.Rounding
import Turtle.Proofs.Program.Relabel
import Turtle.Proofs.Text.Buffer
import Turtle.Proofs.Token.LineBreak
import Turtle.Proofs.Token.Lookahead
import Turtle.Proofs.Token.Munch
import Turtle.Proofs.Token.Respacing
import Turtle.Proofs.Token.Row
import Turtle.Proofs.Token.Spelling
import Turtle.Text.Basic
import Turtle.Text.Bounded
import Turtle.Text.Numeral
import Turtle.Text.Template
import Turtle.Token.Basic
import Turtle.Token.Cursor
import Turtle.Token.Lexer
