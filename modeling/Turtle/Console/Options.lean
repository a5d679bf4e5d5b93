import Turtle.Notice
import Turtle.Evaluation.Interpreter

/-!
The command line: options in any order and at most one script.

Settings may be repeated, and the last one counts. The word behind an option that takes a value is
its value, whatever it looks like.
-/

namespace Turtle

structure Options where
  script : Option Text := none
  output : Text := ascii "tlogo.bmp"
  width : Nat := 800
  height : Nat := 600
  limit : Nat := Interpreter.defaultLimit
  debug : Bool := false
  interactive : Bool := false
  help : Bool := false
  deriving DecidableEq, Repr

namespace Options

/-! ### Words -/

inductive Flag
  | help
  | debug
  | interactive
  deriving DecidableEq, Repr

/-- The settings that take a value. -/
inductive Setting
  | output
  | width
  | height
  | limit
  deriving DecidableEq, Repr

/-- What a word is by its own, before it is known what stands around it. -/
inductive Word
  | flag (f : Flag)
  | setting (s : Setting)
  /-- A word that looks like an option but is none. -/
  | unknown
  | path
  deriving DecidableEq, Repr

def flags : List (Flag × Text × Text) :=
  [(.help, ascii "-h", ascii "--help"), (.debug, ascii "-d", ascii "--debug"),
    (.interactive, ascii "-i", ascii "--interactive")]

def settings : List (Setting × Text × Text) :=
  [(.output, ascii "-o", ascii "--output"), (.width, ascii "-W", ascii "--width"),
    (.height, ascii "-H", ascii "--height"), (.limit, ascii "-m", ascii "--max-depth")]

/-- Looks a word up by its short or long spelling. -/
def lookup {α : Type} (table : List (α × Text × Text)) (word : Text) : Option α :=
  (table.find? fun (_, short, long) => word == short || word == long).map (·.1)

def looksLikeOption (word : Text) : Bool :=
  1 < word.length && word.head? == some '-'.toUInt8

def classify (word : Text) : Word :=
  match lookup flags word with
  | some f => .flag f
  | none =>
    match lookup settings word with
    | some s => .setting s
    | none => if looksLikeOption word then .unknown else .path

/-! ### Values -/

/-- The longest side that a canvas may have. -/
def maxSide : Nat := 16384

def maxLimit : Nat := 2147483647

/-- An integer in a range; `option` is the word that asks for it. -/
def readWithin (option value : Text) (least greatest : Nat) : Except Notice Nat :=
  match Numeral.readInt64? value with
  | none => .error (.notAnInteger option value)
  | some n =>
    if n.toInt < least || greatest < n.toInt then
      .error (.outOfRange option least greatest n.toInt)
    else .ok n.toInt.toNat

def setFlag (o : Options) : Flag → Options
  | .help => { o with help := true }
  | .debug => { o with debug := true }
  | .interactive => { o with interactive := true }

def setValue (o : Options) (s : Setting) (option value : Text) : Except Notice Options :=
  match s with
  | .output => .ok { o with output := value }
  | .width => ({ o with width := · }) <$> readWithin option value 1 maxSide
  | .height => ({ o with height := · }) <$> readWithin option value 1 maxSide
  | .limit => ({ o with limit := · }) <$> readWithin option value 0 maxLimit

def setScript (o : Options) (path : Text) : Except Notice Options :=
  match o.script with
  | none => .ok { o with script := some path }
  | some first => .error (.secondScript first path)

/-! ### The command line -/

def readFrom (o : Options) : List Text → Except Notice Options
  | [] => .ok o
  | word :: words =>
    match classify word with
    | .flag f => readFrom (o.setFlag f) words
    | .setting s =>
      match words with
      | [] => .error (.missingValue word)
      | value :: words =>
        match o.setValue s word value with
        | .ok o => readFrom o words
        | .error n => .error n
    | .unknown => .error (.unknownOption word)
    | .path =>
      match o.setScript word with
      | .ok o => readFrom o words
      | .error n => .error n

def read (words : List Text) : Except Notice Options :=
  readFrom {} words

/-- What the program tells about its own use. -/
def usage : Text :=
  [ "Usage: tlogo [options] [script]",
    "Runs a turtle graphics script and saves the drawing as a bitmap.",
    "Without a script an interactive shell is started.",
    "",
    "Options:",
    "  -o, --output <file>    Bitmap file to write (default: tlogo.bmp).",
    "  -W, --width <n>        Canvas width in pixels (default: 800).",
    "  -H, --height <n>       Canvas height in pixels (default: 600).",
    "  -m, --max-depth <n>    Maximum procedure call depth (default: 1000).",
    "  -d, --debug            Print the tokens, statements and instructions of every fragment.",
    "  -i, --interactive      Start the interactive shell after running the script.",
    "  -h, --help             Show this message." ].flatMap (ascii · ++ ascii "\n")

end Options

end Turtle
