import Turtle.Console.Session

/-!
The interactive shell.

Input comes in pieces: a line, or as much of it as fits into the reader's buffer. Lines are
collected until they make up a fragment that does not end too soon; the fragment is then run and
collecting starts anew. A prompt asks for each line.

Whether a fragment ends too soon is seen from its text alone, so collecting needs nothing of what
the fragments did before.
-/

namespace Turtle

namespace Shell

/-! ### Pieces of the input -/

/-- The room for a piece of a line. -/
def pieceSize : Nat := 1023

/-- Reads a piece: up to the end of the line, but no more bytes than there is room for. What is
behind it comes second. -/
def piece : (room : Nat) → Text → Text × Text
  | _, [] => ([], [])
  | 0, t => ([], t)
  | room + 1, c :: t =>
    if c == Text.newline then ([c], t)
    else
      let (first, rest) := piece room t
      (c :: first, rest)

theorem length_piece (room : Nat) (t : Text) : (piece room t).2.length ≤ t.length := by
  fun_induction piece room t with
  | case1 => simp
  | case2 => simp
  | case3 room c t h => simp
  | case4 room c t h first rest hp ih =>
    simp only [hp] at ih
    exact Nat.le_succ_of_le ih

theorem length_piece_lt {room : Nat} (hroom : 0 < room) (c : UInt8) (t : Text) :
    (piece room (c :: t)).2.length < (c :: t).length := by
  obtain ⟨room, rfl⟩ := Nat.exists_eq_succ_of_ne_zero (Nat.pos_iff_ne_zero.1 hroom)
  unfold piece
  split
  · simp
  · exact Nat.lt_succ_of_le (length_piece room t)

/-- Cuts the input into pieces, given those before it, the latest first. -/
def piecesFrom (before : List Text) (t : Text) : List Text :=
  match t with
  | [] => before.reverse
  | c :: rest =>
    piecesFrom ((piece pieceSize (c :: rest)).1 :: before) (piece pieceSize (c :: rest)).2
termination_by t.length
decreasing_by exact length_piece_lt (by decide) c rest

def pieces (t : Text) : List Text :=
  piecesFrom [] t

/-! ### Collecting fragments -/

/-- Whether more input could complete a fragment: it lexes, and the parser met its end too soon. -/
def isIncomplete (fragment : Text) : Bool :=
  match parseSource fragment with
  | .ok _ => false
  | .error f => f.category == .endOfInput

/-- The text collected so far, and whether it ends with a line. -/
structure Collector where
  text : Text
  lineEnded : Bool
  deriving DecidableEq, Repr

namespace Collector

def new : Collector :=
  ⟨[], true⟩

/-- The prompt, if a new line begins. -/
def prompt? (c : Collector) : Option Event :=
  if c.lineEnded then some (.prompt !c.text.isEmpty) else none

/-- Adds a piece, of which a zero byte hides all from there on. -/
def add (c : Collector) (piece : Text) : Collector :=
  let seen := piece.takeWhile (· != 0)
  ⟨c.text ++ seen, seen.getLast? == some Text.newline⟩

/-- The fragment, once a line has completed it. -/
def fragment? (c : Collector) : Option Text :=
  if c.lineEnded && !isIncomplete c.text then some c.text else none

end Collector

/-! ### The dialogue -/

section

variable [Circle]

/-- Tells the prompt. -/
def ask (s : Session) (c : Collector) : Session :=
  match c.prompt? with
  | some e => s.tell e
  | none => s

/-- Takes a piece of input; the flag tells that the dialogue is over. -/
def take (s : Session) (c : Collector) (piece : Text) : Session × Collector × Bool :=
  let c := c.add piece
  match c.fragment? with
  | none => (s, c, false)
  | some fragment =>
    let (s, status) := s.runFragment fragment
    (s, .new, status == .exit)

/-- The end of the input: what was collected is run, so that its fault is told. -/
def close (s : Session) (c : Collector) : Session :=
  let s := s.tell .endOfInput
  if c.text.isEmpty then s else (s.runFragment c.text).1

/-- The dialogue over all pieces of the input. -/
def converse (s : Session) (c : Collector) : List Text → Session
  | [] => close (ask s c) c
  | piece :: pieces =>
    match take (ask s c) c piece with
    | (s, _, true) => s
    | (s, c, false) => converse s c pieces

def run (s : Session) (input : Text) : Session :=
  converse s .new (pieces input)

end

end Shell

end Turtle
