import Turtle.Evaluation.Interpreter
import Turtle.Proofs.Fault.Message

/-!
Telling a fault in a record.

Whoever runs sources hands over a record, the same one for every run. A run clears
it first, and where a fault is found it is filled in step by step: begun anew with
the stage, the type and the line, then the message in pieces, and behind these the
fields that only some types have. The kinds of tokens that are expected are noted
one after the other, and there is room for eight.

Nothing of what the record held before is left, and in the end it holds what the
fault says, if no more than eight kinds are expected.
-/

namespace Turtle

structure Diagnosis where
  stage : Stage
  /-- There is none as long as there is no fault. -/
  category : Option Category
  line : Nat
  expectedCount : Nat
  found : Option Kind
  expected : List Kind
  message : Message
  deriving DecidableEq, Repr

namespace Diagnosis

variable {d : Diagnosis} {f : Fault} {stage : Stage}

/-! ### Filling it in -/

/-- How many kinds can be noted. -/
def room : Nat := 8

def clear (d : Diagnosis) : Diagnosis :=
  { d with
    stage := .lexer, category := none, line := 0, expectedCount := 0, found := none,
    expected := [], message := .empty }

def say (d : Diagnosis) (t : Text) : Diagnosis :=
  { d with message := d.message.add t }

def sayFormat (d : Diagnosis) (template : String) (fields : List Field) : Diagnosis :=
  { d with message := d.message.addFormat template fields }

def start (d : Diagnosis) (stage : Stage) (category : Category) (line : Nat) : Diagnosis :=
  { d.clear with stage, category := some category, line }.sayFormat stage.heading [.natural line]

/-- Notes a kind, if there is room. -/
def note (d : Diagnosis) (k : Kind) : Diagnosis :=
  { d with expected := if d.expected.length < room then d.expected ++ [k] else d.expected }

/-- Names and notes the kinds from the given place on. -/
def expectFrom (d : Diagnosis) (total place : Nat) : List Kind → Diagnosis
  | [] => d
  | k :: kinds =>
    let separated :=
      if 0 < place then d.say (ascii (if place + 1 = total then " or " else ", ")) else d
    ((separated.say k.name).note k).expectFrom total (place + 1) kinds

def expect (d : Diagnosis) (kinds : List Kind) : Diagnosis :=
  if kinds.isEmpty then d
  else ((d.say (ascii " Expected ")).expectFrom kinds.length 0 kinds).say (ascii ".")

/-- Tells the fault that a stage has found. -/
def tell (d : Diagnosis) (stage : Stage) (f : Fault) : Diagnosis :=
  let d := (d.start stage f.category f.line).sayFormat f.cause.body.1 f.cause.body.2
  match f.cause with
  | .endOfInput place => d.expect place.expected
  | .unexpected l kinds => { d with found := some l.kind }.expect kinds
  | .nestedProcedure => { d with found := some (.keyword .to) }
  | .strayEnd => { d with found := some (.keyword .close) }
  | .argumentCount _ n _ => { d with expectedCount := n }
  | _ => d

/-! ### What it holds -/

/-- The record of a run without fault. -/
structure Cleared (d : Diagnosis) : Prop where
  stage : d.stage = .lexer
  category : d.category = none
  line : d.line = 0
  expectedCount : d.expectedCount = 0
  found : d.found = none
  expected : d.expected = []
  message : d.message.text = []

theorem cleared_clear (d : Diagnosis) : d.clear.Cleared :=
  ⟨rfl, rfl, rfl, rfl, rfl, rfl, rfl⟩

/-- The record holds what a fault says. -/
structure Tells (d : Diagnosis) (f : Fault) : Prop where
  stage : d.stage = f.stage
  category : d.category = some f.category
  line : d.line = f.line
  expectedCount : d.expectedCount = f.cause.expectedCount
  found : d.found = f.cause.found
  expected : d.expected = f.cause.expected
  message : d.message.text = f.message

theorem note_eq (h : d.expected.length < room) (k : Kind) :
    d.note k = { d with expected := d.expected ++ [k] } := by
  rw [note, if_pos h]

theorem expectFrom_eq {total place : Nat} {kinds : List Kind} (hplace : 0 < place)
    (htotal : place + kinds.length = total) (hroom : d.expected.length + kinds.length ≤ room) :
    d.expectFrom total place kinds =
      { d with
        expected := d.expected ++ kinds
        message := d.message.add (Message.others kinds) } := by
  induction kinds generalizing d place with
  | nil => rw [expectFrom, Message.others, Bounded.add_nil, List.append_nil]
  | cons k kinds ih =>
      rw [List.length_cons] at htotal hroom
      rw [expectFrom, if_pos hplace, note_eq (by simp only [say]; omega), ih (by omega) (by omega)
        (by simp only [say, List.length_append, List.length_singleton]; omega)]
      simp only [say, Bounded.add_add, List.append_assoc, List.singleton_append]
      cases kinds with
      | nil =>
          rw [if_pos (by simpa using htotal), Message.others, Message.others, List.append_nil]
      | cons j kinds =>
          rw [List.length_cons] at htotal
          rw [if_neg (by omega), Message.others]
          simp only [List.append_assoc]

theorem expect_eq {kinds : List Kind} (hroom : d.expected.length + kinds.length ≤ room) :
    d.expect kinds =
      { d with
        expected := d.expected ++ kinds
        message := d.message.add (Message.expectation kinds) } := by
  cases kinds with
  | nil =>
      rw [expect, if_pos List.isEmpty_nil, Message.expectation, Bounded.add_nil, List.append_nil]
  | cons k kinds =>
      rw [List.length_cons] at hroom
      -- the first kind stands alone, and every other one behind a separator
      rw [expect, if_neg (by simp), expectFrom, if_neg (Nat.lt_irrefl 0),
        note_eq (by simp only [say]; omega), expectFrom_eq Nat.one_pos]
      · simp only [say, Bounded.add_add, List.append_assoc, List.singleton_append,
          Message.expectation]
      · rw [List.length_cons]
        omega
      · simp only [say, List.length_append, List.length_singleton]
        omega

/-- Telling a fault leaves nothing of what the record held. -/
theorem tell_eq (d : Diagnosis) (stage : Stage) (hroom : f.cause.expected.length ≤ room) :
    d.tell stage f =
      { stage
        category := some f.category
        line := f.line
        expectedCount := f.cause.expectedCount
        found := f.cause.found
        expected := f.cause.expected
        message :=
          ((Bounded.empty.addFormat stage.heading [.natural f.line]).addFormat
            f.cause.body.1 f.cause.body.2).add (Message.expectation f.cause.expected) } := by
  obtain ⟨line, cause⟩ := f
  cases cause with
  | endOfInput place => exact expect_eq (Nat.le_trans (Nat.le_of_eq (Nat.zero_add _)) hroom)
  | unexpected l kinds => exact expect_eq (Nat.le_trans (Nat.le_of_eq (Nat.zero_add _)) hroom)
  | _ => exact congrArg (Diagnosis.mk _ _ _ _ _ _) (Bounded.add_nil _).symm

theorem tells_tell (d : Diagnosis) (hstage : f.stage = stage)
    (hroom : f.cause.expected.length ≤ room) : (d.tell stage f).Tells f := by
  subst hstage
  rw [tell_eq d f.stage hroom]
  refine ⟨rfl, rfl, rfl, rfl, rfl, rfl, ?_⟩
  rw [Fault.message, Message.addExpected_eq]

end Diagnosis

/-! ### Running a source -/

/-- What running a source with a record yields. -/
structure Attempt where
  succeeded : Bool
  interpreter : Interpreter
  instructions : Array Instruction
  diagnosis : Diagnosis

/-- Runs a source stage by stage, and tells in the record what a stage rejects. -/
def Interpreter.attempt (i : Interpreter) (source : Text) (d : Diagnosis) : Attempt :=
  let d := d.clear
  match lex source with
  | .error f => ⟨false, i, #[], d.tell .lexer f⟩
  | .ok l =>
    match parse l with
    | .error f => ⟨false, i, #[], d.tell .parser f⟩
    | .ok statements =>
      match Turtle.run i.limit statements ⟨i.environment, #[]⟩ with
      | (m, none) => ⟨true, { i with environment := m.environment }, m.emitted, d⟩
      | (m, some f) =>
        ⟨false, { i with environment := m.environment }, m.emitted, d.tell .runtime f⟩

end Turtle
