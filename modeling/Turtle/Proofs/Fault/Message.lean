import Turtle.Fault
import Turtle.Proofs.Text.Truncation

/-!
Messages in full.

A message is put together piece by piece, and each piece is written into what room
the pieces before it have left. So it is the beginning of a text that is written
down here without regard to room: the heading, what happened, and the kinds of
tokens that were expected. Names enter it in full, and tokens with their labels.
-/

namespace Turtle

namespace Message

/-- What is said behind the first of the kinds: the others, the last one after an "or". -/
def others : List Kind → Text
  | [] => []
  | [k] => ascii " or " ++ k.name
  | k :: j :: kinds => ascii ", " ++ k.name ++ others (j :: kinds)

/-- The sentence that says what was expected, if that is known. -/
def expectation : List Kind → Text
  | [] => []
  | k :: kinds => ascii " Expected " ++ k.name ++ others kinds ++ ascii "."

theorem addKinds_cons (m : Message) (k : Kind) (kinds : List Kind) :
    m.addKinds (k :: kinds) = m.add (k.name ++ others kinds) := by
  induction kinds generalizing m k with
  | nil => rw [addKinds, others, List.append_nil]
  | cons j kinds ih =>
      cases kinds with
      | nil => rw [addKinds, others, Bounded.add_add, Bounded.add_add]
      | cons i kinds =>
          have hnext : m.addKinds (k :: j :: i :: kinds) =
              addKinds ((m.add k.name).add (ascii ", ")) (j :: i :: kinds) := rfl
          rw [hnext, ih, others, Bounded.add_add, Bounded.add_add]
          simp only [List.append_assoc]

theorem addExpected_eq (m : Message) (kinds : List Kind) :
    m.addExpected kinds = m.add (expectation kinds) := by
  cases kinds with
  | nil =>
      rw [expectation, Bounded.add_nil]
      rfl
  | cons k kinds =>
      rw [addExpected, if_neg (by simp), addKinds_cons, Bounded.add_add, Bounded.add_add,
        expectation]
      simp only [List.append_assoc]

end Message

namespace Fault

/-- All that there is to say about a fault. -/
def fullText (f : Fault) : Text :=
  Template.render (ascii f.stage.heading) [.natural f.line] ++
    Template.render (ascii f.cause.body.1) f.cause.body.2 ++
    Message.expectation f.cause.expected

/-- The message says as much of it as there is room for. -/
theorem message_eq (f : Fault) : f.message = f.fullText.take 511 := by
  rw [message, Bounded.addFormat_eq, Bounded.addFormat_eq, Message.addExpected_eq,
    Bounded.add_add, Bounded.add_add, Bounded.text_add_empty, ← List.append_assoc, fullText]

end Fault

end Turtle
