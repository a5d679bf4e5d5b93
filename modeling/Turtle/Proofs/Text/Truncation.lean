import Mathlib.Tactic.Cases
import Mathlib.Tactic.SplitIfs
import Turtle.Text.Template
import Turtle.Token.Basic

/-!
Writing into a bounded text is writing without bounds, cut off at the end.

A buffer refuses bytes one at a time, and the refusal may come in the middle of a
literal, of a text, or of a number. But as it goes on refusing from then on, all
that can be told from outside is how much it holds: appending one text after the
other comes to the same as appending all of them at once, and a template stops at
the byte at which its whole text would have been cut.
-/

namespace Turtle

namespace Bounded

variable {capacity : Nat} {b : Bounded capacity}

/-! ### Appending -/

theorem text_empty : (empty : Bounded capacity).text = [] :=
  rfl

theorem room_empty : (empty : Bounded capacity).room = capacity - 1 :=
  rfl

theorem text_add (b : Bounded capacity) (t : Text) :
    (b.add t).text = b.text ++ t.take b.room := by
  simp [add, append, text]

theorem text_injective {b' : Bounded capacity} (h : b.text = b'.text) : b = b' := by
  obtain ⟨bytes⟩ := b
  obtain ⟨bytes'⟩ := b'
  exact congrArg mk (Array.toList_inj.1 h)

theorem length_text (b : Bounded capacity) : b.text.length = b.size :=
  Array.length_toList

theorem size_add (b : Bounded capacity) (t : Text) :
    (b.add t).size = b.size + min b.room t.length := by
  rw [← length_text, text_add, List.length_append, List.length_take, length_text]

theorem room_add (b : Bounded capacity) (t : Text) : (b.add t).room = b.room - t.length := by
  have hsize := size_add b t
  simp only [room] at *
  omega

theorem add_nil (b : Bounded capacity) : b.add [] = b := by
  apply text_injective
  rw [text_add, List.take_nil, List.append_nil]

/-- Texts may be appended one by one or together. -/
theorem add_add (b : Bounded capacity) (t u : Text) : (b.add t).add u = b.add (t ++ u) := by
  apply text_injective
  rw [text_add, text_add, text_add, room_add, List.take_append, List.append_assoc]

theorem foldl_add (b : Bounded capacity) (ts : List Text) :
    ts.foldl add b = b.add ts.flatten := by
  induction ts generalizing b with
  | nil => exact (add_nil b).symm
  | cons t ts ih => rw [List.foldl_cons, ih, add_add, List.flatten_cons]

/-- What follows on a text that does not fit is lost. -/
theorem add_append_of_room_le {t : Text} (h : b.room ≤ t.length) (u : Text) :
    b.add (t ++ u) = b.add t := by
  apply text_injective
  rw [text_add, text_add, List.take_append_of_le_length h]

theorem append_singleton (b : Bounded capacity) (c : UInt8) :
    b.append [c] = (b.add [c], decide (1 ≤ b.room)) := by
  have hfits : b.size + 1 < capacity ↔ 1 ≤ b.room := by
    rw [room]
    omega
  rw [append, add, append, List.length_singleton, decide_eq_decide.2 hfits]

/-! ### Templates -/

/-- How many bytes of a text fit. -/
def fitting (b : Bounded capacity) (t : Text) : Nat :=
  min t.length b.room

theorem fitting_nil (b : Bounded capacity) : b.fitting [] = 0 :=
  Nat.zero_min b.room

theorem fitting_append (b : Bounded capacity) (t u : Text) :
    b.fitting (t ++ u) = b.fitting t + (b.add t).fitting u := by
  rw [fitting, fitting, fitting, room_add, List.length_append]
  omega

/-- Behind a text that does not fit, nothing fits. -/
theorem fitting_append_of_room_le {t : Text} (h : b.room ≤ t.length) (u : Text) :
    b.fitting (t ++ u) = b.fitting t := by
  rw [fitting, fitting, List.length_append]
  omega

/-- Byte by byte a text comes as far as at once, and is counted as far as it comes. -/
theorem feed_eq (b : Bounded capacity) (count : Nat) (t : Text) :
    b.feed count t = (b.add t, count + b.fitting t, decide (t.length ≤ b.room)) := by
  induction t generalizing b count with
  | nil =>
      rw [feed, add_nil, fitting_nil, Nat.add_zero, List.length_nil, decide_eq_true (Nat.zero_le _)]
  | cons c rest ih =>
      -- either the first byte is kept, or nothing is from then on
      have hcons : c :: rest = [c] ++ rest := rfl
      rw [feed, append_singleton, hcons]
      by_cases hroom : 1 ≤ b.room
      · have hone : b.fitting [c] = 1 := Nat.min_eq_left hroom
        have hrest : rest.length ≤ b.room - 1 ↔ ([c] ++ rest).length ≤ b.room := by
          rw [List.length_append, List.length_singleton]
          omega
        simp only [hroom, decide_true]
        rw [ih, add_add, fitting_append, hone, room_add, List.length_singleton,
          decide_eq_decide.2 hrest, Nat.add_assoc]
      · have hfull : b.room ≤ ([c] : Text).length := by
          rw [List.length_singleton]
          omega
        have hnone : b.fitting [c] = 0 := by
          rw [fitting]
          omega
        have hlost : ¬ ([c] ++ rest).length ≤ b.room := by
          rw [List.length_append, List.length_singleton]
          omega
        simp only [hroom, decide_false]
        rw [add_append_of_room_le hfull, fitting_append_of_room_le hfull, hnone, Nat.add_zero,
          decide_eq_false hlost]

/-- A piece of a template, and what follows if the piece fits. -/
theorem formatFrom_behind {template rest : Text} {fields : List Field}
    (h : ∀ (b : Bounded capacity) (count : Nat),
      b.formatFrom count template fields = (b.add rest, count + b.fitting rest))
    (b : Bounded capacity) (count : Nat) (piece : Text) :
    (match b.feed count piece with
      | (b, count, true) => b.formatFrom count template fields
      | (b, count, false) => (b, count)) =
      (b.add (piece ++ rest), count + b.fitting (piece ++ rest)) := by
  rw [feed_eq]
  by_cases hfits : piece.length ≤ b.room
  · simp only [hfits, decide_true]
    rw [h, add_add, fitting_append, Nat.add_assoc]
  · have hfull : b.room ≤ piece.length := Nat.le_of_not_le hfits
    simp only [hfits, decide_false]
    rw [add_append_of_room_le hfull, fitting_append_of_room_le hfull]

/-- Filling in a template appends its text, and counts what was appended. -/
theorem formatFrom_eq (b : Bounded capacity) (count : Nat) (template : Text)
    (fields : List Field) :
    b.formatFrom count template fields =
      (b.add (Template.render template fields),
        count + b.fitting (Template.render template fields)) := by
  induction template generalizing b count fields with
  | nil => rw [formatFrom, Template.render, add_nil, fitting_nil, Nat.add_zero]
  | cons c rest ih =>
      rw [formatFrom.eq_def, Template.render.eq_def]
      dsimp only
      split_ifs with hplaceholder
      · cases fields with
        | nil => rw [add_nil, fitting_nil, Nat.add_zero]
        | cons f fields => exact formatFrom_behind (fun b count => ih b count fields) b count _
      · exact formatFrom_behind (fun b count => ih b count fields) b count [c]

theorem format_eq (b : Bounded capacity) (template : Text) (fields : List Field) :
    b.format template fields =
      (b.add (Template.render template fields), b.fitting (Template.render template fields)) := by
  rw [format, formatFrom_eq, Nat.zero_add]

theorem addFormat_eq (b : Bounded capacity) (template : String) (fields : List Field) :
    b.addFormat template fields = b.add (Template.render (ascii template) fields) := by
  rw [addFormat, format_eq]

/-- An empty buffer keeps the beginning of a text. -/
theorem text_add_empty (t : Text) :
    ((empty : Bounded capacity).add t).text = t.take (capacity - 1) := by
  rw [text_add, text_empty, room_empty, List.nil_append]

/-- Behind the beginning of a text, another text is kept as a whole if it is empty or if
both fit together. -/
theorem append_fits_iff (hcapacity : 1 ≤ capacity) (t u : Text) :
    (((empty : Bounded capacity).add t).append u).2 = true ↔
      u = [] ∨ t.length + u.length ≤ capacity - 1 := by
  have hsize := size_add (empty : Bounded capacity) t
  have hempty : (empty : Bounded capacity).size = 0 := rfl
  rw [hempty, room_empty, Nat.zero_add] at hsize
  rw [append, decide_eq_true_eq, hsize, ← List.length_eq_zero_iff]
  omega

end Bounded

/-- A label is the spelling of the token, as far as there is room. -/
theorem Lexeme.label_eq (l : Lexeme) : l.label = l.spelling.take 127 := by
  rw [label, Bounded.add_add, Bounded.text_add_empty, spelling]

/-! ### Doubles -/

/-- The text of a field, however long it is. -/
def Field.full : Field → Text
  | .text t => t
  | .byte b => [b]
  | .flag value => ascii (if value then "true" else "false")
  | .natural n => Numeral.ofNat n
  | .integer n => Numeral.ofInt n
  | .double x => x.fixed

/-- Only a double is cut before it is written. -/
theorem Field.render_eq (f : Field) :
    f.render = f.full ∨ ∃ x, f = .double x ∧ f.render = f.full.take 127 := by
  cases f with
  | flag value => cases value <;> exact .inl rfl
  | double x => exact .inr ⟨x, rfl, rfl⟩
  | _ => exact .inl rfl

/-- The text of a template, in which the texts of the fields are told. -/
def Template.renderWith (told : Field → Text) : (template : Text) → List Field → Text
  | [], _ => []
  | c :: rest, fields =>
    if c == placeholder then
      match fields with
      | [] => []
      | f :: fields => told f ++ renderWith told rest fields
    else c :: renderWith told rest fields

theorem Template.renderWith_render (template : Text) (fields : List Field) :
    renderWith Field.render template fields = render template fields := by
  induction template generalizing fields with
  | nil => rw [renderWith, render]
  | cons c rest ih =>
      rw [renderWith.eq_def, render.eq_def]
      dsimp only
      split_ifs
      · cases fields with
        | nil => rfl
        | cons f fields => exact congrArg (f.render ++ ·) (ih fields)
      · exact congrArg (c :: ·) (ih fields)

/-- A double is cut as well: `2 ^ 400` has 121 digits, and the last of its six
decimals is lost in any buffer. -/
theorem Bounded.not_format_full :
    ¬ ∀ (capacity : Nat) (template : Text) (fields : List Field), 0 < capacity →
      let r := Template.renderWith Field.full template fields
      let written := (empty : Bounded capacity).format template fields
      written.1.text = r.take (min r.length (capacity - 1)) ∧
        written.2 = min r.length (capacity - 1) := by
  intro h
  have hcount := (h 512 (ascii "%") [.double (.ofBits 0x58F0000000000000)] (by decide)).2
  revert hcount
  decide +kernel

end Turtle
