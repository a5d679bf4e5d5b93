import Turtle.Proofs.Text.Truncation

/-!
A bounded text in its memory.

The memory of a bounded text is as large as its capacity and may hold anything at
first. A size tells how many of its bytes are the text, and behind these a zero byte
is kept, for readers that are given no size. Nothing is ever written outside of the
memory, which is said here by writing only where there is a place: a write that does
not fit has no result, and there always is one.

From outside the buffer is the `Bounded` text it stands for, and so it holds the
beginning of all that was appended to it.
-/

namespace Turtle

structure Buffer where
  memory : Text
  size : Nat
  deriving DecidableEq, Repr

namespace Buffer

/-- Writes from a place on, if the memory has places for all of the bytes. -/
def write? (memory : Text) (place : Nat) (t : Text) : Option Text :=
  if place + t.length ≤ memory.length then
    some (memory.take place ++ (t ++ memory.drop (place + t.length)))
  else none

/-- Ends the text behind so many bytes. -/
def terminate? (memory : Text) (size : Nat) : Option Buffer :=
  (write? memory size [0]).map (⟨·, size⟩)

def new? (memory : Text) : Option Buffer :=
  terminate? memory 0

/-- Writes the part of the text that leaves a place for the zero byte, and tells
whether that was all of it. -/
def append? (b : Buffer) (t : Text) : Option (Buffer × Bool) :=
  let cut := decide (b.memory.length ≤ b.size + t.length)
  let kept := if cut then t.take (b.memory.length - 1 - b.size) else t
  (write? b.memory b.size kept).bind fun memory =>
    (terminate? memory (b.size + kept.length)).map (·, !cut)

def appendAll? (b : Buffer) : List Text → Option Buffer
  | [] => some b
  | t :: ts => (b.append? t).bind fun r => r.1.appendAll? ts

def text (b : Buffer) : Text :=
  b.memory.take b.size

/-! ### Writing -/

theorem exists_write {memory t : Text} {place : Nat} (h : place + t.length ≤ memory.length) :
    ∃ written, write? memory place t = some written ∧ written.length = memory.length ∧
      written.take (place + t.length) = memory.take place ++ t := by
  have hplace : (memory.take place).length = place := by
    rw [List.length_take]
    omega
  refine ⟨_, if_pos h, ?_, ?_⟩
  · simp only [List.length_append, hplace, List.length_drop]
    omega
  · rw [← List.append_assoc]
    apply List.take_left'
    rw [List.length_append, hplace]

theorem exists_terminate {memory : Text} {size : Nat} (h : size < memory.length) :
    ∃ b, terminate? memory size = some b ∧ b.memory.length = memory.length ∧ b.size = size ∧
      b.text = memory.take size ∧ b.memory[size]? = some 0 := by
  obtain ⟨written, hwrite, hlength, htake⟩ := exists_write (t := [0]) (Nat.succ_le_of_lt h)
  have hsize : (memory.take size).length = size := by
    rw [List.length_take]
    omega
  refine ⟨⟨written, size⟩, by rw [terminate?, hwrite, Option.map_some], hlength, rfl, ?_, ?_⟩
  · -- the zero byte is written behind the text
    have hfront := congrArg (List.take size) htake
    rwa [List.take_take, List.length_singleton, Nat.min_eq_left (Nat.le_succ size),
      List.take_left' hsize] at hfront
  · have hend : (written.take (size + 1))[size]? = some 0 := by
      rw [List.length_singleton] at htake
      rw [htake, List.getElem?_append_right (Nat.le_of_eq hsize), hsize, Nat.sub_self]
      rfl
    rwa [List.getElem?_take_of_lt (Nat.lt_succ_self size)] at hend

/-! ### Standing for a bounded text -/

variable {capacity : Nat} {b : Buffer} {c : Bounded capacity}

/-- The buffer stands for the bounded text, and ends it inside of its memory. -/
structure StandsFor (b : Buffer) (c : Bounded capacity) : Prop where
  length : b.memory.length = capacity
  size : b.size = c.size
  text : b.text = c.text
  inside : b.size < capacity
  terminated : b.memory[b.size]? = some 0

theorem exists_new {memory : Text} (hcapacity : 0 < capacity)
    (hmemory : memory.length = capacity) :
    ∃ b, new? memory = some b ∧ b.StandsFor (Bounded.empty : Bounded capacity) := by
  rw [← hmemory] at hcapacity
  obtain ⟨b, hnew, hlength, hsize, htext, hzero⟩ := exists_terminate hcapacity
  rw [← hsize] at hzero
  exact ⟨b, hnew, hlength.trans hmemory, hsize, htext, by omega, hzero⟩

/-- What the buffer writes and tells is what the bounded text keeps and tells. -/
theorem StandsFor.append?_eq (h : b.StandsFor c) (t : Text) :
    b.append? t = (write? b.memory b.size (t.take c.room)).bind fun memory =>
      (terminate? memory (b.size + (t.take c.room).length)).map (·, (c.append t).2) := by
  have hlength := h.length
  have hinside := h.inside
  have hroom : c.room = capacity - 1 - b.size := by rw [Bounded.room, h.size]
  have hkept : (if decide (b.memory.length ≤ b.size + t.length) = true then
      t.take (b.memory.length - 1 - b.size) else t) = t.take c.room := by
    split_ifs with hcut
    · rw [hlength, hroom]
    · rw [decide_eq_true_eq] at hcut
      rw [List.take_of_length_le (by omega)]
  have hflag : (!decide (b.memory.length ≤ b.size + t.length)) = (c.append t).2 := by
    rw [Bounded.append, hlength, h.size, ← decide_not, decide_eq_decide]
    exact Nat.not_le
  simp only [append?, hkept, hflag]

/-- Appending to the buffer is appending to the bounded text. -/
theorem StandsFor.append (h : b.StandsFor c) (t : Text) :
    ∃ b', b.append? t = some (b', (c.append t).2) ∧ b'.StandsFor (c.append t).1 := by
  have hlength := h.length
  have hinside := h.inside
  have hfits : b.size + (t.take c.room).length ≤ capacity - 1 := by
    rw [List.length_take, Bounded.room, ← h.size]
    omega
  have hplaces : b.size + (t.take c.room).length ≤ b.memory.length := by omega
  obtain ⟨written, hwrite, hwritten, hfront⟩ := exists_write hplaces
  -- the bytes that are kept leave a place for the zero byte
  have hend : b.size + (t.take c.room).length < written.length := by omega
  obtain ⟨b', hterminate, hlength', hsize', htext', hzero⟩ := exists_terminate hend
  have htext : b'.text = (c.append t).1.text := by
    rw [htext', hfront, ← Buffer.text, h.text]
    exact (Bounded.text_add c t).symm
  have hsize : b'.size = (c.append t).1.size := by
    rw [hsize', List.length_take, h.size]
    exact (Bounded.size_add c t).symm
  refine ⟨b', ?_, ⟨by omega, hsize, htext, by omega, hsize' ▸ hzero⟩⟩
  rw [h.append?_eq, hwrite, Option.bind_some, hterminate, Option.map_some]

theorem StandsFor.appendAll (h : b.StandsFor c) (ts : List Text) :
    ∃ b', b.appendAll? ts = some b' ∧ b'.StandsFor (ts.foldl Bounded.add c) := by
  induction ts generalizing b c with
  | nil => exact ⟨b, rfl, h⟩
  | cons t ts ih =>
      obtain ⟨b₁, hstep, h₁⟩ := h.append t
      obtain ⟨b', hrest, h'⟩ := ih h₁
      exact ⟨b', by rw [appendAll?, hstep, Option.bind_some, hrest], h'⟩

/-! ### What is kept -/

/-- The buffer holds the beginning of all that was appended to it, as much of it as
leaves a place in the memory for the zero byte behind it. -/
structure Keeps (b : Buffer) (capacity : Nat) (all : Text) : Prop where
  length : b.memory.length = capacity
  text : b.text = all.take (capacity - 1)
  size : b.size ≤ capacity - 1
  terminated : b.memory[b.size]? = some 0

theorem StandsFor.keeps {all : Text}
    (h : b.StandsFor ((Bounded.empty : Bounded capacity).add all)) : b.Keeps capacity all := by
  have hinside := h.inside
  refine ⟨h.length, ?_, by omega, h.terminated⟩
  rw [h.text, Bounded.text_add_empty]

/-- Whatever the memory held at first, texts can be appended to a new buffer one after
the other, with no write that leaves the memory. Before and after each call the buffer
holds the beginning of all that was appended so far, up to one byte less than its
capacity, and the zero byte behind it. The call tells that the text fitted exactly if
the text is empty, or all that was appended so far is held. The bounded text that is
given the same calls holds the same bytes and tells the same. -/
theorem appended_front_kept {memory : Text} (hcapacity : 1 ≤ capacity)
    (hmemory : memory.length = capacity) (before : List Text) (t : Text) :
    ∃ b b' fits, (new? memory).bind (·.appendAll? before) = some b ∧
      b.append? t = some (b', fits) ∧
      b.Keeps capacity before.flatten ∧ b'.Keeps capacity (before ++ [t]).flatten ∧
      (fits = true ↔ t = [] ∨ (before ++ [t]).flatten.length ≤ capacity - 1) ∧
      let c : Bounded capacity := before.foldl Bounded.add .empty
      c.text = b.text ∧ (c.append t).1.text = b'.text ∧ (c.append t).2 = fits := by
  obtain ⟨b₀, hnew, h₀⟩ := exists_new hcapacity hmemory
  obtain ⟨b, hbefore, h⟩ := h₀.appendAll before
  obtain ⟨b', hlast, h'⟩ := h.append t
  have hsnoc : b'.StandsFor ((before ++ [t]).foldl Bounded.add (.empty : Bounded capacity)) := by
    rw [List.foldl_append]
    exact h'
  refine ⟨b, b', _, by rw [hnew, Option.bind_some, hbefore], hlast, ?_, ?_, ?_, h.text.symm,
    h'.text.symm, rfl⟩
  · rw [Bounded.foldl_add] at h
    exact h.keeps
  · rw [Bounded.foldl_add] at hsnoc
    exact hsnoc.keeps
  · rw [Bounded.foldl_add, Bounded.append_fits_iff hcapacity, List.flatten_append,
      List.flatten_singleton, List.length_append]

/-- Of `ab` and `cd` three bytes are held in a memory of four; nothing is appended behind
the byte that was lost. -/
theorem appended_front_kept_full :
    let memory := ascii "wxyz"
    (1 ≤ 4 ∧ memory.length = 4) ∧
      ∃ b b', (new? memory).bind (·.appendAll? [ascii "ab", ascii "cd"]) = some b ∧
        b.append? (ascii "e") = some (b', false) ∧ b.text = ascii "abc" ∧
        b'.text = ascii "abc" ∧ b'.memory[b'.size]? = some 0 := by
  intro memory
  have hmemory : memory.length = 4 := rfl
  obtain ⟨b, b', fits, hbefore, hlast, hb, hb', hfits, -⟩ :=
    appended_front_kept (by decide) hmemory [ascii "ab", ascii "cd"] (ascii "e")
  have hlost : fits = false := by
    rw [← Bool.not_eq_true, hfits]
    decide
  subst hlost
  exact ⟨⟨by decide, hmemory⟩, b, b', hbefore, hlast, hb.text, hb'.text, hb'.terminated⟩

end Buffer

end Turtle
