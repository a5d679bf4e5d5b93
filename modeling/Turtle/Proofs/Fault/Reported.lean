import Turtle.Proofs.Evaluation.Failing
import Turtle.Proofs.Fault.Diagnosis
import Turtle.Proofs.Grammar.Offending
import Turtle.Proofs.Token.Places

/-!
What a record tells of a run.

Each of the three stages rejects sources for reasons of its own, and each reason
carries what its type asks for. So it is enough to know which stage has rejected a
source to know which fields of the record are filled in. Where the lexer or the
parser has rejected it, the line leads to a place in the source: to a byte at which
no token begins, to the first token that no program has behind those before it, or
to the end.
-/

namespace Turtle

/-! ### What the stages report -/

/-- The stage rejects the source with this fault. -/
def Interpreter.Rejects (i : Interpreter) (source : Text) : Stage → Fault → Prop
  | .lexer, f => lex source = .error f
  | .parser, f => ∃ l, lex source = .ok l ∧ parse l = .error f
  | .runtime, f => ∃ l statements, lex source = .ok l ∧ parse l = .ok statements ∧
      (Turtle.run i.limit statements ⟨i.environment, #[]⟩).2 = some f

/-- Only the parser says what it expected. -/
theorem Cause.expected_of_stage {cause : Cause} (h : cause.category.stage ≠ .parser) :
    cause.expected = [] := by
  cases cause with
  | endOfInput place => exact absurd rfl h
  | unexpected l kinds => exact absurd rfl h
  | _ => rfl

namespace Interpreter

variable {i : Interpreter} {source : Text} {stage : Stage} {f : Fault}

theorem Rejects.stage_eq (h : i.Rejects source stage f) : f.stage = stage := by
  cases stage with
  | lexer =>
      obtain ⟨b, hb⟩ := cause_of_lex_error h
      rw [Fault.stage, Fault.category, hb]
      rfl
  | parser =>
      obtain ⟨l, -, hparse⟩ := h
      exact (parse_error_at hparse).1
  | runtime =>
      obtain ⟨l, statements, -, -, hrun⟩ := h
      exact stage_of_run hrun

/-- There is room for all kinds that any stage expects. -/
theorem Rejects.expected_le (h : i.Rejects source stage f) :
    f.cause.expected.length ≤ Diagnosis.room := by
  have hstage := h.stage_eq
  cases stage with
  | parser =>
      obtain ⟨l, -, hparse⟩ := h
      exact (parse_error_at hparse).2.1.trans (by decide)
  | _ =>
      have hother : f.cause.category.stage ≠ .parser := by
        rw [← Fault.category, ← Fault.stage, hstage]
        decide
      rw [Cause.expected_of_stage hother]
      exact Nat.zero_le _

theorem Rejects.tells (h : i.Rejects source stage f) (d : Diagnosis) :
    (d.tell stage f).Tells f :=
  d.tells_tell h.stage_eq h.expected_le

/-- Either all stages go through, or one of them rejects the source and is told in
the record. -/
theorem attempt_cases (i : Interpreter) (source : Text) (d : Diagnosis) :
    let r := i.run source
    (r.fault = none ∧ i.attempt source d = ⟨true, r.interpreter, r.instructions, d.clear⟩) ∨
      ∃ stage f, i.Rejects source stage f ∧ r.fault = some f ∧
        i.attempt source d = ⟨false, r.interpreter, r.instructions, d.clear.tell stage f⟩ := by
  rw [attempt, run, parseSource]
  cases hlex : lex source with
  | error f => exact .inr ⟨.lexer, f, hlex, rfl, rfl⟩
  | ok l =>
      dsimp only
      cases hparse : parse l with
      | error f => exact .inr ⟨.parser, f, ⟨l, hlex, hparse⟩, rfl, rfl⟩
      | ok statements =>
          dsimp only
          cases hrun : Turtle.run i.limit statements ⟨i.environment, #[]⟩ with
          | mk m fault =>
              cases fault with
              | none => exact .inl ⟨rfl, rfl⟩
              | some f =>
                  refine .inr ⟨.runtime, f, ⟨l, statements, hlex, hparse, ?_⟩, rfl, rfl⟩
                  rw [hrun]

/-- What the record held before makes no difference. -/
theorem attempt_eq (i : Interpreter) (source : Text) (d d' : Diagnosis) :
    i.attempt source d' = i.attempt source d :=
  rfl

end Interpreter

/-! ### Places -/

/-- Behind a text that is lexed stands a byte that begins no token. -/
def StrayAt (source pre : Text) (c : UInt8) : Prop :=
  ∃ post, source = pre ++ c :: post ∧ (∃ l, lex pre = .ok l) ∧ beginsToken c = true ∧
    ∀ (p : Pattern) (s : Text), s <+: c :: post → ¬ p.Matches s

/-- Behind the text stands the first token that no program has behind the tokens
before it. -/
def OffendsAt (source pre : Text) (t : Token) : Prop :=
  ∃ l before after post, lex source = .ok l ∧ l.tokens = before ++ t :: after ∧
    source = pre ++ (t.lexeme.spelling ++ post) ∧ lex pre = .ok ⟨before, t.line⟩ ∧
    BeginsProgram before ∧ ¬ BeginsProgram (before ++ [t])

theorem Text.newlines_le_of_append {source pre post : Text} (h : source = pre ++ post) :
    pre.newlines ≤ source.newlines := by
  rw [h, Text.newlines_append]
  exact Nat.le_add_right _ _

namespace Interpreter.Rejects

variable {i : Interpreter} {source : Text} {f : Fault}

theorem exists_strayAt (h : i.Rejects source .lexer f) :
    ∃ pre c, StrayAt source pre c ∧ f.cause = .strayByte c ∧ f.line = pre.newlines + 1 := by
  obtain ⟨pre, c, post, hsource, hpre, hbegins, hnone, rfl⟩ := exists_stray h
  exact ⟨pre, c, ⟨post, hsource, hpre, hbegins, hnone⟩, rfl, rfl⟩

theorem line_of_tooSoon (h : i.Rejects source .parser f) (hsoon : f.cause.tooSoon = true) :
    f.line = source.newlines + 1 := by
  obtain ⟨l, hlex, hparse⟩ := h
  obtain ⟨-, -, ⟨-, hline⟩ | ⟨hlate, -⟩⟩ := parse_error_at hparse
  · rw [hline, lastLine_of_lex hlex]
  · rw [hlate] at hsoon
    cases hsoon

theorem exists_offendsAt (h : i.Rejects source .parser f) (hlate : f.cause.tooSoon = false) :
    ∃ pre t, OffendsAt source pre t ∧ f.line = pre.newlines + 1 ∧ f.line = t.line ∧
      ∀ k, f.cause.found = some k → k = t.lexeme.kind := by
  obtain ⟨l, hlex, hparse⟩ := h
  obtain ⟨-, -, ⟨hsoon, -⟩ | ⟨-, before, t, after, htokens, hblames, hbegins, hnot⟩⟩ :=
    parse_error_at hparse
  · rw [hlate] at hsoon
    cases hsoon
  · obtain ⟨pre, post, hsource, hpre, hline⟩ := exists_place hlex htokens
    exact ⟨pre, t, ⟨l, before, after, post, hlex, htokens, hsource, hpre, hbegins, hnot⟩,
      hblames.line.trans hline, hblames.line, hblames.found⟩

/-- The line of a fault is a line of the source. -/
theorem line_le {stage : Stage} (h : i.Rejects source stage f) (hstage : stage ≠ .runtime) :
    1 ≤ f.line ∧ f.line ≤ 1 + source.newlines := by
  have hline : ∀ {pre post : Text}, source = pre ++ post → f.line = pre.newlines + 1 →
      1 ≤ f.line ∧ f.line ≤ 1 + source.newlines := by
    intro pre post hsource hline
    have hle := Text.newlines_le_of_append hsource
    omega
  cases stage with
  | lexer =>
      obtain ⟨pre, c, ⟨post, hsource, -⟩, -, hat⟩ := exists_strayAt h
      exact hline hsource hat
  | parser =>
      cases hsoon : f.cause.tooSoon with
      | true => exact hline (List.append_nil source).symm (line_of_tooSoon h hsoon)
      | false =>
          obtain ⟨pre, t, ⟨l, before, after, post, -, -, hsource, -⟩, hat, -⟩ :=
            exists_offendsAt h hsoon
          exact hline hsource hat
  | runtime => exact absurd rfl hstage

end Interpreter.Rejects

/-! ### What the fields belong to -/

namespace Cause

variable {cause : Cause}

theorem isSome_found_iff : cause.found.isSome = true ↔ cause.category = .unexpectedToken := by
  cases cause <;> simp [found, category]

theorem category_of_expected (h : cause.expected ≠ []) :
    cause.category = .unexpectedToken ∨ cause.category = .endOfInput := by
  cases cause with
  | endOfInput place => exact .inr rfl
  | unexpected l kinds => exact .inl rfl
  | _ => exact absurd rfl h

theorem category_of_expectedCount (h : cause.expectedCount ≠ 0) :
    cause.category = .argumentCount := by
  cases cause with
  | argumentCount name expected got => rfl
  | _ => exact absurd rfl h

end Cause

namespace Interpreter

/-- The record of a run depends on nothing that it held before. It is cleared
exactly if the run succeeds. Otherwise it tells the fault with which a stage has
rejected the source: it holds a type of this stage, a token as found exactly if it
is unexpected, expected tokens only if a token is unexpected or missing, and a
number of arguments only if it was not met. The line of a fault of the lexer or the
parser is a line of the source: that of the byte or of the token that cannot be
there, or the last one if the input ends too soon. -/
theorem attempt_reported (i : Interpreter) (source : Text) (d : Diagnosis) :
    let a := i.attempt source d
    (a.interpreter = (i.run source).interpreter ∧ a.instructions = (i.run source).instructions ∧
        (a.succeeded = true ↔ (i.run source).fault = none)) ∧
      (∀ d', i.attempt source d' = a) ∧
      (a.succeeded = true ↔ a.diagnosis.Cleared) ∧
      (a.succeeded = false → ∃ f, (i.run source).fault = some f ∧ a.diagnosis.Tells f ∧
        i.Rejects source a.diagnosis.stage f ∧ f.category.stage = a.diagnosis.stage ∧
        (a.diagnosis.found.isSome = true ↔ f.category = .unexpectedToken) ∧
        (a.diagnosis.expected ≠ [] → f.category = .unexpectedToken ∨ f.category = .endOfInput) ∧
        (a.diagnosis.expectedCount ≠ 0 → f.category = .argumentCount) ∧
        (a.diagnosis.stage ≠ .runtime →
          1 ≤ a.diagnosis.line ∧ a.diagnosis.line ≤ 1 + source.newlines) ∧
        (a.diagnosis.stage = .lexer → ∃ pre c, StrayAt source pre c ∧ f.cause = .strayByte c ∧
          a.diagnosis.line = pre.newlines + 1) ∧
        (a.diagnosis.stage = .parser →
          if f.category = .endOfInput ∨ f.cause = .unclosedParen then
            a.diagnosis.line = source.newlines + 1
          else ∃ pre t, OffendsAt source pre t ∧ a.diagnosis.line = pre.newlines + 1 ∧
            a.diagnosis.line = t.line ∧
            ∀ k, a.diagnosis.found = some k → k = t.lexeme.kind)) := by
  intro a
  refine ⟨?_, fun d' => attempt_eq i source d d', ?_⟩
  · rcases attempt_cases i source d with ⟨hnone, hattempt⟩ | ⟨stage, f, -, hsome, hattempt⟩
    · simp [a, hattempt, hnone]
    · simp [a, hattempt, hsome]
  rcases attempt_cases i source d with ⟨-, hattempt⟩ | ⟨stage, f, hrejects, hsome, hattempt⟩
  · have hcleared : a.diagnosis.Cleared := by
      simp only [a, hattempt]
      exact d.cleared_clear
    have hsucceeded : a.succeeded = true := by simp only [a, hattempt]
    exact ⟨iff_of_true hsucceeded hcleared, fun hfailed => by simp [hsucceeded] at hfailed⟩
  · have htells : a.diagnosis.Tells f := by
      simp only [a, hattempt]
      exact hrejects.tells d.clear
    have hfailed : a.succeeded = false := by simp only [a, hattempt]
    have hstage : a.diagnosis.stage = stage := htells.stage.trans hrejects.stage_eq
    refine ⟨?_, fun _ => ⟨f, hsome, htells, ?_, htells.stage.symm, ?_, ?_, ?_, ?_, ?_, ?_⟩⟩
    · rw [hfailed]
      -- a record that tells a fault has its type
      refine iff_of_false Bool.false_ne_true fun hcleared => ?_
      have hnone := hcleared.category
      rw [htells.category] at hnone
      cases hnone
    · rw [hstage]
      exact hrejects
    · rw [htells.found]
      exact Cause.isSome_found_iff
    · rw [htells.expected]
      exact Cause.category_of_expected
    · rw [htells.expectedCount]
      exact Cause.category_of_expectedCount
    · rw [hstage, htells.line]
      exact hrejects.line_le
    · rw [hstage, htells.line]
      rintro rfl
      exact hrejects.exists_strayAt
    · rw [hstage, htells.line, htells.found]
      rintro rfl
      split_ifs with hsoon
      · exact hrejects.line_of_tooSoon ((tooSoon_iff f).2 hsoon)
      · have hlate : f.cause.tooSoon = false := by
          rw [← Bool.not_eq_true, tooSoon_iff]
          exact hsoon
        exact hrejects.exists_offendsAt hlate

/-- A parenthesis is open on the second line where a bracket is closed. -/
theorem attempt_reported_unexpected :
    let i := new 10
    let source := ascii "fd 1\nfd (2 ]"
    let d : Diagnosis := ⟨.runtime, some .callDepth, 7, 3, some .word, [.number],
      Bounded.empty.add (ascii "Something else.")⟩
    let a := i.attempt source d
    a.succeeded = false ∧ a.diagnosis.category = some .unexpectedToken ∧
      a.diagnosis.found = some .rightBracket ∧ a.diagnosis.expectedCount = 0 ∧
      a.diagnosis.line = 2 ∧ ∃ pre t, OffendsAt source pre t ∧ t.lexeme.kind = .rightBracket := by
  intro i source d a
  have hlex : lex source = .ok ⟨[⟨.identifier (ascii "fd"), 1⟩, ⟨.number (ascii "1"), 1⟩,
      ⟨.identifier (ascii "fd"), 2⟩, ⟨.leftParen, 2⟩, ⟨.number (ascii "2"), 2⟩,
      ⟨.rightBracket, 2⟩], 2⟩ := by
    decide +kernel
  have hrun : (i.run source).fault = some ⟨2, .unexpected .rightBracket Yard.continuations⟩ := by
    rw [run, parseSource, hlex]
    rfl
  obtain ⟨⟨-, -, hsucceeded⟩, -, -, hreported⟩ := attempt_reported i source d
  have hfailed : a.succeeded = false := by
    rw [← Bool.not_eq_true, hsucceeded, hrun]
    simp
  obtain ⟨f, hf, htells, -, hstage, -, -, -, -, -, hplace⟩ := hreported hfailed
  obtain rfl := Option.some.inj (hrun.symm.trans hf)
  obtain ⟨pre, t, hoffends, -, -, hfound⟩ := hplace hstage.symm
  exact ⟨hfailed, htells.category, htells.found, htells.expectedCount, htells.line, pre, t,
    hoffends, (hfound _ htells.found).symm⟩

/-! ### What the message says -/

/-- Filling in a template writes the beginning of its whole text, as far as there
is room, and counts it. Of a double this text has no more than 127 bytes, and of
every other field all. So a label is the beginning of a spelling, and the message
of any run is the beginning of all that there is to say about its fault; the kinds
of tokens that were expected are noted without loss. -/
theorem message_truncated :
    (∀ (capacity : Nat) (template : Text) (fields : List Field),
      let r := Template.renderWith Field.render template fields
      let written := (Bounded.empty : Bounded capacity).format template fields
      written.1.text = r.take (min r.length (capacity - 1)) ∧
        written.2 = min r.length (capacity - 1)) ∧
      (∀ f : Field, f.render = f.full ∨ ∃ x, f = .double x ∧ f.render = f.full.take 127) ∧
      (∀ l : Lexeme, l.label = l.spelling.take 127) ∧
      ∀ (i : Interpreter) (source : Text) (d : Diagnosis) (f : Fault),
        (i.run source).fault = some f →
          (i.attempt source d).diagnosis.message.text = f.fullText.take 511 ∧
            (i.attempt source d).diagnosis.expected = f.cause.expected := by
  refine ⟨?_, Field.render_eq, Lexeme.label_eq, ?_⟩
  · intro capacity template fields r written
    have hr : r = Template.render template fields := Template.renderWith_render template fields
    have hwritten : written = (Bounded.empty.add r, min r.length (capacity - 1)) := by
      rw [hr]
      exact Bounded.format_eq Bounded.empty template fields
    rw [hwritten, Bounded.text_add_empty, List.take_eq_take_min, Nat.min_comm]
    exact ⟨rfl, rfl⟩
  · intro i source d f hf
    rcases attempt_cases i source d with ⟨hnone, -⟩ | ⟨stage, g, hrejects, hsome, hattempt⟩
    · rw [hnone] at hf
      cases hf
    · obtain rfl := Option.some.inj (hf.symm.trans hsome)
      have htells := hrejects.tells d.clear
      rw [hattempt]
      exact ⟨htells.message.trans f.message_eq, htells.expected⟩

/-- A number of 600 digits: its fault mentions all of them, and its message has room
for less. -/
theorem message_truncated_digits :
    let i := new 10
    let digits := List.replicate 600 '9'.toUInt8
    let d : Diagnosis := ⟨.lexer, none, 0, 0, none, [], .empty⟩
    let f : Fault := ⟨1, .malformedNumber digits⟩
    (i.run (ascii "fd " ++ digits)).fault = some f ∧
      (i.attempt (ascii "fd " ++ digits) d).diagnosis.message.text = f.fullText.take 511 ∧
      f.fullText.length = 663 := by
  intro i digits d f
  have hlex : lex (ascii "fd " ++ digits) =
      .ok ⟨[⟨.identifier (ascii "fd"), 1⟩, ⟨.number digits, 1⟩], 1⟩ := by
    decide +kernel
  have hrun : (i.run (ascii "fd " ++ digits)).fault = some f := by
    rw [run, parseSource, hlex]
    decide +kernel
  obtain ⟨-, -, -, hmessages⟩ := message_truncated
  exact ⟨hrun, (hmessages i _ d f hrun).1, by decide +kernel⟩

end Interpreter

end Turtle
