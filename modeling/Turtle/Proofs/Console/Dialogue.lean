import Turtle.Console.Shell
import Turtle.Number.Series
import Turtle.Proofs.Evaluation.Isolation
import Turtle.Proofs.Grammar.Failure

/-!
The fragments of a dialogue.

The shell runs what it has collected as soon as a line has completed it, and
decides this from the fault of the fragment: as long as the input is said to
have ended inside of a construct, more lines are collected. A parenthesis that
is left open is a fault of another category, although more lines could close
it as well. So a fragment that is handed over parses, or no more lines can
complete it, or it has an open parenthesis and is handed over too early.
-/

namespace Turtle

/-- The interpreter when it has run the sources, one after the other. -/
def Interpreter.runAll (i : Interpreter) (sources : List Text) : Interpreter :=
  sources.foldl (fun i source => (i.run source).interpreter) i

theorem Interpreter.runAll_append (i : Interpreter) (sources sources' : List Text) :
    i.runAll (sources ++ sources') = (i.runAll sources).runAll sources' :=
  List.foldl_append

namespace Shell

/-! ### What is handed over -/

theorem ask_interpreter (s : Session) (c : Collector) :
    (ask s c).interpreter = s.interpreter := by
  rw [ask]
  cases c.prompt? <;> rfl

section

variable [Circle]

/-- The fragments that are run before the input ends, in order. -/
def handed (s : Session) (c : Collector) : List Text → List Text
  | [] => []
  | piece :: pieces =>
    (c.add piece).fragment?.toList ++
      match take (ask s c) c piece with
      | (_, _, true) => []
      | (s, c, false) => handed s c pieces

theorem runFragment_interpreter (s : Session) (source : Text) :
    (s.runFragment source).1.interpreter = (s.interpreter.run source).interpreter := by
  rw [Session.runFragment]
  split
  · rfl
  · cases (s.interpreter.run source).fault <;> rfl

theorem take_interpreter (s : Session) (c : Collector) (piece : Text) :
    (take s c piece).1.interpreter = s.interpreter.runAll (c.add piece).fragment?.toList := by
  rw [take]
  cases hfragment : (c.add piece).fragment? with
  | none => rfl
  | some fragment => exact runFragment_interpreter s fragment

theorem close_interpreter (s : Session) (c : Collector) :
    ∃ left : Option Text, (close s c).interpreter = s.interpreter.runAll left.toList := by
  simp only [close]
  split_ifs
  · exact ⟨none, rfl⟩
  · exact ⟨some c.text, runFragment_interpreter _ c.text⟩

/-- A dialogue runs what is handed over, and what is left when the input ends. -/
theorem converse_interpreter (s : Session) (c : Collector) (pieces : List Text) :
    ∃ left : Option Text, (converse s c pieces).interpreter =
      s.interpreter.runAll (handed s c pieces ++ left.toList) := by
  induction pieces generalizing s c with
  | nil =>
      obtain ⟨left, hleft⟩ := close_interpreter (ask s c) c
      refine ⟨left, ?_⟩
      rw [converse, handed, hleft, ask_interpreter, List.nil_append]
  | cons piece pieces ih =>
      have htake := take_interpreter (ask s c) c piece
      rw [ask_interpreter] at htake
      rw [converse, handed]
      cases hout : take (ask s c) c piece with
      | mk s' rest =>
          obtain ⟨c', ended⟩ := rest
          rw [hout] at htake
          cases ended with
          | true =>
              refine ⟨none, ?_⟩
              simp only [List.append_nil, Option.toList_none]
              exact htake
          | false =>
              obtain ⟨left, hleft⟩ := ih s' c'
              refine ⟨left, ?_⟩
              simp only [List.append_assoc, Interpreter.runAll_append, ← htake]
              rw [← Interpreter.runAll_append]
              exact hleft

/-- Every fragment that is handed over was completed by a piece. -/
theorem exists_collector_of_handed {s : Session} {c : Collector} {pieces : List Text}
    {fragment : Text} (h : fragment ∈ handed s c pieces) :
    ∃ (c : Collector) (piece : Text), (c.add piece).fragment? = some fragment := by
  induction pieces generalizing s c with
  | nil => cases h
  | cons piece pieces ih =>
      rw [handed] at h
      rcases List.mem_append.1 h with hhere | hlater
      · exact ⟨c, piece, Option.mem_toList.1 hhere⟩
      · split at hlater
        · cases hlater
        · exact ih hlater

end

/-- A fragment that is complete ends with its line, and is not said to be
incomplete. -/
theorem Collector.of_fragment? {c : Collector} {piece fragment : Text}
    (h : (c.add piece).fragment? = some fragment) :
    (∃ s, fragment = s ++ [Text.newline]) ∧ isIncomplete fragment = false := by
  rw [fragment?] at h
  split_ifs at h with hcomplete
  rw [add] at h hcomplete
  obtain rfl := Option.some.inj h
  simp only [Bool.and_eq_true, beq_iff_eq, Bool.not_eq_true'] at hcomplete
  obtain ⟨hended, hincomplete⟩ := hcomplete
  obtain ⟨seen, hseen⟩ := List.getLast?_eq_some_iff.1 hended
  refine ⟨⟨c.text ++ seen, ?_⟩, hincomplete⟩
  rw [hseen, List.append_assoc]

/-! ### What is lost -/

/-- A fragment that is handed over before the input ends parses, unless it has
a fault, and then it is lost too early exactly if the fault is a parenthesis
that is left open: only then could more lines have completed it. -/
theorem handed_completable_iff [Circle] (s : Session) (input : Text) {fragment : Text}
    (h : fragment ∈ handed s .new (pieces input)) :
    (∃ ss, parseSource fragment = .ok ss) ∨
      ((∃ t ss, parseSource (fragment ++ t) = .ok ss) ↔
        ∃ line, parseSource fragment = .error ⟨line, .unclosedParen⟩) := by
  obtain ⟨c, piece, hfragment⟩ := exists_collector_of_handed h
  obtain ⟨⟨source, rfl⟩, hcomplete⟩ := Collector.of_fragment? hfragment
  cases hparse : parseSource (source ++ [Text.newline]) with
  | ok ss => exact .inl ⟨ss, rfl⟩
  | error f =>
      obtain ⟨g, hg, hcause⟩ := cause_of_append_newline hparse
      have hcategory : f.category ≠ .endOfInput := by
        simpa [isIncomplete, hparse] using hcomplete
      right
      simp only [List.append_assoc, List.singleton_append]
      rw [completable_iff hg, hcause, tooSoon_iff]
      constructor
      · rintro (hend | hopen)
        · exact absurd hend hcategory
        · exact ⟨f.line, by rw [← hopen]⟩
      · rintro ⟨line, hline⟩
        cases hline
        exact .inr rfl

/-- The operator at the end of the first line calls for a second one. That
ends in a fault inside of the parentheses, which no third line can mend. -/
theorem handed_completable_iff_two_lines :
    let fragment := ascii "fd (1 +\n2 :n\n"
    fragment ∈ handed (.new {}) .new (pieces fragment) ∧
      (∀ ss, parseSource fragment ≠ .ok ss) ∧
      ¬ ∃ t ss, parseSource (fragment ++ t) = .ok ss := by
  intro fragment
  have hhanded : fragment ∈ handed (.new {}) .new (pieces fragment) := by decide +kernel
  have hparse : parseSource fragment =
      .error ⟨2, .unexpected (.var (ascii "n")) Yard.continuations⟩ := by
    have hlex : lex fragment = .ok ⟨[⟨.identifier (ascii "fd"), 1⟩, ⟨.leftParen, 1⟩,
        ⟨.number (ascii "1"), 1⟩, ⟨.operator .add, 1⟩, ⟨.number (ascii "2"), 2⟩,
        ⟨.var (ascii "n"), 2⟩], 3⟩ := by
      decide +kernel
    rw [parseSource, hlex]
    rfl
  have hfails : ∀ ss, parseSource fragment ≠ .ok ss := by
    intro ss hss
    rw [hparse] at hss
    cases hss
  refine ⟨hhanded, hfails, ?_⟩
  rcases handed_completable_iff (.new {}) fragment hhanded with ⟨ss, hss⟩ | hiff
  · exact absurd hss (hfails ss)
  · rw [hiff]
    rintro ⟨line, hline⟩
    rw [hparse] at hline
    cases hline

/-- A line break inside of parentheses, behind an operand: the first line is
handed over and refused, although the second one would have completed it. -/
theorem handed_too_early :
    let input := ascii "show (1\n+2)\n"
    let fragment := ascii "show (1\n"
    fragment ∈ handed (.new {}) .new (pieces input) ∧
      (∀ ss, parseSource fragment ≠ .ok ss) ∧
      ∃ t ss, fragment ++ t = input ∧ parseSource (fragment ++ t) = .ok ss := by
  intro input fragment
  have hhanded : fragment ∈ handed (.new {}) .new (pieces input) := by decide +kernel
  have hfirst : parseSource fragment = .error ⟨2, .unclosedParen⟩ := by
    have hlex : lex fragment = .ok ⟨[⟨.identifier (ascii "show"), 1⟩, ⟨.leftParen, 1⟩,
        ⟨.number (ascii "1"), 1⟩], 2⟩ := by
      decide +kernel
    rw [parseSource, hlex]
    rfl
  have hlex : lex input = .ok ⟨[⟨.identifier (ascii "show"), 1⟩, ⟨.leftParen, 1⟩,
      ⟨.number (ascii "1"), 1⟩, ⟨.operator .add, 2⟩, ⟨.number (ascii "2"), 2⟩,
      ⟨.rightParen, 2⟩], 3⟩ := by
    decide +kernel
  refine ⟨hhanded, ?_, ascii "+2)\n", ?_⟩
  · intro ss hss
    rw [hfirst] at hss
    cases hss
  · have hwhole : fragment ++ ascii "+2)\n" = input := by decide
    rw [hwhole, parseSource, hlex]
    exact ⟨_, rfl, rfl⟩

end Shell

end Turtle
