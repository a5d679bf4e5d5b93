import Turtle.Proofs.Token.Row

/-!
Lexemes written down with any gaps between them.

A lexeme has no memory of the gaps around it. If its spelling is followed by a
gap, or by nothing, then no longer text of its pattern can begin there, and if a
gap stands before it, it touches nothing. So well-formed lexemes are read back
from their spellings, whatever stands between them, as long as something does:
without a gap two names would be one name, and a minus sign might change sides.
The lexemes of a source are well formed, hence they can be given other gaps.
-/

namespace Turtle

/-! ### Gaps that can stand anywhere -/

/-- Blanks, and comments together with the line break that ends them. -/
inductive IsClosedGap : Text → Prop
  | nil : IsClosedGap []
  | blank {c : UInt8} {gap : Text} (hc : Text.isBlank c = true) (h : IsClosedGap gap) :
      IsClosedGap (c :: gap)
  | comment {line gap : Text} (hline : Text.newline ∉ line) (h : IsClosedGap gap) :
      IsClosedGap (';'.toUInt8 :: (line ++ Text.newline :: gap))

/-- It does not matter what follows. -/
theorem IsClosedGap.isGap {gap : Text} (h : IsClosedGap gap) (rest : Text) : IsGap rest gap := by
  induction h with
  | nil => exact .nil
  | blank hc _ ih => exact .blank hc ih
  | comment hline _ ih =>
      refine .comment hline ?_ (.blank Lexer.isBlank_newline ih)
      intro c hc
      simpa [eq_comm] using hc

namespace Lexer

/-- No name goes on with a gap. -/
theorem apart_append_of_isGap {gap rest : Text} (h : IsGap rest gap)
    (hrest : gap = [] → Apart rest) : Apart (gap ++ rest) := by
  cases h with
  | nil => exact hrest rfl
  | blank hc _ => exact apart_of_isBlank hc _
  | comment _ _ _ => exact (by decide : Text.isNameByte ';'.toUInt8 = false)

/-! ### Well-formed lexemes -/

/-- A well-formed lexeme is the one that stands where it is written, if it
touches no value and no name goes on behind it. -/
theorem munch_of_wellFormed {l : Lexeme} {rest : Text} (h : l.WellFormed) (hrest : Apart rest) :
    Munch false l rest := by
  obtain ⟨c, bytes, hscans⟩ := scans_of_wellFormed h hrest
  exact (munch_of_scan? hscans.scanned).2

/-- What stands in a source is well formed. -/
theorem wellFormed_of_munch {touches : Bool} {l : Lexeme} {rest : Text}
    (h : Munch touches l rest) : l.WellFormed := by
  have hmatched := h.matched
  cases l with
  | number digits => exact hmatched
  | word name =>
      obtain ⟨name', hname, heq⟩ := hmatched
      obtain rfl : name = name' := (List.cons.inj heq).2
      exact hname
  | var name =>
      obtain ⟨name', hname, heq⟩ := hmatched
      obtain rfl : name = name' := (List.cons.inj heq).2
      exact hname
  | identifier name =>
      refine ⟨hmatched.1, hmatched.2, ?_⟩
      rw [← Option.not_isSome_iff_eq_none, find?_isSome_iff]
      intro hkeyword
      obtain ⟨k, hk⟩ := (h.keyword rfl).2 hkeyword
      cases hk
  | _ => trivial

end Lexer

/-! ### Rows with gaps between their lexemes -/

/-- The lexemes are well formed, and there is a gap between any two of them. -/
structure WellSpaced (ps : List Placed) : Prop where
  lexemes : ∀ p ∈ ps, p.lexeme.WellFormed
  gaps : ∀ p ∈ ps, IsClosedGap p.gap
  apart : ∀ p ∈ ps.tail, p.gap ≠ []

theorem WellSpaced.tail {p : Placed} {ps : List Placed} (h : WellSpaced (p :: ps)) :
    WellSpaced ps where
  lexemes := fun q hq => h.lexemes q (List.mem_cons_of_mem p hq)
  gaps := fun q hq => h.gaps q (List.mem_cons_of_mem p hq)
  apart := fun q hq => h.apart q (List.mem_of_mem_tail hq)

/-- What follows a lexeme of the row is a gap, or the end of the source. -/
theorem WellSpaced.apart_written {p : Placed} {ps : List Placed} {last : Text}
    (h : WellSpaced (p :: ps)) (hlast : IsGap [] last) : Lexer.Apart (written ps ++ last) := by
  cases ps with
  | nil =>
      have hend := Lexer.apart_append_of_isGap hlast fun _ => rfl
      rwa [List.append_nil] at hend
  | cons q ps =>
      rw [Lexer.written_cons]
      apply Lexer.apart_append_of_isGap
      · exact (h.gaps q (by simp)).isGap _
      · intro hgap
        exact absurd hgap (h.apart q (by simp))

/-- Each lexeme of the row is the one that stands behind its gap. -/
theorem WellSpaced.stands {ps : List Placed} {last : Text} (h : WellSpaced ps)
    (hlast : IsGap [] last) {before : Option Lexeme}
    (hbefore : before = none ∨ ∀ p ∈ ps.head?, p.gap ≠ []) : Stands before last ps := by
  induction ps generalizing before with
  | nil => trivial
  | cons p ps ih =>
      have htouches : (p.gap.isEmpty && before.any Lexeme.endsValue) = false := by
        rcases hbefore with rfl | hgap
        · exact Bool.and_false _
        · simp [hgap p rfl]
      have hmunch : Munch false p.lexeme (written ps ++ last) :=
        Lexer.munch_of_wellFormed (h.lexemes p (by simp)) (h.apart_written hlast)
      refine ⟨(h.gaps p (by simp)).isGap _, ?_, ?_⟩
      · rwa [htouches]
      · apply ih h.tail
        refine .inr fun q hq => h.apart q ?_
        exact List.mem_of_mem_head? hq

theorem lexemes_tokensBehind (text : Text) (ps : List Placed) :
    (tokensBehind text ps).map Token.lexeme = ps.map Placed.lexeme := by
  induction ps generalizing text with
  | nil => rfl
  | cons p ps ih => rw [tokensBehind, List.map_cons, List.map_cons, ih]

/-- A row of well-formed lexemes with gaps between them is read as that row. -/
theorem WellSpaced.lex_eq {ps : List Placed} {last : Text} (h : WellSpaced ps)
    (hlast : IsGap [] last) :
    lex (written ps ++ last) = .ok ⟨tokensBehind [] ps, (written ps ++ last).newlines + 1⟩ :=
  lex_of_row (h.stands hlast (.inl rfl)) hlast

/-! ### The lexemes of a source -/

/-- All that stands in a row is well formed. -/
theorem wellFormed_of_stands {before : Option Lexeme} {last : Text} {ps : List Placed}
    (h : Stands before last ps) : ∀ p ∈ ps, p.lexeme.WellFormed := by
  induction ps generalizing before with
  | nil => exact fun _ hp => nomatch hp
  | cons p ps ih =>
      obtain ⟨-, hmunch, hstands⟩ := h
      intro q hq
      rcases List.mem_cons.1 hq with rfl | hlater
      · exact Lexer.wellFormed_of_munch hmunch
      · exact ih hstands q hlater

/-- Lexing yields well-formed lexemes only. -/
theorem wellFormed_of_lex {source : Text} {l : Lexed} (h : lex source = .ok l) :
    ∀ x ∈ l.tokens.map Token.lexeme, x.WellFormed := by
  obtain ⟨ps, last, rfl, hstands, hlast | ⟨gap, c, s, rfl, hgap, hbegins, hnone⟩⟩ :=
    Lexer.exists_row none source
  · rw [lex_of_row hstands hlast] at h
    cases h
    rw [lexemes_tokensBehind]
    intro x hx
    obtain ⟨p, hp, rfl⟩ := List.mem_map.1 hx
    exact wellFormed_of_stands hstands p hp
  · rw [lex_of_stray hstands hgap hbegins hnone] at h
    cases h

/-- The lexemes with a gap before each of them but the first. -/
def placedWith (gap : Text) : List Lexeme → List Placed
  | [] => []
  | x :: xs => ⟨[], x⟩ :: xs.map fun y => ⟨gap, y⟩

theorem lexemes_placedWith (gap : Text) (xs : List Lexeme) :
    (placedWith gap xs).map Placed.lexeme = xs := by
  cases xs with
  | nil => rfl
  | cons x xs => simp [placedWith, Function.comp_def]

theorem written_placedWith (gap : Text) (xs : List Lexeme) :
    written (placedWith gap xs) = gap.intercalate (xs.map Lexeme.spelling) := by
  cases xs with
  | nil => rfl
  | cons x xs =>
      induction xs generalizing x with
      | nil => simp [placedWith, written, Placed.text]
      | cons y xs ih =>
          have hrest := ih y
          simp only [placedWith, written, Placed.text, List.map_cons, List.flatMap_cons,
            List.nil_append] at hrest ⊢
          rw [List.intercalate_cons_cons, ← hrest]
          simp

theorem wellSpaced_placedWith {gap : Text} (hgap : IsClosedGap gap) (hne : gap ≠ [])
    {xs : List Lexeme} (hxs : ∀ x ∈ xs, x.WellFormed) : WellSpaced (placedWith gap xs) := by
  refine ⟨?_, ?_, ?_⟩
  · intro p hp
    apply hxs
    rw [← lexemes_placedWith gap xs]
    exact List.mem_map_of_mem hp
  · cases xs with
    | nil => exact fun _ hp => nomatch hp
    | cons x xs =>
        simp only [placedWith, List.forall_mem_cons, List.forall_mem_map]
        exact ⟨.nil, fun _ _ => hgap⟩
  · cases xs with
    | nil => exact fun _ hp => nomatch hp
    | cons x xs =>
        simp only [placedWith, List.tail_cons, List.forall_mem_map]
        exact fun _ _ => hne

/-- Well-formed lexemes are read back from their spellings, whatever gaps stand
between them, before them and behind them. So the lexemes of a source stay the
same if they are written again with single spaces between them. -/
theorem lex_respaced :
    (∀ ps last, WellSpaced ps → IsGap [] last →
      ∃ l, lex (written ps ++ last) = .ok l ∧ l.tokens.map Token.lexeme = ps.map Placed.lexeme) ∧
    ∀ source l, lex source = .ok l →
      ∃ l', lex ((ascii " ").intercalate (l.tokens.map fun t => t.lexeme.spelling)) = .ok l' ∧
        l'.tokens.map Token.lexeme = l.tokens.map Token.lexeme := by
  constructor
  · intro ps last hps hlast
    exact ⟨_, hps.lex_eq hlast, lexemes_tokensBehind [] ps⟩
  · intro source l hlex
    have hspaced : WellSpaced (placedWith (ascii " ") (l.tokens.map Token.lexeme)) :=
      wellSpaced_placedWith (.blank (by decide) .nil) (by decide) (wellFormed_of_lex hlex)
    have hwritten := written_placedWith (ascii " ") (l.tokens.map Token.lexeme)
    have hnone : IsGap [] [] := .nil
    have hrow := hspaced.lex_eq hnone
    rw [List.append_nil, hwritten, List.map_map] at hrow
    refine ⟨_, hrow, ?_⟩
    rw [lexemes_tokensBehind, lexemes_placedWith]

/-- A minus sign behind a number and before one, a negative number behind a
value, and a comment right behind a name. -/
theorem lex_respaced_minus :
    let ps : List Placed := [⟨[], .number (ascii "7")⟩, ⟨ascii " ", .operator .sub⟩,
      ⟨ascii ";-\n", .number (ascii "2")⟩, ⟨ascii "\t", .number (ascii "-3")⟩,
      ⟨ascii "\r\n", .identifier (ascii "a")⟩, ⟨ascii ";b\n", .keyword .to⟩]
    (WellSpaced ps ∧ IsGap [] (ascii " ;end")) ∧
      (∃ l, lex (ascii "7 -;-\n2\t-3\r\na;b\nto ;end") = .ok l ∧
        l.tokens.map Token.lexeme = ps.map Placed.lexeme) ∧
      ∃ l', lex (ascii "7 - 2 -3 a to") = .ok l' ∧
        l'.tokens.map Token.lexeme = ps.map Placed.lexeme := by
  intro ps
  have hspaced : WellSpaced ps := by
    refine ⟨?_, ?_, ?_⟩
    · simp only [ps, List.forall_mem_cons, List.not_mem_nil, false_imp_iff, implies_true, and_true]
      refine ⟨⟨'7'.toUInt8, [], by decide +kernel, by decide +kernel, .inl (by decide +kernel)⟩, trivial,
        ⟨'2'.toUInt8, [], by decide +kernel, by decide +kernel, .inl (by decide +kernel)⟩,
        ⟨'3'.toUInt8, [], by decide +kernel, by decide +kernel, .inr (by decide +kernel)⟩,
        ⟨⟨by decide +kernel, by decide +kernel⟩, by decide +kernel, by decide +kernel⟩, trivial⟩
    · simp only [ps, List.forall_mem_cons, List.not_mem_nil, false_imp_iff, implies_true, and_true]
      refine ⟨.nil, .blank (by decide +kernel) .nil, ?_, .blank (by decide +kernel) .nil,
        .blank (by decide +kernel) (.blank (by decide +kernel) .nil), ?_⟩
      · exact @IsClosedGap.comment (ascii "-") [] (by decide +kernel) .nil
      · exact @IsClosedGap.comment (ascii "b") [] (by decide +kernel) .nil
    · decide +kernel
  have hlast : IsGap [] (ascii " ;end") := by
    refine .blank (by decide +kernel) ?_
    exact @IsGap.comment [] (ascii "end") [] (by decide +kernel) (by decide +kernel) .nil
  obtain ⟨l, hlex, hlexemes⟩ := lex_respaced.1 ps _ hspaced hlast
  obtain ⟨l', hlex', hlexemes'⟩ := lex_respaced.2 _ l hlex
  refine ⟨⟨hspaced, hlast⟩, ⟨l, hlex, hlexemes⟩, l', ?_, hlexemes'.trans hlexemes⟩
  have hspellings : (l.tokens.map fun t => t.lexeme.spelling) =
      ps.map fun p => p.lexeme.spelling := by
    simpa [List.map_map, Function.comp_def] using congrArg (List.map Lexeme.spelling) hlexemes
  rw [hspellings] at hlex'
  exact hlex'

end Turtle
