import Turtle.Proofs.Token.Row

/-!
Where the tokens of a source stand.

What stands behind a row does not matter for the row, as long as no more stands
there than before: gaps stay gaps, and a lexeme that was the longest of its pattern
stays so. A source may therefore be cut in front of any of its tokens, and what is
left of it has just the tokens before. Likewise the text in front of a stray byte
can be lexed.
-/

namespace Turtle

/-! ### Cutting what is behind -/

variable {rest rest' : Text}

theorem IsGap.cut {gap : Text} (h : IsGap rest gap) (hcut : rest' <+: rest) : IsGap rest' gap := by
  induction h with
  | nil => exact .nil
  | blank hc h ih => exact .blank hc ih
  | @comment line gap hline hend h ih =>
      -- a comment ends where it did, or now at the end of the text
      refine .comment hline ?_ ih
      intro c hc
      apply hend
      obtain ⟨lost, rfl⟩ := hcut
      rw [← List.append_assoc, List.head?_append, hc]
      rfl

/-- A minus sign on its own is no numeral. -/
theorem IsNumeral.ne_minus {digits t : Text} (h : IsNumeral digits) :
    digits ++ t ≠ [Numeral.minus] := by
  obtain ⟨d, ds, hd, -, rfl | rfl⟩ := h
  · intro hminus
    rw [List.cons_append] at hminus
    obtain ⟨rfl, -⟩ := List.cons.inj hminus
    rw [Lexer.isDigit_minus] at hd
    cases hd
  · simp

theorem Munch.cut {touches : Bool} {l : Lexeme} (h : Munch touches l rest)
    (hcut : rest' <+: rest) : Munch touches l rest' := by
  have hcut' : l.spelling ++ rest' <+: l.spelling ++ rest := (List.prefix_append_right_inj _).2 hcut
  refine ⟨h.matched, fun t ht => h.longest t (ht.trans hcut'), h.keyword, ?_⟩
  intro t ht
  cases t with
  | nil =>
      -- the cut is right behind the sign, so that no digit follows any more
      have hnumber : l.pattern ≠ .number := by
        intro hpattern
        have hmatched := h.matched
        rw [hpattern] at hmatched
        exact IsNumeral.ne_minus hmatched ht
      simp [hnumber, Lexer.startsWith]
  | cons c t =>
      obtain ⟨lost, hlost⟩ := hcut'
      exact h.minus (c :: t ++ lost) (by rw [← hlost, ht, List.cons_append])

theorem Stands.cut {before : Option Lexeme} {ps : List Placed} (h : Stands before rest ps)
    (hcut : rest' <+: rest) : Stands before rest' ps := by
  induction ps generalizing before with
  | nil => trivial
  | cons p ps ih =>
      obtain ⟨hgap, hmunch, hstands⟩ := h
      have hbehind : written ps ++ rest' <+: written ps ++ rest :=
        (List.prefix_append_right_inj _).2 hcut
      exact ⟨hgap.cut ((List.prefix_append_right_inj _).2 hbehind), hmunch.cut hbehind, ih hstands⟩

/-! ### Cutting a row -/

theorem written_append (ps qs : List Placed) : written (ps ++ qs) = written ps ++ written qs :=
  List.flatMap_append

theorem Stands.left {before : Option Lexeme} {ps qs : List Placed}
    (h : Stands before rest (ps ++ qs)) : Stands before (written qs ++ rest) ps := by
  induction ps generalizing before with
  | nil => trivial
  | cons p ps ih =>
      rw [List.cons_append, Stands, written_append, List.append_assoc] at h
      obtain ⟨hgap, hmunch, hstands⟩ := h
      exact ⟨hgap, hmunch, ih hstands⟩

/-- The gap in front of a lexeme of the row. -/
theorem Stands.gap {before : Option Lexeme} {ps qs : List Placed} {p : Placed}
    (h : Stands before rest (ps ++ p :: qs)) :
    IsGap (p.lexeme.spelling ++ (written qs ++ rest)) p.gap := by
  induction ps generalizing before with
  | nil => exact h.1
  | cons q ps ih => exact ih h.2.2

theorem exists_placed {text : Text} {ps : List Placed} {before after : List Token} {t : Token}
    (h : tokensBehind text ps = before ++ t :: after) :
    ∃ qs p rs, ps = qs ++ p :: rs ∧ tokensBehind text qs = before ∧
      t = ⟨p.lexeme, (text ++ written qs ++ p.gap).newlines + 1⟩ := by
  induction before generalizing text ps with
  | nil =>
      cases ps with
      | nil => cases h
      | cons p ps =>
          obtain ⟨ht, -⟩ := List.cons.inj h
          refine ⟨[], p, ps, rfl, rfl, ?_⟩
          rw [← ht, written, List.flatMap_nil, List.append_nil]
  | cons u before ih =>
      cases ps with
      | nil => cases h
      | cons p ps =>
          obtain ⟨hu, hrest⟩ := List.cons.inj h
          obtain ⟨qs, q, rs, rfl, hqs, ht⟩ := ih hrest
          refine ⟨p :: qs, q, rs, rfl, ?_, ?_⟩
          · rw [tokensBehind, hu, hqs]
          · rw [ht]
            simp only [written, List.flatMap_cons, List.append_assoc]

/-! ### Sources -/

variable {source : Text}

/-- A token stands in the source behind a text that has just the tokens before it,
and on the line that this text goes on to. -/
theorem exists_place {l : Lexed} {before after : List Token} {t : Token}
    (h : lex source = .ok l) (ht : l.tokens = before ++ t :: after) :
    ∃ pre post, source = pre ++ (t.lexeme.spelling ++ post) ∧ lex pre = .ok ⟨before, t.line⟩ ∧
      t.line = pre.newlines + 1 := by
  obtain ⟨ps, last, rfl, hstands, hlast | ⟨gap, c, post, rfl, hgap, hbegins, hnone⟩⟩ :=
    Lexer.exists_row none source
  · rw [lex_of_row hstands hlast] at h
    cases h
    obtain ⟨qs, p, rs, rfl, rfl, rfl⟩ := exists_placed ht
    refine ⟨written qs ++ p.gap, written rs ++ last, ?_, ?_, rfl⟩
    · rw [written_append, List.append_assoc, Lexer.written_cons, List.append_assoc]
    · have hfront : p.gap <+: written (p :: rs) ++ last := by
        rw [Lexer.written_cons]
        exact List.prefix_append _ _
      exact lex_of_row (hstands.left.cut hfront) (hstands.gap.cut List.nil_prefix)
  · rw [lex_of_stray hstands hgap hbegins hnone] at h
    cases h

/-- A source that is not lexed has a byte at which no pattern matches, behind a
text that is lexed. -/
theorem exists_stray {f : Fault} (h : lex source = .error f) :
    ∃ pre c post, source = pre ++ c :: post ∧ (∃ l, lex pre = .ok l) ∧ beginsToken c = true ∧
      (∀ (p : Pattern) (s : Text), s <+: c :: post → ¬ p.Matches s) ∧
      f = ⟨pre.newlines + 1, .strayByte c⟩ := by
  obtain ⟨ps, last, rfl, hstands, hlast | ⟨gap, c, post, rfl, hgap, hbegins, hnone⟩⟩ :=
    Lexer.exists_row none source
  · rw [lex_of_row hstands hlast] at h
    cases h
  · rw [lex_of_stray hstands hgap hbegins hnone] at h
    cases h
    refine ⟨written ps ++ gap, c, post, by simp only [List.append_assoc], ?_, hbegins, hnone, rfl⟩
    exact ⟨_, lex_of_row (hstands.cut (List.prefix_append _ _)) (hgap.cut List.nil_prefix)⟩

end Turtle
