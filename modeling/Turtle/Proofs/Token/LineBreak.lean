import Mathlib.Data.List.TakeWhile
import Turtle.Proofs.Program.Relabel
import Turtle.Token.Lexer

/-!
Lexing line by line.

A line break is a safe place to cut a source: no token and no comment goes
across it, and what the lexer remembers of the text before it is only the
line. So the tokens of a source that is cut at a line break are those of the
two parts, the lines of the second part being counted on from the first.
-/

namespace Turtle

namespace Lexed

def relabel (φ : Nat → Nat) (l : Lexed) : Lexed :=
  ⟨l.tokens.map (Token.relabel φ), φ l.lastLine⟩

/-- The tokens of both parts. Lines of the second are already counted on. -/
def append (l l' : Lexed) : Lexed :=
  ⟨l.tokens ++ l'.tokens, l'.lastLine⟩

end Lexed

namespace Lexer

/-! ### The steps of the lexer -/

section

variable {line : Nat} {afterValue : Bool} {before : List Token} {c : UInt8} {t : Text}

theorem lexFrom_nil (line : Nat) (afterValue : Bool) (before : List Token) :
    lexFrom line afterValue before [] = .ok ⟨before.reverse, line⟩ := by
  rw [lexFrom]

theorem lexFrom_blank (hblank : Text.isBlank c = true) :
    lexFrom line afterValue before (c :: t) =
      lexFrom (if c == Text.newline then line + 1 else line) false before t := by
  rw [lexFrom, if_pos hblank]

theorem lexFrom_comment (hblank : ¬ Text.isBlank c = true) (hcomment : opensComment c = true) :
    lexFrom line afterValue before (c :: t) = lexFrom line false before (skipLine t) := by
  rw [lexFrom, if_neg hblank, if_pos hcomment]

theorem lexFrom_stray (hblank : ¬ Text.isBlank c = true) (hcomment : ¬ opensComment c = true)
    (hscan : scan? afterValue c t = none) :
    lexFrom line afterValue before (c :: t) = .error ⟨line, .strayByte c⟩ := by
  rw [lexFrom, if_neg hblank, if_neg hcomment]
  split
  · rfl
  · simp_all

theorem lexFrom_token {l : Lexeme} {rest : Text} (hblank : ¬ Text.isBlank c = true)
    (hcomment : ¬ opensComment c = true) (hscan : scan? afterValue c t = some (l, rest)) :
    lexFrom line afterValue before (c :: t) =
      lexFrom line l.endsValue (⟨l, line⟩ :: before) rest := by
  rw [lexFrom, if_neg hblank, if_neg hcomment]
  split
  · simp_all
  · simp_all

end

/-! ### Cutting at a line break -/

theorem isBlank_newline : Text.isBlank Text.newline = true := by
  decide

theorem not_isDigit_newline : Text.isDigit Text.newline = false := by
  decide

theorem not_isNameByte_newline : Text.isNameByte Text.newline = false := by
  decide

variable {p : UInt8 → Bool} {c : UInt8}

/-- A row of bytes of a class ends at the latest before a byte outside of it. -/
theorem takeWhile_append_cons (hc : p c = false) (a b : Text) :
    (a ++ c :: b).takeWhile p = a.takeWhile p := by
  induction a with
  | nil => simp [hc]
  | cons d a ih =>
      rw [List.cons_append, List.takeWhile_cons, List.takeWhile_cons, ih]

theorem dropWhile_append_cons (hc : p c = false) (a b : Text) :
    (a ++ c :: b).dropWhile p = a.dropWhile p ++ c :: b := by
  induction a with
  | nil => simp [hc]
  | cons d a ih =>
      rw [List.cons_append, List.dropWhile_cons, List.dropWhile_cons, ih]
      split_ifs <;> rfl

theorem startsWith_append_cons (hc : p c = false) (a b : Text) :
    startsWith p (a ++ c :: b) = startsWith p a := by
  cases a with
  | nil => exact hc
  | cons d a => rfl

theorem skipLine_append_newline (a b : Text) :
    skipLine (a ++ Text.newline :: b) = skipLine a ++ Text.newline :: b := by
  apply dropWhile_append_cons
  simp

theorem opensNumber_append_newline (afterValue : Bool) (c : UInt8) (a b : Text) :
    opensNumber afterValue c (a ++ Text.newline :: b) = opensNumber afterValue c a := by
  rw [opensNumber, startsWith_append_cons not_isDigit_newline, opensNumber]

/-- The scanner finds the same token, and the line break stays in the rest. -/
theorem scan?_append_newline (afterValue : Bool) (c : UInt8) (a b : Text) :
    scan? afterValue c (a ++ Text.newline :: b) =
      (scan? afterValue c a).map fun r => (r.1, r.2 ++ Text.newline :: b) := by
  have hdigit := not_isDigit_newline
  have hname := not_isNameByte_newline
  simp only [scan?, opensNumber_append_newline, startsWith_append_cons hname,
    takeWhile_append_cons hdigit, takeWhile_append_cons hname, dropWhile_append_cons hdigit,
    dropWhile_append_cons hname]
  split_ifs
  · rfl
  · rfl
  · rfl
  · rfl
  · simp [Option.map_map, Function.comp_def]

theorem lexFrom_append_newline (line : Nat) (afterValue : Bool) (before : List Token) (a b : Text) :
    lexFrom line afterValue before (a ++ Text.newline :: b) =
      match lexFrom line afterValue before a with
      | .error f => .error f
      | .ok l => lexFrom (l.lastLine + 1) false l.tokens.reverse b := by
  induction line, afterValue, before, a using lexFrom.induct with
  | case1 line afterValue before =>
      rw [List.nil_append, lexFrom_nil, lexFrom_blank isBlank_newline]
      simp
  | case2 line afterValue before c rest hblank ih =>
      rw [List.cons_append, lexFrom_blank hblank, lexFrom_blank hblank]
      exact ih
  | case3 line afterValue before c rest hblank hcomment ih =>
      -- the comment ends before the line break, if not earlier
      rw [List.cons_append, lexFrom_comment hblank hcomment, lexFrom_comment hblank hcomment,
        skipLine_append_newline]
      exact ih
  | case4 line afterValue before c rest hblank hcomment hscan =>
      have hscan' := scan?_append_newline afterValue c rest b
      rw [hscan, Option.map_none] at hscan'
      rw [List.cons_append, lexFrom_stray hblank hcomment hscan,
        lexFrom_stray hblank hcomment hscan']
  | case5 line afterValue before c rest hblank hcomment l rest' hscan ih =>
      have hscan' := scan?_append_newline afterValue c rest b
      rw [hscan, Option.map_some] at hscan'
      rw [List.cons_append, lexFrom_token hblank hcomment hscan,
        lexFrom_token hblank hcomment hscan']
      exact ih

/-! ### Counting lines -/

/-- The tokens before only come back in front of the others. -/
theorem lexFrom_before (line : Nat) (afterValue : Bool) (before : List Token) (t : Text) :
    lexFrom line afterValue before t =
      (lexFrom line afterValue [] t).map (Lexed.append ⟨before.reverse, line⟩) := by
  suffices h : ∀ first latest : List Token, lexFrom line afterValue (latest ++ first) t =
      (lexFrom line afterValue latest t).map (Lexed.append ⟨first.reverse, line⟩) from h before []
  clear before
  -- the tokens at the far end stay there while others are put in front of them
  intro first before
  induction line, afterValue, before, t using lexFrom.induct with
  | case1 line afterValue before =>
      rw [lexFrom_nil, lexFrom_nil]
      simp [Lexed.append, Except.map]
  | case2 line afterValue before c rest hblank ih =>
      rw [lexFrom_blank hblank, lexFrom_blank hblank]
      exact ih
  | case3 line afterValue before c rest hblank hcomment ih =>
      rw [lexFrom_comment hblank hcomment, lexFrom_comment hblank hcomment]
      exact ih
  | case4 line afterValue before c rest hblank hcomment hscan =>
      rw [lexFrom_stray hblank hcomment hscan, lexFrom_stray hblank hcomment hscan]
      rfl
  | case5 line afterValue before c rest hblank hcomment l rest' hscan ih =>
      rw [lexFrom_token hblank hcomment hscan, lexFrom_token hblank hcomment hscan]
      exact ih

/-- Counting from a later line makes all lines later. -/
theorem lexFrom_shift (k line : Nat) (afterValue : Bool) (before : List Token) (t : Text) :
    lexFrom (line + k) afterValue (before.map (Token.relabel (· + k))) t =
      relabelResult (· + k) (Lexed.relabel (· + k)) (lexFrom line afterValue before t) := by
  induction line, afterValue, before, t using lexFrom.induct with
  | case1 line afterValue before =>
      rw [lexFrom_nil, lexFrom_nil]
      simp [relabelResult, Lexed.relabel]
  | case2 line afterValue before c rest hblank ih =>
      have hline : (if c == Text.newline then line + 1 else line) + k =
          if c == Text.newline then line + k + 1 else line + k := by
        split_ifs <;> omega
      simp only [dite_eq_ite, hline] at ih
      rw [lexFrom_blank hblank, lexFrom_blank hblank, ih]
  | case3 line afterValue before c rest hblank hcomment ih =>
      rw [lexFrom_comment hblank hcomment, lexFrom_comment hblank hcomment, ← ih]
  | case4 line afterValue before c rest hblank hcomment hscan =>
      rw [lexFrom_stray hblank hcomment hscan, lexFrom_stray hblank hcomment hscan]
      rfl
  | case5 line afterValue before c rest hblank hcomment l rest' hscan ih =>
      rw [lexFrom_token hblank hcomment hscan, lexFrom_token hblank hcomment hscan, ← ih]
      rfl

/-! ### The last line -/

theorem newlines_dropWhile {p : UInt8 → Bool} (hp : p Text.newline = false) (t : Text) :
    Text.newlines (t.dropWhile p) = Text.newlines t := by
  induction t with
  | nil => rfl
  | cons c t ih =>
      rw [List.dropWhile_cons]
      split_ifs with hc
      · have hne : c ≠ Text.newline := by
          rintro rfl
          rw [hp] at hc
          cases hc
        rw [ih, Text.newlines, Text.newlines, List.count_cons_of_ne hne]
      · rfl

theorem newlines_skipLine (t : Text) : Text.newlines (skipLine t) = Text.newlines t := by
  apply newlines_dropWhile
  simp

/-- A token does not go on to a next line. -/
theorem newlines_of_scan? {afterValue : Bool} {c : UInt8} {t rest : Text} {l : Lexeme}
    (h : scan? afterValue c t = some (l, rest)) : Text.newlines rest = Text.newlines t := by
  rw [scan?] at h
  split_ifs at h
  · cases h
    exact newlines_dropWhile not_isNameByte_newline t
  · cases h
    exact newlines_dropWhile not_isDigit_newline t
  · cases h
    exact newlines_dropWhile not_isNameByte_newline t
  · cases h
    exact newlines_dropWhile not_isNameByte_newline t
  · obtain ⟨l', -, hrest⟩ := Option.map_eq_some_iff.1 h
    cases hrest
    rfl

theorem lastLine_of_lexFrom {line : Nat} {afterValue : Bool} {before : List Token} {t : Text}
    {l : Lexed} (h : lexFrom line afterValue before t = .ok l) :
    l.lastLine = line + Text.newlines t := by
  induction line, afterValue, before, t using lexFrom.induct with
  | case1 line afterValue before =>
      rw [lexFrom_nil] at h
      cases h
      rfl
  | case2 line afterValue before c rest hblank ih =>
      rw [lexFrom_blank hblank] at h
      rw [ih (by simpa using h)]
      by_cases hc : c = Text.newline
      · subst hc
        simp [Text.newlines]
        omega
      · simp [Text.newlines, hc]
  | case3 line afterValue before c rest hblank hcomment ih =>
      have hne : c ≠ Text.newline := by
        rintro rfl
        exact hblank isBlank_newline
      rw [lexFrom_comment hblank hcomment] at h
      rw [ih h, newlines_skipLine, Text.newlines, Text.newlines, List.count_cons_of_ne hne]
  | case4 line afterValue before c rest hblank hcomment hscan =>
      rw [lexFrom_stray hblank hcomment hscan] at h
      cases h
  | case5 line afterValue before c rest hblank hcomment l' rest' hscan ih =>
      have hne : c ≠ Text.newline := by
        rintro rfl
        exact hblank isBlank_newline
      rw [lexFrom_token hblank hcomment hscan] at h
      rw [ih h, newlines_of_scan? hscan, Text.newlines, Text.newlines, List.count_cons_of_ne hne]

/-! ### Faults -/

theorem cause_of_lexFrom_error {line : Nat} {afterValue : Bool} {before : List Token} {t : Text}
    {f : Fault} (h : lexFrom line afterValue before t = .error f) :
    ∃ b, f.cause = .strayByte b := by
  induction line, afterValue, before, t using lexFrom.induct with
  | case1 line afterValue before =>
      rw [lexFrom_nil] at h
      cases h
  | case2 line afterValue before c rest hblank ih =>
      rw [lexFrom_blank hblank] at h
      exact ih (by simpa using h)
  | case3 line afterValue before c rest hblank hcomment ih =>
      rw [lexFrom_comment hblank hcomment] at h
      exact ih h
  | case4 line afterValue before c rest hblank hcomment hscan =>
      rw [lexFrom_stray hblank hcomment hscan] at h
      cases h
      exact ⟨c, rfl⟩
  | case5 line afterValue before c rest hblank hcomment l' rest' hscan ih =>
      rw [lexFrom_token hblank hcomment hscan] at h
      exact ih h

end Lexer

theorem cause_of_lex_error {a : Text} {f : Fault} (h : lex a = .error f) :
    ∃ b, f.cause = .strayByte b :=
  Lexer.cause_of_lexFrom_error h

theorem lastLine_of_lex {a : Text} {l : Lexed} (h : lex a = .ok l) :
    l.lastLine = a.newlines + 1 := by
  rw [Lexer.lastLine_of_lexFrom h, Nat.add_comm]

/-- The second part is lexed as on its own, with its lines counted on from the
last line of the first. -/
theorem lex_append_newline (a b : Text) :
    lex (a ++ Text.newline :: b) =
      match lex a with
      | .error f => .error f
      | .ok l => relabelResult (· + l.lastLine) (fun l' => l.append (l'.relabel (· + l.lastLine)))
          (lex b) := by
  rw [lex, Lexer.lexFrom_append_newline, lex]
  cases Lexer.lexFrom 1 false [] a with
  | error f => rfl
  | ok l =>
      have hshift := Lexer.lexFrom_shift l.lastLine 1 false [] b
      show Lexer.lexFrom (l.lastLine + 1) false l.tokens.reverse b = _
      rw [Lexer.lexFrom_before, Nat.add_comm, ← List.map_nil, hshift, lex]
      cases Lexer.lexFrom 1 false [] b with
      | error f => rfl
      | ok l' => simp [relabelResult, Except.map, Lexed.append]

/-- A source is lexed line by line. Cut at any line break, it is lexed if both parts are,
and its tokens are those of the first part and then those of the second, whose lines
are counted on from the first; so is the line of a stray byte of the second part. A
stray byte of the first part is told whatever follows the line break. -/
theorem lex_cut_at_newline (a b : Text) :
    (∀ l, lex a = .ok l →
      let later := 1 + a.newlines
      (∀ whole, lex (a ++ Text.newline :: b) = .ok whole ↔
        ∃ l', lex b = .ok l' ∧
          whole = ⟨l.tokens ++ l'.tokens.map fun t => ⟨t.lexeme, t.line + later⟩,
            l'.lastLine + later⟩) ∧
      (∀ f, lex (a ++ Text.newline :: b) = .error f ↔
        ∃ f', lex b = .error f' ∧ f = ⟨f'.line + later, f'.cause⟩)) ∧
    (∀ f, lex a = .error f → lex (a ++ Text.newline :: b) = .error f) := by
  have hwhole := lex_append_newline a b
  constructor
  · intro l ha later
    have hlater : l.lastLine = later := by rw [lastLine_of_lex ha, Nat.add_comm]
    rw [ha] at hwhole
    simp only [hlater] at hwhole
    rw [hwhole]
    cases lex b with
    | ok l' =>
        constructor
        · intro whole
          simp only [relabelResult, Except.ok.injEq, exists_eq_left']
          exact eq_comm
        · simp [relabelResult]
    | error f' =>
        constructor
        · simp [relabelResult]
        · intro f
          simp only [relabelResult, Except.error.injEq, exists_eq_left']
          exact eq_comm
  · intro f ha
    rw [hwhole, ha]

/-- The first part ends in a comment, and behind the break a minus sign opens a number
although a number stands before it. -/
theorem lex_cut_at_newline_comment :
    let a := ascii "fd 7 ; (@"
    let b := ascii "-3\n)"
    let stray := ascii "fd @"
    (lex a = .ok ⟨[⟨.identifier (ascii "fd"), 1⟩, ⟨.number (ascii "7"), 1⟩], 1⟩ ∧
        lex stray = .error ⟨1, .strayByte '@'.toUInt8⟩) ∧
      lex (a ++ Text.newline :: b) =
        .ok ⟨[⟨.identifier (ascii "fd"), 1⟩, ⟨.number (ascii "7"), 1⟩,
          ⟨.number (ascii "-3"), 2⟩, ⟨.rightParen, 3⟩], 3⟩ ∧
      lex (a ++ Text.newline :: stray) = .error ⟨2, .strayByte '@'.toUInt8⟩ ∧
      lex (stray ++ Text.newline :: b) = .error ⟨1, .strayByte '@'.toUInt8⟩ := by
  intro a b stray
  have ha : lex a = .ok ⟨[⟨.identifier (ascii "fd"), 1⟩, ⟨.number (ascii "7"), 1⟩], 1⟩ := by
    decide +kernel
  have hb : lex b = .ok ⟨[⟨.number (ascii "-3"), 1⟩, ⟨.rightParen, 2⟩], 2⟩ := by decide +kernel
  have hstray : lex stray = .error ⟨1, .strayByte '@'.toUInt8⟩ := by decide +kernel
  refine ⟨⟨ha, hstray⟩, ?_, ?_, (lex_cut_at_newline stray b).2 _ hstray⟩
  · exact (((lex_cut_at_newline a b).1 _ ha).1 _).2 ⟨_, hb, rfl⟩
  · exact (((lex_cut_at_newline a stray).1 _ ha).2 _).2 ⟨_, hstray, rfl⟩

end Turtle
