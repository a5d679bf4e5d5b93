import Mathlib.Data.List.TakeWhile
import Turtle.Proofs.Token.LineBreak

/-!
Writing tokens down.

A lexeme is well formed if some source can hold it: its digits are digits, its
name is a name, and a name that spells a keyword is that keyword. The lexer
reads the spelling of a well-formed lexeme as this lexeme, whatever follows,
as long as that does not go on with a name. One rule looks back, the one for
minus signs, so nothing that ends a value may touch the spelling from the
left. Between blanks both conditions hold, and a row of lexemes with blanks
between them is read as that row.
-/

namespace Turtle

/-! ### Classes of bytes -/

namespace Text

/-- A fact about bytes can be checked byte by byte. -/
theorem forall_byte {P : UInt8 → Prop} (h : ∀ n : Fin 256, P (UInt8.ofFin n)) (b : UInt8) :
    P b := by
  have hb := h b.toFin
  simpa using hb

theorem not_isNameByte_of_isBlank (b : UInt8) : isBlank b = true → isNameByte b = false :=
  forall_byte (P := fun b => isBlank b = true → isNameByte b = false) (by decide +kernel) b

theorem not_isLetter_of_isDigit (b : UInt8) : isDigit b = true → isLetter b = false :=
  forall_byte (P := fun b => isDigit b = true → isLetter b = false) (by decide +kernel) b

theorem isNameByte_of_isDigit {b : UInt8} (h : isDigit b = true) : isNameByte b = true := by
  simp [isNameByte, h]

end Text

/-! ### Well-formed lexemes -/

/-- A row of digits, perhaps behind a minus sign. -/
def IsNumeral (digits : Text) : Prop :=
  ∃ d ds, Text.isDigit d = true ∧ (∀ b ∈ ds, Text.isDigit b = true) ∧
    (digits = d :: ds ∨ digits = Numeral.minus :: d :: ds)

/-- A row of name bytes, with at least one of them. -/
def IsName (name : Text) : Prop :=
  name ≠ [] ∧ ∀ b ∈ name, Text.isNameByte b = true

def Lexeme.WellFormed : Lexeme → Prop
  | .number digits => IsNumeral digits
  | .word name | .var name => IsName name
  | .identifier name =>
    IsName name ∧ Lexer.startsWith Text.isLetter name = true ∧ Keyword.find? name = none
  | _ => True

namespace Lexer

/-! ### Scanning a spelling -/

section

variable {p : UInt8 → Bool} {bytes rest : Text}

theorem takeWhile_append_of_not_startsWith (hbytes : ∀ b ∈ bytes, p b = true)
    (hrest : startsWith p rest = false) : (bytes ++ rest).takeWhile p = bytes := by
  have hnil : rest.takeWhile p = [] := by
    cases rest with
    | nil => rfl
    | cons c rest => exact List.takeWhile_cons_of_neg (by simpa [startsWith] using hrest)
  rw [List.takeWhile_append_of_pos hbytes, hnil, List.append_nil]

theorem dropWhile_append_of_not_startsWith (hbytes : ∀ b ∈ bytes, p b = true)
    (hrest : startsWith p rest = false) : (bytes ++ rest).dropWhile p = rest := by
  rw [List.dropWhile_append_of_pos hbytes]
  cases rest with
  | nil => rfl
  | cons c rest => exact List.dropWhile_cons_of_neg (by simpa [startsWith] using hrest)

end

/-- The text does not go on with a name, and so not with a number either. -/
def Apart (rest : Text) : Prop :=
  startsWith Text.isNameByte rest = false

theorem Apart.not_digit {rest : Text} (h : Apart rest) : startsWith Text.isDigit rest = false := by
  cases rest with
  | nil => rfl
  | cons b rest =>
      have hname : Text.isNameByte b = false := h
      cases hdigit : Text.isDigit b with
      | false => exact hdigit
      | true =>
          rw [Text.isNameByte_of_isDigit hdigit] at hname
          cases hname

theorem apart_of_isBlank {b : UInt8} (h : Text.isBlank b = true) (rest : Text) :
    Apart (b :: rest) :=
  Text.not_isNameByte_of_isBlank b h

/-- The spelling of the lexeme is the byte and those behind it. Where no value
touches it, the scanner takes exactly the lexeme. -/
structure Scans (l : Lexeme) (rest : Text) (c : UInt8) (bytes : Text) : Prop where
  spelling : l.spelling = c :: bytes
  notBlank : ¬ Text.isBlank c = true
  notComment : ¬ opensComment c = true
  scanned : scan? false c (bytes ++ rest) = some (l, rest)

theorem not_isBlank_of_isNameByte {c : UInt8} (h : Text.isNameByte c = true) :
    ¬ Text.isBlank c = true := by
  intro hblank
  rw [Text.not_isNameByte_of_isBlank c hblank] at h
  cases h

theorem not_opensComment_of_isNameByte {c : UInt8} (h : Text.isNameByte c = true) :
    ¬ opensComment c = true := by
  intro hcomment
  rw [opensComment, beq_iff_eq] at hcomment
  subst hcomment
  exact absurd h (by decide)

variable {rest : Text}

theorem scan?_name (afterValue : Bool) {c : UInt8} {bytes : Text}
    (hletter : Text.isLetter c = true) (hbytes : ∀ b ∈ bytes, Text.isNameByte b = true)
    (hrest : Apart rest) :
    scan? afterValue c (bytes ++ rest) = some (ofName (c :: bytes), rest) := by
  rw [scan?, if_pos hletter, takeWhile_append_of_not_startsWith hbytes hrest,
    dropWhile_append_of_not_startsWith hbytes hrest]

theorem scans_name {l : Lexeme} (hname : IsName l.spelling)
    (hletter : startsWith Text.isLetter l.spelling = true) (hl : ofName l.spelling = l)
    (hrest : Apart rest) : ∃ c bytes, Scans l rest c bytes := by
  cases hspelling : l.spelling with
  | nil => exact absurd hspelling hname.1
  | cons c bytes =>
      rw [hspelling] at hname hletter hl
      have hbyte : Text.isNameByte c = true := hname.2 c (by simp)
      refine ⟨c, bytes, hspelling, not_isBlank_of_isNameByte hbyte,
        not_opensComment_of_isNameByte hbyte, ?_⟩
      have hbytes : ∀ b ∈ bytes, Text.isNameByte b = true :=
        fun b hb => hname.2 b (by simp [hb])
      have hscan := scan?_name false hletter hbytes hrest
      rwa [hl] at hscan

theorem scan?_digits {afterValue : Bool} {c : UInt8} {bytes : Text}
    (hletter : Text.isLetter c = false) (hbytes : ∀ b ∈ bytes, Text.isDigit b = true)
    (hrest : startsWith Text.isDigit rest = false)
    (hopens : opensNumber afterValue c (bytes ++ rest) = true) :
    scan? afterValue c (bytes ++ rest) = some (.number (c :: bytes), rest) := by
  rw [scan?, if_neg (by simp [hletter]), if_pos hopens,
    takeWhile_append_of_not_startsWith hbytes hrest,
    dropWhile_append_of_not_startsWith hbytes hrest]

theorem scans_number {digits : Text} (h : IsNumeral digits) (hrest : Apart rest) :
    ∃ c bytes, Scans (.number digits) rest c bytes := by
  obtain ⟨d, ds, hd, hds, rfl | rfl⟩ := h
  · have hbyte : Text.isNameByte d = true := Text.isNameByte_of_isDigit hd
    refine ⟨d, ds, rfl, not_isBlank_of_isNameByte hbyte,
      not_opensComment_of_isNameByte hbyte, ?_⟩
    exact scan?_digits (Text.not_isLetter_of_isDigit d hd) hds hrest.not_digit
      (by simp [opensNumber, hd])
  · refine ⟨Numeral.minus, d :: ds, rfl, by decide, by decide, ?_⟩
    have hdigits : ∀ b ∈ d :: ds, Text.isDigit b = true := by simpa [hd] using hds
    exact scan?_digits (by decide) hdigits hrest.not_digit
      (by simp [opensNumber, startsWith, hd])

theorem startsWith_name {name : Text} (h : IsName name) (rest : Text) :
    startsWith Text.isNameByte (name ++ rest) = true := by
  obtain ⟨hne, hname⟩ := h
  cases name with
  | nil => exact absurd rfl hne
  | cons b name => exact hname b (by simp)

theorem scan?_word (afterValue : Bool) {name : Text} (h : IsName name) (hrest : Apart rest) :
    scan? afterValue '"'.toUInt8 (name ++ rest) = some (.word name, rest) := by
  have hnumber : opensNumber afterValue '"'.toUInt8 (name ++ rest) = false := rfl
  rw [scan?, if_neg (by decide), if_neg (by simp [hnumber]), if_pos (by simp [startsWith_name h]),
    takeWhile_append_of_not_startsWith h.2 hrest, dropWhile_append_of_not_startsWith h.2 hrest]

theorem scan?_var (afterValue : Bool) {name : Text} (h : IsName name) (hrest : Apart rest) :
    scan? afterValue ':'.toUInt8 (name ++ rest) = some (.var name, rest) := by
  have hnumber : opensNumber afterValue ':'.toUInt8 (name ++ rest) = false := rfl
  have hword : (':'.toUInt8 == '"'.toUInt8 && startsWith Text.isNameByte (name ++ rest)) = false :=
    rfl
  rw [scan?, if_neg (by decide), if_neg (by simp [hnumber]), if_neg (by simp [hword]),
    if_pos (by simp [startsWith_name h]), takeWhile_append_of_not_startsWith h.2 hrest,
    dropWhile_append_of_not_startsWith h.2 hrest]

theorem scans_word {name : Text} (h : IsName name) (hrest : Apart rest) :
    Scans (.word name) rest '"'.toUInt8 name :=
  ⟨rfl, by decide, by decide, scan?_word false h hrest⟩

theorem scans_var {name : Text} (h : IsName name) (hrest : Apart rest) :
    Scans (.var name) rest ':'.toUInt8 name :=
  ⟨rfl, by decide, by decide, scan?_var false h hrest⟩

/-- A byte that makes a token on its own begins no other token, unless it is a
minus sign. -/
theorem of_punctuation (c : UInt8) : (punctuation? c).isSome = true →
    Text.isLetter c = false ∧ Text.isDigit c = false ∧ (c == '"'.toUInt8) = false ∧
      (c == ':'.toUInt8) = false ∧ Text.isBlank c = false ∧ opensComment c = false :=
  Text.forall_byte (P := fun c => (punctuation? c).isSome = true →
    Text.isLetter c = false ∧ Text.isDigit c = false ∧ (c == '"'.toUInt8) = false ∧
      (c == ':'.toUInt8) = false ∧ Text.isBlank c = false ∧ opensComment c = false)
    (by decide +kernel) c

theorem scan?_punctuation {afterValue : Bool} {l : Lexeme} {c : UInt8}
    (hl : punctuation? c = some l) (hopens : opensNumber afterValue c rest = false) :
    scan? afterValue c rest = some (l, rest) := by
  obtain ⟨hletter, -, hword, hvar, -, -⟩ := of_punctuation c (by simp [hl])
  simp [scan?, hopens, hletter, hword, hvar, hl]

theorem scans_punctuation {l : Lexeme} {c : UInt8} (hl : punctuation? c = some l)
    (hspelling : l.spelling = [c]) (hrest : Apart rest) : Scans l rest c [] := by
  obtain ⟨-, hdigit, -, -, hblank, hcomment⟩ := of_punctuation c (by simp [hl])
  refine ⟨hspelling, by simp [hblank], by simp [hcomment], ?_⟩
  exact scan?_punctuation hl (by simp [opensNumber, hdigit, hrest.not_digit])

/-- The scanner takes every well-formed lexeme from its spelling. -/
theorem scans_of_wellFormed {l : Lexeme} (h : l.WellFormed) (hrest : Apart rest) :
    ∃ c bytes, Scans l rest c bytes := by
  cases l with
  | number digits => exact scans_number h hrest
  | word name => exact ⟨_, _, scans_word h hrest⟩
  | var name => exact ⟨_, _, scans_var h hrest⟩
  | identifier name =>
      obtain ⟨hname, hletter, hkeyword⟩ := h
      have hl : ofName name = .identifier name := by
        rw [ofName, hkeyword]
      exact scans_name hname hletter hl hrest
  | keyword k =>
      have hname : IsName (Lexeme.keyword k).spelling := by
        cases k <;> exact ⟨by decide +kernel, by decide +kernel⟩
      exact scans_name hname (by cases k <;> decide) (by cases k <;> decide) hrest
  | leftBracket => exact ⟨_, _, scans_punctuation rfl rfl hrest⟩
  | rightBracket => exact ⟨_, _, scans_punctuation rfl rfl hrest⟩
  | leftParen => exact ⟨_, _, scans_punctuation rfl rfl hrest⟩
  | rightParen => exact ⟨_, _, scans_punctuation rfl rfl hrest⟩
  | operator o => exact ⟨_, _, scans_punctuation (by cases o <;> decide) rfl hrest⟩

/-! ### Rows of lexemes -/

/-- Where no value touches it, the lexer takes the spelling of a well-formed
lexeme. -/
theorem lexFrom_spelling {l : Lexeme} (h : l.WellFormed) (hrest : Apart rest) (line : Nat)
    (before : List Token) :
    lexFrom line false before (l.spelling ++ rest) =
      lexFrom line l.endsValue (⟨l, line⟩ :: before) rest := by
  obtain ⟨c, bytes, hscans⟩ := scans_of_wellFormed h hrest
  rw [hscans.spelling, List.cons_append]
  exact lexFrom_token hscans.notBlank hscans.notComment hscans.scanned

end Lexer

/-- The lexemes on one line, a blank behind each. -/
def spaced (ls : List Lexeme) : Text :=
  ls.flatMap fun l => l.spelling ++ ascii " "

theorem lexFrom_spaced {ls : List Lexeme} (h : ∀ l ∈ ls, l.WellFormed) (line : Nat)
    (before : List Token) :
    Lexer.lexFrom line false before (spaced ls) =
      .ok ⟨before.reverse ++ ls.map (⟨·, line⟩), line⟩ := by
  induction ls generalizing before with
  | nil => simp [spaced, Lexer.lexFrom_nil]
  | cons l ls ih =>
      have hl : l.WellFormed := h l (by simp)
      have hls : ∀ l ∈ ls, l.WellFormed := fun l hl => h l (by simp [hl])
      have hspaced : spaced (l :: ls) = l.spelling ++ ' '.toUInt8 :: spaced ls := by
        simp [spaced, ascii]
      rw [hspaced, Lexer.lexFrom_spelling hl (Lexer.apart_of_isBlank (by decide) _),
        Lexer.lexFrom_blank (by decide), if_neg (by decide), ih hls]
      simp

/-- A row of well-formed lexemes can be written down. -/
theorem lex_spaced {ls : List Lexeme} (h : ∀ l ∈ ls, l.WellFormed) :
    lex (spaced ls) = .ok ⟨ls.map (⟨·, 1⟩), 1⟩ :=
  lexFrom_spaced h 1 []

end Turtle
