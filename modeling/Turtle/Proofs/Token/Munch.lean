import Turtle.Proofs.Token.Spelling

/-!
What the scanner finds in a text.

The scanner is described here without its way of working. A lexeme stands in
front of the rest of a text if its spelling is the longest text of its pattern
there. Besides there are only two rules: one for names that are keywords, and
one for minus signs, the only one that looks back. At most one lexeme stands
in front of a text in this sense, the scanner finds it, and it finds none only
where no text of any pattern stands.
-/

namespace Turtle

/-! ### Patterns -/

/-- What a lexeme looks like. -/
inductive Pattern
  | name
  | number
  | word
  | var
  | mark
  deriving DecidableEq, Repr

/-- The bytes that make a token on their own. -/
def marks : Text :=
  ascii "[]()+-*/"

/-- The texts of a pattern, wherever they stand. -/
def Pattern.Matches : Pattern → Text → Prop
  | name, t => IsName t ∧ Lexer.startsWith Text.isLetter t = true
  | number, t => IsNumeral t
  | word, t => ∃ name, IsName name ∧ t = '"'.toUInt8 :: name
  | var, t => ∃ name, IsName name ∧ t = ':'.toUInt8 :: name
  | mark, t => ∃ c ∈ marks, t = [c]

def Lexeme.pattern : Lexeme → Pattern
  | .identifier _ | .keyword _ => .name
  | .number _ => .number
  | .word _ => .word
  | .var _ => .var
  | _ => .mark

def keywords : List Text :=
  [ascii "repeat", ascii "make", ascii "to", ascii "end"]

/-- Maximal munch: the lexeme is what stands in front of the rest of a text. The
flag tells that it touches a value from the right. -/
structure Munch (touches : Bool) (l : Lexeme) (rest : Text) : Prop where
  matched : l.pattern.Matches l.spelling
  longest : ∀ t, t <+: l.spelling ++ rest → l.pattern.Matches t → t.length ≤ l.spelling.length
  keyword : l.pattern = .name → ((∃ k, l = .keyword k) ↔ l.spelling ∈ keywords)
  minus : ∀ t, l.spelling ++ rest = Numeral.minus :: t →
    (l.pattern = .number ↔ Lexer.startsWith Text.isDigit t = true ∧ touches = false)

namespace Lexer

variable {touches : Bool} {c : UInt8} {t rest : Text}

/-! ### Names and marks -/

theorem find?_isSome_iff (name : Text) : (Keyword.find? name).isSome = true ↔ name ∈ keywords := by
  have hkeywords : keywords = Keyword.all.map Keyword.spelling := rfl
  rw [Keyword.find?, List.find?_isSome, hkeywords, List.mem_map]
  simp only [beq_iff_eq]

theorem spelling_ofName (name : Text) : (ofName name).spelling = name := by
  rw [ofName]
  cases hfind : Keyword.find? name with
  | none => rfl
  | some k =>
      have hk := List.find?_some hfind
      simpa [Lexeme.spelling, Lexeme.sigil, Lexeme.name] using hk

theorem pattern_ofName (name : Text) : (ofName name).pattern = .name := by
  rw [ofName]
  cases Keyword.find? name <;> rfl

theorem ofName_eq_keyword_iff (name : Text) :
    (∃ k, ofName name = .keyword k) ↔ name ∈ keywords := by
  rw [← find?_isSome_iff, ofName]
  cases Keyword.find? name <;> simp

/-- A lexeme that looks like a name is the one that its spelling makes. -/
theorem ofName_spelling {l : Lexeme} (hname : l.pattern = .name)
    (hkeyword : (∃ k, l = .keyword k) ↔ l.spelling ∈ keywords) : ofName l.spelling = l := by
  cases l with
  | keyword k => cases k <;> decide
  | identifier name =>
      have hnone : ¬ (Keyword.find? name).isSome = true := by
        rw [find?_isSome_iff]
        intro hmem
        obtain ⟨k, hk⟩ := hkeyword.2 hmem
        cases hk
      rw [Bool.not_eq_true, Option.isSome_eq_false_iff, Option.isNone_iff_eq_none] at hnone
      show ofName name = _
      rw [ofName, hnone]
  | _ => cases hname

theorem punctuation?_isSome_iff (c : UInt8) : (punctuation? c).isSome = true ↔ c ∈ marks :=
  Text.forall_byte (P := fun c => (punctuation? c).isSome = true ↔ c ∈ marks) (by decide +kernel) c

theorem of_punctuation? {l : Lexeme} (h : punctuation? c = some l) :
    l.pattern = .mark ∧ l.spelling = [c] := by
  simp only [punctuation?, beq_iff_eq] at h
  split_ifs at h with h₁ h₂ h₃ h₄ h₅ h₆ h₇ h₈ <;> cases h <;> subst c <;> exact ⟨rfl, rfl⟩

theorem punctuation?_of_pattern {l : Lexeme} (h : l.pattern = .mark) (hspelling : l.spelling = [c]) :
    punctuation? c = some l := by
  have hc : l.spelling.head? = some c := by rw [hspelling, List.head?_cons]
  cases l with
  | operator o => cases o <;> cases hc <;> rfl
  | leftBracket | rightBracket | leftParen | rightParen => cases hc; rfl
  | _ => cases h

/-! ### The longest text of a pattern -/

/-- All bytes of the class that a text begins with are at least as many as any of them. -/
theorem length_le_takeWhile {p : UInt8 → Bool} {bytes : Text} (hfront : bytes <+: t)
    (hbytes : ∀ b ∈ bytes, p b = true) : bytes.length ≤ (t.takeWhile p).length := by
  obtain ⟨rest, rfl⟩ := hfront
  rw [List.takeWhile_append_of_pos hbytes, List.length_append]
  exact Nat.le_add_right _ _

theorem isDigit_minus : Text.isDigit Numeral.minus = false := by
  decide

theorem isLetter_minus : Text.isLetter Numeral.minus = false := by
  decide

theorem isNameByte_of_isLetter (h : Text.isLetter c = true) : Text.isNameByte c = true := by
  simp [Text.isNameByte, h]

theorem munch_of_text {l : Lexeme} (htext : l.spelling ++ rest = c :: t)
    (hmatched : l.pattern.Matches l.spelling)
    (hlongest : ∀ s, s <+: c :: t → l.pattern.Matches s → s.length ≤ l.spelling.length)
    (hkeyword : l.pattern = .name → ((∃ k, l = .keyword k) ↔ l.spelling ∈ keywords))
    (hminus : c = Numeral.minus →
      (l.pattern = .number ↔ startsWith Text.isDigit t = true ∧ touches = false)) :
    c :: t = l.spelling ++ rest ∧ Munch touches l rest := by
  refine ⟨htext.symm, hmatched, ?_, hkeyword, ?_⟩
  · rw [htext]
    exact hlongest
  · intro s hs
    rw [htext] at hs
    cases hs
    exact hminus rfl

theorem munch_name (hletter : Text.isLetter c = true) :
    let l := ofName (c :: t.takeWhile Text.isNameByte)
    let rest := t.dropWhile Text.isNameByte
    c :: t = l.spelling ++ rest ∧ Munch touches l rest := by
  have hspelling := spelling_ofName (c :: t.takeWhile Text.isNameByte)
  have hpattern := pattern_ofName (c :: t.takeWhile Text.isNameByte)
  apply munch_of_text (c := c) (t := t)
  · rw [hspelling, List.cons_append, List.takeWhile_append_dropWhile]
  · rw [hspelling, hpattern]
    refine ⟨⟨List.cons_ne_nil _ _, ?_⟩, hletter⟩
    intro b hb
    rcases List.mem_cons.1 hb with rfl | hb
    · exact isNameByte_of_isLetter hletter
    · exact List.mem_takeWhile_imp hb
  · rw [hspelling, hpattern]
    rintro s hs ⟨hname, -⟩
    have hle := length_le_takeWhile hs hname.2
    rwa [List.takeWhile_cons_of_pos (isNameByte_of_isLetter hletter)] at hle
  · intro _
    rw [hspelling]
    exact ofName_eq_keyword_iff _
  · rintro rfl
    rw [isLetter_minus] at hletter
    cases hletter

theorem munch_number (hopens : opensNumber touches c t = true) :
    let l := Lexeme.number (c :: t.takeWhile Text.isDigit)
    let rest := t.dropWhile Text.isDigit
    c :: t = l.spelling ++ rest ∧ Munch touches l rest := by
  have hdigits : ∀ b ∈ t.takeWhile Text.isDigit, Text.isDigit b = true :=
    fun b hb => List.mem_takeWhile_imp hb
  rw [opensNumber, Bool.or_eq_true] at hopens
  apply munch_of_text (c := c) (t := t)
  · show c :: t.takeWhile Text.isDigit ++ t.dropWhile Text.isDigit = _
    rw [List.cons_append, List.takeWhile_append_dropWhile]
  · rcases hopens with hdigit | hminus
    · exact ⟨c, _, hdigit, hdigits, .inl rfl⟩
    · simp only [Bool.and_eq_true, beq_iff_eq] at hminus
      obtain ⟨⟨rfl, -⟩, hstarts⟩ := hminus
      cases t with
      | nil => cases hstarts
      | cons d t =>
          have hd : Text.isDigit d = true := hstarts
          have htake := List.takeWhile_cons_of_pos (l := t) hd
          rw [htake] at hdigits
          refine ⟨d, t.takeWhile Text.isDigit, hd, ?_, .inr ?_⟩
          · intro b hb
            exact hdigits b (List.mem_cons_of_mem _ hb)
          · rw [← htake]
            rfl
  · rintro s hs ⟨d, ds, hd, hds, rfl | rfl⟩
    · obtain ⟨rfl, hds'⟩ := List.cons_prefix_cons.1 hs
      exact Nat.succ_le_succ (length_le_takeWhile hds' hds)
    · obtain ⟨rfl, hds'⟩ := List.cons_prefix_cons.1 hs
      refine Nat.succ_le_succ (length_le_takeWhile hds' ?_)
      simpa [hd] using hds
  · intro h
    cases h
  · rintro rfl
    simpa [Lexeme.pattern, isDigit_minus, and_comm] using hopens

theorem isName_takeWhile (hstarts : startsWith Text.isNameByte t = true) :
    IsName (t.takeWhile Text.isNameByte) := by
  refine ⟨?_, fun b hb => List.mem_takeWhile_imp hb⟩
  cases t with
  | nil => cases hstarts
  | cons b t =>
      have hb : Text.isNameByte b = true := hstarts
      rw [List.takeWhile_cons_of_pos hb]
      exact List.cons_ne_nil _ _

/-- A name behind a sign. -/
theorem munch_signed {l : Text → Lexeme} {sign : UInt8}
    (hspelling : ∀ name, (l name).spelling = sign :: name)
    (hmatches : ∀ name s, (l name).pattern.Matches s ↔ ∃ name, IsName name ∧ s = sign :: name)
    (hpattern : ∀ name, (l name).pattern ≠ .name) (hsign : sign ≠ Numeral.minus)
    (hstarts : startsWith Text.isNameByte t = true) :
    let l := l (t.takeWhile Text.isNameByte)
    let rest := t.dropWhile Text.isNameByte
    sign :: t = l.spelling ++ rest ∧ Munch touches l rest := by
  apply munch_of_text (c := sign) (t := t)
  · rw [hspelling, List.cons_append, List.takeWhile_append_dropWhile]
  · rw [hmatches, hspelling]
    exact ⟨_, isName_takeWhile hstarts, rfl⟩
  · intro s hs hmatch
    obtain ⟨name, hname, rfl⟩ := (hmatches _ _).1 hmatch
    rw [hspelling]
    obtain ⟨-, hfront⟩ := List.cons_prefix_cons.1 hs
    exact Nat.succ_le_succ (length_le_takeWhile hfront hname.2)
  · intro hname
    exact absurd hname (hpattern _)
  · intro hminus
    exact absurd hminus hsign

theorem munch_mark {l : Lexeme} (hl : punctuation? c = some l)
    (hopens : opensNumber touches c t = false) :
    c :: t = l.spelling ++ t ∧ Munch touches l t := by
  obtain ⟨hpattern, hspelling⟩ := of_punctuation? hl
  have hmark : c ∈ marks := (punctuation?_isSome_iff c).1 (by simp [hl])
  apply munch_of_text (c := c) (t := t)
  · rw [hspelling, List.singleton_append]
  · rw [hpattern, hspelling]
    exact ⟨c, hmark, rfl⟩
  · rw [hpattern, hspelling]
    rintro s - ⟨b, -, rfl⟩
    exact Nat.le_refl _
  · intro hname
    rw [hpattern] at hname
    cases hname
  · rintro rfl
    rw [hpattern]
    constructor
    · intro hnumber
      cases hnumber
    · rintro ⟨hdigit, rfl⟩
      simp [opensNumber, hdigit] at hopens

/-- What the scanner finds is what stands there. -/
theorem munch_of_scan? {l : Lexeme} (h : scan? touches c t = some (l, rest)) :
    c :: t = l.spelling ++ rest ∧ Munch touches l rest := by
  rw [scan?] at h
  split_ifs at h with hletter hopens hword hvar
  · cases h
    exact munch_name hletter
  · cases h
    exact munch_number hopens
  · cases h
    simp only [Bool.and_eq_true, beq_iff_eq] at hword
    obtain ⟨rfl, hstarts⟩ := hword
    exact munch_signed (fun _ => rfl) (fun _ _ => Iff.rfl) (fun _ h => by cases h) (by decide) hstarts
  · cases h
    simp only [Bool.and_eq_true, beq_iff_eq] at hvar
    obtain ⟨rfl, hstarts⟩ := hvar
    exact munch_signed (fun _ => rfl) (fun _ _ => Iff.rfl) (fun _ h => by cases h) (by decide) hstarts
  · obtain ⟨l', hl, heq⟩ := Option.map_eq_some_iff.1 h
    cases heq
    exact munch_mark hl (Bool.not_eq_true _ ▸ hopens)

/-! ### Only one lexeme stands there -/

/-- Behind the longest text of a pattern the pattern does not go on. -/
theorem not_startsWith_of_munch {l : Lexeme} (h : Munch touches l rest) {p : UInt8 → Bool}
    (hlonger : ∀ b, p b = true → l.pattern.Matches (l.spelling ++ [b])) :
    startsWith p rest = false := by
  cases rest with
  | nil => rfl
  | cons b rest =>
      rw [startsWith, Bool.eq_false_iff]
      intro hb
      have hle := h.longest (l.spelling ++ [b]) ⟨rest, by simp⟩ (hlonger b hb)
      rw [List.length_append, List.length_singleton] at hle
      exact Nat.not_succ_le_self _ hle

theorem startsWith_append {p : UInt8 → Bool} (h : startsWith p t = true) (s : Text) :
    startsWith p (t ++ s) = true := by
  cases t with
  | nil => cases h
  | cons b t => exact h

theorem isName_snoc {name : Text} (h : IsName name) {b : UInt8} (hb : Text.isNameByte b = true) :
    IsName (name ++ [b]) := by
  refine ⟨by simp, ?_⟩
  intro d hd
  rcases List.mem_append.1 hd with hd | hd
  · exact h.2 d hd
  · rw [List.mem_singleton.1 hd]
    exact hb

theorem isNumeral_snoc {digits : Text} (h : IsNumeral digits) {b : UInt8}
    (hb : Text.isDigit b = true) : IsNumeral (digits ++ [b]) := by
  obtain ⟨d, ds, hd, hds, hdigits⟩ := h
  refine ⟨d, ds ++ [b], hd, ?_, ?_⟩
  · intro e he
    rcases List.mem_append.1 he with he | he
    · exact hds e he
    · rw [List.mem_singleton.1 he]
      exact hb
  · rcases hdigits with rfl | rfl
    · exact .inl rfl
    · exact .inr rfl

section

variable {l : Lexeme}

theorem scan?_of_name (h : Munch touches l rest) (hname : l.pattern = .name)
    (htext : c :: t = l.spelling ++ rest) : scan? touches c t = some (l, rest) := by
  have hmatched := h.matched
  have hl := ofName_spelling hname (h.keyword hname)
  have hrest : startsWith Text.isNameByte rest = false := by
    apply not_startsWith_of_munch h
    rw [hname] at hmatched ⊢
    intro b hb
    exact ⟨isName_snoc hmatched.1 hb, startsWith_append hmatched.2 [b]⟩
  rw [hname] at hmatched
  obtain ⟨hbytes, hletter⟩ := hmatched
  obtain ⟨d, bytes, hspelling⟩ := List.exists_cons_of_ne_nil hbytes.1
  rw [hspelling] at htext hletter hl hbytes
  obtain ⟨rfl, rfl⟩ := List.cons.inj htext
  have hall : ∀ b ∈ bytes, Text.isNameByte b = true :=
    fun b hb => hbytes.2 b (List.mem_cons_of_mem _ hb)
  rw [← hl]
  exact scan?_name touches hletter hall hrest

theorem scan?_of_number {digits : Text} (h : Munch touches (.number digits) rest)
    (htext : c :: t = digits ++ rest) : scan? touches c t = some (.number digits, rest) := by
  have hnumeral : IsNumeral digits := h.matched
  have hrest : startsWith Text.isDigit rest = false :=
    not_startsWith_of_munch h fun b hb => isNumeral_snoc hnumeral hb
  obtain ⟨d, ds, hd, hds, rfl | rfl⟩ := hnumeral
  · obtain ⟨rfl, rfl⟩ := List.cons.inj htext
    exact scan?_digits (Text.not_isLetter_of_isDigit c hd) hds hrest (by simp [opensNumber, hd])
  · obtain ⟨rfl, rfl⟩ := List.cons.inj htext
    obtain ⟨hdigit, rfl⟩ := (h.minus _ rfl).1 rfl
    have hdigits : ∀ b ∈ d :: ds, Text.isDigit b = true := by simpa [hd] using hds
    exact scan?_digits isLetter_minus hdigits hrest (by simp [opensNumber, startsWith, hd])

/-- What stands behind a name with a sign does not go on with the name. -/
theorem apart_of_signed {sign : UInt8} {name : Text} (h : Munch touches l rest)
    (hspelling : l.spelling = sign :: name)
    (hmatches : ∀ s, l.pattern.Matches s ↔ ∃ name, IsName name ∧ s = sign :: name) :
    IsName name ∧ Apart rest := by
  obtain ⟨name', hname, heq⟩ := (hmatches l.spelling).1 h.matched
  rw [hspelling] at heq
  obtain rfl : name = name' := (List.cons.inj heq).2
  refine ⟨hname, not_startsWith_of_munch h fun b hb => ?_⟩
  rw [hmatches, hspelling]
  exact ⟨name ++ [b], isName_snoc hname hb, rfl⟩

theorem scan?_of_mark (h : Munch touches l rest) (hmark : l.pattern = .mark)
    (htext : c :: t = l.spelling ++ rest) : scan? touches c t = some (l, rest) := by
  have hmatched := h.matched
  rw [hmark] at hmatched
  obtain ⟨b, -, hspelling⟩ := hmatched
  rw [hspelling] at htext
  obtain ⟨rfl, rfl⟩ := List.cons.inj htext
  have hl := punctuation?_of_pattern hmark hspelling
  have hdigit : Text.isDigit c = false := (of_punctuation c (by simp [hl])).2.1
  have hminus := h.minus t
  rw [hspelling, hmark] at hminus
  apply scan?_punctuation hl
  -- a mark that is a minus sign does not open a number
  rw [opensNumber, hdigit, Bool.false_or, Bool.eq_false_iff]
  intro hopens
  simp only [Bool.and_eq_true, beq_iff_eq, Bool.not_eq_true'] at hopens
  obtain ⟨⟨rfl, htouches⟩, hstarts⟩ := hopens
  cases (hminus rfl).2 ⟨hstarts, htouches⟩

/-- The scanner finds exactly what stands there. -/
theorem scan?_eq_some_iff :
    scan? touches c t = some (l, rest) ↔ c :: t = l.spelling ++ rest ∧ Munch touches l rest := by
  refine ⟨munch_of_scan?, ?_⟩
  rintro ⟨htext, h⟩
  cases l with
  | number digits => exact scan?_of_number h htext
  | word name =>
      obtain ⟨hname, hrest⟩ := apart_of_signed h rfl fun _ => Iff.rfl
      obtain ⟨rfl, rfl⟩ := List.cons.inj htext
      exact scan?_word touches hname hrest
  | var name =>
      obtain ⟨hname, hrest⟩ := apart_of_signed h rfl fun _ => Iff.rfl
      obtain ⟨rfl, rfl⟩ := List.cons.inj htext
      exact scan?_var touches hname hrest
  | identifier | keyword => exact scan?_of_name h rfl htext
  | _ => exact scan?_of_mark h rfl htext

end

theorem isSome_scan?_of_mark (touches : Bool) (hc : c ∈ marks) (t : Text) :
    (scan? touches c t).isSome = true := by
  rw [scan?]
  split_ifs <;> simp [(punctuation?_isSome_iff c).2 hc]

/-- A text that begins with a text of some pattern begins with a token. -/
theorem isSome_scan?_of_matches (touches : Bool) {p : Pattern} {s : Text} (hfront : s <+: c :: t)
    (h : p.Matches s) : (scan? touches c t).isSome = true := by
  obtain ⟨rest, hrest⟩ := hfront
  cases p with
  | name =>
      obtain ⟨hname, hletter⟩ := h
      obtain ⟨d, bytes, rfl⟩ := List.exists_cons_of_ne_nil hname.1
      obtain ⟨rfl, -⟩ := List.cons.inj hrest
      have hc : Text.isLetter d = true := hletter
      simp [scan?, hc]
  | number =>
      obtain ⟨d, ds, hd, -, rfl | rfl⟩ := h
      · obtain ⟨rfl, -⟩ := List.cons.inj hrest
        simp [scan?, Text.not_isLetter_of_isDigit d hd, opensNumber, hd]
      · obtain ⟨rfl, -⟩ := List.cons.inj hrest
        exact isSome_scan?_of_mark touches (by decide) t
  | word =>
      obtain ⟨name, hname, rfl⟩ := h
      obtain ⟨rfl, rfl⟩ := List.cons.inj hrest
      rw [scan?]
      split_ifs with _ _ hword
      · rfl
      · rfl
      · rfl
      · exact absurd (by simp [startsWith_name hname]) hword
      · exact absurd (by simp [startsWith_name hname]) hword
  | var =>
      obtain ⟨name, hname, rfl⟩ := h
      obtain ⟨rfl, rfl⟩ := List.cons.inj hrest
      rw [scan?]
      split_ifs with _ _ _ hvar
      · rfl
      · rfl
      · rfl
      · rfl
      · exact absurd (by simp [startsWith_name hname]) hvar
  | mark =>
      obtain ⟨b, hb, rfl⟩ := h
      obtain ⟨rfl, -⟩ := List.cons.inj hrest
      exact isSome_scan?_of_mark touches hb t

/-- The scanner finds nothing exactly where no text of any pattern stands. -/
theorem scan?_eq_none_iff :
    scan? touches c t = none ↔ ∀ (p : Pattern) (s : Text), s <+: c :: t → ¬ p.Matches s := by
  constructor
  · intro hnone p s hfront hmatches
    have hsome := isSome_scan?_of_matches touches hfront hmatches
    rw [hnone] at hsome
    cases hsome
  · intro hnone
    rw [Option.eq_none_iff_forall_ne_some]
    rintro ⟨l, rest⟩ hscan
    obtain ⟨htext, hmunch⟩ := munch_of_scan? hscan
    exact hnone l.pattern l.spelling ⟨rest, htext.symm⟩ hmunch.matched

end Lexer

end Turtle
