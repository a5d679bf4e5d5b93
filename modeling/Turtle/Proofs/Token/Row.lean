import Turtle.Proofs.Token.Munch

/-!
What the lexer finds in a source.

A source is a row of gaps and lexemes, each lexeme the one that stands behind
its gap. Every source can be cut in this way, either to its end or up to a
byte at which no pattern matches. The cut tells all that the lexer answers:
the tokens, their lines, and the fault.
-/

namespace Turtle

/-! ### Gaps -/

/-- What stands between tokens, in front of the rest of a text: blanks, and
comments up to the end of a line or of the source. -/
inductive IsGap (rest : Text) : Text → Prop
  | nil : IsGap rest []
  | blank {c : UInt8} {gap : Text} (hc : Text.isBlank c = true) (h : IsGap rest gap) :
      IsGap rest (c :: gap)
  | comment {line gap : Text} (hline : Text.newline ∉ line)
      (hend : ∀ c ∈ (gap ++ rest).head?, c = Text.newline) (h : IsGap rest gap) :
      IsGap rest (';'.toUInt8 :: (line ++ gap))

/-- A byte behind which neither a gap goes on nor the source ends. -/
def beginsToken (c : UInt8) : Bool :=
  !Text.isBlank c && !Lexer.opensComment c

/-! ### Rows -/

/-- A lexeme and the gap in front of it. -/
structure Placed where
  gap : Text
  lexeme : Lexeme

def Placed.text (p : Placed) : Text :=
  p.gap ++ p.lexeme.spelling

/-- The text of a row. -/
def written (ps : List Placed) : Text :=
  ps.flatMap Placed.text

/-- Behind the lexeme before, if there is one, stands the row, and behind the
row the rest of a text. -/
def Stands (before : Option Lexeme) (rest : Text) : List Placed → Prop
  | [] => True
  | p :: ps =>
    IsGap (p.lexeme.spelling ++ (written ps ++ rest)) p.gap ∧
      Munch (p.gap.isEmpty && before.any Lexeme.endsValue) p.lexeme (written ps ++ rest) ∧
      Stands (some p.lexeme) rest ps

/-- The tokens of a row, behind the text before it. The line of a token is
found by counting the line breaks before it. -/
def tokensBehind (before : Text) : List Placed → List Token
  | [] => []
  | p :: ps =>
    ⟨p.lexeme, (before ++ p.gap).newlines + 1⟩ :: tokensBehind (before ++ p.text) ps

theorem Text.newlines_append (a b : Text) : (a ++ b).newlines = a.newlines + b.newlines :=
  List.count_append

namespace Lexer

/-! ### Reading a gap -/

variable {line : Nat} {touches : Bool} {before : List Token} {c : UInt8} {t rest : Text}

theorem skipLine_append {comment gap : Text} (hcomment : Text.newline ∉ comment)
    (hend : ∀ c ∈ (gap ++ rest).head?, c = Text.newline) :
    skipLine (comment ++ gap ++ rest) = gap ++ rest := by
  rw [skipLine, List.append_assoc]
  apply dropWhile_append_of_not_startsWith
  · intro b hb
    have hne : b ≠ Text.newline := fun heq => hcomment (heq ▸ hb)
    simp [hne]
  · cases hrest : gap ++ rest with
    | nil => rfl
    | cons c t => simp [startsWith, hend c (by simp [hrest])]

/-- A gap changes nothing but the line, and nothing is touched across it. -/
theorem lexFrom_gap {gap : Text} (h : IsGap rest gap) (line : Nat) (touches : Bool)
    (before : List Token) :
    lexFrom line touches before (gap ++ rest) =
      lexFrom (line + gap.newlines) (gap.isEmpty && touches) before rest := by
  induction h generalizing line touches with
  | nil => simp [Text.newlines]
  | @blank c gap hc h ih =>
      have hline : (if c == Text.newline then line + 1 else line) + gap.newlines =
          line + Text.newlines (c :: gap) := by
        by_cases hnewline : c = Text.newline
        · simp [Text.newlines, hnewline]
          omega
        · simp [Text.newlines, hnewline]
      rw [List.cons_append, lexFrom_blank hc, ih, hline]
      simp
  | @comment comment gap hcomment hend h ih =>
      have hlines : Text.newlines (';'.toUInt8 :: (comment ++ gap)) = gap.newlines := by
        have hnone : Text.newlines comment = 0 := List.count_eq_zero.2 hcomment
        rw [Text.newlines, List.count_cons_of_ne (by decide), ← Text.newlines,
          Text.newlines_append, hnone, Nat.zero_add]
      rw [List.cons_append, lexFrom_comment (by decide) (by decide), skipLine_append hcomment hend,
        ih, hlines]
      simp

/-- Every text begins with a gap, behind which a token has to begin. -/
theorem exists_gap (t : Text) :
    ∃ gap rest, t = gap ++ rest ∧ IsGap rest gap ∧ ∀ c ∈ rest.head?, beginsToken c = true := by
  induction hn : t.length using Nat.strongRecOn generalizing t with
  | ind n ih =>
      cases t with
      | nil => exact ⟨[], [], rfl, .nil, by simp⟩
      | cons c t =>
          cases hblank : Text.isBlank c with
          | true =>
              obtain ⟨gap, rest, rfl, hgap, hrest⟩ := ih t.length (by simp [← hn]) t rfl
              exact ⟨c :: gap, rest, rfl, .blank hblank hgap, hrest⟩
          | false =>
              cases hcomment : opensComment c with
              | false =>
                  refine ⟨[], c :: t, rfl, .nil, ?_⟩
                  simp [beginsToken, hblank, hcomment]
              | true =>
                  have hlength : (skipLine t).length < n := by
                    have hle := length_dropWhile_le (· != Text.newline) t
                    rw [← hn]
                    exact Nat.lt_succ_of_le hle
                  obtain ⟨gap, rest, hskip, hgap, hrest⟩ := ih _ hlength (skipLine t) rfl
                  have hsemicolon : c = ';'.toUInt8 := by simpa [opensComment] using hcomment
                  refine ⟨c :: (t.takeWhile (· != Text.newline) ++ gap), rest, ?_, ?_, hrest⟩
                  · rw [List.cons_append, List.append_assoc, ← hskip, skipLine,
                      List.takeWhile_append_dropWhile]
                  · rw [hsemicolon]
                    refine .comment ?_ ?_ hgap
                    · intro hmem
                      simpa using List.mem_takeWhile_imp hmem
                    · intro b hb
                      rw [← hskip] at hb
                      have hstop := List.head?_dropWhile_not (· != Text.newline) t
                      rw [skipLine, Option.mem_def] at hb
                      simpa [hb] using hstop

/-! ### Reading a row -/

theorem written_cons (p : Placed) (ps : List Placed) (rest : Text) :
    written (p :: ps) ++ rest = p.gap ++ (p.lexeme.spelling ++ (written ps ++ rest)) := by
  simp [written, Placed.text]

/-- No lexeme begins like a gap. -/
theorem not_gap_of_matches {p : Pattern} {s : Text} (h : p.Matches (c :: s)) :
    ¬ Text.isBlank c = true ∧ ¬ opensComment c = true := by
  have hname : Text.isNameByte c = true → ¬ Text.isBlank c = true ∧ ¬ opensComment c = true :=
    fun hc => ⟨not_isBlank_of_isNameByte hc, not_opensComment_of_isNameByte hc⟩
  cases p with
  | name => exact hname (h.1.2 c List.mem_cons_self)
  | number =>
      obtain ⟨d, ds, hd, -, heq | heq⟩ := h
      · obtain ⟨rfl, -⟩ := List.cons.inj heq
        exact hname (Text.isNameByte_of_isDigit hd)
      · obtain ⟨rfl, -⟩ := List.cons.inj heq
        decide
  | word =>
      obtain ⟨name, -, heq⟩ := h
      obtain ⟨rfl, -⟩ := List.cons.inj heq
      decide
  | var =>
      obtain ⟨name, -, heq⟩ := h
      obtain ⟨rfl, -⟩ := List.cons.inj heq
      decide
  | mark =>
      obtain ⟨b, hb, heq⟩ := h
      obtain ⟨rfl, -⟩ := List.cons.inj heq
      obtain ⟨-, -, -, -, hblank, hcomment⟩ := of_punctuation c ((punctuation?_isSome_iff c).2 hb)
      simp [hblank, hcomment]

theorem exists_cons_of_matches {p : Pattern} {s : Text} (h : p.Matches s) : ∃ c t, s = c :: t := by
  cases p with
  | name => exact List.exists_cons_of_ne_nil h.1.1
  | number =>
      obtain ⟨d, ds, -, -, rfl | rfl⟩ := h
      · exact ⟨_, _, rfl⟩
      · exact ⟨_, _, rfl⟩
  | word | var =>
      obtain ⟨name, -, rfl⟩ := h
      exact ⟨_, _, rfl⟩
  | mark =>
      obtain ⟨b, -, rfl⟩ := h
      exact ⟨_, _, rfl⟩

/-- The lexer takes a lexeme that stands behind a gap. -/
theorem lexFrom_placed {p : Placed} (hgap : IsGap (p.lexeme.spelling ++ rest) p.gap)
    (h : Munch (p.gap.isEmpty && touches) p.lexeme rest) (line : Nat) (before : List Token) :
    lexFrom line touches before (p.gap ++ (p.lexeme.spelling ++ rest)) =
      lexFrom (line + p.gap.newlines) p.lexeme.endsValue
        (⟨p.lexeme, line + p.gap.newlines⟩ :: before) rest := by
  have hmatched := h.matched
  obtain ⟨c, s, hspelling⟩ := exists_cons_of_matches hmatched
  have hscan : scan? (p.gap.isEmpty && touches) c (s ++ rest) = some (p.lexeme, rest) := by
    rw [scan?_eq_some_iff]
    exact ⟨by rw [hspelling, List.cons_append], h⟩
  rw [hspelling] at hmatched
  obtain ⟨hblank, hcomment⟩ := not_gap_of_matches hmatched
  rw [lexFrom_gap hgap, hspelling, List.cons_append, lexFrom_token hblank hcomment hscan]

theorem newlines_spelling {l : Lexeme} (h : Munch touches l rest) : l.spelling.newlines = 0 := by
  obtain ⟨c, s, hspelling⟩ := exists_cons_of_matches h.matched
  have hscan : scan? touches c (s ++ rest) = some (l, rest) := by
    rw [scan?_eq_some_iff]
    exact ⟨by rw [hspelling, List.cons_append], h⟩
  have hne : c ≠ Text.newline := by
    rintro rfl
    have hmatched := h.matched
    rw [hspelling] at hmatched
    exact (not_gap_of_matches hmatched).1 isBlank_newline
  have hlines := newlines_of_scan? hscan
  rw [Text.newlines_append] at hlines
  rw [hspelling, Text.newlines, List.count_cons_of_ne hne, ← Text.newlines]
  omega

/-- The lexer takes the lexemes of a row, one after the other. -/
theorem lexFrom_row {ps : List Placed} {last : Option Lexeme} (h : Stands last rest ps)
    (text : Text) (before : List Token) :
    ∃ touches, lexFrom (text.newlines + 1) (last.any Lexeme.endsValue) before
        (written ps ++ rest) =
      lexFrom ((text ++ written ps).newlines + 1) touches
        ((tokensBehind text ps).reverse ++ before) rest := by
  induction ps generalizing last text before with
  | nil => exact ⟨last.any Lexeme.endsValue, by simp [written, tokensBehind]⟩
  | cons p ps ih =>
      obtain ⟨hgap, hmunch, hstands⟩ := h
      obtain ⟨touches, hrow⟩ := ih hstands (text ++ p.text)
        (⟨p.lexeme, (text ++ p.gap).newlines + 1⟩ :: before)
      have hline : text.newlines + 1 + p.gap.newlines = (text ++ p.gap).newlines + 1 := by
        rw [Text.newlines_append]
        omega
      have hline' : (text ++ p.gap).newlines = (text ++ p.text).newlines := by
        rw [Placed.text, ← List.append_assoc, Text.newlines_append (text ++ p.gap),
          newlines_spelling hmunch, Nat.add_zero]
      refine ⟨touches, ?_⟩
      rw [Option.any_some, ← hline'] at hrow
      rw [written_cons, lexFrom_placed hgap hmunch, hline, hrow]
      simp [written, tokensBehind, List.append_assoc]

/-- Every text can be cut into a row and what is behind it: a last gap, or a
gap and a byte at which no pattern matches. -/
theorem exists_row (last : Option Lexeme) (t : Text) :
    ∃ ps rest, t = written ps ++ rest ∧ Stands last rest ps ∧
      (IsGap [] rest ∨ ∃ gap c s, rest = gap ++ c :: s ∧ IsGap (c :: s) gap ∧
        beginsToken c = true ∧ ∀ (p : Pattern) (u : Text), u <+: c :: s → ¬ p.Matches u) := by
  induction hn : t.length using Nat.strongRecOn generalizing t last with
  | ind n ih =>
      obtain ⟨gap, rest, rfl, hgap, hbegins⟩ := exists_gap t
      cases rest with
      | nil => exact ⟨[], gap, by simp [written], trivial, .inl hgap⟩
      | cons c s =>
          cases hscan : scan? (gap.isEmpty && last.any Lexeme.endsValue) c s with
          | none =>
              have hnone := scan?_eq_none_iff.1 hscan
              exact ⟨[], gap ++ c :: s, by simp [written], trivial,
                .inr ⟨gap, c, s, rfl, hgap, hbegins c (by simp), hnone⟩⟩
          | some r =>
              obtain ⟨l, rest⟩ := r
              obtain ⟨htext, hmunch⟩ := munch_of_scan? hscan
              have hshorter : rest.length < n := by
                have hle := length_le_of_scan? hscan
                simp only [← hn, List.length_append, List.length_cons]
                omega
              obtain ⟨ps, rest', rfl, hstands, hrest⟩ := ih _ hshorter (some l) rest rfl
              refine ⟨⟨gap, l⟩ :: ps, rest', ?_, ⟨?_, hmunch, hstands⟩, hrest⟩
              · rw [written_cons, htext]
              · rw [← htext]
                exact hgap

end Lexer

/-! ### Sources -/

theorem lex_of_row {ps : List Placed} {last : Text} (h : Stands none last ps)
    (hlast : IsGap [] last) :
    lex (written ps ++ last) = .ok ⟨tokensBehind [] ps, (written ps ++ last).newlines + 1⟩ := by
  obtain ⟨touches, hrow⟩ := Lexer.lexFrom_row h [] []
  have hgap := Lexer.lexFrom_gap hlast ((written ps).newlines + 1) touches
    (tokensBehind [] ps).reverse
  rw [List.append_nil, Lexer.lexFrom_nil, List.reverse_reverse] at hgap
  have hlines : (written ps).newlines + 1 + last.newlines = (written ps ++ last).newlines + 1 := by
    rw [Text.newlines_append]
    omega
  rw [lex]
  rw [List.append_nil, List.nil_append, hgap, hlines] at hrow
  exact hrow

theorem lex_of_stray {ps : List Placed} {gap rest : Text} {c : UInt8}
    (h : Stands none (gap ++ c :: rest) ps) (hgap : IsGap (c :: rest) gap)
    (hbegins : beginsToken c = true)
    (hnone : ∀ (p : Pattern) (s : Text), s <+: c :: rest → ¬ p.Matches s) :
    lex (written ps ++ (gap ++ c :: rest)) =
      .error ⟨(written ps ++ gap).newlines + 1, .strayByte c⟩ := by
  obtain ⟨touches, hrow⟩ := Lexer.lexFrom_row h [] []
  simp only [beginsToken, Bool.and_eq_true, Bool.not_eq_true'] at hbegins
  obtain ⟨hblank, hcomment⟩ := hbegins
  have hscan : Lexer.scan? (gap.isEmpty && touches) c rest = none :=
    Lexer.scan?_eq_none_iff.2 hnone
  have hlines : (written ps).newlines + 1 + gap.newlines = (written ps ++ gap).newlines + 1 := by
    rw [Text.newlines_append]
    omega
  rw [lex]
  rw [List.append_nil, List.nil_append, Lexer.lexFrom_gap hgap,
    Lexer.lexFrom_stray (by simp [hblank]) (by simp [hcomment]) hscan, hlines] at hrow
  exact hrow

/-- A source is lexed exactly if it is a row of gaps and lexemes, each the
longest of its pattern, and a last gap; its tokens are then those of the row.
It is refused exactly if there is such a row up to a byte that begins a token
and at which no pattern matches; this byte is told, with its line. -/
theorem lex_cuts_source (source : Text) :
    (∀ l, lex source = .ok l ↔
      ∃ ps last, source = written ps ++ last ∧ Stands none last ps ∧ IsGap [] last ∧
        l = ⟨tokensBehind [] ps, source.newlines + 1⟩) ∧
    (∀ f, lex source = .error f ↔
      ∃ ps gap c rest, source = written ps ++ (gap ++ c :: rest) ∧
        Stands none (gap ++ c :: rest) ps ∧ IsGap (c :: rest) gap ∧ beginsToken c = true ∧
        (∀ (p : Pattern) (s : Text), s <+: c :: rest → ¬ p.Matches s) ∧
        f = ⟨(written ps ++ gap).newlines + 1, .strayByte c⟩) := by
  -- one cut is enough for both, as it tells what the lexer does
  obtain ⟨ps, last, hsource, hstands, hlast⟩ := Lexer.exists_row none source
  have hrow : ∀ {ps last}, source = written ps ++ last → Stands none last ps → IsGap [] last →
      lex source = .ok ⟨tokensBehind [] ps, source.newlines + 1⟩ := by
    rintro ps last rfl hstands hlast
    exact lex_of_row hstands hlast
  have hstray : ∀ {ps gap c rest}, source = written ps ++ (gap ++ c :: rest) →
      Stands none (gap ++ c :: rest) ps → IsGap (c :: rest) gap → beginsToken c = true →
      (∀ (p : Pattern) (s : Text), s <+: c :: rest → ¬ p.Matches s) →
      lex source = .error ⟨(written ps ++ gap).newlines + 1, .strayByte c⟩ := by
    rintro ps gap c rest rfl hstands hgap hbegins hnone
    exact lex_of_stray hstands hgap hbegins hnone
  constructor
  · intro l
    constructor
    · intro hlex
      rcases hlast with hlast | ⟨gap, c, rest, rfl, hgap, hbegins, hnone⟩
      · have hok := hrow hsource hstands hlast
        exact ⟨ps, last, hsource, hstands, hlast, Except.ok.inj (hlex.symm.trans hok)⟩
      · have herror := hstray hsource hstands hgap hbegins hnone
        cases hlex.symm.trans herror
    · rintro ⟨ps, last, hsource, hstands, hlast, rfl⟩
      exact hrow hsource hstands hlast
  · intro f
    constructor
    · intro hlex
      rcases hlast with hlast | ⟨gap, c, rest, rfl, hgap, hbegins, hnone⟩
      · have hok := hrow hsource hstands hlast
        cases hlex.symm.trans hok
      · have herror := hstray hsource hstands hgap hbegins hnone
        exact ⟨ps, gap, c, rest, hsource, hstands, hgap, hbegins, hnone,
          Except.error.inj (hlex.symm.trans herror)⟩
    · rintro ⟨ps, gap, c, rest, hsource, hstands, hgap, hbegins, hnone, rfl⟩
      exact hstray hsource hstands hgap hbegins hnone

/-- The first minus sign touches a number, the second one does not. -/
example : lex (ascii "7-2 ; less\n-3") =
    .ok ⟨[⟨.number (ascii "7"), 1⟩, ⟨.operator .sub, 1⟩, ⟨.number (ascii "2"), 1⟩,
      ⟨.number (ascii "-3"), 2⟩], 2⟩ := by
  decide +kernel

end Turtle
