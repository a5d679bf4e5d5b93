import Mathlib.Data.List.Basic
import Turtle.Listing
import Turtle.Proofs.Token.Respacing

/-!
What a listing has from the source.

Operands and operators are listed as the lexer would read them: each is the
spelling of a well-formed lexeme, with single spaces between them in a sequence.
So the lexer recovers them from the listing. In particular a negative number is
not mistaken for an operator and a number, although both begin with a minus sign.
-/

namespace Turtle

/-! ### Numerals -/

namespace Numeral

theorem toNat_toUInt8 {c : Char} (h : c.isDigit = true) : c.toUInt8.toNat = c.toNat := by
  have hhigh : c.toNat ≤ 57 := (Char.isDigit_iff_toNat.1 h).2
  have hbyte : c.toUInt8.toNat = c.toNat % 2 ^ 8 := UInt32.toNat_toUInt8 c.val
  omega

theorem isDigit_toUInt8 {c : Char} (h : c.isDigit = true) : Text.isDigit c.toUInt8 = true := by
  have hrange : 48 ≤ c.toNat ∧ c.toNat ≤ 57 := Char.isDigit_iff_toNat.1 h
  simp only [Text.isDigit, Bool.and_eq_true, decide_eq_true_eq, UInt8.le_iff_toNat_le,
    toNat_toUInt8 h]
  exact hrange

theorem isDigit_of_mem_toDigits {n : Nat} {c : Char} (h : c ∈ Nat.toDigits 10 n) :
    c.isDigit = true :=
  Nat.isDigit_of_mem_toDigits (by decide) (by decide) h

theorem isDigit_of_mem_ofNat (n : Nat) : ∀ b ∈ ofNat n, Text.isDigit b = true := by
  intro b hb
  obtain ⟨c, hc, rfl⟩ := List.mem_map.1 hb
  exact isDigit_toUInt8 (isDigit_of_mem_toDigits hc)

/-- A natural number is written with one digit or more. -/
theorem ofNat_eq_cons (n : Nat) : ∃ d ds, ofNat n = d :: ds ∧ Text.isDigit d = true ∧
    ∀ b ∈ ds, Text.isDigit b = true := by
  have hdigits := isDigit_of_mem_ofNat n
  cases hofNat : ofNat n with
  | nil => exact absurd (List.map_eq_nil_iff.1 hofNat) Nat.toDigits_ne_nil
  | cons d ds =>
      rw [hofNat, List.forall_mem_cons] at hdigits
      exact ⟨d, ds, rfl, hdigits⟩

theorem value_ofNat (n : Nat) : value (ofNat n) = n := by
  rw [value, ofNat, List.foldl_map]
  calc
    _ = Nat.ofDigitChars 10 (Nat.toDigits 10 n) 0 := by
      apply List.foldl_ext
      intro v c hc
      rw [toNat_toUInt8 (isDigit_of_mem_toDigits hc)]
    _ = n := Nat.ofDigitChars_ten_toDigits

theorem ofNat_injective : Function.Injective ofNat :=
  Function.LeftInverse.injective value_ofNat

theorem readNat?_ofNat (n : Nat) : readNat? (ofNat n) = some n := by
  obtain ⟨d, ds, hofNat, hd, hds⟩ := ofNat_eq_cons n
  have hdigits : (d :: ds).all Text.isDigit = true :=
    List.all_eq_true.2 (List.forall_mem_cons.2 ⟨hd, hds⟩)
  rw [readNat?, hofNat, hdigits, ← hofNat, value_ofNat, hofNat]
  rfl

/-- What is written for an integer is read back as that integer. -/
theorem readInt?_ofInt (n : Int) : readInt? (ofInt n) = some n := by
  cases n with
  | ofNat n =>
      obtain ⟨d, ds, hofNat, hd, -⟩ := ofNat_eq_cons n
      have hminus : (d == minus) = false := by
        rw [beq_eq_false_iff_ne]
        rintro rfl
        exact absurd hd (by decide)
      rw [ofInt, hofNat, readInt?, hminus, ← hofNat, readNat?_ofNat]
      rfl
  | negSucc n =>
      rw [ofInt, readInt?, readNat?_ofNat]
      rfl

theorem ofInt64_injective : Function.Injective ofInt64 := by
  intro n n' h
  have hread : some n.toInt = some n'.toInt := by
    rw [← readInt?_ofInt, ← readInt?_ofInt n'.toInt]
    exact congrArg readInt? h
  exact Int64.toInt_inj.1 (Option.some.inj hread)

theorem isNumeral_ofInt64 (n : Int64) : IsNumeral (ofInt64 n) := by
  rw [ofInt64]
  cases n.toInt with
  | ofNat m =>
      obtain ⟨d, ds, hofNat, hd, hds⟩ := ofNat_eq_cons m
      exact ⟨d, ds, hd, hds, .inl hofNat⟩
  | negSucc m =>
      obtain ⟨d, ds, hofNat, hd, hds⟩ := ofNat_eq_cons (m + 1)
      exact ⟨d, ds, hd, hds, .inr (congrArg (minus :: ·) hofNat)⟩

end Numeral

/-! ### Operands and operators as lexemes -/

def Operand.lexeme : Operand → Lexeme
  | .number n => .number (Numeral.ofInt64 n)
  | .var name => .var name
  | .word name => .word name

def Item.lexeme : Item → Lexeme
  | .operand o => o.lexeme
  | .operator o => .operator o

theorem Operand.lexeme_injective : Function.Injective Operand.lexeme := by
  intro o o' h
  cases o with
  | number n =>
      cases o' with
      | number n' => rw [Numeral.ofInt64_injective (Lexeme.number.inj h)]
      | _ => cases h
  | var name => cases o' <;> cases h; rfl
  | word name => cases o' <;> cases h; rfl

theorem Item.lexeme_injective : Function.Injective Item.lexeme := by
  intro i i' h
  cases i with
  | operand o =>
      cases i' with
      | operand o' => rw [Operand.lexeme_injective h]
      | operator op' => cases o <;> cases h
  | operator op =>
      cases i' with
      | operand o' => cases o' <;> cases h
      | operator op' => cases h; rfl

namespace Listing

theorem operand_eq_spelling (o : Operand) : operand o = o.lexeme.spelling := by
  cases o <;> rfl

theorem item_eq_spelling (i : Item) : item i = i.lexeme.spelling := by
  cases i with
  | operand o => exact operand_eq_spelling o
  | operator o => rfl

/-! ### Rows of lexemes -/

/-- The lexer takes the lexemes of a row from the listing. -/
theorem exists_lex_spaced {ls : List Lexeme} (h : ∀ l ∈ ls, l.WellFormed) :
    ∃ x, lex (spaced (ls.map Lexeme.spelling)) = .ok x ∧ x.tokens.map Token.lexeme = ls := by
  have hspaced : WellSpaced (placedWith (ascii " ") ls) :=
    wellSpaced_placedWith (.blank (by decide) .nil) (by decide) h
  have hnone : IsGap [] [] := .nil
  have hlex := hspaced.lex_eq hnone
  rw [List.append_nil, written_placedWith] at hlex
  exact ⟨_, hlex, by rw [lexemes_tokensBehind, lexemes_placedWith]⟩

theorem spaced_unique {ls ls' : List Lexeme} (h : ∀ l ∈ ls, l.WellFormed)
    (h' : ∀ l ∈ ls', l.WellFormed)
    (heq : spaced (ls.map Lexeme.spelling) = spaced (ls'.map Lexeme.spelling)) : ls = ls' := by
  obtain ⟨x, hlex, rfl⟩ := exists_lex_spaced h
  obtain ⟨x', hlex', rfl⟩ := exists_lex_spaced h'
  rw [heq, hlex'] at hlex
  cases hlex
  rfl

/-! ### Lines -/

theorem newline_notMem_name {name : Text} (h : IsName name) : Text.newline ∉ name := by
  intro hmem
  exact absurd (h.2 _ hmem) (by decide)

theorem newline_notMem_ofNat (n : Nat) : Text.newline ∉ Numeral.ofNat n := by
  intro hmem
  exact absurd (Numeral.isDigit_of_mem_ofNat n _ hmem) (by decide)

theorem newline_notMem_spelling {l : Lexeme} (h : l.WellFormed) : Text.newline ∉ l.spelling := by
  cases l with
  | number digits =>
      obtain ⟨d, ds, hd, hds, hdigits⟩ := h
      have hrow : Text.newline ∉ d :: ds := by
        intro hmem
        have hdigit : Text.isDigit Text.newline = true :=
          List.forall_mem_cons (p := (Text.isDigit · = true)).2 ⟨hd, hds⟩ _ hmem
        exact absurd hdigit (by decide)
      rcases hdigits with rfl | rfl
      · exact hrow
      · exact List.not_mem_cons_of_ne_of_not_mem (by decide) hrow
  | word name => exact List.not_mem_cons_of_ne_of_not_mem (by decide) (newline_notMem_name h)
  | var name => exact List.not_mem_cons_of_ne_of_not_mem (by decide) (newline_notMem_name h)
  | identifier name => exact newline_notMem_name h.1
  | keyword k => cases k <;> decide
  | operator o => cases o <;> decide
  | leftBracket | rightBracket | leftParen | rightParen => decide

theorem newline_notMem_spaced {ts : List Text} (h : ∀ t ∈ ts, Text.newline ∉ t) :
    Text.newline ∉ spaced ts := by
  induction ts with
  | nil => exact List.not_mem_nil
  | cons t ts ih =>
      obtain ⟨ht, hts⟩ := List.forall_mem_cons.1 h
      cases ts with
      | nil => simpa [spaced] using ht
      | cons u ts =>
          have hspaced : spaced (t :: u :: ts) = t ++ (ascii " " ++ spaced (u :: ts)) := rfl
          have hblank : Text.newline ∉ ascii " " := by decide
          rw [hspaced]
          exact List.not_mem_append ht (List.not_mem_append hblank (ih hts))

end Listing

end Turtle
