import Mathlib.Data.Nat.Digits.Defs
import Turtle.Console.Options
import Turtle.Proofs.Number.Exact

/-!
Rows of segments.

A segment is a flag, an option together with the word behind it, or a script. Its
first word tells which of them it is, so that whatever stands behind an option
which takes a value belongs to the option. What the options come to can be read
off the segments of a command line, each setting off the last of those that are
about it. Words that begin with no segment offend in one of five ways.
-/

namespace Turtle.Options

/-! ### Numerals -/

/-- The number that a row of digits stands for. -/
def magnitude (digits : Text) : ℕ :=
  Nat.ofDigits 10 (digits.reverse.map fun d => d.toNat - '0'.toNat)

/-- The word consists of digits, perhaps behind a minus sign, and stands for the
integer. -/
inductive Denotes : Text → ℤ → Prop
  | plain {digits : Text} (hne : digits ≠ []) (hdigits : ∀ d ∈ digits, Text.isDigit d = true) :
      Denotes digits (magnitude digits)
  | negative {digits : Text} (hne : digits ≠ [])
      (hdigits : ∀ d ∈ digits, Text.isDigit d = true) :
      Denotes (Numeral.minus :: digits) (-magnitude digits)

theorem value_eq_magnitude (digits : Text) : Numeral.value digits = magnitude digits := by
  induction digits using List.reverseRecOn with
  | nil => rfl
  | append_singleton digits d ih =>
      rw [Numeral.value, List.foldl_append, ← Numeral.value, ih, magnitude, magnitude,
        List.reverse_append, List.reverse_singleton, List.singleton_append, List.map_cons,
        Nat.ofDigits_cons]
      exact Nat.add_comm _ _

theorem readNat?_eq_some_iff {digits : Text} {n : ℕ} :
    Numeral.readNat? digits = some n ↔
      digits ≠ [] ∧ (∀ d ∈ digits, Text.isDigit d = true) ∧ magnitude digits = n := by
  simp [Numeral.readNat?, value_eq_magnitude, and_assoc]

theorem readInt?_eq_some_iff {t : Text} {n : ℤ} : Numeral.readInt? t = some n ↔ Denotes t n := by
  constructor
  · intro h
    cases t with
    | nil => cases h
    | cons c t =>
        rw [Numeral.readInt?] at h
        split_ifs at h with hminus
        · obtain ⟨k, hk, rfl⟩ := Option.map_eq_some_iff.1 h
          obtain ⟨m, hm, hcast⟩ := Option.bind_eq_some_iff.1 hk
          cases hcast
          obtain ⟨hne, hdigits, rfl⟩ := readNat?_eq_some_iff.1 hm
          rw [beq_iff_eq.1 hminus]
          exact .negative hne hdigits
        · obtain ⟨k, hk, rfl⟩ := Option.map_eq_some_iff.1 h
          obtain ⟨m, hm, hcast⟩ := Option.bind_eq_some_iff.1 hk
          cases hcast
          obtain ⟨hne, hdigits, rfl⟩ := readNat?_eq_some_iff.1 hm
          exact .plain hne hdigits
  · rintro (⟨hne, hdigits⟩ | ⟨hne, hdigits⟩)
    · obtain ⟨c, t, rfl⟩ := List.exists_cons_of_ne_nil hne
      have hc : c ≠ Numeral.minus := by
        rintro rfl
        exact absurd (hdigits _ List.mem_cons_self) (by decide)
      rw [Numeral.readInt?, if_neg (by simpa using hc),
        readNat?_eq_some_iff.2 ⟨hne, hdigits, rfl⟩]
      rfl
    · rw [Numeral.readInt?, if_pos (beq_self_eq_true _),
        readNat?_eq_some_iff.2 ⟨hne, hdigits, rfl⟩]
      rfl

theorem Denotes.unique {t : Text} {n m : ℤ} (h : Denotes t n) (h' : Denotes t m) : n = m :=
  Option.some.inj ((readInt?_eq_some_iff.2 h).symm.trans (readInt?_eq_some_iff.2 h'))

/-- The word stands for a 64-bit number. -/
def DenotesWord (t : Text) : Prop :=
  ∃ n, Denotes t n ∧ -2 ^ 63 ≤ n ∧ n < 2 ^ 63

section

variable {value : Text} {n : ℤ} {least greatest : ℕ}

theorem readInt64?_of_denotes (h : Denotes value n) (hlower : -2 ^ 63 ≤ n) (hupper : n < 2 ^ 63) :
    ∃ k : Int64, Numeral.readInt64? value = some k ∧ k.toInt = n := by
  have hfits : Numeral.fits n = true := Checked.fits_iff.2 ⟨hlower, hupper⟩
  refine ⟨.ofInt n, ?_, ?_⟩
  · rw [Numeral.readInt64?, readInt?_eq_some_iff.2 h, Option.bind_some, Numeral.toInt64?,
      if_pos hfits]
  · rw [Int64.toInt_ofInt]
    exact Checked.bmod_of_fits hfits

theorem readWithin_of_denotes (option : Text) (h : Denotes value n) (hlower : -2 ^ 63 ≤ n)
    (hupper : n < 2 ^ 63) :
    readWithin option value least greatest =
      if n < least ∨ greatest < n then .error (.outOfRange option least greatest n)
      else .ok n.toNat := by
  obtain ⟨k, hread, rfl⟩ := readInt64?_of_denotes h hlower hupper
  rw [readWithin, hread]
  simp

theorem readWithin_of_not_denotesWord (option : Text) (h : ¬ DenotesWord value) :
    readWithin option value least greatest = .error (.notAnInteger option value) := by
  have hnone : Numeral.readInt64? value = none := by
    rw [Option.eq_none_iff_forall_ne_some]
    intro k hk
    obtain ⟨n, hn, hfits⟩ := Option.bind_eq_some_iff.1 hk
    rw [Numeral.toInt64?] at hfits
    split_ifs at hfits with hrange
    exact h ⟨n, readInt?_eq_some_iff.1 hn, Checked.fits_iff.1 hrange⟩
  rw [readWithin, hnone]

end

/-! ### Segments -/

/-- The spelling of a flag, long or short. -/
def Flag.word : Flag → (long : Bool) → Text
  | .help, false => ascii "-h"
  | .help, true => ascii "--help"
  | .debug, false => ascii "-d"
  | .debug, true => ascii "--debug"
  | .interactive, false => ascii "-i"
  | .interactive, true => ascii "--interactive"

def Setting.word : Setting → (long : Bool) → Text
  | .output, false => ascii "-o"
  | .output, true => ascii "--output"
  | .width, false => ascii "-W"
  | .width, true => ascii "--width"
  | .height, false => ascii "-H"
  | .height, true => ascii "--height"
  | .limit, false => ascii "-m"
  | .limit, true => ascii "--max-depth"

/-- The least and the greatest value of a setting that is a number. -/
def Setting.range? : Setting → Option (ℕ × ℕ)
  | .output => none
  | .width => some (1, 16384)
  | .height => some (1, 16384)
  | .limit => some (0, 2147483647)

/-- The word names a file. A single minus sign does so, too. -/
def IsPath (word : Text) : Prop :=
  word = ascii "-" ∨ word.head? ≠ some '-'.toUInt8

/-- The word looks like an option, but is the spelling of none. -/
def IsUnknown (word : Text) : Prop :=
  ¬ IsPath word ∧ (∀ f long, word ≠ Flag.word f long) ∧ ∀ s long, word ≠ Setting.word s long

inductive Segment
  | flag (f : Flag) (long : Bool)
  | setting (s : Setting) (long : Bool) (value : Text)
  | script (path : Text)
  deriving DecidableEq, Repr

/-- What a segment can be about. -/
inductive Topic
  | flag (f : Flag)
  | setting (s : Setting)
  | script
  deriving DecidableEq, Repr

namespace Segment

def words : Segment → List Text
  | flag f long => [f.word long]
  | setting s long value => [s.word long, value]
  | script path => [path]

def topic : Segment → Topic
  | flag f _ => .flag f
  | setting s .. => .setting s
  | script _ => .script

/-- What is set. A flag is set by being there. -/
def value : Segment → Text
  | flag .. => []
  | setting _ _ value => value
  | script path => path

/-- The segment can stand in a command line. -/
def Proper : Segment → Prop
  | flag .. => True
  | setting s _ value =>
    ∀ least greatest, s.range? = some (least, greatest) →
      ∃ n : ℤ, Denotes value n ∧ least ≤ n ∧ n ≤ greatest
  | script path => IsPath path

end Segment

/-- The segments make up a command line. -/
structure Acceptable (segments : List Segment) : Prop where
  proper : ∀ s ∈ segments, s.Proper
  script : segments.countP (·.topic == .script) ≤ 1

/-- What the last segment about the topic sets. -/
def last? (segments : List Segment) (t : Topic) : Option Text :=
  ((segments.filter (·.topic == t)).getLast?).map Segment.value

/-- The options are what the segments set, and the defaults where they set
nothing. -/
structure Settled (segments : List Segment) (o : Options) : Prop where
  script : o.script = last? segments .script
  output : o.output = (last? segments (.setting .output)).getD (ascii "tlogo.bmp")
  width : (last? segments (.setting .width)).elim (o.width = 800) (Denotes · o.width)
  height : (last? segments (.setting .height)).elim (o.height = 600) (Denotes · o.height)
  limit : (last? segments (.setting .limit)).elim (o.limit = 1000) (Denotes · o.limit)
  debug : o.debug = (last? segments (.flag .debug)).isSome
  interactive : o.interactive = (last? segments (.flag .interactive)).isSome
  help : o.help = (last? segments (.flag .help)).isSome

/-- Behind the segments the words begin with none that could follow, of which the
notice tells. -/
inductive Offends (before : List Segment) : List Text → Notice → Prop
  | missingValue (s : Setting) (long : Bool) :
      Offends before [s.word long] (.missingValue (s.word long))
  | notAnInteger {s : Setting} {range : ℕ × ℕ} {value : Text} (long : Bool) (rest : List Text)
      (hrange : s.range? = some range) (hvalue : ¬ DenotesWord value) :
      Offends before (s.word long :: value :: rest) (.notAnInteger (s.word long) value)
  | outOfRange {s : Setting} {least greatest : ℕ} {value : Text} {n : ℤ} (long : Bool)
      (rest : List Text) (hrange : s.range? = some (least, greatest)) (hvalue : Denotes value n)
      (hlower : -2 ^ 63 ≤ n) (hupper : n < 2 ^ 63) (hout : n < least ∨ greatest < n) :
      Offends before (s.word long :: value :: rest)
        (.outOfRange (s.word long) least greatest n)
  | unknownOption {word : Text} (rest : List Text) (hword : IsUnknown word) :
      Offends before (word :: rest) (.unknownOption word)
  | secondScript {first path : Text} (rest : List Text) (hpath : IsPath path)
      (hfirst : last? before .script = some first) :
      Offends before (path :: rest) (.secondScript first path)

/-! ### What a word is -/

theorem classify_flag (f : Flag) (long : Bool) : classify (f.word long) = .flag f := by
  cases f <;> cases long <;> rfl

theorem classify_setting (s : Setting) (long : Bool) : classify (s.word long) = .setting s := by
  cases s <;> cases long <;> rfl

theorem lookup_eq_some {α : Type} {table : List (α × Text × Text)} {word : Text} {a : α}
    (h : lookup table word = some a) :
    ∃ short long, (a, short, long) ∈ table ∧ (word = short ∨ word = long) := by
  obtain ⟨⟨b, short, long⟩, hfind, rfl⟩ := Option.map_eq_some_iff.1 h
  have hword := List.find?_some hfind
  exact ⟨short, long, List.mem_of_find?_eq_some hfind, by simpa using hword⟩

theorem exists_word_of_flag {word : Text} {f : Flag} (h : lookup flags word = some f) :
    ∃ long, word = f.word long := by
  obtain ⟨short, long, hentry, hword⟩ := lookup_eq_some h
  have hspelled : short = f.word false ∧ long = f.word true := by
    simp only [flags, List.mem_cons, Prod.mk.injEq, List.not_mem_nil, or_false] at hentry
    rcases hentry with ⟨rfl, rfl, rfl⟩ | ⟨rfl, rfl, rfl⟩ | ⟨rfl, rfl, rfl⟩ <;> exact ⟨rfl, rfl⟩
  rcases hword with rfl | rfl
  · exact ⟨false, hspelled.1⟩
  · exact ⟨true, hspelled.2⟩

theorem exists_word_of_setting {word : Text} {s : Setting} (h : lookup settings word = some s) :
    ∃ long, word = s.word long := by
  obtain ⟨short, long, hentry, hword⟩ := lookup_eq_some h
  have hspelled : short = s.word false ∧ long = s.word true := by
    simp only [settings, List.mem_cons, Prod.mk.injEq, List.not_mem_nil, or_false] at hentry
    rcases hentry with ⟨rfl, rfl, rfl⟩ | ⟨rfl, rfl, rfl⟩ | ⟨rfl, rfl, rfl⟩ | ⟨rfl, rfl, rfl⟩ <;>
      exact ⟨rfl, rfl⟩
  rcases hword with rfl | rfl
  · exact ⟨false, hspelled.1⟩
  · exact ⟨true, hspelled.2⟩

theorem looksLikeOption_iff {word : Text} : looksLikeOption word = true ↔ ¬ IsPath word := by
  rw [looksLikeOption, IsPath]
  match word with
  | [] => decide
  | [c] =>
      have hsingle : ascii "-" = ['-'.toUInt8] := rfl
      simp [hsingle]
  | c :: d :: rest =>
      have hsingle : ascii "-" = ['-'.toUInt8] := rfl
      simp [hsingle]

theorem lookup_flags_of_ne {word : Text} (h : ∀ f long, word ≠ Flag.word f long) :
    lookup flags word = none := by
  rw [Option.eq_none_iff_forall_ne_some]
  intro f hf
  obtain ⟨long, hword⟩ := exists_word_of_flag hf
  exact h f long hword

theorem lookup_settings_of_ne {word : Text} (h : ∀ s long, word ≠ Setting.word s long) :
    lookup settings word = none := by
  rw [Option.eq_none_iff_forall_ne_some]
  intro s hs
  obtain ⟨long, hword⟩ := exists_word_of_setting hs
  exact h s long hword

theorem not_isPath_flag (f : Flag) (long : Bool) : ¬ IsPath (f.word long) := by
  rw [← looksLikeOption_iff]
  cases f <;> cases long <;> rfl

theorem not_isPath_setting (s : Setting) (long : Bool) : ¬ IsPath (s.word long) := by
  rw [← looksLikeOption_iff]
  cases s <;> cases long <;> rfl

theorem classify_path {word : Text} (h : IsPath word) : classify word = .path := by
  have hflag : lookup flags word = none := by
    apply lookup_flags_of_ne
    rintro f long rfl
    exact not_isPath_flag f long h
  have hsetting : lookup settings word = none := by
    apply lookup_settings_of_ne
    rintro s long rfl
    exact not_isPath_setting s long h
  rw [classify, hflag, hsetting]
  exact if_neg fun hlooks => looksLikeOption_iff.1 hlooks h

theorem classify_unknown {word : Text} (h : IsUnknown word) : classify word = .unknown := by
  obtain ⟨hpath, hflag, hsetting⟩ := h
  rw [classify, lookup_flags_of_ne hflag, lookup_settings_of_ne hsetting]
  exact if_pos (looksLikeOption_iff.2 hpath)

/-- A word is the spelling of an option, or a path, or neither. -/
theorem word_cases (word : Text) :
    (∃ f long, word = Flag.word f long) ∨ (∃ s long, word = Setting.word s long) ∨
      IsPath word ∨ IsUnknown word := by
  by_cases hflag : ∃ f long, word = Flag.word f long
  · exact .inl hflag
  by_cases hsetting : ∃ s long, word = Setting.word s long
  · exact .inr (.inl hsetting)
  by_cases hpath : IsPath word
  · exact .inr (.inr (.inl hpath))
  · refine .inr (.inr (.inr ⟨hpath, ?_, ?_⟩))
    · exact fun f long hword => hflag ⟨f, long, hword⟩
    · exact fun s long hword => hsetting ⟨s, long, hword⟩

/-! ### Rows of segments -/

section

variable {before : List Segment} {s : Segment}

theorem last?_concat (before : List Segment) (s : Segment) (t : Topic) :
    last? (before ++ [s]) t = if s.topic = t then some s.value else last? before t := by
  rw [last?, List.filter_append]
  split_ifs with ht
  · simp [ht]
  · have hother : [s].filter (·.topic == t) = [] := by simp [ht]
    rw [hother, List.append_nil, last?]

theorem last?_eq_none_iff {segments : List Segment} {t : Topic} :
    last? segments t = none ↔ segments.countP (·.topic == t) = 0 := by
  rw [last?, Option.map_eq_none_iff, List.getLast?_eq_none_iff, List.countP_eq_length_filter,
    List.length_eq_zero_iff]

theorem acceptable_nil : Acceptable [] :=
  ⟨fun _ hs => absurd hs List.not_mem_nil, Nat.zero_le 1⟩

theorem acceptable_concat_iff :
    Acceptable (before ++ [s]) ↔
      Acceptable before ∧ s.Proper ∧ (s.topic = .script → last? before .script = none) := by
  have hcount : (before ++ [s]).countP (·.topic == .script) =
      before.countP (·.topic == .script) + if s.topic = .script then 1 else 0 := by
    simp [List.countP_append, List.countP_cons]
  constructor
  · rintro ⟨hproper, hscript⟩
    rw [hcount] at hscript
    refine ⟨⟨?_, by omega⟩, hproper s (by simp), ?_⟩
    · exact fun s' hs' => hproper s' (List.mem_append_left _ hs')
    · intro ht
      rw [if_pos ht] at hscript
      rw [last?_eq_none_iff]
      omega
  · rintro ⟨⟨hproper, hscript⟩, hlast, hnone⟩
    refine ⟨?_, ?_⟩
    · intro s' hs'
      rcases List.mem_append.1 hs' with hbefore | hhere
      · exact hproper s' hbefore
      · rw [List.mem_singleton.1 hhere]
        exact hlast
    · rw [hcount]
      split_ifs with ht
      · rw [last?_eq_none_iff.1 (hnone ht)]
      · exact hscript

end

end Turtle.Options
