import Turtle.Console.Directory
import Turtle.Number.Series
import Turtle.Proofs.Console.Segments
import Turtle.Proofs.Console.Stages

/-!
Command lines are rows of segments.

The program reads a command line from the left to the right, and the options at
any place are those that the segments up to there settle. Where the words cannot
be cut any further, they offend, and this is the place of which the program tells.
The order of segments that are about different things makes no difference, as the
last segment about each of them remains the same.
-/

namespace Turtle.Options

/-! ### Reading segments -/

/-- Nothing is set at first. -/
theorem settled_nil : Settled [] {} :=
  ⟨rfl, rfl, rfl, rfl, rfl, rfl, rfl, rfl⟩

theorem Settled.unique {segments : List Segment} {o o' : Options} (h : Settled segments o)
    (h' : Settled segments o') : o = o' := by
  have hnumber : ∀ {given : Option Text} {default n n' : ℕ},
      given.elim (n = default) (Denotes · n) → given.elim (n' = default) (Denotes · n') →
      n = n' := by
    intro given default n n' hn hn'
    cases given with
    | none => exact Eq.trans hn (Eq.symm hn')
    | some value => exact Int.ofNat.inj (Denotes.unique hn hn')
  have hwidth := hnumber h.width h'.width
  have hheight := hnumber h.height h'.height
  have hlimit := hnumber h.limit h'.limit
  cases o
  cases o'
  simp only [Options.mk.injEq]
  exact ⟨h.script.trans h'.script.symm, h.output.trans h'.output.symm, hwidth, hheight, hlimit,
    h.debug.trans h'.debug.symm, h.interactive.trans h'.interactive.symm,
    h.help.trans h'.help.symm⟩

theorem readWithin_of_le {value : Text} {n : ℤ} {least greatest : ℕ} (option : Text)
    (h : Denotes value n) (hleast : least ≤ n) (hgreatest : n ≤ greatest)
    (hrange : greatest < 2 ^ 63) :
    ∃ k : ℕ, readWithin option value least greatest = .ok k ∧ Denotes value k := by
  refine ⟨n.toNat, ?_, ?_⟩
  · rw [readWithin_of_denotes option h (by omega) (by omega), if_neg (by omega)]
  · rwa [Int.toNat_of_nonneg (by omega)]

section

variable {before : List Segment} {o : Options}

theorem Settled.setFlag (h : Settled before o) (f : Flag) (long : Bool) :
    Settled (before ++ [.flag f long]) (o.setFlag f) := by
  cases f <;> constructor <;>
    simp [last?_concat, Segment.topic, Options.setFlag, h.script, h.output, h.width, h.height,
      h.limit, h.debug, h.interactive, h.help]

theorem Settled.setValue (h : Settled before o) {s : Setting} {long : Bool} {value : Text}
    (hs : (Segment.setting s long value).Proper) (option : Text) :
    ∃ o', o.setValue s option value = .ok o' ∧ Settled (before ++ [.setting s long value]) o' := by
  cases s with
  | output =>
      refine ⟨_, rfl, ?_⟩
      constructor <;>
        simp [last?_concat, Segment.topic, Segment.value, h.script, h.width, h.height, h.limit,
          h.debug, h.interactive, h.help]
  | width | height | limit =>
      obtain ⟨n, hn, hleast, hgreatest⟩ := hs _ _ rfl
      obtain ⟨k, hread, hk⟩ := readWithin_of_le option hn hleast hgreatest (by decide)
      refine ⟨_, congrArg (Functor.map _) hread, ?_⟩
      constructor <;>
        simp [last?_concat, Segment.topic, Segment.value, hk, h.script, h.output, h.width,
          h.height, h.limit, h.debug, h.interactive, h.help]

/-- A number is read within the range of its setting. -/
theorem exists_put (o : Options) {s : Setting} {range : ℕ × ℕ} (h : s.range? = some range) :
    ∃ put : ℕ → Options, ∀ option value,
      o.setValue s option value = put <$> readWithin option value range.1 range.2 := by
  cases s with
  | output => cases h
  | width | height | limit =>
      cases h
      exact ⟨_, fun _ _ => rfl⟩

/-- A segment that can follow is read, and leaves the options as it says. -/
theorem Settled.concat (h : Settled before o) {s : Segment} (hs : Acceptable (before ++ [s])) :
    ∃ o', Settled (before ++ [s]) o' ∧
      ∀ rest, readFrom o (s.words ++ rest) = readFrom o' rest := by
  obtain ⟨-, hproper, hscript⟩ := acceptable_concat_iff.1 hs
  cases s with
  | flag f long =>
      refine ⟨_, h.setFlag f long, ?_⟩
      intro rest
      rw [Segment.words, List.singleton_append, readFrom, classify_flag]
  | setting s long value =>
      obtain ⟨o', ho', hsettled⟩ := h.setValue hproper (s.word long)
      refine ⟨o', hsettled, ?_⟩
      intro rest
      rw [Segment.words, List.cons_append, List.singleton_append, readFrom, classify_setting]
      simp only [ho']
  | script path =>
      have hnone : o.script = none := h.script.trans (hscript rfl)
      refine ⟨{ o with script := some path }, ?_, ?_⟩
      · constructor <;>
          simp [last?_concat, Segment.topic, Segment.value, h.output, h.width, h.height, h.limit,
            h.debug, h.interactive, h.help]
      · intro rest
        rw [Segment.words, List.singleton_append, readFrom, classify_path hproper, setScript, hnone]

/-- All segments are read before what is behind them. -/
theorem Acceptable.reads {segments : List Segment} (h : Acceptable segments) :
    ∃ o, Settled segments o ∧
      ∀ rest, read (segments.flatMap Segment.words ++ rest) = readFrom o rest := by
  induction segments using List.reverseRecOn with
  | nil => exact ⟨{}, settled_nil, fun _ => rfl⟩
  | append_singleton before s ih =>
      obtain ⟨o, hsettled, hbefore⟩ := ih (acceptable_concat_iff.1 h).1
      obtain ⟨o', hsettled', hlast⟩ := hsettled.concat h
      refine ⟨o', hsettled', ?_⟩
      intro rest
      rw [List.flatMap_append, List.flatMap_singleton, List.append_assoc, hbefore, hlast]

/-- A segment that cannot follow is told of. -/
theorem Offends.reads {words : List Text} {n : Notice} (h : Offends before words n)
    (hsettled : Settled before o) : readFrom o words = .error n := by
  cases h with
  | missingValue s long => rw [readFrom, classify_setting]
  | @notAnInteger s range value long rest hrange hvalue =>
      obtain ⟨put, hput⟩ := exists_put o hrange
      rw [readFrom, classify_setting]
      simp only [hput, readWithin_of_not_denotesWord _ hvalue]
      rfl
  | @outOfRange s least greatest value n long rest hrange hvalue hlower hupper hout =>
      obtain ⟨put, hput⟩ := exists_put o hrange
      rw [readFrom, classify_setting]
      simp only [hput, readWithin_of_denotes _ hvalue hlower hupper, if_pos hout]
      rfl
  | unknownOption rest hword => rw [readFrom, classify_unknown hword]
  | secondScript rest hpath hfirst =>
      rw [readFrom, classify_path hpath, setScript, hsettled.script, hfirst]

end

/-! ### Cutting a command line -/

section

variable {before segments : List Segment} {words rest rest' : List Text} {n : Notice}

theorem Segment.length_words_pos (s : Segment) : 0 < s.words.length := by
  cases s <;> exact Nat.succ_pos _

theorem Acceptable.of_append {later : List Segment} (h : Acceptable (before ++ later)) :
    Acceptable before := by
  obtain ⟨hproper, hscript⟩ := h
  rw [List.countP_append] at hscript
  exact ⟨fun s hs => hproper s (List.mem_append_left _ hs), by omega⟩

/-- A value is one that the setting takes, or it is none, or it is out of range. -/
theorem Setting.value_cases (s : Setting) (long : Bool) (value : Text) :
    (Segment.setting s long value).Proper ∨
      ∃ range, s.range? = some range ∧
        (¬ DenotesWord value ∨ ∃ n, Denotes value n ∧ (-2 ^ 63 ≤ n ∧ n < 2 ^ 63) ∧
          (n < range.1 ∨ range.2 < n)) := by
  cases hrange : s.range? with
  | none =>
      left
      intro least greatest hsome
      rw [hrange] at hsome
      cases hsome
  | some range =>
      by_cases hvalue : DenotesWord value
      · obtain ⟨n, hn, hbounds⟩ := hvalue
        by_cases hout : n < range.1 ∨ range.2 < n
        · exact .inr ⟨range, rfl, .inr ⟨n, hn, hbounds, hout⟩⟩
        · left
          intro least greatest hsome
          rw [hrange] at hsome
          cases hsome
          exact ⟨n, hn, by omega, by omega⟩
      · exact .inr ⟨range, rfl, .inl hvalue⟩

/-- Words begin with a segment that can follow, or they offend. -/
theorem exists_next (h : Acceptable before) (hne : words ≠ []) :
    (∃ s rest, words = Segment.words s ++ rest ∧ Acceptable (before ++ [s])) ∨
      ∃ n, Offends before words n := by
  obtain ⟨word, rest, rfl⟩ := List.exists_cons_of_ne_nil hne
  rcases word_cases word with ⟨f, long, rfl⟩ | ⟨s, long, rfl⟩ | hpath | hunknown
  · exact .inl ⟨.flag f long, rest, rfl, acceptable_concat_iff.2 ⟨h, trivial, nofun⟩⟩
  · cases rest with
    | nil => exact .inr ⟨_, .missingValue s long⟩
    | cons value rest =>
        rcases s.value_cases long value with
          hproper | ⟨range, hrange, hvalue | ⟨n, hn, ⟨hlower, hupper⟩, hout⟩⟩
        · left
          exact ⟨.setting s long value, rest, rfl, acceptable_concat_iff.2 ⟨h, hproper, nofun⟩⟩
        · exact .inr ⟨_, .notAnInteger long rest hrange hvalue⟩
        · exact .inr ⟨_, .outOfRange long rest hrange hn hlower hupper hout⟩
  · cases hlast : last? before .script with
    | none =>
        left
        exact ⟨.script word, rest, rfl, acceptable_concat_iff.2 ⟨h, hpath, fun _ => hlast⟩⟩
    | some first => exact .inr ⟨_, .secondScript rest hpath hlast⟩
  · exact .inr ⟨_, .unknownOption rest hunknown⟩

/-- Words can be cut, or they can up to a place where they offend. -/
theorem exists_cut (h : Acceptable before) (words : List Text) :
    ∃ segments rest, words = segments.flatMap Segment.words ++ rest ∧
      Acceptable (before ++ segments) ∧
      (rest = [] ∨ ∃ n, Offends (before ++ segments) rest n) := by
  -- Each segment takes a word at least, so fewer of them are left behind it.
  induction hlength : words.length using Nat.strong_induction_on generalizing before words with
  | _ length ih =>
      subst hlength
      by_cases hne : words = []
      · exact ⟨[], words, rfl, by rwa [List.append_nil], .inl hne⟩
      rcases exists_next h hne with ⟨s, rest, rfl, hs⟩ | hoffends
      · have hshorter : rest.length < (s.words ++ rest).length := by
          have hpos := s.length_words_pos
          rw [List.length_append]
          omega
        obtain ⟨segments, rest, rfl, hsegments, hend⟩ := ih _ hshorter hs rest rfl
        rw [List.append_assoc, List.singleton_append] at hsegments hend
        refine ⟨s :: segments, rest, ?_, hsegments, hend⟩
        rw [List.flatMap_cons, List.append_assoc]
      · exact ⟨[], words, rfl, by rwa [List.append_nil], .inr (by rwa [List.append_nil])⟩

theorem Flag.word_inj {f : Flag} {long long' : Bool} (h : f.word long = f.word long') :
    long = long' := by
  cases f <;> cases long <;> cases long' <;> first | rfl | exact absurd h (by decide)

theorem Setting.word_inj {s : Setting} {long long' : Bool} (h : s.word long = s.word long') :
    long = long' := by
  cases s <;> cases long <;> cases long' <;> first | rfl | exact absurd h (by decide)

/-- Words that begin with a setting and its value begin with no other segment. -/
theorem Segment.eq_setting {s : Segment} (hs : s.Proper) {given : Setting} {long : Bool}
    {value : Text} (h : given.word long :: value :: rest = s.words ++ rest') :
    s = .setting given long value ∧ rest = rest' := by
  have hkind := congrArg (fun ws => ws.head?.map classify) h
  cases s with
  | flag => simp [words, classify_flag, classify_setting] at hkind
  | setting given' long' value' =>
      simp only [words, List.cons_append, List.head?_cons, Option.map_some, classify_setting,
        Option.some.injEq, Word.setting.injEq] at hkind
      subst hkind
      obtain ⟨hword, htail⟩ := List.cons.inj h
      obtain ⟨rfl, hrest⟩ := List.cons.inj htail
      exact ⟨by rw [Setting.word_inj hword], hrest⟩
  | script => simp [words, classify_setting, classify_path hs] at hkind

/-- The first word tells what a segment is. -/
theorem Segment.words_append_inj {s s' : Segment} (hs : s.Proper) (hs' : s'.Proper)
    (h : s.words ++ rest = s'.words ++ rest') : s = s' ∧ rest = rest' := by
  have hkind := congrArg (fun ws => ws.head?.map classify) h
  cases s with
  | flag f long =>
      cases s' with
      | flag f' long' =>
          simp only [words, List.singleton_append, List.head?_cons, Option.map_some,
            classify_flag, Option.some.injEq, Word.flag.injEq] at hkind
          subst hkind
          obtain ⟨hword, hrest⟩ := List.cons.inj h
          exact ⟨by rw [Flag.word_inj hword], hrest⟩
      | setting => simp [words, classify_flag, classify_setting] at hkind
      | script => simp [words, classify_flag, classify_path hs'] at hkind
  | setting s long value =>
      obtain ⟨rfl, hrest⟩ := eq_setting hs' h
      exact ⟨rfl, hrest⟩
  | script path =>
      cases s' with
      | flag => simp [words, classify_flag, classify_path hs] at hkind
      | setting => simp [words, classify_setting, classify_path hs] at hkind
      | script path' =>
          obtain ⟨rfl, hrest⟩ := List.cons.inj h
          exact ⟨rfl, hrest⟩

theorem Setting.range_lt {s : Setting} {least greatest : ℕ}
    (h : s.range? = some (least, greatest)) : greatest < 2 ^ 63 := by
  cases s <;> cases h <;> decide

/-- Where words offend, no segment can follow. -/
theorem Offends.not_acceptable (h : Offends before words n) {s : Segment}
    (hwords : words = s.words ++ rest) : ¬ Acceptable (before ++ [s]) := by
  intro hs
  obtain ⟨-, hproper, hscript⟩ := acceptable_concat_iff.1 hs
  have hkind := congrArg (fun ws => ws.head?.map classify) hwords
  cases h with
  | missingValue s' long =>
      cases s with
      | flag => simp [Segment.words, classify_flag, classify_setting] at hkind
      | setting => simp [Segment.words] at hwords
      | script => simp [Segment.words, classify_setting, classify_path hproper] at hkind
  | @notAnInteger given range value long rest' hrange hvalue =>
      obtain ⟨rfl, -⟩ := Segment.eq_setting hproper hwords
      obtain ⟨m, hm, hleast, hgreatest⟩ := hproper _ _ hrange
      have hlt := Setting.range_lt hrange
      exact hvalue ⟨m, hm, by omega, by omega⟩
  | outOfRange long rest' hrange hvalue hlower hupper hout =>
      obtain ⟨rfl, -⟩ := Segment.eq_setting hproper hwords
      obtain ⟨m, hm, hleast, hgreatest⟩ := hproper _ _ hrange
      rw [hm.unique hvalue] at hleast hgreatest
      omega
  | unknownOption rest' hword =>
      cases s with
      | flag => simp [Segment.words, classify_flag, classify_unknown hword] at hkind
      | setting => simp [Segment.words, classify_setting, classify_unknown hword] at hkind
      | script => simp [Segment.words, classify_path hproper, classify_unknown hword] at hkind
  | secondScript rest' hpath hfirst =>
      cases s with
      | flag => simp [Segment.words, classify_flag, classify_path hpath] at hkind
      | setting => simp [Segment.words, classify_setting, classify_path hpath] at hkind
      | script =>
          rw [hscript rfl] at hfirst
          cases hfirst

/-- No row of segments goes on behind the place where the words offend. -/
theorem Offends.isPrefix (before : List Segment) {segments segments' : List Segment}
    (hsegments : Acceptable (before ++ segments))
    (hoffends : Offends (before ++ segments) rest n) (hsegments' : Acceptable (before ++ segments'))
    (h : segments'.flatMap Segment.words ++ rest' = segments.flatMap Segment.words ++ rest) :
    segments' <+: segments := by
  induction segments' generalizing before segments with
  | nil => exact List.nil_prefix
  | cons s' segments' ih =>
      have hlonger : Acceptable (before ++ [s'] ++ segments') := by
        rwa [List.append_assoc, List.singleton_append]
      rw [List.flatMap_cons, List.append_assoc] at h
      cases segments with
      | nil =>
          -- The other row goes on where the words offend.
          rw [List.append_nil] at hoffends
          exact absurd hlonger.of_append (hoffends.not_acceptable h.symm)
      | cons s segments =>
          rw [List.flatMap_cons, List.append_assoc] at h
          obtain ⟨rfl, hrest⟩ := Segment.words_append_inj
            (hsegments'.proper s' (by simp)) (hsegments.proper s (by simp)) h
          rw [List.cons_prefix_cons]
          refine ⟨rfl, ih _ ?_ ?_ hlonger hrest⟩
          · rwa [List.append_assoc, List.singleton_append]
          · rwa [List.append_assoc, List.singleton_append]

/-- A command line can be cut in one way only. -/
theorem eq_of_flatMap_words {segments' : List Segment} (h : ∀ s ∈ segments, s.Proper)
    (h' : ∀ s ∈ segments', s.Proper)
    (hwords : segments.flatMap Segment.words = segments'.flatMap Segment.words) :
    segments = segments' := by
  induction segments generalizing segments' with
  | nil =>
      cases segments' with
      | nil => rfl
      | cons s' segments' =>
          have hnone := List.append_eq_nil_iff.1 (List.flatMap_cons .. ▸ hwords.symm)
          exact absurd hnone.1 (List.length_pos_iff.1 s'.length_words_pos)
  | cons s segments ih =>
      cases segments' with
      | nil =>
          have hnone := List.append_eq_nil_iff.1 (List.flatMap_cons .. ▸ hwords)
          exact absurd hnone.1 (List.length_pos_iff.1 s.length_words_pos)
      | cons s' segments' =>
          rw [List.flatMap_cons, List.flatMap_cons] at hwords
          obtain ⟨rfl, hrest⟩ := Segment.words_append_inj
            (h s (by simp)) (h' s' (by simp)) hwords
          rw [ih (fun r hr => h r (List.mem_cons_of_mem _ hr))
            (fun r hr => h' r (List.mem_cons_of_mem _ hr)) hrest]

end

/-! ### The order of segments -/

/-- The segments are the same, and those about one topic stand in the same order. -/
def Reordered (segments segments' : List Segment) : Prop :=
  ∀ t, segments'.filter (·.topic == t) = segments.filter (·.topic == t)

section

variable {segments segments' : List Segment}

theorem Reordered.last? (h : Reordered segments segments') (t : Topic) :
    last? segments' t = last? segments t := by
  rw [Options.last?, h t, Options.last?]

theorem Reordered.acceptable (h : Reordered segments segments') (hsegments : Acceptable segments) :
    Acceptable segments' := by
  obtain ⟨hproper, hscript⟩ := hsegments
  refine ⟨?_, ?_⟩
  · intro s hs
    have hkept : s ∈ segments'.filter (·.topic == s.topic) := by
      rw [List.mem_filter]
      exact ⟨hs, beq_self_eq_true _⟩
    rw [h] at hkept
    exact hproper s (List.mem_of_mem_filter hkept)
  · rwa [List.countP_eq_length_filter, h, ← List.countP_eq_length_filter]

theorem Reordered.settled {o : Options} (h : Reordered segments segments')
    (hsettled : Settled segments o) : Settled segments' o := by
  constructor <;> rw [h.last?]
  · exact hsettled.script
  · exact hsettled.output
  · exact hsettled.width
  · exact hsettled.height
  · exact hsettled.limit
  · exact hsettled.debug
  · exact hsettled.interactive
  · exact hsettled.help

end

/-! ### Command lines -/

section

variable {words : List Text}

/-- What segments make up is read, and comes to what they set. -/
theorem Acceptable.read_eq {segments : List Segment} (h : Acceptable segments) :
    ∃ o, read (segments.flatMap Segment.words) = .ok o ∧ Settled segments o := by
  obtain ⟨o, hsettled, hreads⟩ := h.reads
  refine ⟨o, ?_, hsettled⟩
  have hend := hreads []
  rwa [List.append_nil, readFrom] at hend

theorem exists_acceptable_of_read {o : Options} (h : read words = .ok o) :
    ∃ segments, Acceptable segments ∧ segments.flatMap Segment.words = words ∧
      Settled segments o := by
  obtain ⟨segments, rest, rfl, hsegments, hend⟩ := exists_cut acceptable_nil words
  obtain ⟨o', hsettled, hreads⟩ := hsegments.reads
  rw [List.nil_append] at hreads hsegments hend hsettled
  rw [hreads] at h
  rcases hend with rfl | ⟨n, hn⟩
  · rw [readFrom] at h
    cases h
    exact ⟨segments, hsegments, (List.append_nil _).symm, hsettled⟩
  · rw [hn.reads hsettled] at h
    cases h

theorem exists_offends_of_read {n : Notice} (h : read words = .error n) :
    ∃ before rest, words = before.flatMap Segment.words ++ rest ∧ Acceptable before ∧
      Offends before rest n := by
  obtain ⟨before, rest, rfl, hbefore, hend⟩ := exists_cut acceptable_nil words
  obtain ⟨o, hsettled, hreads⟩ := hbefore.reads
  rw [List.nil_append] at hreads hbefore hend hsettled
  rw [hreads] at h
  rcases hend with rfl | ⟨m, hm⟩
  · cases h
  · rw [hm.reads hsettled] at h
    cases h
    exact ⟨before, rest, rfl, hbefore, hm⟩

theorem read_of_offends {before : List Segment} {rest : List Text} {n : Notice}
    (hbefore : Acceptable before) (h : Offends before rest n) :
    read (before.flatMap Segment.words ++ rest) = .error n := by
  obtain ⟨o, hsettled, hreads⟩ := hbefore.reads
  rw [hreads, h.reads hsettled]

end

/-- A command line is read if it can be cut into segments, which then goes in one
way only, and the options are what the last segment about each setting says. So
segments about different things can change places. A command line that is not
read can be cut up to some place, and no further; the notice is about what stands
there. It is printed together with the usage, and nothing else happens. -/
theorem read_segments [Circle] {Files : Type} [FileSystem Files] (words : List Text) :
    (∀ o, read words = .ok o ↔ ∃ segments, Acceptable segments ∧
      segments.flatMap Segment.words = words ∧ Settled segments o) ∧
    ((∃ o, read words = .ok o) ↔
      ∃! segments, Acceptable segments ∧ segments.flatMap Segment.words = words) ∧
    (∀ segments segments', Acceptable segments → segments.flatMap Segment.words = words →
      Reordered segments segments' → read (segments'.flatMap Segment.words) = read words) ∧
    (∀ n, read words = .error n ↔ ∃ before rest, words = before.flatMap Segment.words ++ rest ∧
      Acceptable before ∧ Offends before rest n ∧
      ∀ segments rest', Acceptable segments → segments.flatMap Segment.words ++ rest' = words →
        segments <+: before) ∧
    ∀ n (files : Files) input, read words = .error n →
      let e := Console.run words files input
      e.code = 1 ∧ e.files = files ∧ (∀ origin, e.complaints origin = n.text origin) ∧
        e.output = usage := by
  have hread : ∀ o, read words = .ok o ↔ ∃ segments, Acceptable segments ∧
      segments.flatMap Segment.words = words ∧ Settled segments o := by
    intro o
    constructor
    · exact exists_acceptable_of_read
    · rintro ⟨segments, hsegments, rfl, hsettled⟩
      obtain ⟨o', ho', hsettled'⟩ := hsegments.read_eq
      rw [ho', hsettled.unique hsettled']
  refine ⟨hread, ⟨?_, ?_⟩, ?_, ?_, ?_⟩
  · rintro ⟨o, ho⟩
    obtain ⟨segments, hsegments, hwords, -⟩ := (hread o).1 ho
    refine ⟨segments, ⟨hsegments, hwords⟩, ?_⟩
    rintro segments' ⟨hsegments', hwords'⟩
    exact eq_of_flatMap_words hsegments'.proper hsegments.proper (hwords'.trans hwords.symm)
  · rintro ⟨segments, ⟨hsegments, rfl⟩, -⟩
    obtain ⟨o, ho, -⟩ := hsegments.read_eq
    exact ⟨o, ho⟩
  · rintro segments segments' hsegments rfl hreordered
    obtain ⟨o, ho, hsettled⟩ := hsegments.read_eq
    obtain ⟨o', ho', hsettled'⟩ := (hreordered.acceptable hsegments).read_eq
    rw [ho, ho', hsettled'.unique (hreordered.settled hsettled)]
  · intro n
    constructor
    · intro h
      obtain ⟨before, rest, rfl, hbefore, hoffends⟩ := exists_offends_of_read h
      refine ⟨before, rest, rfl, hbefore, hoffends, ?_⟩
      intro segments rest' hsegments hwords
      exact Offends.isPrefix [] hbefore hoffends hsegments hwords
    · rintro ⟨before, rest, rfl, hbefore, hoffends, -⟩
      exact read_of_offends hbefore hoffends
  · intro n files input h e
    have he : e = ⟨1, #[.notice n, .usage], files⟩ := Console.run_of_misread h files input
    rw [he]
    refine ⟨rfl, rfl, ?_, ?_⟩
    · intro origin
      simp [Ending.complaints, Event.complaint]
    · simp [Ending.output, Event.output]

/-- The width is set twice, the file that is written is called like a flag, and
the script like nothing. The width has to stay behind the width, but not behind
the file. -/
theorem read_segments_repeated :
    let words := [ascii "-W", ascii "9", ascii "-o", ascii "-d", ascii "--width", ascii "007",
      ascii "-"]
    let moved := [ascii "-", ascii "-o", ascii "-d", ascii "-W", ascii "9", ascii "--width",
      ascii "007"]
    let wrong := [ascii "-d", ascii "-m", ascii "-1", ascii "-x"]
    let files : Directory := []
    let e := Console.run wrong files []
    read moved = .ok { script := some (ascii "-"), output := ascii "-d", width := 7 } ∧
      read words = read moved ∧ e.code = 1 ∧ e.files = [] ∧
      e.complaints (fun _ => ⟨ascii "options", 30⟩) =
        ascii "[Error: options:30] Option '-m' expects a value between 0 and 2147483647, " ++
          ascii "got -1.\n" := by
  intro words moved wrong files e
  let width : Segment := .setting .width false (ascii "9")
  let later : Segment := .setting .width true (ascii "007")
  let output : Segment := .setting .output false (ascii "-d")
  let script : Segment := .script (ascii "-")
  have hproper : ∀ s ∈ [width, output, later, script], s.Proper := by
    have hwidth : width.Proper := by
      intro least greatest hrange
      cases hrange
      exact ⟨9, readInt?_eq_some_iff.1 (by decide), by decide, by decide⟩
    have hlater : later.Proper := by
      intro least greatest hrange
      cases hrange
      exact ⟨7, readInt?_eq_some_iff.1 (by decide), by decide, by decide⟩
    have houtput : output.Proper := by
      intro least greatest hrange
      cases hrange
    have hscript : script.Proper := .inl rfl
    simp [hwidth, hlater, houtput, hscript]
  have hmoved : Reordered [width, output, later, script] [script, output, width, later] := by
    rintro (f | s | _)
    · rfl
    · cases s <;> rfl
    · rfl
  obtain ⟨-, -, hreorder, -, -⟩ := @read_segments _ Directory _ words
  obtain ⟨-, -, -, -, hwrong⟩ := @read_segments _ Directory _ wrong
  obtain ⟨hcode, hfiles, hcomplaints, -⟩ := hwrong
    (.outOfRange (ascii "-m") 0 2147483647 (-1)) files [] (by decide +kernel)
  refine ⟨by decide +kernel, (hreorder _ _ ⟨hproper, by decide⟩ rfl hmoved).symm, hcode, hfiles,
    (hcomplaints _).trans ?_⟩
  decide +kernel

end Turtle.Options
