import Mathlib.Order.Bounds.Basic
import Turtle.Proofs.Console.Script

/-!
What the shell makes of the lines of its input.

The input reaches the shell in pieces, and where one piece ends and the next one
begins is up to the reader's buffer, apart from one thing: a line break is the
last byte of its piece. The shell does not depend on the rest. It would do the
same if the bytes came one by one, and hence for any two ways of cutting the
input. So it does what it would do if the pieces were the lines, and then it is
plain what that is. It asks for each line, and it runs the shortest runs of lines
that are complete.
-/

namespace Turtle.Shell

/-- What a dialogue runs, each fragment with the session in which it is run, and
the session that it comes to. -/
def dialogue [Circle] (s : Session) (c : Collector) (pieces : List Text) :
    List (Session × Text) × Session :=
  (runs s c pieces, converse s c pieces)

/-! ### Cuts -/

/-- No piece is empty, and a line break ends its piece. -/
def Cut (pieces : List Text) : Prop :=
  ∀ piece ∈ pieces, piece ≠ [] ∧ Text.newline ∉ piece.dropLast

section

variable {c : Collector} {piece fragment : Text} {pieces pieces' : List Text}

/-- In the middle of a line nothing is asked for. -/
theorem ask_inside (s : Session) (text : Text) : ask s ⟨text, false⟩ = s := rfl

variable [Circle]

theorem dialogue_of_incomplete (s : Session) (h : (c.add piece).fragment? = none)
    (pieces : List Text) :
    dialogue s c (piece :: pieces) = dialogue (ask s c) (c.add piece) pieces :=
  Prod.ext (cons_of_incomplete s h pieces).1 (cons_of_incomplete s h pieces).2

theorem dialogue_of_fragment (s : Session) (h : (c.add piece).fragment? = some fragment)
    (pieces : List Text) :
    dialogue s c (piece :: pieces) =
      match (ask s c).runFragment fragment with
      | (s', .exit) => ([(ask s c, fragment)], s')
      | (s', _) =>
        ((ask s c, fragment) :: (dialogue s' .new pieces).1, (dialogue s' .new pieces).2) := by
  simp only [dialogue, runs, converse, take, h]
  rcases (ask s c).runFragment fragment with ⟨s', status⟩
  cases status <;> rfl

/-- A piece that does not end a line is only collected. -/
theorem dialogue_inside (s : Session) (c : Collector) {piece : Text} (hzero : 0 ∉ piece)
    (hopen : piece.getLast? ≠ some Text.newline) (pieces : List Text) :
    dialogue s c (piece :: pieces) = dialogue (ask s c) ⟨c.text ++ piece, false⟩ pieces := by
  have hadd : c.add piece = ⟨c.text ++ piece, false⟩ := by
    rw [c.add_eq hzero, beq_eq_false_iff_ne.2 hopen]
  have hfragment : (c.add piece).fragment? = none := by
    rw [hadd]
    rfl
  rw [dialogue_of_incomplete s hfragment pieces, hadd]

/-- It makes no difference whether a piece comes at once or as two, if the first
of them does not end a line. -/
theorem dialogue_append (s : Session) (c : Collector) {first second : Text}
    (hzero : 0 ∉ first ++ second) (hopen : first.getLast? ≠ some Text.newline)
    (hsecond : second ≠ []) (pieces : List Text) :
    dialogue s c ((first ++ second) :: pieces) = dialogue s c (first :: second :: pieces) := by
  have hzero₁ : 0 ∉ first := fun h => hzero (List.mem_append_left _ h)
  have hzero₂ : 0 ∉ second := fun h => hzero (List.mem_append_right _ h)
  have hadd : c.add (first ++ second) = Collector.add ⟨c.text ++ first, false⟩ second := by
    rw [Collector.add_eq _ hzero, Collector.add_eq _ hzero₂,
      List.getLast?_append_of_ne_nil _ hsecond, List.append_assoc]
  have htake : take (ask s c) c (first ++ second) =
      take (ask s c) ⟨c.text ++ first, false⟩ second := by
    simp only [take, hadd]
  rw [dialogue_inside s c hzero₁ hopen]
  simp only [dialogue, runs, converse, ask_inside, hadd, htake]

theorem dialogue_cons_congr (h : ∀ s c, dialogue s c pieces = dialogue s c pieces')
    (s : Session) (c : Collector) (piece : Text) :
    dialogue s c (piece :: pieces) = dialogue s c (piece :: pieces') := by
  have hruns : ∀ s c, runs s c pieces = runs s c pieces' := fun s c => congrArg Prod.fst (h s c)
  have hconverse : ∀ s c, converse s c pieces = converse s c pieces' :=
    fun s c => congrArg Prod.snd (h s c)
  simp only [dialogue, runs, converse, hruns, hconverse]

/-- A piece may as well come byte by byte. -/
theorem dialogue_piece (s : Session) (c : Collector) (hne : piece ≠ [])
    (hbreak : Text.newline ∉ piece.dropLast) (hzero : 0 ∉ piece) (pieces : List Text) :
    dialogue s c (piece :: pieces) = dialogue s c (piece.map ([·]) ++ pieces) := by
  induction piece generalizing s c with
  | nil => exact absurd rfl hne
  | cons b piece ih =>
      by_cases hlast : piece = []
      · rw [hlast]
        rfl
      · rw [List.dropLast_cons_of_ne_nil hlast] at hbreak
        have hopen : [b].getLast? ≠ some Text.newline := by
          rintro heq
          cases heq
          exact hbreak List.mem_cons_self
        have hlater : ∀ s c, dialogue s c (piece :: pieces) =
            dialogue s c (piece.map ([·]) ++ pieces) := by
          intro s c
          exact ih s c hlast (fun h => hbreak (List.mem_cons_of_mem _ h))
            (fun h => hzero (List.mem_cons_of_mem _ h))
        calc dialogue s c (([b] ++ piece) :: pieces)
            = dialogue s c ([b] :: piece :: pieces) :=
              dialogue_append s c hzero hopen hlast pieces
          _ = dialogue s c ([b] :: (piece.map ([·]) ++ pieces)) :=
              dialogue_cons_congr hlater s c [b]

/-- The pieces of a cut may as well come byte by byte. -/
theorem dialogue_bytes (hcut : Cut pieces) (hzero : 0 ∉ pieces.flatten) (s : Session)
    (c : Collector) : dialogue s c pieces = dialogue s c (pieces.flatten.map ([·])) := by
  induction pieces generalizing s c with
  | nil => rfl
  | cons piece pieces ih =>
      obtain ⟨hne, hbreak⟩ := hcut piece List.mem_cons_self
      rw [List.flatten_cons, List.mem_append, not_or] at hzero
      have hlater := ih (fun p hp => hcut p (List.mem_cons_of_mem _ hp)) hzero.2
      rw [dialogue_cons_congr hlater, dialogue_piece s c hne hbreak hzero.1, List.flatten_cons,
        List.map_append]

end

/-! ### The pieces of the input -/

theorem newline_notMem_piece (room : Nat) (t : Text) :
    Text.newline ∉ (piece room t).1.dropLast := by
  fun_induction piece room t with
  | case1 => simp
  | case2 => simp
  | case3 => simp
  | case4 room b t hb first rest hpiece ih =>
      rw [hpiece] at ih
      by_cases hempty : first = []
      · simp [hempty]
      · rw [List.dropLast_cons_of_ne_nil hempty]
        have hne : Text.newline ≠ b := fun heq => hb (beq_iff_eq.2 heq.symm)
        exact List.not_mem_cons_of_ne_of_not_mem hne ih

theorem piece_ne_nil (room : Nat) (b : UInt8) (t : Text) : (piece (room + 1) (b :: t)).1 ≠ [] := by
  rw [piece]
  split_ifs <;> simp

theorem cut_piecesFrom {before : List Text} (h : Cut before) (t : Text) :
    Cut (piecesFrom before t) := by
  fun_induction piecesFrom before t with
  | case1 before => exact fun p hp => h p (List.mem_reverse.1 hp)
  | case2 before b rest ih =>
      apply ih
      rintro p (_ | ⟨_, hp⟩)
      · exact ⟨piece_ne_nil 1022 b rest, newline_notMem_piece _ _⟩
      · exact h p hp

theorem cut_pieces (t : Text) : Cut (pieces t) := by
  apply cut_piecesFrom
  simp [Cut]

/-- However the input is cut, the dialogue is the same. -/
theorem dialogue_pieces [Circle] (s : Session) {cut : List Text} (hcut : Cut cut)
    (hzero : 0 ∉ cut.flatten) : dialogue s .new (pieces cut.flatten) = dialogue s .new cut := by
  have hpieces : 0 ∉ (pieces cut.flatten).flatten := by rwa [flatten_pieces]
  rw [dialogue_bytes (cut_pieces _) hpieces, flatten_pieces, ← dialogue_bytes hcut hzero]

/-! ### Lines -/

/-- A line with the break that ends it. -/
def IsLine (line : Text) : Prop :=
  ∃ body, Text.newline ∉ body ∧ line = body ++ [Text.newline]

/-- The first so many lines are incomplete, whatever their number. -/
def Pending (lines : List Text) : Prop :=
  ∀ k, 0 < k → k ≤ lines.length → isIncomplete (lines.take k).flatten = true

/-- The lines are the shortest run of lines from the first one on that is not
incomplete. -/
def Shortest (lines : List Text) : Prop :=
  IsLeast {k | 0 < k ∧ isIncomplete (lines.take k).flatten = false} lines.length

/-- How the lines of an input make up fragments: those that are complete, the
lines behind them, and what is behind the last line break. -/
structure Grouping (input : Text) (fragments : List (List Text)) (rest : List Text)
    (last : Text) : Prop where
  joined : fragments.flatten.flatten ++ rest.flatten ++ last = input
  lines : ∀ line ∈ fragments.flatten ++ rest, IsLine line
  unended : Text.newline ∉ last
  shortest : ∀ fragment ∈ fragments, Shortest fragment
  pending : Pending rest

theorem IsLine.getLast? {line : Text} (h : IsLine line) : line.getLast? = some Text.newline := by
  obtain ⟨body, -, rfl⟩ := h
  exact List.getLast?_concat

theorem IsLine.ne_nil {line : Text} (h : IsLine line) : line ≠ [] := by
  obtain ⟨body, -, rfl⟩ := h
  exact List.concat_ne_nil _ _

theorem IsLine.cut {line : Text} (h : IsLine line) :
    line ≠ [] ∧ Text.newline ∉ line.dropLast := by
  refine ⟨h.ne_nil, ?_⟩
  obtain ⟨body, hbody, rfl⟩ := h
  rwa [List.dropLast_concat]

section

variable {lines : List Text} {line : Text}

theorem pending_nil : Pending [] := by
  intro k hk hle
  exact absurd hk (by simpa using hle)

theorem pending_concat_iff : Pending (lines ++ [line]) ↔
    Pending lines ∧ isIncomplete (lines ++ [line]).flatten = true := by
  constructor
  · intro h
    constructor
    · intro k hk hle
      have hshort := h k hk (by rw [List.length_append]; omega)
      rwa [List.take_append_of_le_length hle] at hshort
    · have hall := h (lines ++ [line]).length (by simp) le_rfl
      rwa [List.take_length] at hall
  · rintro ⟨hlines, hall⟩ k hk hle
    by_cases hshort : k ≤ lines.length
    · rw [List.take_append_of_le_length hshort]
      exact hlines k hk hshort
    · rw [List.take_of_length_le (by simp; omega)]
      exact hall

theorem shortest_concat_iff : Shortest (lines ++ [line]) ↔
    Pending lines ∧ isIncomplete (lines ++ [line]).flatten = false := by
  constructor
  · rintro ⟨⟨-, hall⟩, hleast⟩
    rw [List.take_length] at hall
    refine ⟨?_, hall⟩
    intro k hk hle
    by_contra hcomplete
    have hge := hleast (a := k) ⟨hk, by
      rw [List.take_append_of_le_length hle]
      exact Bool.eq_false_iff.2 hcomplete⟩
    rw [List.length_append, List.length_singleton] at hge
    omega
  · rintro ⟨hlines, hall⟩
    refine ⟨⟨by simp, by rwa [List.take_length]⟩, ?_⟩
    rintro k ⟨hk, hcomplete⟩
    by_contra hlt
    rw [List.length_append, List.length_singleton] at hlt
    have hle : k ≤ lines.length := by omega
    rw [List.take_append_of_le_length hle, hlines k hk hle] at hcomplete
    cases hcomplete

theorem Shortest.eq_concat (h : Shortest lines) : ∃ init line, lines = init ++ [line] := by
  have hpos : lines ≠ [] := List.ne_nil_of_length_pos h.1.1
  exact ⟨_, _, (List.dropLast_append_getLast hpos).symm⟩

end

/-- Every text consists of lines and of what is behind them. -/
theorem exists_lines (input : Text) : ∃ (lines : List Text) (last : Text),
    (∀ line ∈ lines, IsLine line) ∧ Text.newline ∉ last ∧ lines.flatten ++ last = input := by
  induction input with
  | nil => exact ⟨[], [], by simp⟩
  | cons b input ih =>
      obtain ⟨lines, last, hlines, hlast, rfl⟩ := ih
      by_cases hb : b = Text.newline
      · refine ⟨[b] :: lines, last, ?_, hlast, rfl⟩
        rintro line (_ | ⟨_, hline⟩)
        · exact ⟨[], List.not_mem_nil, by rw [hb, List.nil_append]⟩
        · exact hlines line hline
      -- the byte begins the first line, or what is left if there is no line
      · have hbehind : ∀ {t : Text}, Text.newline ∉ t → Text.newline ∉ b :: t :=
          fun ht => List.not_mem_cons_of_ne_of_not_mem (Ne.symm hb) ht
        cases lines with
        | nil => exact ⟨[], b :: last, by simp, hbehind hlast, rfl⟩
        | cons line lines =>
            obtain ⟨body, hbody, rfl⟩ := hlines line List.mem_cons_self
            refine ⟨(b :: body ++ [Text.newline]) :: lines, last, ?_, hlast, rfl⟩
            rintro line (_ | ⟨_, hline⟩)
            · exact ⟨b :: body, hbehind hbody, rfl⟩
            · exact hlines line (List.mem_cons_of_mem _ hline)

/-- Lines can be put together to shortest fragments until those that are left
are incomplete. -/
theorem exists_fragments (lines : List Text) : ∃ (fragments : List (List Text)) (rest : List Text),
    fragments.flatten ++ rest = lines ∧ (∀ fragment ∈ fragments, Shortest fragment) ∧
      Pending rest := by
  induction lines using List.reverseRecOn with
  | nil => exact ⟨[], [], rfl, by simp, pending_nil⟩
  | append_singleton lines line ih =>
      obtain ⟨fragments, rest, rfl, hshortest, hpending⟩ := ih
      cases hincomplete : isIncomplete (rest ++ [line]).flatten with
      | true =>
          exact ⟨fragments, rest ++ [line], by rw [List.append_assoc], hshortest,
            pending_concat_iff.2 ⟨hpending, hincomplete⟩⟩
      | false =>
          refine ⟨fragments ++ [rest ++ [line]], [], by simp, ?_, pending_nil⟩
          intro fragment hfragment
          rcases List.mem_append.1 hfragment with hbefore | hnew
          · exact hshortest fragment hbefore
          · rw [List.mem_singleton.1 hnew]
            exact shortest_concat_iff.2 ⟨hpending, hincomplete⟩

theorem exists_grouping (input : Text) : ∃ fragments rest last,
    Grouping input fragments rest last := by
  obtain ⟨lines, last, hlines, hlast, rfl⟩ := exists_lines input
  obtain ⟨fragments, rest, rfl, hshortest, hpending⟩ := exists_fragments lines
  exact ⟨fragments, rest, last, by rw [List.flatten_append], hlines, hlast, hshortest, hpending⟩

/-! ### A shell for lines -/

/-- What is told to get so many lines, from the start of a fragment on: only at the
first of them nothing is pending. -/
def prompts (count : Nat) : List Event :=
  (List.range count).map fun k => .prompt (k != 0)

/-- The dialogue with a user who types the given fragments, each of them line by
line, and after that some more lines and an end that is no line. -/
def serve [Circle] (s : Session) (fragments : List (List Text)) (rest : List Text) (last : Text) :
    List (Session × Text) × Session :=
  match fragments with
  | [] =>
    let s := ((prompts (rest.length + 1)).foldl Session.tell s).tell .endOfInput
    let left := rest.flatten ++ last
    if left.isEmpty then ([], s) else ([(s, left)], (s.runFragment left).1)
  | lines :: fragments =>
    let s := (prompts lines.length).foldl Session.tell s
    match s.runFragment lines.flatten with
    | (s', .exit) => ([(s, lines.flatten)], s')
    | (s', _) =>
      ((s, lines.flatten) :: (serve s' fragments rest last).1, (serve s' fragments rest last).2)

theorem prompts_succ (count : Nat) :
    prompts (count + 1) = prompts count ++ [.prompt (count != 0)] := by
  rw [prompts, List.range_succ, List.map_append]
  rfl

section

variable {lines rest : List Text} {last : Text}

theorem isEmpty_flatten (hlines : ∀ line ∈ lines, IsLine line) :
    lines.flatten.isEmpty = lines.isEmpty := by
  cases lines with
  | nil => rfl
  | cons line lines =>
      have hne := (hlines line List.mem_cons_self).ne_nil
      rw [List.isEmpty_cons, List.isEmpty_eq_false_iff, List.flatten_cons]
      exact List.append_ne_nil_of_left_ne_nil hne _

/-- The prompt behind so many lines of a fragment. -/
theorem ask_foldl_prompts (s : Session) (hlines : ∀ line ∈ lines, IsLine line) :
    ask ((prompts lines.length).foldl Session.tell s) ⟨lines.flatten, true⟩ =
      (prompts (lines.length + 1)).foldl Session.tell s := by
  rw [prompts_succ, List.foldl_append, ask, Collector.prompt?, if_pos rfl, isEmpty_flatten hlines]
  cases lines <;> rfl

theorem Collector.add_line (text : Text) {line : Text} (hline : IsLine line) (hzero : 0 ∉ line) :
    Collector.add ⟨text, true⟩ line = ⟨text ++ line, true⟩ := by
  rw [Collector.add_eq _ hzero, hline.getLast?]
  rfl

variable [Circle]

/-- Lines that leave a fragment incomplete are asked for and collected. -/
theorem dialogue_pending (s : Session) (hlines : ∀ line ∈ lines, IsLine line)
    (hzero : 0 ∉ lines.flatten) (hpending : Pending lines) (pieces : List Text) :
    dialogue s .new (lines ++ pieces) =
      dialogue ((prompts lines.length).foldl Session.tell s) ⟨lines.flatten, true⟩ pieces := by
  induction lines using List.reverseRecOn generalizing pieces with
  | nil => rfl
  | append_singleton lines line ih =>
      obtain ⟨hbefore, hincomplete⟩ := pending_concat_iff.1 hpending
      rw [List.forall_mem_append, List.forall_mem_singleton] at hlines
      obtain ⟨hlines, hline⟩ := hlines
      rw [List.flatten_append, List.flatten_singleton] at hzero hincomplete ⊢
      rw [List.mem_append, not_or] at hzero
      have hadd := Collector.add_line lines.flatten hline hzero.2
      have hfragment : (Collector.add ⟨lines.flatten, true⟩ line).fragment? = none := by
        rw [hadd, Collector.fragment?, hincomplete]
        rfl
      rw [List.append_assoc, ih hlines hzero.1 hbefore, List.singleton_append,
        dialogue_of_incomplete _ hfragment pieces, hadd, ask_foldl_prompts s hlines,
        List.length_append, List.length_singleton]

/-- The lines of a fragment are asked for, and then the fragment is run. -/
theorem dialogue_shortest (s : Session) (hlines : ∀ line ∈ lines, IsLine line)
    (hzero : 0 ∉ lines.flatten) (hshortest : Shortest lines) (pieces : List Text) :
    let asked := (prompts lines.length).foldl Session.tell s
    dialogue s .new (lines ++ pieces) =
      match asked.runFragment lines.flatten with
      | (s', .exit) => ([(asked, lines.flatten)], s')
      | (s', _) =>
        ((asked, lines.flatten) :: (dialogue s' .new pieces).1, (dialogue s' .new pieces).2) := by
  obtain ⟨before, line, rfl⟩ := hshortest.eq_concat
  obtain ⟨hbefore, hcomplete⟩ := shortest_concat_iff.1 hshortest
  rw [List.forall_mem_append, List.forall_mem_singleton] at hlines
  obtain ⟨hlines, hline⟩ := hlines
  rw [List.flatten_append, List.flatten_singleton] at hzero hcomplete ⊢
  rw [List.mem_append, not_or] at hzero
  have hfragment : (Collector.add ⟨before.flatten, true⟩ line).fragment? =
      some (before.flatten ++ line) := by
    rw [Collector.add_line _ hline hzero.2, Collector.fragment?, hcomplete]
    rfl
  rw [List.append_assoc, dialogue_pending s hlines hzero.1 hbefore, List.singleton_append,
    List.length_append, List.length_singleton, ← ask_foldl_prompts s hlines]
  exact dialogue_of_fragment _ hfragment pieces

/-- At the end of the input what is left is run, if there is anything. -/
theorem dialogue_rest (s : Session) (hlines : ∀ line ∈ rest, IsLine line)
    (hzero : 0 ∉ rest.flatten ++ last) (hpending : Pending rest)
    (hlast : Text.newline ∉ last) :
    dialogue s .new (rest ++ if last = [] then [] else [last]) = serve s [] rest last := by
  rw [List.mem_append, not_or] at hzero
  rw [dialogue_pending s hlines hzero.1 hpending, serve, ← ask_foldl_prompts s hlines]
  by_cases hempty : last = []
  · simp only [hempty, if_true, List.append_nil]
    cases hleft : rest.flatten.isEmpty <;> simp [dialogue, runs, converse, close, hleft]
  · have hopen : last.getLast? ≠ some Text.newline := fun h => hlast (List.mem_of_getLast? h)
    rw [if_neg hempty, dialogue_inside _ _ hzero.2 hopen]
    cases hleft : (rest.flatten ++ last).isEmpty <;>
      simp [dialogue, runs, converse, close, ask_inside, hleft]

end

theorem Grouping.cut {input : Text} {fragments : List (List Text)} {rest : List Text}
    {last : Text} (h : Grouping input fragments rest last) :
    Cut (fragments.flatten ++ (rest ++ if last = [] then [] else [last])) := by
  intro piece hpiece
  rw [← List.append_assoc, List.mem_append] at hpiece
  rcases hpiece with hline | hend
  · exact (h.lines piece hline).cut
  · split_ifs at hend with hempty
    · cases hend
    · rw [List.mem_singleton.1 hend]
      exact ⟨hempty, fun hmem => h.unended (List.dropLast_subset _ hmem)⟩

theorem Grouping.flatten_cut {input : Text} {fragments : List (List Text)} {rest : List Text}
    {last : Text} (h : Grouping input fragments rest last) :
    (fragments.flatten ++ (rest ++ if last = [] then [] else [last])).flatten = input := by
  rw [← h.joined]
  split_ifs with hempty <;> simp [hempty]

/-- A dialogue in which each line comes at once. -/
theorem dialogue_lines [Circle] (s : Session) {input : Text} {fragments : List (List Text)}
    {rest : List Text} {last : Text} (h : Grouping input fragments rest last) (hzero : 0 ∉ input) :
    dialogue s .new (fragments.flatten ++ (rest ++ if last = [] then [] else [last])) =
      serve s fragments rest last := by
  obtain ⟨rfl, hlines, hlast, hshortest, hpending⟩ := h
  induction fragments generalizing s with
  | nil => exact dialogue_rest s hlines hzero hpending hlast
  | cons lines fragments ih =>
      rw [List.flatten_cons, List.append_assoc, List.forall_mem_append] at hlines
      rw [List.forall_mem_cons] at hshortest
      rw [List.flatten_cons, List.flatten_append, List.append_assoc, List.append_assoc,
        List.mem_append, not_or, ← List.append_assoc] at hzero
      rw [List.flatten_cons, List.append_assoc,
        dialogue_shortest s hlines.1 hzero.1 hshortest.1, serve]
      simp only [ih _ hlines.2 hshortest.2 hzero.2]

/-- The shell runs the same fragments in the same sessions, and comes to the same
session, however its input without zero bytes is cut. The lines of any input make
up fragments, and then it is these that are run, each of them as soon as its lines
have been asked for one by one, and at the end what is left. -/
theorem run_reads_lines [Circle] (s : Session) {input : Text} (hzero : 0 ∉ input) :
    (∀ cut, Cut cut → cut.flatten = input →
        (runs s .new (pieces input), run s input) = dialogue s .new cut) ∧
      (∃ fragments rest last, Grouping input fragments rest last) ∧
      ∀ fragments rest last, Grouping input fragments rest last →
        (runs s .new (pieces input), run s input) = serve s fragments rest last := by
  have hcut : ∀ cut, Cut cut → cut.flatten = input →
      (runs s .new (pieces input), run s input) = dialogue s .new cut := by
    rintro cut hcut rfl
    exact dialogue_pieces s hcut hzero
  refine ⟨hcut, exists_grouping input, ?_⟩
  intro fragments rest last hgrouping
  rw [← dialogue_lines s hgrouping hzero]
  exact hcut _ hgrouping.cut hgrouping.flatten_cut

/-- A loop in two lines, the first of which fills the buffer just before its line
break, and a last line without an end. -/
theorem run_reads_lines_loop :
    let long := ascii "repeat 2 [" ++ List.replicate 1013 (' '.toUInt8) ++ [Text.newline]
    let input := long ++ ascii "show 3 ]\nshow"
    let s : Session := .new { width := 1, height := 1 }
    0 ∉ input ∧ (pieces input).map List.length = [1023, 1, 9, 4] ∧
      (runs s .new (pieces input)).map Prod.snd = [long ++ ascii "show 3 ]\n", ascii "show"] ∧
      (run s input).events.toList.take 5 =
        [.prompt false, .prompt true, .shown 3, .shown 3, .prompt false] := by
  intro long input s
  have hzero : 0 ∉ input := by
    decide +kernel
  have hpending : Pending ([] ++ [long]) :=
    pending_concat_iff.2 ⟨pending_nil, by decide +kernel⟩
  have hshortest : Shortest ([long] ++ [ascii "show 3 ]\n"]) :=
    shortest_concat_iff.2 ⟨hpending, by decide +kernel⟩
  have hgrouping : Grouping input [[long, ascii "show 3 ]\n"]] [] (ascii "show") := by
    refine ⟨by decide +kernel, ?_, by decide, List.forall_mem_singleton.2 hshortest, pending_nil⟩
    simp only [List.flatten_singleton, List.append_nil, List.forall_mem_cons]
    exact ⟨⟨_, by decide +kernel, rfl⟩, ⟨ascii "show 3 ]", by decide, by decide⟩, by simp⟩
  obtain ⟨hruns, hrun⟩ := Prod.mk.inj ((run_reads_lines s hzero).2.2 _ _ _ hgrouping)
  rw [hruns, hrun]
  exact ⟨hzero, by decide +kernel, by decide +kernel, by decide +kernel⟩

end Turtle.Shell
