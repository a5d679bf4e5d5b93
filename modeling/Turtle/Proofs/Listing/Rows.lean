import Turtle.Proofs.Listing.Outline
import Turtle.Proofs.Listing.Spelled

/-!
Reading the lines of a listing.

A line ends at the first line break, since no name holds one, and its indentation
ends at the first letter. What a line tells follows from its text: no title begins
with another one, and where a name or a number stands, a byte stands behind it with
which it cannot go on. So the text of a listing tells its lines.
-/

namespace Turtle

namespace Listing

/-! ### Texts that are cut at a byte -/

/-- A text can be cut in one way only into bytes of a class and a rest that does not
go on with one of them. -/
theorem append_unique {p : UInt8 → Bool} {x x' rest rest' : Text} (hx : ∀ b ∈ x, p b = true)
    (hx' : ∀ b ∈ x', p b = true) (hrest : Lexer.startsWith p rest = false)
    (hrest' : Lexer.startsWith p rest' = false) (h : x ++ rest = x' ++ rest') :
    x = x' ∧ rest = rest' := by
  constructor
  · rw [← Lexer.takeWhile_append_of_not_startsWith hx hrest, h,
      Lexer.takeWhile_append_of_not_startsWith hx' hrest']
  · rw [← Lexer.dropWhile_append_of_not_startsWith hx hrest, h,
      Lexer.dropWhile_append_of_not_startsWith hx' hrest']

/-! ### Titles -/

def Title.all : List Title :=
  [.program, .procedure, .call, .assign, .loop, .body, .value .number, .value .var, .value .word,
    .value .sequence]

theorem Title.mem_all (t : Title) : t ∈ all := by
  cases t with
  | value kind => cases kind <;> decide
  | _ => decide

/-- No title begins with another one. -/
theorem Title.eq_of_prefix {t t' : Title} (h : t.text <+: t'.text) : t = t' := by
  have hall : ∀ t ∈ all, ∀ t' ∈ all, t.text <+: t'.text → t = t' := by decide +kernel
  exact hall t t.mem_all t' t'.mem_all h

theorem Title.unique {t t' : Title} {x x' : Text} (h : t.text ++ x = t'.text ++ x') :
    t = t' ∧ x = x' := by
  have htitle : t = t' := by
    rcases List.prefix_or_prefix_of_prefix (List.prefix_append t.text x)
      (h ▸ List.prefix_append t'.text x') with hbegins | hbegins
    · exact Title.eq_of_prefix hbegins
    · exact (Title.eq_of_prefix hbegins).symm
  subst htitle
  exact ⟨rfl, List.append_cancel_left h⟩

/-! ### Headings -/

/-- The lexemes of an expression that is listed. -/
def formLexemes : Form → List Lexeme
  | .single o => [o.lexeme]
  | .sequence items => items.map Item.lexeme

/-- The lexemes that a line shows. -/
def Heading.lexemes : Heading → List Lexeme
  | .program _ | .loop | .body => []
  | .procedure name parameters => .identifier name :: parameters.map .var
  | .call name _ => [.identifier name]
  | .assign name => [.word name]
  | .value form => formLexemes form

def Heading.Legible (h : Heading) : Prop :=
  ∀ l ∈ h.lexemes, l.WellFormed

namespace Heading

theorem spaced_parameters (parameters : List Text) :
    spaced (parameters.map (ascii ":" ++ ·)) =
      spaced ((parameters.map Lexeme.var).map Lexeme.spelling) := by
  rw [List.map_map]
  rfl

theorem spaced_items (items : List Item) :
    spaced (items.map item) = spaced ((items.map Item.lexeme).map Lexeme.spelling) := by
  rw [List.map_map, funext item_eq_spelling]
  rfl

/-- A name ends where a blank stands behind it. -/
theorem name_unique {name name' rest rest' : Text} (h : IsName name) (h' : IsName name')
    (heq : name ++ (ascii " (" ++ rest) = name' ++ (ascii " (" ++ rest')) :
    name = name' ∧ rest = rest' := by
  obtain ⟨hname, hrest⟩ := append_unique h.2 h'.2 rfl rfl heq
  exact ⟨hname, List.append_cancel_left hrest⟩

theorem count_unique {count count' : Nat} {rest rest' : Text}
    (heq : Numeral.ofNat count ++ (ascii " " ++ rest) =
      Numeral.ofNat count' ++ (ascii " " ++ rest')) : count = count' := by
  obtain ⟨hcount, -⟩ := append_unique (Numeral.isDigit_of_mem_ofNat count)
    (Numeral.isDigit_of_mem_ofNat count') rfl rfl heq
  exact Numeral.ofNat_injective hcount

theorem form_unique {f f' : Form} (h : ∀ l ∈ formLexemes f, l.WellFormed)
    (h' : ∀ l ∈ formLexemes f', l.WellFormed) (hkind : formKind f = formKind f')
    (hdetails : formDetails f = formDetails f') : f = f' := by
  cases f with
  | single o =>
      cases f' with
      | single o' =>
          cases o with
          | number n =>
              cases o' with
              | number n' => rw [Numeral.ofInt64_injective hdetails]
              | _ => cases hkind
          | var name => cases o' <;> cases hkind; cases hdetails; rfl
          | word name => cases o' <;> cases hkind; cases hdetails; rfl
      | sequence items' => cases o <;> cases hkind
  | sequence items =>
      cases f' with
      | single o' => cases o' <;> cases hkind
      | sequence items' =>
          have hspaced : spaced (items.map item) = spaced (items'.map item) :=
            List.append_cancel_right hdetails
          rw [spaced_items, spaced_items] at hspaced
          have hlexemes := spaced_unique h h' hspaced
          rw [Item.lexeme_injective.list_map hlexemes]

theorem unique {h h' : Heading} (hh : h.Legible) (hh' : h'.Legible) (heq : h.text = h'.text) :
    h = h' := by
  obtain ⟨htitle, hdetails⟩ := Title.unique heq
  cases h with
  | program count =>
      cases h' with
      | program count' => rw [Numeral.ofNat_injective (List.append_cancel_right hdetails)]
      | _ => cases htitle
  | procedure name parameters =>
      cases h' with
      | procedure name' parameters' =>
          obtain ⟨hname, hparameters⟩ := List.forall_mem_cons.1 hh
          obtain ⟨hname', hparameters'⟩ := List.forall_mem_cons.1 hh'
          obtain ⟨rfl, hrest⟩ := name_unique hname.1 hname'.1 hdetails
          have hspaced := List.append_cancel_right hrest
          rw [spaced_parameters, spaced_parameters] at hspaced
          have hlexemes := spaced_unique hparameters hparameters' hspaced
          have hvar : Function.Injective Lexeme.var := fun _ _ => Lexeme.var.inj
          rw [hvar.list_map hlexemes]
      | _ => cases htitle
  | call name count =>
      cases h' with
      | call name' count' =>
          obtain ⟨hname, -⟩ := List.forall_mem_cons.1 hh
          obtain ⟨hname', -⟩ := List.forall_mem_cons.1 hh'
          obtain ⟨rfl, hrest⟩ := name_unique hname.1 hname'.1 hdetails
          rw [count_unique hrest]
      | _ => cases htitle
  | assign name =>
      cases h' with
      | assign name' => exact congrArg assign hdetails
      | _ => cases htitle
  | loop => cases h' <;> first | rfl | cases htitle
  | body => cases h' <;> first | rfl | cases htitle
  | value form =>
      cases h' with
      | value form' => rw [form_unique hh hh' (Title.value.inj htitle) hdetails]
      | _ => cases htitle

/-! ### Lines -/

theorem newline_notMem_spaced_spelling {ls : List Lexeme} (h : ∀ l ∈ ls, l.WellFormed) :
    Text.newline ∉ spaced (ls.map Lexeme.spelling) :=
  newline_notMem_spaced (List.forall_mem_map.2 fun l hl => newline_notMem_spelling (h l hl))

theorem newline_notMem_formDetails {f : Form} (h : ∀ l ∈ formLexemes f, l.WellFormed) :
    Text.newline ∉ formDetails f := by
  cases f with
  | single o =>
      have ho : o.lexeme.WellFormed := h _ List.mem_cons_self
      cases o with
      | number n => exact newline_notMem_spelling ho
      | var name | word name => exact newline_notMem_name ho
  | sequence items =>
      have hbracket : Text.newline ∉ ascii "]" := by decide
      rw [formDetails, spaced_items]
      exact List.not_mem_append (newline_notMem_spaced_spelling h) hbracket

/-- A line holds no line break. -/
theorem newline_notMem_text {h : Heading} (hh : h.Legible) : Text.newline ∉ h.text := by
  have htitle : ∀ t ∈ Title.all, Text.newline ∉ t.text := by decide +kernel
  have hparen : Text.newline ∉ ascii " (" := by decide
  have hcolon : Text.newline ∉ ascii "):" := by decide
  have hdetails : Text.newline ∉ h.details := by
    cases h with
    | program count => exact List.not_mem_append (newline_notMem_ofNat count) hcolon
    | procedure name parameters =>
        obtain ⟨hname, hparameters⟩ := List.forall_mem_cons.1 hh
        have hspaced := newline_notMem_spaced_spelling hparameters
        rw [details, spaced_parameters]
        exact List.not_mem_append (newline_notMem_name hname.1)
          (List.not_mem_append hparen (List.not_mem_append hspaced hcolon))
    | call name count =>
        obtain ⟨hname, -⟩ := List.forall_mem_cons.1 hh
        have hnoun : Text.newline ∉
            ascii " " ++ (ascii (if count == 1 then "arg" else "args") ++ ascii ")") := by
          split <;> decide
        exact List.not_mem_append (newline_notMem_name hname.1)
          (List.not_mem_append hparen (List.not_mem_append (newline_notMem_ofNat count) hnoun))
    | assign name => exact newline_notMem_name (List.forall_mem_cons.1 hh).1
    | loop | body => exact List.not_mem_nil
    | value form => exact newline_notMem_formDetails hh
  exact List.not_mem_append (htitle _ h.title.mem_all) hdetails

/-- A line begins with a letter. -/
theorem startsWith_text (h : Heading) :
    Lexer.startsWith (· == ' '.toUInt8) h.text = false := by
  have htitle : ∀ t : Title, ∀ x, Lexer.startsWith (· == ' '.toUInt8) (t.text ++ x) = false := by
    intro t x
    cases t with
    | value kind => cases kind <;> rfl
    | _ => rfl
  exact htitle h.title h.details

end Heading

/-- A line can be cut off from a text in one way only. -/
theorem Row.unique {r r' : Row} (h : r.heading.Legible) (h' : r'.heading.Legible)
    {rest rest' : Text} (heq : r.text ++ rest = r'.text ++ rest') : r = r' ∧ rest = rest' := by
  have hline : ∀ r : Row, r.heading.Legible →
      ∀ b ∈ indent r.depth ++ r.heading.text, (b != Text.newline) = true := by
    intro r hr b hb
    rw [bne_iff_ne]
    rintro rfl
    rcases List.mem_append.1 hb with hindent | htext
    · exact absurd (List.eq_of_mem_replicate hindent) (by decide)
    · exact Heading.newline_notMem_text hr htext
  have hbreak : (indent r.depth ++ r.heading.text) ++ (ascii "\n" ++ rest) =
      (indent r'.depth ++ r'.heading.text) ++ (ascii "\n" ++ rest') := by
    simpa only [Row.text, List.append_assoc] using heq
  obtain ⟨htext, hrest⟩ := append_unique (hline r h) (hline r' h') rfl rfl hbreak
  have hblank : ∀ depth, ∀ b ∈ indent depth, (b == ' '.toUInt8) = true := by
    intro depth b hb
    rw [List.eq_of_mem_replicate hb]
    rfl
  obtain ⟨hindent, hheading⟩ := append_unique (hblank r.depth) (hblank r'.depth)
    r.heading.startsWith_text r'.heading.startsWith_text htext
  have hlength : 4 * r.depth = 4 * r'.depth := by
    simpa [indent] using congrArg List.length hindent
  obtain ⟨depth, heading⟩ := r
  obtain ⟨depth', heading'⟩ := r'
  obtain rfl : depth = depth' := Nat.eq_of_mul_eq_mul_left (by decide) hlength
  obtain rfl : heading = heading' := Heading.unique h h' hheading
  exact ⟨rfl, List.append_cancel_left hrest⟩

theorem Row.text_ne_nil (r : Row) : r.text ≠ [] := by
  rw [Row.text]
  exact List.append_ne_nil_of_right_ne_nil _ (by decide)

/-- The text of lines tells them. -/
theorem rows_unique {rows rows' : List Row} (h : ∀ r ∈ rows, r.heading.Legible)
    (h' : ∀ r ∈ rows', r.heading.Legible)
    (heq : rows.flatMap Row.text = rows'.flatMap Row.text) : rows = rows' := by
  induction rows generalizing rows' with
  | nil =>
      cases rows' with
      | nil => rfl
      | cons r' rows' => exact absurd (List.append_eq_nil_iff.1 heq.symm).1 r'.text_ne_nil
  | cons r rows ih =>
      cases rows' with
      | nil => exact absurd (List.append_eq_nil_iff.1 heq).1 r.text_ne_nil
      | cons r' rows' =>
          obtain ⟨hr, hrows⟩ := List.forall_mem_cons.1 h
          obtain ⟨hr', hrows'⟩ := List.forall_mem_cons.1 h'
          obtain ⟨rfl, hlater⟩ := Row.unique hr hr' heq
          rw [ih hrows hrows' hlater]

end Listing

end Turtle
