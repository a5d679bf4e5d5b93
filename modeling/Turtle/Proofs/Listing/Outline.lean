import Turtle.Listing
import Turtle.Proofs.Console.Gist

/-!
The lines of a listing.

A listing says of every line how far it is indented and what stands on it. How
statements are nested is then told by the indentation alone: the lines of a body
are further in than the line that opens it, so the first line that is not ends the
body. The arguments of a call are counted on its own line.
-/

namespace Turtle.Listing

/-! ### Headings -/

/-- What a line tells. -/
inductive Heading
  | program (count : Nat)
  | procedure (name : Text) (parameters : List Text)
  | call (name : Text) (count : Nat)
  | assign (name : Text)
  | loop
  | body
  | value (form : Form)

/-- The kinds of expressions that are told apart. -/
inductive FormKind
  | number
  | var
  | word
  | sequence
  deriving DecidableEq

/-- What a line begins with. -/
inductive Title
  | program
  | procedure
  | call
  | assign
  | loop
  | body
  | value (kind : FormKind)
  deriving DecidableEq

def Title.text : Title → Text
  | .program => ascii "Statements ("
  | .procedure => ascii "Procedure "
  | .call => ascii "Call "
  | .assign => ascii "Make \""
  | .loop => ascii "Repeat"
  | .body => ascii "Body:"
  | .value .number => ascii "Number "
  | .value .var => ascii "Variable :"
  | .value .word => ascii "Word \""
  | .value .sequence => ascii "Postfix ["

def formKind : Form → FormKind
  | .single (.number _) => .number
  | .single (.var _) => .var
  | .single (.word _) => .word
  | .sequence _ => .sequence

def formDetails : Form → Text
  | .single (.number n) => Numeral.ofInt64 n
  | .single (.var name) | .single (.word name) => name
  | .sequence items => spaced (items.map item) ++ ascii "]"

namespace Heading

def title : Heading → Title
  | .program _ => .program
  | .procedure .. => .procedure
  | .call .. => .call
  | .assign _ => .assign
  | .loop => .loop
  | .body => .body
  | .value form => .value (formKind form)

/-- What stands behind the title. -/
def details : Heading → Text
  | .program count => Numeral.ofNat count ++ ascii "):"
  | .procedure name parameters =>
    name ++ (ascii " (" ++ (spaced (parameters.map (ascii ":" ++ ·)) ++ ascii "):"))
  | .call name count =>
    name ++ (ascii " (" ++ (Numeral.ofNat count ++
      (ascii " " ++ (ascii (if count == 1 then "arg" else "args") ++ ascii ")"))))
  | .assign name => name
  | .loop | .body => []
  | .value form => formDetails form

def text (h : Heading) : Text :=
  h.title.text ++ h.details

end Heading

/-! ### Lines -/

/-- A line: how far it is indented, and what it tells. -/
structure Row where
  depth : Nat
  heading : Heading

def Row.text (r : Row) : Text :=
  indent r.depth ++ r.heading.text ++ ascii "\n"

def valueRow (depth : Nat) (e : Expr) : Row :=
  ⟨depth, .value e.form⟩

mutual

/-- The lines of a statement. -/
def outline (depth : Nat) : Statement → List Row
  | .procedure _ name parameters body =>
    ⟨depth, .procedure name parameters⟩ :: bodyOutline (depth + 1) body
  | .call _ name arguments =>
    ⟨depth, .call name arguments.length⟩ :: arguments.map (valueRow (depth + 1))
  | .assign _ name value => [⟨depth, .assign name⟩, valueRow (depth + 1) value]
  | .loop _ count body =>
    ⟨depth, .loop⟩ :: valueRow (depth + 1) count :: ⟨depth, .body⟩ :: bodyOutline (depth + 1) body

def bodyOutline (depth : Nat) : List Statement → List Row
  | [] => []
  | s :: ss => outline depth s ++ bodyOutline depth ss

end

theorem bodyOutline_eq_flatMap (depth : Nat) (ss : List Statement) :
    bodyOutline depth ss = ss.flatMap (outline depth) := by
  induction ss with
  | nil => rfl
  | cons s ss ih => rw [bodyOutline, ih, List.flatMap_cons]

def programOutline (ss : List Statement) : List Row :=
  ⟨0, .program ss.length⟩ :: bodyOutline 1 ss

/-! ### The listing is written line by line -/

theorem expr_eq_row (depth : Nat) (e : Expr) : expr depth e = (valueRow depth e).text := by
  have hform : form e.form = (Heading.value e.form).text := by
    cases e.form with
    | single o => cases o <;> rfl
    | sequence items => exact List.append_assoc ..
  rw [expr, hform]
  rfl

theorem line_call (name : Text) (count : Nat) (noun : Text) :
    line "Call % (% %)\n" [.text name, .natural count, .text noun] =
      ascii "Call " ++ (name ++ (ascii " (" ++ (Numeral.ofNat count ++
        (ascii " " ++ (noun ++ ascii ")\n"))))) := rfl

theorem line_program (count : Nat) :
    line "Statements (%):\n" [.natural count] =
      ascii "Statements (" ++ (Numeral.ofNat count ++ ascii "):\n") := rfl

mutual

theorem statement_eq_outline (depth : Nat) (s : Statement) :
    statement depth s = (outline depth s).flatMap Row.text := by
  match s with
  | .procedure line name parameters body =>
      rw [statement, outline, List.flatMap_cons, statements_eq_outline]
      simp [Row.text, Heading.text, Heading.title, Heading.details, Title.text, ascii]
  | .call line name arguments =>
      have hexprs : expr (depth + 1) = fun e => (valueRow (depth + 1) e).text :=
        funext (expr_eq_row (depth + 1))
      rw [statement, outline, List.flatMap_cons, List.flatMap_map, hexprs, line_call]
      simp [Row.text, Heading.text, Heading.title, Heading.details, Title.text, ascii]
  | .assign line name value =>
      rw [statement, outline, List.flatMap_cons, List.flatMap_cons, expr_eq_row]
      simp [Row.text, Heading.text, Heading.title, Heading.details, Title.text]
  | .loop line count body =>
      rw [statement, outline, List.flatMap_cons, List.flatMap_cons, List.flatMap_cons,
        statements_eq_outline, expr_eq_row]
      simp [Row.text, Heading.text, Heading.title, Heading.details, Title.text, ascii]

theorem statements_eq_outline (depth : Nat) (ss : List Statement) :
    statements depth ss = (bodyOutline depth ss).flatMap Row.text := by
  match ss with
  | [] => rfl
  | s :: ss =>
      rw [statements, bodyOutline, List.flatMap_append, statement_eq_outline depth s,
        statements_eq_outline depth ss]

end

theorem program_eq_outline (ss : List Statement) :
    program ss = (programOutline ss).flatMap Row.text := by
  rw [program, programOutline, List.flatMap_cons, statements_eq_outline, line_program]
  simp [Row.text, Heading.text, Heading.title, Heading.details, Title.text, ascii, indent]

/-! ### The indentation tells the nesting -/

/-- The first of the lines, if there is one, is less far in than the depth. -/
def EndsBefore (depth : Nat) (rows : List Row) : Prop :=
  ∀ r ∈ rows.head?, r.depth < depth

theorem outline_eq_cons (depth : Nat) (s : Statement) :
    ∃ h rows, outline depth s = ⟨depth, h⟩ :: rows := by
  cases s <;> exact ⟨_, _, by rw [outline]⟩

theorem not_endsBefore_outline (depth : Nat) (s : Statement) (rows : List Row) :
    ¬ EndsBefore depth (outline depth s ++ rows) := by
  obtain ⟨h, rows', hrows⟩ := outline_eq_cons depth s
  rw [hrows]
  intro hends
  exact absurd (hends ⟨depth, h⟩ rfl) (Nat.lt_irrefl depth)

theorem EndsBefore.bodyOutline_append {depth : Nat} {rest : List Row} (h : EndsBefore depth rest)
    (ss : List Statement) : EndsBefore (depth + 1) (bodyOutline depth ss ++ rest) := by
  cases ss with
  | nil => exact fun r hr => Nat.lt_succ_of_lt (h r hr)
  | cons s ss =>
      obtain ⟨h, rows, hrows⟩ := outline_eq_cons depth s
      rw [bodyOutline, hrows]
      intro r hr
      cases hr
      exact Nat.lt_succ_self depth

/-- A line with an expression tells the expression, but for its own line number. -/
theorem relabel_of_valueRow {depth : Nat} {e e' : Expr} (h : valueRow depth e = valueRow depth e') :
    e.relabel noLine = e'.relabel noLine := by
  obtain ⟨line, form⟩ := e
  obtain ⟨line', form'⟩ := e'
  cases h
  rfl

theorem map_relabel_of_map_valueRow {depth : Nat} {es es' : List Expr}
    (h : es.map (valueRow depth) = es'.map (valueRow depth)) :
    es.map (Expr.relabel noLine) = es'.map (Expr.relabel noLine) := by
  induction es generalizing es' with
  | nil =>
      obtain rfl : es' = [] := List.map_eq_nil_iff.1 h.symm
      rfl
  | cons e es ih =>
      cases es' with
      | nil => cases h
      | cons e' es' =>
          obtain ⟨hfirst, hlater⟩ := List.cons.inj h
          rw [List.map_cons, List.map_cons, relabel_of_valueRow hfirst, ih hlater]

mutual

/-- The lines of a statement tell the statement, and where its lines end. -/
theorem outline_unique {depth : Nat} {rest rest' : List Row} (hrest : EndsBefore (depth + 1) rest)
    (hrest' : EndsBefore (depth + 1) rest') {s s' : Statement}
    (h : outline depth s ++ rest = outline depth s' ++ rest') :
    s.relabel noLine = s'.relabel noLine ∧ rest = rest' := by
  match s with
  | .procedure line name parameters body =>
      cases s' with
      | procedure line' name' parameters' body' =>
          rw [outline, outline] at h
          obtain ⟨hfirst, hbody⟩ := List.cons.inj h
          cases hfirst
          obtain ⟨hsame, hbehind⟩ := bodyOutline_unique hrest hrest' hbody
          refine ⟨?_, hbehind⟩
          simp only [Statement.relabel, relabelBody_eq_map, hsame, noLine]
      | call | assign | loop => cases (List.cons.inj h).1
  | .call line name arguments =>
      cases s' with
      | call line' name' arguments' =>
          rw [outline, outline] at h
          obtain ⟨hfirst, hlater⟩ := List.cons.inj h
          simp only [Row.mk.injEq, Heading.call.injEq, true_and] at hfirst
          obtain ⟨rfl, hcount⟩ := hfirst
          obtain ⟨harguments, hbehind⟩ := List.append_inj hlater (by simpa using hcount)
          refine ⟨?_, hbehind⟩
          simp only [Statement.relabel, map_relabel_of_map_valueRow harguments, noLine]
      | procedure | assign | loop => cases (List.cons.inj h).1
  | .assign line name value =>
      cases s' with
      | assign line' name' value' =>
          rw [outline, outline] at h
          obtain ⟨hfirst, hlater⟩ := List.cons.inj h
          obtain ⟨hvalue, hbehind⟩ := List.cons.inj hlater
          cases hfirst
          refine ⟨?_, hbehind⟩
          simp only [Statement.relabel, relabel_of_valueRow hvalue, noLine]
      | procedure | call | loop => cases (List.cons.inj h).1
  | .loop line count body =>
      cases s' with
      | loop line' count' body' =>
          rw [outline, outline] at h
          obtain ⟨-, hlater⟩ := List.cons.inj h
          obtain ⟨hcount, hlater⟩ := List.cons.inj hlater
          obtain ⟨hsame, hbehind⟩ := bodyOutline_unique hrest hrest' (List.cons.inj hlater).2
          refine ⟨?_, hbehind⟩
          simp only [Statement.relabel, relabelBody_eq_map, hsame, relabel_of_valueRow hcount,
            noLine]
      | procedure | call | assign => cases (List.cons.inj h).1

theorem bodyOutline_unique {depth : Nat} {rest rest' : List Row} (hrest : EndsBefore depth rest)
    (hrest' : EndsBefore depth rest') {ss ss' : List Statement}
    (h : bodyOutline depth ss ++ rest = bodyOutline depth ss' ++ rest') :
    ss.map (Statement.relabel noLine) = ss'.map (Statement.relabel noLine) ∧ rest = rest' := by
  match ss with
  | [] =>
      cases ss' with
      | nil => exact ⟨rfl, h⟩
      | cons s' ss' =>
          rw [bodyOutline, bodyOutline, List.append_assoc, List.nil_append] at h
          exact absurd (h ▸ hrest) (not_endsBefore_outline depth s' _)
  | s :: ss =>
      cases ss' with
      | nil =>
          rw [bodyOutline, bodyOutline, List.append_assoc, List.nil_append] at h
          exact absurd (h ▸ hrest') (not_endsBefore_outline depth s _)
      | cons s' ss' =>
          rw [bodyOutline, bodyOutline, List.append_assoc, List.append_assoc] at h
          obtain ⟨hfirst, hlater⟩ := outline_unique (hrest.bodyOutline_append ss)
            (hrest'.bodyOutline_append ss') h
          obtain ⟨hsame, hbehind⟩ := bodyOutline_unique hrest hrest' hlater
          exact ⟨by rw [List.map_cons, List.map_cons, hfirst, hsame], hbehind⟩

end

end Turtle.Listing
