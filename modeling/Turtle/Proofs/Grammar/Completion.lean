import Turtle.Proofs.Grammar.Sound
import Turtle.Proofs.Token.Spelling

/-!
Completing a program.

A parser that has read its tokens without a fault can always be led to the end
of a program. What is missing can be told from its state: an operand where one
is expected, the parentheses that the yard counts, the body of a loop whose
count has been read, and then the ends of all bodies that are open. The
missing lexemes are well formed, so they can be written down.
-/

namespace Turtle

/-! ### What is missing -/

def Slot.missing : Slot → List Lexeme
  | .count _ => [.leftBracket, .rightBracket]
  | _ => []

/-- Completes what is being read. -/
def Focus.missing : Focus → List Lexeme
  | .statement | .arguments .. => []
  | .procedureName _ => [.identifier (ascii "f"), .keyword .close]
  | .parameters .. => [.keyword .close]
  | .assignedName _ => [.word (ascii "x"), .number (ascii "0")]
  | .value slot => .number (ascii "0") :: slot.missing
  | .operand slot _ _ => slot.missing
  | .yard slot _ y =>
    (if y.expectsOperand then [.number (ascii "0")] else []) ++
      (List.replicate y.depth .rightParen ++ slot.missing)
  | .loopOpening .. => [.leftBracket, .rightBracket]

namespace Parser

/-- The ends of the open bodies, the innermost first. -/
def closers (enclosing : List (Opened × List Statement)) : List Lexeme :=
  enclosing.map fun e => closer e.1

def missing (p : Parser) : List Lexeme :=
  p.focus.missing ++ closers p.enclosing

end Parser

theorem wellFormed_zero : (Lexeme.number (ascii "0")).WellFormed :=
  ⟨'0'.toUInt8, [], by decide, by simp, .inl rfl⟩

theorem Slot.wellFormed_missing (slot : Slot) : ∀ l ∈ slot.missing, l.WellFormed := by
  cases slot <;> simp [missing, Lexeme.WellFormed]

theorem Focus.wellFormed_missing (focus : Focus) : ∀ l ∈ focus.missing, l.WellFormed := by
  cases focus with
  | statement | arguments => simp [missing]
  | parameters | loopOpening => simp [missing, Lexeme.WellFormed]
  | procedureName line =>
      have hname : (Lexeme.identifier (ascii "f")).WellFormed :=
        ⟨⟨by decide, by decide +kernel⟩, by decide +kernel, by decide +kernel⟩
      have hclose : (Lexeme.keyword .close).WellFormed := trivial
      simp [missing, hname, hclose]
  | assignedName line =>
      have hname : (Lexeme.word (ascii "x")).WellFormed :=
        ⟨by decide, by decide +kernel⟩
      simp [missing, hname, wellFormed_zero]
  | value slot => simpa [missing, wellFormed_zero] using slot.wellFormed_missing
  | operand slot line o => exact slot.wellFormed_missing
  | yard slot line y =>
      intro l hl
      simp only [missing, List.mem_append, List.mem_replicate] at hl
      rcases hl with hzero | ⟨-, rfl⟩ | hslot
      · split_ifs at hzero
        · rw [List.mem_singleton.1 hzero]
          exact wellFormed_zero
        · cases hzero
      · trivial
      · exact slot.wellFormed_missing l hslot

theorem Parser.wellFormed_missing (p : Parser) : ∀ l ∈ p.missing, l.WellFormed := by
  intro l hl
  rcases List.mem_append.1 hl with hl | hl
  · exact p.focus.wellFormed_missing l hl
  · obtain ⟨⟨o, before⟩, -, rfl⟩ := List.mem_map.1 hl
    cases o <;> trivial

/-- A yard that is being read counts its open parentheses. -/
def Focus.Counted : Focus → Prop
  | .yard _ _ y => y.Counted
  | _ => True

namespace Parser

/-! ### Taking what is missing -/

variable {p q : Parser} {last : Nat} {ts : List Token}

theorem accepts_cons {t : Token} (hfeed : p.feed t = .ok q) (h : q.Accepts last ts) :
    p.Accepts last (t :: ts) :=
  h.congr (conclude_of_feed hfeed ts).symm

theorem accepts_closers (statements : List Statement)
    (enclosing : List (Opened × List Statement)) (h : ts.map Token.lexeme = closers enclosing) :
    (between statements enclosing).Accepts last ts := by
  induction enclosing generalizing statements ts with
  | nil =>
      rw [closers, List.map_nil, List.map_eq_nil_iff] at h
      subst h
      exact ⟨statements.reverse, rfl⟩
  | cons e enclosing ih =>
      obtain ⟨o, before⟩ := e
      rw [closers, List.map_cons, List.map_eq_cons_iff] at h
      obtain ⟨⟨l, line⟩, us, rfl, rfl, hus⟩ := h
      cases o with
      | loop => exact accepts_cons rfl (ih _ hus)
      | procedure => exact accepts_cons rfl (ih _ hus)

theorem boundary_of_map {ls : List Lexeme} (h : ts.map Token.lexeme = ls)
    (hls : ∀ l ∈ ls, l.endsStatement = true) : Boundary ts := by
  cases ts with
  | nil => exact boundary_nil
  | cons t ts =>
      apply boundary_cons
      apply hls
      rw [← h]
      simp

theorem endsStatement_closers (enclosing : List (Opened × List Statement)) :
    ∀ l ∈ closers enclosing, l.endsStatement = true := by
  intro l hl
  obtain ⟨⟨o, before⟩, -, rfl⟩ := List.mem_map.1 hl
  cases o <;> rfl

theorem endsStatement_missing (slot : Slot) (enclosing : List (Opened × List Statement)) :
    ∀ l ∈ slot.missing ++ closers enclosing, l.endsStatement = true := by
  intro l hl
  rcases List.mem_append.1 hl with hl | hl
  · cases slot with
    | count line =>
        simp only [Slot.missing, List.mem_cons, List.not_mem_nil, or_false] at hl
        rcases hl with rfl | rfl <;> rfl
    | _ => cases hl
  · exact endsStatement_closers enclosing l hl

theorem accepts_arguments (line : Nat) (name : Text) (before : List Expr)
    (h : ts.map Token.lexeme = closers p.enclosing) :
    (p.look (.arguments line name before)).Accepts last ts := by
  have hboundary : Boundary ts := boundary_of_map h (endsStatement_closers _)
  have hcall : (p.look (.arguments line name before)).conclude last ts =
      (p.complete (.call line name before.reverse)).conclude last ts :=
    p.conclude_endCall line name before hboundary.noArgument
  exact (accepts_closers _ p.enclosing h).congr hcall.symm

theorem accepts_loopOpening (line : Nat) (count : Expr)
    (h : ts.map Token.lexeme = .leftBracket :: .rightBracket :: closers p.enclosing) :
    (p.look (.loopOpening line count)).Accepts last ts := by
  rw [List.map_eq_cons_iff] at h
  obtain ⟨⟨l, opening⟩, us, rfl, rfl, hus⟩ := h
  have hbody : (between [] ((.loop line count, p.statements) :: p.enclosing)).Accepts last us :=
    accepts_closers [] ((.loop line count, p.statements) :: p.enclosing) hus
  exact accepts_cons rfl hbody

theorem accepts_deliver (e : Expr) (slot : Slot)
    (h : ts.map Token.lexeme = slot.missing ++ closers p.enclosing) :
    (p.deliver e slot).Accepts last ts := by
  cases slot with
  | argument line name before => exact accepts_arguments line name (e :: before) h
  | assigned line name => exact accepts_closers _ p.enclosing h
  | count line => exact accepts_loopOpening line e h

/-- What completes the slot tells that the expression is over. -/
theorem Holds.accepts {slot : Slot} {e : Expr} (hholds : q.Holds p slot e)
    (h : ts.map Token.lexeme = slot.missing ++ closers p.enclosing) : q.Accepts last ts := by
  have hboundary : Boundary ts := boundary_of_map h (endsStatement_missing slot _)
  refine (accepts_deliver e slot h).congr (Eq.symm ?_)
  exact conclude_congr (fun t ht => hholds.feed t (hboundary.endsExpression t ht))
    fun _ => hholds.finish

theorem spells_zero : Spells (.number (ascii "0")) (.number 0) :=
  .number (n := 0) (by decide) (by decide) (by decide)

theorem accepts_value (slot : Slot)
    (h : ts.map Token.lexeme = .number (ascii "0") :: (slot.missing ++ closers p.enclosing)) :
    (p.look (.value slot)).Accepts last ts := by
  rw [List.map_eq_cons_iff] at h
  obtain ⟨⟨l, line⟩, us, rfl, rfl, hus⟩ := h
  exact accepts_cons rfl ((p.holds_operand slot line (.number 0)).accepts hus)

/-- Behind an operand, the open parentheses are closed. -/
theorem accepts_yard_behindOperand (slot : Slot) (line : Nat) {y : Yard} (hy : y.Counted)
    (hexpects : y.expectsOperand = false)
    (h : ts.map Token.lexeme =
      List.replicate y.depth .rightParen ++ (slot.missing ++ closers p.enclosing)) :
    (p.look (.yard slot line y)).Accepts last ts := by
  rw [List.map_eq_append_iff] at h
  obtain ⟨us, vs, rfl, hus, hvs⟩ := h
  obtain ⟨y', htakes, hsettled⟩ := hy.takes_closing hexpects hus
  have hclosed : (p.look (.yard slot line y')).Accepts last vs :=
    (p.holds_settled slot line hsettled).accepts hvs
  exact hclosed.congr (conclude_of_feedAll (p.feedAll_takes slot line htakes) vs).symm

theorem accepts_yard (slot : Slot) (line : Nat) {y : Yard} (hy : y.Counted)
    (h : ts.map Token.lexeme =
      (if y.expectsOperand then [.number (ascii "0")] else []) ++
        (List.replicate y.depth .rightParen ++ (slot.missing ++ closers p.enclosing))) :
    (p.look (.yard slot line y)).Accepts last ts := by
  cases hexpects : y.expectsOperand with
  | false =>
      rw [hexpects] at h
      exact accepts_yard_behindOperand slot line hy hexpects h
  | true =>
      rw [hexpects, if_pos rfl, List.singleton_append, List.map_eq_cons_iff] at h
      obtain ⟨t, us, rfl, ht, hus⟩ := h
      have hstep : y.step t = .ok (some (y.pushOperand (.number 0))) :=
        Yard.step_operand hexpects (ht ▸ spells_zero)
      have htakes := p.feedAll_takes slot line (.single hstep)
      have hbehind : (p.look (.yard slot line (y.pushOperand (.number 0)))).Accepts last us :=
        accepts_yard_behindOperand slot line (Yard.counted_pushOperand hy _) rfl hus
      exact hbehind.congr (conclude_of_feedAll htakes us).symm

/-- A parser that has not failed is led to the end of a program by what is
missing. -/
theorem accepts_missing {p : Parser} (hp : p.focus.Counted) {last : Nat} {ts : List Token}
    (h : ts.map Token.lexeme = p.missing) : p.Accepts last ts := by
  obtain ⟨focus, statements, enclosing⟩ := p
  simp only [missing] at h
  cases focus with
  | statement => exact accepts_closers statements enclosing h
  | arguments line name before =>
      exact accepts_arguments (p := between statements enclosing) line name before h
  | loopOpening line count =>
      exact accepts_loopOpening (p := between statements enclosing) line count h
  | value slot => exact accepts_value (p := between statements enclosing) slot h
  | operand slot line o =>
      exact ((between statements enclosing).holds_operand slot line o).accepts h
  | yard slot line y =>
      simp only [Focus.missing, List.append_assoc] at h
      exact accepts_yard (p := between statements enclosing) slot line hp h
  | parameters line name before =>
      obtain ⟨⟨l, closing⟩, us, rfl, rfl, hus⟩ := List.map_eq_cons_iff.1 h
      exact accepts_cons rfl (accepts_closers _ enclosing hus)
  | procedureName line =>
      obtain ⟨⟨l, nameLine⟩, us, rfl, rfl, hus⟩ := List.map_eq_cons_iff.1 h
      obtain ⟨⟨l, closing⟩, vs, rfl, rfl, hvs⟩ := List.map_eq_cons_iff.1 hus
      exact accepts_cons rfl (accepts_cons rfl (accepts_closers _ enclosing hvs))
  | assignedName line =>
      obtain ⟨⟨l, nameLine⟩, us, rfl, rfl, hus⟩ := List.map_eq_cons_iff.1 h
      exact accepts_cons rfl (accepts_value (p := between statements enclosing) _ hus)

end Parser

end Turtle
