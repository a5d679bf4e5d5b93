import Turtle.Program.Parser
import Turtle.Proofs.Expression.Parentheses

/-!
The parser reads expressions.

An expression is over when a token comes that cannot go on with it, or no
token at all, so the parser only delivers it then. `Parser.Holds` says that
it is in such a state: on the end of the input, and on every token behind the
expression, it acts as the parser to which the expression has been delivered.
Every written expression that does not begin with a quoted word leads there,
wherever an expression is read, and no token before that is a fault.

What is delivered is the tree in postorder, so the evaluator gives it the
value of the tree.
-/

namespace Turtle

/-! ### What is delivered for a written expression -/

namespace Infix

/-- The token that a written expression begins with. -/
def first : Infix → Token
  | atom a => a.token
  | paren opening _ _ => ⟨.leftParen, opening⟩
  | binary l _ _ _ => l.first

/-- A bare operand stands for itself, all else for its postorder. -/
def form : Infix → Form
  | atom a => .single a.operand
  | e => .sequence e.tree.postorder

def expr (e : Infix) : Expr :=
  ⟨e.first.line, e.form⟩

theorem tokens_eq_cons (e : Infix) : ∃ ts, e.tokens = e.first :: ts := by
  induction e with
  | atom a => exact ⟨[], rfl⟩
  | paren opening e closing => exact ⟨_, rfl⟩
  | binary l op line r ihl =>
      obtain ⟨ts, hts⟩ := ihl
      exact ⟨ts ++ ⟨.operator op, line⟩ :: r.tokens, by rw [tokens, hts, first, List.cons_append]⟩

theorem first_spells_or_leftParen (e : Infix) :
    (∃ o, Spells e.first.lexeme o) ∨ e.first.lexeme = .leftParen := by
  induction e with
  | atom a => exact .inl ⟨a.operand, a.spelled⟩
  | paren => exact .inr rfl
  | binary _ _ _ _ ihl => exact ihl

theorem evaluate_expr (env : Environment) (e : Infix) :
    env.evaluate e.expr = (e.tree.value env).mapError (Fault.mk e.first.line) := by
  have hform : env.form e.form = e.tree.value env := by
    cases e with
    | atom a => rfl
    | paren => exact Tree.sequence_postorder env _
    | binary => exact Tree.sequence_postorder env _
  rw [Environment.evaluate, expr, hform]
  cases e.tree.value env <;> rfl

end Infix

/-- Whether the lexeme goes on with an expression outside of parentheses, or
closes a parenthesis that it has not opened. -/
def Lexeme.continues : Lexeme → Bool
  | .operator _ | .rightParen => true
  | _ => false

/-- The yard before the first token of an expression. -/
def Yard.blank : Yard :=
  ⟨[], [], 0, true⟩

namespace Parser

/-! ### Reading tokens -/

theorem feedAll_cons (p : Parser) (t : Token) (ts : List Token) :
    p.feedAll (t :: ts) = p.feed t >>= fun q => q.feedAll ts := rfl

theorem feedAll_append (p : Parser) (ts us : List Token) :
    p.feedAll (ts ++ us) = p.feedAll ts >>= fun q => q.feedAll us :=
  List.foldlM_append

theorem feedAll_cons_ok {p q : Parser} {t : Token} (h : p.feed t = .ok q) (ts : List Token) :
    p.feedAll (t :: ts) = q.feedAll ts := by
  rw [feedAll_cons, h]
  rfl

@[simp] theorem deliver_look (p : Parser) (f : Focus) (e : Expr) (slot : Slot) :
    (p.look f).deliver e slot = p.deliver e slot := by
  cases slot <;> rfl

theorem feedDelivered_deliver (p : Parser) (e : Expr) (slot : Slot) (t : Token) :
    (p.deliver e slot).feedDelivered t = (p.deliver e slot).feed t := by
  cases slot <;> rfl

theorem finishDelivered_deliver (p : Parser) (e : Expr) (slot : Slot) :
    (p.deliver e slot).finishDelivered = (p.deliver e slot).finish := by
  cases slot <;> rfl

/-! ### Holding an expression -/

/-- The parser where an expression is about to be read for a slot. -/
def await (p : Parser) : Slot → Parser
  | .argument line name before => p.look (.arguments line name before)
  | slot => p.look (.value slot)

/-- The parser `q` has read the expression `e` and only has to find that it
is over. -/
structure Holds (q p : Parser) (slot : Slot) (e : Expr) : Prop where
  finish : q.finish = (p.deliver e slot).finish
  feed : ∀ t : Token, t.lexeme.continues = false → q.feed t = (p.deliver e slot).feed t

theorem holds_operand (p : Parser) (slot : Slot) (line : Nat) (o : Operand) :
    (p.look (.operand slot line o)).Holds p slot ⟨line, .single o⟩ where
  finish := by
    rw [← finishDelivered_deliver, ← deliver_look p (.operand slot line o)]
    rfl
  feed t ht := by
    rw [← feedDelivered_deliver, ← deliver_look p (.operand slot line o)]
    cases hl : t.lexeme with
    | operator op => simp [hl, Lexeme.continues] at ht
    | _ => simp [Parser.feed, look, hl]

theorem step_of_not_continues {y : Yard} (hy : y.expectsOperand = false) (hdepth : y.depth = 0)
    {t : Token} (ht : t.lexeme.continues = false) : y.step t = .ok none := by
  rw [Yard.step, if_neg (by simp [hy]), Yard.stepOperator]
  cases hl : t.lexeme with
  | operator op => simp [hl, Lexeme.continues] at ht
  | rightParen => simp [hl, Lexeme.continues] at ht
  | _ => simp [hdepth]

/-- Where an expression may end, the parser holds what the yard has read. -/
theorem holds_settled (p : Parser) (slot : Slot) (line : Nat) {y : Yard} (h : y.Settled) :
    (p.look (.yard slot line y)).Holds p slot ⟨line, .sequence y.items⟩ where
  finish := by
    rw [← finishDelivered_deliver, ← deliver_look p (.yard slot line y)]
    simp [Parser.finish, look, h.behindOperand, h.closed]
  feed t ht := by
    rw [← feedDelivered_deliver, ← deliver_look p (.yard slot line y)]
    simp only [Parser.feed, look, step_of_not_continues h.behindOperand h.depth ht]

theorem holds_yard (p : Parser) (slot : Slot) (line : Nat) {y : Yard} {t : Tree}
    (h : Yard.Reads 1 .blank t y) :
    (p.look (.yard slot line y)).Holds p slot ⟨line, .sequence t.postorder⟩ := by
  rw [← h.items rfl rfl]
  exact holds_settled p slot line ⟨h.behindOperand, h.depth, h.isOpen rfl⟩

/-! ### Reading an expression -/

theorem feedAll_takes (p : Parser) (slot : Slot) (line : Nat) {y y' : Yard} {ts : List Token}
    (h : y.Takes ts y') :
    (p.look (.yard slot line y)).feedAll ts = .ok (p.look (.yard slot line y')) := by
  induction h with
  | nil => rfl
  | cons step rest ih =>
      refine (feedAll_cons_ok ?_ _).trans ih
      simp only [feed, look, step]

/-- Behind the first operand the yard only goes on with an operator, and that
is what takes the parser to it. -/
theorem feedAll_operand_takes (p : Parser) (slot : Slot) (line : Nat) {o : Operand} {y : Yard}
    {t : Token} {ts : List Token} (h : (Yard.afterOperand o).Takes (t :: ts) y) :
    (p.look (.operand slot line o)).feedAll (t :: ts) = .ok (p.look (.yard slot line y)) := by
  obtain ⟨l, tline⟩ := t
  cases h with
  | cons step rest =>
      cases l with
      | operator op =>
          rw [Yard.step_operator rfl] at step
          cases step
          exact (feedAll_cons_ok rfl _).trans (feedAll_takes p slot line rest)
      | _ => simp [Yard.step, Yard.stepOperator, Yard.afterOperand, Yard.closeParen] at step

theorem feed_await_operand (p : Parser) (slot : Slot) {t : Token} {o : Operand}
    (h : Spells t.lexeme o) (hword : ∀ name, t.lexeme ≠ .word name) :
    (p.await slot).feed t = .ok (p.look (.operand slot t.line o)) := by
  obtain ⟨l, line⟩ := t
  cases l with
  | number digits =>
      have hread := (spells_number_iff line).1 h
      cases slot <;>
        simp [await, feed, look, feedValue, feedArguments, beginExpression?, hread]
  | var name => cases h; cases slot <;> rfl
  | word name => exact absurd rfl (hword name)
  | _ => cases h

theorem feed_await_leftParen (p : Parser) (slot : Slot) (line : Nat) :
    (p.await slot).feed ⟨.leftParen, line⟩ = .ok (p.look (.yard slot line .afterParen)) := by
  cases slot <;> rfl

/-- A derivation that is more than an operand leads to a yard that holds it. -/
theorem feedAll_await_takes (p : Parser) (slot : Slot) {e : Infix} {t : Token} {ts : List Token}
    {y : Yard} (hword : ∀ name, e.first.lexeme ≠ .word name)
    (htokens : e.tokens = e.first :: t :: ts) (h : Yard.blank.Takes e.tokens y) :
    (p.await slot).feedAll e.tokens = .ok (p.look (.yard slot e.first.line y)) := by
  rw [htokens] at h ⊢
  cases h with
  | cons step rest =>
      -- the parser takes the first token on its own, as the yard would have taken it
      rcases e.first_spells_or_leftParen with ⟨o, ho⟩ | hparen
      · rw [Yard.step_operand rfl ho] at step
        cases step
        exact (feedAll_cons_ok (feed_await_operand p slot ho hword) _).trans
          (feedAll_operand_takes p slot _ rest)
      · obtain ⟨line, hfirst⟩ : ∃ line, e.first = ⟨.leftParen, line⟩ :=
          ⟨e.first.line, by rw [← hparen]⟩
        rw [hfirst, Yard.step_leftParen rfl] at step
        cases step
        rw [hfirst]
        exact (feedAll_cons_ok (feed_await_leftParen p slot line) _).trans
          (feedAll_takes p slot line rest)

/-- Reading a written expression takes exactly its tokens. -/
theorem exists_holds (p : Parser) (slot : Slot) {e : Infix} (he : e.Grouped 1)
    (hword : ∀ name, e.first.lexeme ≠ .word name) :
    ∃ q, (p.await slot).feedAll e.tokens = .ok q ∧ q.Holds p slot e.expr := by
  obtain ⟨y, htakes, hreads⟩ := Infix.read he (y := .blank) rfl trivial
  cases e with
  | atom a =>
      exact ⟨_, feedAll_cons_ok (feed_await_operand p slot a.spelled hword) [],
        holds_operand p slot a.token.line a.operand⟩
  | paren opening e closing =>
      obtain ⟨t, ts, htail⟩ := List.exists_cons_of_ne_nil
        (l := e.tokens ++ [⟨.rightParen, closing⟩]) (by simp)
      exact ⟨_, feedAll_await_takes p slot hword (by rw [Infix.tokens, htail]; rfl) htakes,
        holds_yard p slot opening hreads⟩
  | binary l op line r =>
      obtain ⟨ts, hts⟩ := l.tokens_eq_cons
      obtain ⟨t, us, htail⟩ := List.exists_cons_of_ne_nil
        (l := ts ++ ⟨.operator op, line⟩ :: r.tokens) (by simp)
      have htokens : (Infix.binary l op line r).tokens = l.first :: t :: us := by
        rw [Infix.tokens, hts, List.cons_append, htail]
      exact ⟨_, feedAll_await_takes p slot hword htokens htakes,
        holds_yard p slot l.first.line hreads⟩

end Parser

/-! ### The value of what is read -/

/-- Every rendering of a tree, with all required and any redundant parentheses,
is read as the postorder of the tree, or as the operand if it is a bare one,
and no token behind it is touched. In every environment the value of what is
read, or the fault that prevents it, is the one found by recursion on the tree. -/
theorem rendering_read_and_evaluated (t : Tree) (e : Infix) (htree : e.tree = t)
    (hgrouped : e.Grouped 1) (hfirst : ∀ name, e.first.lexeme ≠ .word name) :
    ∃ x : Expr, x.line = e.first.line ∧
      (∀ a, e = .atom a → x.form = .single a.operand) ∧
      ((∀ a, e ≠ .atom a) → x.form = .sequence t.postorder) ∧
      (∀ (p : Parser) (slot : Slot),
        ∃ q, (p.await slot).feedAll e.tokens = .ok q ∧ q.Holds p slot x) ∧
      ∀ env : Environment, env.evaluate x = (t.value env).mapError (Fault.mk x.line) := by
  subst htree
  refine ⟨e.expr, rfl, ?_, ?_, fun p slot => p.exists_holds slot hgrouped hfirst,
    fun env => e.evaluate_expr env⟩
  · rintro a rfl
    rfl
  · intro hatom
    cases e with
    | atom a => exact absurd rfl (hatom a)
    | paren => rfl
    | binary => rfl

/-- The text `:x-(7-:y)*"w` has a parenthesis that is required, and a quoted
word that only its evaluation refuses. -/
theorem rendering_read_and_evaluated_nested :
    let x : Tree := .leaf (.var (ascii "x"))
    let y : Tree := .leaf (.var (ascii "y"))
    let w : Tree := .leaf (.word (ascii "w"))
    let t : Tree := .node .sub x (.node .mul (.node .sub (.leaf (.number 7)) y) w)
    let e : Infix := .binary (.atom ⟨⟨.var (ascii "x"), 1⟩, _, .var _⟩) .sub 1
      (.binary
        (.paren 1
          (.binary
            (.atom ⟨⟨.number (ascii "7"), 1⟩, _,
              .number (n := 7) (by decide) (by decide) (by decide)⟩)
            .sub 1 (.atom ⟨⟨.var (ascii "y"), 1⟩, _, .var _⟩)) 1)
        .mul 1 (.atom ⟨⟨.word (ascii "w"), 1⟩, _, .word _⟩))
    (e.tree = t ∧ e.Grouped 1 ∧ ∀ name, e.first.lexeme ≠ .word name) ∧
      ∃ x : Expr, x.line = 1 ∧ x.form = .sequence t.postorder ∧
        (∀ (p : Parser) (slot : Slot),
          ∃ q, (p.await slot).feedAll e.tokens = .ok q ∧ q.Holds p slot x) ∧
        ∀ env : Environment, env.evaluate x = (t.value env).mapError (Fault.mk 1) := by
  intro x y w t e
  have htree : e.tree = t := rfl
  have hgrouped : e.Grouped 1 := by simp [e, Infix.Grouped, Operator.precedence]
  have hfirst : ∀ name, e.first.lexeme ≠ .word name := by
    intro name h
    cases h
  obtain ⟨x, hline, -, hform, hread, hvalue⟩ :=
    rendering_read_and_evaluated t e htree hgrouped hfirst
  have hone : x.line = 1 := hline
  have hatom : ∀ a, e ≠ .atom a := by
    intro a ha
    simp [e] at ha
  exact ⟨⟨htree, hgrouped, hfirst⟩, x, hone, hform hatom, hread, fun env => hone ▸ hvalue env⟩

end Turtle
