import Turtle.Fault
import Turtle.Proofs.Expression.Tree

/-!
Sequences that the stack can work off.

An operand puts one value on the stack, and an operator takes two values and
puts one back. So what matters about a sequence is how many operands and
operators it has, up to each of its items: as long as there are more operands
than operators, every operator finds its two values, and with one operand more
in all, one value is left. The postorder of a tree is such a sequence.
-/

namespace Turtle

/-! ### Counting -/

def operands (items : List Item) : Nat :=
  items.countP fun
    | .operand _ => true
    | .operator _ => false

def operators (items : List Item) : Nat :=
  items.countP fun
    | .operand _ => false
    | .operator _ => true

@[simp] theorem operands_append (xs ys : List Item) :
    operands (xs ++ ys) = operands xs + operands ys :=
  List.countP_append

@[simp] theorem operators_append (xs ys : List Item) :
    operators (xs ++ ys) = operators xs + operators ys :=
  List.countP_append

@[simp] theorem operands_operand (o : Operand) : operands [.operand o] = 1 := rfl

@[simp] theorem operators_operand (o : Operand) : operators [.operand o] = 0 := rfl

@[simp] theorem operands_operator (op : Operator) : operands [.operator op] = 0 := rfl

@[simp] theorem operators_operator (op : Operator) : operators [.operator op] = 1 := rfl

/-- A sequence that can be worked off: behind each of its items there have been
more operands than operators, and at the end there is one more. -/
structure Postfix (items : List Item) : Prop where
  rising : ∀ first, first <+: items → first ≠ [] → operators first < operands first
  single : operands items = operators items + 1

/-! ### The height of the stack -/

/-- Behind each item a value is left, if the stack had the given height before. -/
def Rising (height : Nat) (items : List Item) : Prop :=
  ∀ first, first <+: items → first ≠ [] → operators first < height + operands first

theorem rising_zero_iff {items : List Item} : Rising 0 items ↔
    ∀ first, first <+: items → first ≠ [] → operators first < operands first := by
  simp [Rising]

namespace Rising

variable {height height' : Nat} {xs ys : List Item}

theorem left (h : Rising height (xs ++ ys)) : Rising height xs :=
  fun first hfirst => h first (hfirst.trans (List.prefix_append xs ys))

theorem right (h : Rising height (xs ++ ys))
    (hheight : height' + operators xs = height + operands xs) : Rising height' ys := by
  intro first hfirst hne
  have hprefix : xs ++ first <+: xs ++ ys := (List.prefix_append_right_inj xs).2 hfirst
  have hcount := h (xs ++ first) hprefix (by simp [hne])
  rw [operators_append, operands_append] at hcount
  omega

theorem append (hxs : Rising height xs) (hys : Rising height' ys)
    (hheight : height' + operators xs = height + operands xs) : Rising height (xs ++ ys) := by
  intro first hfirst hne
  rcases List.prefix_or_prefix_of_prefix hfirst (List.prefix_append xs ys) with hshort | hlong
  · exact hxs first hshort hne
  · obtain ⟨last, rfl⟩ := hlong
    by_cases hlast : last = []
    · rw [hlast, List.append_nil] at hne ⊢
      exact hxs xs (List.prefix_refl xs) hne
    · have hcount := hys last ((List.prefix_append_right_inj xs).1 hfirst) hlast
      rw [operators_append, operands_append]
      omega

theorem singleton {item : Item} (h : operators [item] < height + operands [item]) :
    Rising height [item] := by
  intro first hfirst hne
  rcases List.prefix_cons_iff.1 hfirst with rfl | ⟨last, rfl, hlast⟩
  · exact absurd rfl hne
  · rw [List.prefix_nil.1 hlast]
    exact h

end Rising

/-! ### Trees -/

namespace Tree

theorem operands_postorder (t : Tree) : operands t.postorder = operators t.postorder + 1 := by
  induction t with
  | leaf o => rfl
  | node op l r ihl ihr =>
      simp only [postorder, operands_append, operators_append, operands_operator,
        operators_operator, ihl, ihr]
      omega

theorem rising_postorder (t : Tree) (height : Nat) : Rising height t.postorder := by
  induction t generalizing height with
  | leaf o => exact .singleton (by simp)
  | node op l r ihl ihr =>
      have hl := l.operands_postorder
      have hr := r.operands_postorder
      -- the operator finds both values above those that lay there before
      have hop : Rising (height + 2) [.operator op] := .singleton (by simp)
      have hright : Rising (height + 1) (r.postorder ++ [.operator op]) :=
        (ihr (height + 1)).append hop (by omega)
      exact (ihl height).append hright (by omega)

theorem postfix_postorder (t : Tree) : Postfix t.postorder where
  rising := rising_zero_iff.1 (t.rising_postorder 0)
  single := t.operands_postorder

end Tree

/-! ### Working off -/

/-- What can be wrong with an operand or an operation. -/
def Category.ofOperation : Category → Bool
  | .variableNotFound | .typeMismatch | .divisionByZero | .integerOverflow => true
  | _ => false

theorem Operator.ofOperation_of_apply {o : Operator} {l r : Int64} {cause : Cause}
    (h : o.apply l r = .error cause) : cause.category.ofOperation = true := by
  rw [apply_eq_checked, checked] at h
  split_ifs at h
  · cases h
    rfl
  · cases h
    rfl

namespace Environment

variable (env : Environment)

theorem ofOperation_of_value {o : Operand} {cause : Cause} (h : env.value o = .error cause) :
    cause.category.ofOperation = true := by
  cases o with
  | number n => cases h
  | var name =>
      rw [value] at h
      cases hfind : env.find? name with
      | some n => simp [hfind] at h
      | none =>
          simp only [hfind] at h
          cases h
          rfl
  | word name =>
      cases h
      rfl

/-- An item fails, or the stack is not high enough for it, or it changes the
height of the stack by what it counts. -/
theorem work_cases (stack : List Int64) (item : Item) :
    (∃ cause, env.work stack item = .error cause ∧ cause.category.ofOperation = true) ∨
      (env.work stack item = .error .operatorWithoutOperands ∧ ¬ Rising stack.length [item]) ∨
      ∃ stack', env.work stack item = .ok stack' ∧
        stack'.length + operators [item] = stack.length + operands [item] := by
  cases item with
  | operand o =>
      cases hvalue : env.value o with
      | error cause =>
          exact .inl ⟨cause, by rw [work, hvalue]; rfl, env.ofOperation_of_value hvalue⟩
      | ok n => exact .inr (.inr ⟨n :: stack, by rw [work, hvalue]; rfl, by simp⟩)
  | operator op =>
      have hheight : Rising stack.length [.operator op] → 1 < stack.length :=
        fun h => h [.operator op] (List.prefix_refl _) (by simp)
      rcases stack with _ | ⟨r, _ | ⟨l, rest⟩⟩
      · exact .inr (.inl ⟨rfl, fun h => absurd (hheight h) (by simp)⟩)
      · exact .inr (.inl ⟨rfl, fun h => absurd (hheight h) (by simp)⟩)
      · cases happly : op.apply l r with
        | error cause =>
            exact .inl ⟨cause, by simp [work, happly], Operator.ofOperation_of_apply happly⟩
        | ok n => exact .inr (.inr ⟨n :: rest, by simp [work, happly], by simp⟩)

theorem foldlM_work_cases (stack : List Int64) (items : List Item) :
    (∃ cause, items.foldlM env.work stack = .error cause ∧ cause.category.ofOperation = true) ∨
      (items.foldlM env.work stack = .error .operatorWithoutOperands ∧
        ¬ Rising stack.length items) ∨
      ∃ stack', items.foldlM env.work stack = .ok stack' ∧
        stack'.length + operators items = stack.length + operands items := by
  induction items generalizing stack with
  | nil => exact .inr (.inr ⟨stack, rfl, rfl⟩)
  | cons item items ih =>
      rw [List.foldlM_cons, ← List.singleton_append]
      rcases env.work_cases stack item with
        ⟨cause, hwork, hcause⟩ | ⟨hwork, hrising⟩ | ⟨stack', hwork, hheight⟩
      · rw [hwork]
        exact .inl ⟨cause, rfl, hcause⟩
      · rw [hwork]
        exact .inr (.inl ⟨rfl, fun h => hrising h.left⟩)
      · rw [hwork]
        rcases ih stack' with herror | ⟨hrest, hrising⟩ | ⟨stack'', hrest, hheight'⟩
        · exact .inl herror
        · exact .inr (.inl ⟨hrest, fun h => hrising (h.right hheight)⟩)
        · refine .inr (.inr ⟨stack'', hrest, ?_⟩)
          rw [operators_append, operands_append]
          omega

/-- A sequence that can be worked off fails only in an operand or an operation. -/
theorem category_of_sequence {items : List Item} {cause : Cause}
    (h : env.sequence items = .error cause) :
    cause.category.ofOperation = true ∨ (cause.category = .internal ∧ ¬ Postfix items) := by
  rw [sequence] at h
  rcases env.foldlM_work_cases [] items with
    ⟨cause', hwork, hcause⟩ | ⟨hwork, hrising⟩ | ⟨stack, hwork, hheight⟩
  · rw [hwork] at h
    cases h
    exact .inl hcause
  · rw [hwork] at h
    cases h
    exact .inr ⟨rfl, fun hpostfix => hrising (rising_zero_iff.2 hpostfix.rising)⟩
  · rw [hwork] at h
    have hmalformed : stack.length ≠ 1 → ¬ Postfix items := by
      intro hlength hpostfix
      have hsingle := hpostfix.single
      simp only [List.length_nil] at hheight
      omega
    rcases stack with _ | ⟨n, _ | ⟨n', rest⟩⟩
    · cases h
      exact .inr ⟨rfl, hmalformed (by simp)⟩
    · cases h
    · cases h
      exact .inr ⟨rfl, hmalformed (by simp)⟩

/-- The same for an expression, of which a sequence is one form. -/
theorem category_of_evaluate {env : Environment} {e : Expr} {f : Fault}
    (h : env.evaluate e = .error f) :
    f.category.ofOperation = true ∨
      (f.category = .internal ∧ ∃ items, e.form = .sequence items ∧ ¬ Postfix items) := by
  rw [evaluate] at h
  cases hform : env.form e.form with
  | ok n => simp [hform] at h
  | error cause =>
      simp only [hform] at h
      cases h
      cases hshape : e.form with
      | single o =>
          rw [hshape] at hform
          exact .inl (env.ofOperation_of_value hform)
      | sequence items =>
          rw [hshape] at hform
          rcases env.category_of_sequence hform with hcause | ⟨hinternal, hpostfix⟩
          · exact .inl hcause
          · exact .inr ⟨hinternal, items, rfl, hpostfix⟩

/-- What stops the evaluation of a list stops that of one of its expressions. -/
theorem exists_of_evaluateAll_error {env : Environment} {es : List Expr} {f : Fault}
    (h : env.evaluateAll es = .error f) : ∃ e ∈ es, env.evaluate e = .error f := by
  induction es with
  | nil => cases h
  | cons e es ih =>
      rw [evaluateAll, List.mapM_cons] at h
      cases hvalue : env.evaluate e with
      | error g =>
          rw [hvalue] at h
          cases h
          exact ⟨e, List.mem_cons_self, hvalue⟩
      | ok n =>
          rw [hvalue] at h
          cases hrest : es.mapM env.evaluate with
          | ok values =>
              rw [hrest] at h
              cases h
          | error g =>
              rw [hrest] at h
              cases h
              obtain ⟨e', hmem, he'⟩ := ih hrest
              exact ⟨e', List.mem_cons_of_mem e hmem, he'⟩

end Environment

end Turtle
