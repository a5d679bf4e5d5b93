import Turtle.Proofs.Expression.Tree

/-!
Sequences as rows of trees.

Any list of items can be handed to the evaluator, not only the postorder of a
tree. What it does to such a list is still told by trees. An operand is a tree
of its own, and an operator joins the last two trees before it to one. So the
items that are worked off at some point are the postorders of a row of trees,
one behind the other. There is only one such row, and the values of its trees
are what lies on the stack. An item is refused if there are not two trees for an
operator to join, or if the tree that it would complete has no value. In the end
a single tree has to be left.

Rows are written like stacks, with the last tree first.
-/

namespace Turtle

namespace Tree

/-! ### Rows -/

/-- The items of a row of trees. -/
def postorders : List Tree → List Item
  | [] => []
  | t :: row => postorders row ++ t.postorder

theorem postorders_singleton (t : Tree) : postorders [t] = t.postorder :=
  List.nil_append _

theorem postorders_node (op : Operator) (l r : Tree) (row : List Tree) :
    postorders (node op l r :: row) = postorders (r :: l :: row) ++ [.operator op] := by
  simp only [postorders, postorder, List.append_assoc]

/-! ### Reading a row off its items -/

/-- The row behind one more item, if there are trees to join. -/
def grow? (row : List Tree) : Item → Option (List Tree)
  | .operand o => some (leaf o :: row)
  | .operator op =>
    match row with
    | r :: l :: row => some (node op l r :: row)
    | _ => none

theorem foldlM_grow?_postorder (t : Tree) (items : List Item) (row : List Tree) :
    (t.postorder ++ items).foldlM grow? row = items.foldlM grow? (t :: row) := by
  induction t generalizing items row with
  | leaf o => rfl
  | node op l r ihl ihr =>
      simp only [postorder, List.append_assoc, List.singleton_append, ihl, ihr]
      rfl

theorem foldlM_grow?_postorders (row : List Tree) (items : List Item) :
    (postorders row ++ items).foldlM grow? [] = items.foldlM grow? row := by
  induction row generalizing items with
  | nil => rfl
  | cons t row ih => rw [postorders, List.append_assoc, ih, foldlM_grow?_postorder]

/-- Items are those of one row at most. -/
theorem postorders_injective : Function.Injective postorders := by
  intro row row' h
  have hrow := foldlM_grow?_postorders row []
  rw [h, foldlM_grow?_postorders row' []] at hrow
  exact (Option.some.inj hrow).symm

theorem postorder_injective : Function.Injective postorder := by
  intro t t' h
  rw [← postorders_singleton t, ← postorders_singleton t'] at h
  exact List.head_eq_of_cons_eq (postorders_injective h)

end Tree

open Turtle.Tree (postorders)

namespace Environment

variable {env : Environment}

/-! ### Rows on the stack -/

/-- The values of a row of trees, all of which have one. -/
abbrev Values (env : Environment) : List Tree → List Int64 → Prop :=
  List.Forall₂ fun t n => t.value env = .ok n

/-- The items can be worked off. -/
def Processes (env : Environment) (items : List Item) : Prop :=
  ∃ row stack, postorders row = items ∧ env.Values row stack

/-- Why an item is refused behind a row of trees. -/
inductive Refuses (env : Environment) : List Tree → Item → Cause → Prop
  | unknown {row : List Tree} {name : Text} (h : env.find? name = none) :
      Refuses env row (.operand (.var name)) (.unknownVariable name)
  | word {row : List Tree} {name : Text} : Refuses env row (.operand (.word name)) (.wordValue name)
  | few {row : List Tree} {op : Operator} (h : row.length < 2) :
      Refuses env row (.operator op) .operatorWithoutOperands
  | operation {row : List Tree} {op : Operator} {l r : Tree} {m n : Int64} {cause : Cause}
      (hl : l.value env = .ok m) (hr : r.value env = .ok n)
      (h : op.checked m n = .error cause) :
      Refuses env (r :: l :: row) (.operator op) cause

theorem foldlM_postorders {row : List Tree} {stack : List Int64} (h : env.Values row stack)
    (items : List Item) :
    (postorders row ++ items).foldlM env.work [] = items.foldlM env.work stack := by
  induction h generalizing items with
  | nil => rfl
  | cons hvalue _ ih =>
      rw [postorders, List.append_assoc, ih, Tree.foldlM_postorder, hvalue]
      rfl

/-- An operand has a value, or it is refused. -/
theorem exists_value_or_refuses (row : List Tree) (o : Operand) :
    (∃ n, env.value o = .ok n) ∨
      ∃ cause, env.value o = .error cause ∧ env.Refuses row (.operand o) cause := by
  cases o with
  | number n => exact .inl ⟨n, rfl⟩
  | word name => exact .inr ⟨_, rfl, .word⟩
  | var name =>
      rw [value]
      cases hfind : env.find? name with
      | some n => exact .inl ⟨n, rfl⟩
      | none => exact .inr ⟨_, rfl, .unknown hfind⟩

/-- An item is worked off by joining it to the row, or it is refused. -/
theorem work_joins_or_refuses {row : List Tree} {stack : List Int64} (h : env.Values row stack)
    (item : Item) :
    (∃ row' stack', env.work stack item = .ok stack' ∧ env.Values row' stack' ∧
        postorders row' = postorders row ++ [item]) ∨
      ∃ cause, env.work stack item = .error cause ∧ env.Refuses row item cause := by
  cases item with
  | operand o =>
      rcases env.exists_value_or_refuses row o with ⟨n, hvalue⟩ | ⟨cause, hvalue, hrefuses⟩
      · exact .inl ⟨.leaf o :: row, n :: stack, by rw [work, hvalue]; rfl, .cons hvalue h, rfl⟩
      · exact .inr ⟨cause, by rw [work, hvalue]; rfl, hrefuses⟩
  | operator op =>
      cases h with
      | nil => exact .inr ⟨_, rfl, .few (by decide)⟩
      | @cons r n row stack hr h =>
          cases h with
          | nil => exact .inr ⟨_, rfl, .few (by simp)⟩
          | @cons l m row stack hl h =>
              rw [Tree.work_operator]
              cases hresult : op.checked m n with
              | error cause => exact .inr ⟨cause, rfl, .operation hl hr hresult⟩
              | ok k =>
                  have hvalue : (Tree.node op l r).value env = .ok k := by
                    rw [Tree.value, hl, hr]
                    exact hresult
                  exact .inl ⟨.node op l r :: row, k :: stack, rfl, .cons hvalue h,
                    Tree.postorders_node op l r row⟩

theorem Refuses.work_eq {row : List Tree} {stack : List Int64} {item : Item} {cause : Cause}
    (h : env.Refuses row item cause) (hvalues : env.Values row stack) :
    env.work stack item = .error cause := by
  cases h with
  | unknown h => rw [work, value, h]; rfl
  | word => rfl
  | few h =>
      rw [hvalues.length_eq] at h
      rcases stack with _ | ⟨n, _ | ⟨m, stack⟩⟩
      · rfl
      · rfl
      · simp at h
  | operation hl hr h =>
      obtain _ | ⟨hr', _ | ⟨hl', _⟩⟩ := hvalues
      rw [hr] at hr'
      rw [hl] at hl'
      cases hr'
      cases hl'
      rw [Tree.work_operator, h]
      rfl

/-! ### Working off -/

/-- A run works all items off, or it stops at the first one that is refused. -/
theorem foldlM_joins_or_refuses {row : List Tree} {stack : List Int64}
    (h : env.Values row stack) (items : List Item) :
    (∃ row' stack', items.foldlM env.work stack = .ok stack' ∧ env.Values row' stack' ∧
        postorders row' = postorders row ++ items) ∨
      ∃ first item rest row' stack' cause, items.foldlM env.work stack = .error cause ∧
        items = first ++ item :: rest ∧ env.Values row' stack' ∧
        postorders row' = postorders row ++ first ∧ env.Refuses row' item cause := by
  induction items generalizing row stack with
  | nil => exact .inl ⟨row, stack, rfl, h, (List.append_nil _).symm⟩
  | cons item items ih =>
      rw [List.foldlM_cons]
      rcases work_joins_or_refuses h item with
        ⟨row₁, stack₁, hwork, hvalues, hitems⟩ | ⟨cause, hwork, hrefuses⟩
      · rw [hwork]
        have hjoined : ∀ later, postorders row₁ ++ later = postorders row ++ item :: later := by
          intro later
          rw [hitems, List.append_assoc, List.singleton_append]
        rcases ih hvalues with ⟨row', stack', hrun, hvalues', hall⟩ |
          ⟨first, item', rest, row', stack', cause, hrun, hcut, hvalues', hfirst, hrefuses⟩
        · exact .inl ⟨row', stack', hrun, hvalues', hall.trans (hjoined items)⟩
        · exact .inr ⟨item :: first, item', rest, row', stack', cause, hrun, by rw [hcut]; rfl,
            hvalues', hfirst.trans (hjoined first), hrefuses⟩
      · rw [hwork]
        exact .inr ⟨[], item, items, row, stack, cause, rfl, rfl, h, (List.append_nil _).symm,
          hrefuses⟩

theorem foldlM_eq_ok_iff {items : List Item} {stack : List Int64} :
    items.foldlM env.work [] = .ok stack ↔
      ∃ row, postorders row = items ∧ env.Values row stack := by
  constructor
  · intro h
    have hnone : env.Values [] [] := .nil
    rcases foldlM_joins_or_refuses hnone items with
      ⟨row, stack', hrun, hvalues, hitems⟩ | ⟨_, _, _, _, _, _, hrun, -⟩
    · rw [hrun] at h
      cases h
      exact ⟨row, hitems, hvalues⟩
    · rw [hrun] at h
      cases h
  · rintro ⟨row, rfl, hvalues⟩
    have hrun := foldlM_postorders hvalues []
    rwa [List.append_nil] at hrun

theorem processes_iff {items : List Item} :
    env.Processes items ↔ ∃ stack, items.foldlM env.work [] = .ok stack := by
  simp only [foldlM_eq_ok_iff, Processes]
  exact exists_comm

/-- What can be worked off can be worked off in part. -/
theorem Processes.left {items rest : List Item} (h : env.Processes (items ++ rest)) :
    env.Processes items := by
  rw [processes_iff] at h ⊢
  obtain ⟨stack, hrun⟩ := h
  rw [List.foldlM_append] at hrun
  cases hitems : items.foldlM env.work [] with
  | ok stack' => exact ⟨stack', rfl⟩
  | error cause =>
      rw [hitems] at hrun
      cases hrun

/-- The first `k` items can be worked off, but not one more: behind their trees
the next item is refused. -/
structure FailsAt (env : Environment) (items : List Item) (k : Nat) (cause : Cause) : Prop where
  shortest : IsLeast {n | ¬ env.Processes (items.take n)} (k + 1)
  refused : ∃ row item, items[k]? = some item ∧ postorders row = items.take k ∧
    env.Refuses row item cause

/-- A row that refuses the next item ends the run. -/
theorem Refuses.foldlM_eq {row : List Tree} {stack : List Int64} {item : Item} {cause : Cause}
    (h : env.Refuses row item cause) (hvalues : env.Values row stack) (rest : List Item) :
    (postorders row ++ item :: rest).foldlM env.work [] = .error cause := by
  rw [foldlM_postorders hvalues, List.foldlM_cons, h.work_eq hvalues]
  rfl

theorem Refuses.failsAt {row : List Tree} {stack : List Int64} {item : Item} {cause : Cause}
    (h : env.Refuses row item cause) (hvalues : env.Values row stack) (rest : List Item) :
    env.FailsAt (postorders row ++ item :: rest) (postorders row).length cause := by
  have hprocesses : env.Processes (postorders row) := ⟨row, stack, rfl, hvalues⟩
  have hitem : (postorders row ++ item :: rest)[(postorders row).length]? = some item := by simp
  refine ⟨⟨?_, ?_⟩, row, item, hitem, List.take_left.symm, h⟩
  · have hshort : (postorders row ++ item :: rest).take ((postorders row).length + 1) =
        postorders row ++ [item] := List.take_length_add_append 1
    intro hone
    rw [hshort, processes_iff] at hone
    obtain ⟨stack', hrun⟩ := hone
    rw [h.foldlM_eq hvalues []] at hrun
    cases hrun
  · intro n hn
    by_contra hlt
    have hle : n ≤ (postorders row).length := by omega
    rw [Set.mem_ofPred_eq, List.take_append_of_le_length hle] at hn
    rw [← List.take_append_drop n (postorders row)] at hprocesses
    exact hn hprocesses.left

theorem FailsAt.foldlM_eq {items : List Item} {k : Nat} {cause : Cause}
    (h : env.FailsAt items k cause) : items.foldlM env.work [] = .error cause := by
  obtain ⟨row, item, hitem, hrow, hrefuses⟩ := h.refused
  have hprocesses : env.Processes (items.take k) := by
    by_contra hk
    have hle := h.shortest.2 hk
    omega
  obtain ⟨row', stack, hrow', hvalues⟩ := hprocesses
  obtain rfl := Tree.postorders_injective (hrow'.trans hrow.symm)
  obtain ⟨hk, rfl⟩ := List.getElem?_eq_some_iff.1 hitem
  have hsplit : items = postorders row' ++ items[k] :: items.drop (k + 1) := by
    rw [hrow]
    simp
  rw [hsplit]
  exact hrefuses.foldlM_eq hvalues _

theorem foldlM_eq_error_iff {items : List Item} {cause : Cause} :
    items.foldlM env.work [] = .error cause ↔ ∃ k, env.FailsAt items k cause := by
  constructor
  · intro h
    have hnone : env.Values [] [] := .nil
    rcases foldlM_joins_or_refuses hnone items with ⟨_, _, hrun, -⟩ |
      ⟨first, item, rest, row, stack, cause', hrun, hcut, hvalues, hfirst, hrefuses⟩
    · rw [hrun] at h
      cases h
    · rw [hrun] at h
      cases h
      have hitems : items = postorders row ++ item :: rest := by rw [hcut, hfirst]; rfl
      rw [hitems]
      exact ⟨_, hrefuses.failsAt hvalues rest⟩
  · rintro ⟨k, h⟩
    exact h.foldlM_eq

/-! ### One tree -/

theorem sequence_eq_ok_iff {items : List Item} {v : Int64} :
    env.sequence items = .ok v ↔ ∃ t : Tree, t.postorder = items ∧ t.value env = .ok v := by
  constructor
  · intro h
    rw [sequence] at h
    cases hrun : items.foldlM env.work [] with
    | error cause =>
        rw [hrun] at h
        cases h
    | ok stack =>
        rw [hrun] at h
        obtain ⟨row, hitems, hvalues⟩ := foldlM_eq_ok_iff.1 hrun
        cases hvalues with
        | nil => cases h
        | cons ht hvalues =>
            cases hvalues with
            | nil =>
                cases h
                exact ⟨_, (Tree.postorders_singleton _).symm.trans hitems, ht⟩
            | cons => cases h
  · rintro ⟨t, rfl, hvalue⟩
    rw [Tree.sequence_postorder, hvalue]

theorem result_eq_error_iff {stack : List Int64} {cause : Cause} :
    result stack = .error cause ↔ stack.length ≠ 1 ∧ cause = .leftoverValues stack.length := by
  match stack with
  | [] => simp [result, eq_comm]
  | [n] => simp [result]
  | n :: m :: stack => simp [result, eq_comm]

theorem sequence_eq_error_iff {items : List Item} {cause : Cause} :
    env.sequence items = .error cause ↔
      (∃ k, env.FailsAt items k cause) ∨
        ∃ row stack, postorders row = items ∧ env.Values row stack ∧ row.length ≠ 1 ∧
          cause = .leftoverValues row.length := by
  rw [sequence, ← foldlM_eq_error_iff]
  constructor
  · intro h
    cases hrun : items.foldlM env.work [] with
    | error cause' =>
        rw [hrun] at h
        exact .inl (congrArg Except.error (Except.error.inj h))
    | ok stack =>
        rw [hrun] at h
        obtain ⟨row, hitems, hvalues⟩ := foldlM_eq_ok_iff.1 hrun
        have hleft := result_eq_error_iff.1 h
        rw [← hvalues.length_eq] at hleft
        exact .inr ⟨row, stack, hitems, hvalues, hleft⟩
  · rintro (hrun | ⟨row, stack, hitems, hvalues, hleft⟩)
    · rw [hrun]
      rfl
    · rw [foldlM_eq_ok_iff.2 ⟨row, hitems, hvalues⟩]
      rw [hvalues.length_eq] at hleft
      exact result_eq_error_iff.2 hleft

/-! ### Reading the stack -/

/-- Takes the topmost value off. From an empty stack nothing can be taken. -/
def top? : List Int64 → Option (Int64 × List Int64)
  | [] => none
  | n :: stack => some (n, stack)

/-- Works one item off by taking values off the stack one by one, behind a look at
its height. -/
def workTaking? (env : Environment) (stack : List Int64) : Item → Option (Except Cause (List Int64))
  | .operand o => some ((· :: stack) <$> env.value o)
  | .operator op =>
    if stack.length < 2 then some (.error .operatorWithoutOperands)
    else do
      let (r, stack) ← top? stack
      let (l, stack) ← top? stack
      return (· :: stack) <$> op.apply l r

/-- Works a sequence off in this way. There is no outcome if a value is to be taken off an
empty stack at any time. -/
def sequenceTaking? (env : Environment) (stack : List Int64) :
    List Item → Option (Except Cause Int64)
  | [] =>
    if stack.length ≠ 1 then some (.error (.leftoverValues stack.length))
    else do
      let (n, _) ← top? stack
      return .ok n
  | item :: items => do
    match ← env.workTaking? stack item with
    | .ok stack => env.sequenceTaking? stack items
    | .error cause => return .error cause

theorem workTaking?_eq (stack : List Int64) (item : Item) :
    env.workTaking? stack item = some (env.work stack item) := by
  cases item with
  | operand o => rfl
  | operator op =>
      match stack with
      | [] => rfl
      | [n] => rfl
      | r :: l :: stack => simp [workTaking?, top?, work]

theorem sequenceTaking?_eq (stack : List Int64) (items : List Item) :
    env.sequenceTaking? stack items = some (items.foldlM env.work stack >>= result) := by
  induction items generalizing stack with
  | nil =>
      match stack with
      | [] => rfl
      | [n] => rfl
      | n :: m :: stack => simp [sequenceTaking?, result]
  | cons item items ih =>
      rw [sequenceTaking?, workTaking?_eq, List.foldlM_cons]
      cases env.work stack item with
      | error cause => rfl
      | ok stack' => exact ih stack'

theorem evaluate_sequence_eq_ok_iff {line : Nat} {items : List Item} {v : Int64} :
    env.evaluate ⟨line, .sequence items⟩ = .ok v ↔ env.sequence items = .ok v := by
  rw [evaluate, form]
  cases env.sequence items <;> simp

theorem evaluate_sequence_eq_error_iff {line : Nat} {items : List Item} {f : Fault} :
    env.evaluate ⟨line, .sequence items⟩ = .error f ↔
      f.line = line ∧ env.sequence items = .error f.cause := by
  obtain ⟨line', cause⟩ := f
  rw [evaluate, form]
  cases env.sequence items <;> simp [eq_comm]

end Environment

/-- A sequence of items has a value exactly if it is the postorder of a tree that has
one, and then it is the value of this only tree. Otherwise there is a shortest part
of the sequence, from its beginning, that cannot be worked off, and the last item
of this part tells why. If there is none, the items are those of a row of trees
with values, and these are not one tree. No value is ever taken off an empty
stack. -/
theorem sequence_accepts_postorders (env : Environment) (line : Nat) (items : List Item) :
    (∀ v, env.evaluate ⟨line, .sequence items⟩ = .ok v ↔
        ∃ t : Tree, t.postorder = items ∧ t.value env = .ok v) ∧
      (∀ t t' : Tree, t.postorder = items → t'.postorder = items → t = t') ∧
      (∀ f, env.evaluate ⟨line, .sequence items⟩ = .error f ↔
        f.line = line ∧
          ((∃ k, env.FailsAt items k f.cause) ∨
            ∃ row stack, postorders row = items ∧ env.Values row stack ∧ row.length ≠ 1 ∧
              f.cause = .leftoverValues row.length)) ∧
      env.sequenceTaking? [] items = some (env.sequence items) := by
  refine ⟨?_, ?_, ?_, env.sequenceTaking?_eq [] items⟩
  · intro v
    rw [Environment.evaluate_sequence_eq_ok_iff, Environment.sequence_eq_ok_iff]
  · intro t t' ht ht'
    exact Tree.postorder_injective (ht.trans ht'.symm)
  · intro f
    rw [Environment.evaluate_sequence_eq_error_iff, Environment.sequence_eq_error_iff]

/-- An operator with only one tree before it is refused before the variable behind it
is looked up, and two trees are too many in the end. -/
theorem sequence_accepts_postorders_malformed :
    let env : Environment := .empty
    let one : Item := .operand (.number 1)
    let few : List Item := [one, one, .operator .add, .operator .sub, .operand (.var (ascii "x"))]
    let many : List Item := [one, one, one, .operator .add]
    env.FailsAt few 3 .operatorWithoutOperands ∧
      env.evaluate ⟨1, .sequence few⟩ = .error ⟨1, .operatorWithoutOperands⟩ ∧
      env.evaluate ⟨1, .sequence many⟩ = .error ⟨1, .leftoverValues 2⟩ ∧
      ¬ ∃ t : Tree, t.postorder = many ∧ t.value env = .ok 2 := by
  intro env one few many
  let leaf : Tree := .leaf (.number 1)
  let two : Tree := .node .add leaf leaf
  have htwo : two.value env = .ok 2 := by
    decide +kernel
  have hrefuses : env.Refuses [two] (.operator .sub) .operatorWithoutOperands :=
    .few (by decide)
  have hfails : env.FailsAt few 3 .operatorWithoutOperands :=
    hrefuses.failsAt (.cons htwo .nil) [.operand (.var (ascii "x"))]
  have hvalues : env.Values [two, leaf] [2, 1] := .cons htwo (.cons rfl .nil)
  obtain ⟨-, -, hfew, -⟩ := sequence_accepts_postorders env 1 few
  obtain ⟨hmany, -, hleft, -⟩ := sequence_accepts_postorders env 1 many
  have hleftover : env.evaluate ⟨1, .sequence many⟩ = .error ⟨1, .leftoverValues 2⟩ :=
    (hleft _).2 ⟨rfl, .inr ⟨_, _, rfl, hvalues, by decide, rfl⟩⟩
  refine ⟨hfails, (hfew _).2 ⟨rfl, .inl ⟨3, hfails⟩⟩, hleftover, ?_⟩
  rw [← hmany, hleftover]
  rintro ⟨⟩

end Turtle
