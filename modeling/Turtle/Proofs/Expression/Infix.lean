import Turtle.Proofs.Expression.Tree

/-!
Arithmetic expressions as they are written.

An `Infix` is a derivation of an expression: operands, operators between
them and parentheses around some parts, with the line of every token. It
knows the tokens it is written with and the tree it stands for, so a
rendering of a tree is an `Infix` that has this tree.

Where parentheses are required is said by `Grouped`. Level 1 is a whole
expression, level 2 a term and level 3 a factor: at level `k` an operator may
stand outside of parentheses if its precedence is at least `k`; what is to
its left is at its own level, so equal operators group to the left, and what
is to its right is one level up. Parentheses are allowed around everything.

The tokens determine the derivation. This is proved by reading them from the
right: behind the last operator outside of parentheses stands a phrase of a
higher level, so comparing two derivations at their right ends settles where
their last operators are.
-/

namespace Turtle

/-! ### Operands and the tokens that spell them -/

/-- The operands that lexemes spell. A number has to be one of the 64-bit numbers. -/
inductive Spells : Lexeme → Operand → Prop
  | number {digits : Text} {n : Int} (hread : Numeral.readInt? digits = some n)
      (hlower : -2 ^ 63 ≤ n) (hupper : n ≤ 2 ^ 63 - 1) :
      Spells (.number digits) (.number (.ofInt n))
  | var (name : Text) : Spells (.var name) (.var name)
  | word (name : Text) : Spells (.word name) (.word name)

theorem Spells.unique {l : Lexeme} {o o' : Operand} (h : Spells l o) (h' : Spells l o') :
    o = o' := by
  cases h with
  | number hread =>
      cases h' with
      | number hread' =>
          rw [hread, Option.some.injEq] at hread'
          rw [hread']
  | var => cases h'; rfl
  | word => cases h'; rfl

/-- An operand with the token that spells it. -/
structure Atom where
  token : Token
  operand : Operand
  spelled : Spells token.lexeme operand

theorem Atom.ext_token {a b : Atom} (h : a.token = b.token) : a = b := by
  obtain ⟨t, o, hspelled⟩ := a
  obtain ⟨u, p, hspelled'⟩ := b
  cases h
  cases hspelled.unique hspelled'
  rfl

theorem Operator.one_le_precedence (op : Operator) : 1 ≤ op.precedence := by
  cases op <;> decide

/-! ### Written expressions -/

inductive Infix
  | atom (a : Atom)
  | paren (opening : Nat) (inner : Infix) (closing : Nat)
  | binary (left : Infix) (op : Operator) (line : Nat) (right : Infix)

namespace Infix

def tokens : Infix → List Token
  | atom a => [a.token]
  | paren opening e closing => ⟨.leftParen, opening⟩ :: (e.tokens ++ [⟨.rightParen, closing⟩])
  | binary l op line r => l.tokens ++ ⟨.operator op, line⟩ :: r.tokens

def tree : Infix → Tree
  | atom a => .leaf a.operand
  | paren _ e _ => e.tree
  | binary l op _ r => .node op l.tree r.tree

/-- Parentheses stand wherever the level requires them. -/
def Grouped : Nat → Infix → Prop
  | _, atom _ => True
  | _, paren _ e _ => e.Grouped 1
  | k, binary l op _ r =>
    k ≤ op.precedence ∧ l.Grouped op.precedence ∧ r.Grouped (op.precedence + 1)

/-! ### The tokens determine the derivation -/

/-- The tokens do not end in an operator that could stand at the level. -/
def Bounds (k : Nat) (before : List Token) : Prop :=
  ∀ op line, before.getLast? = some ⟨.operator op, line⟩ → op.precedence < k

theorem Bounds.mono {j k : Nat} (hjk : j ≤ k) {before : List Token} (h : Bounds j before) :
    Bounds k before :=
  fun op line hlast => (h op line hlast).trans_le hjk

theorem bounds_snoc_operator (before : List Token) (op : Operator) (line : Nat) :
    Bounds (op.precedence + 1) (before ++ [⟨.operator op, line⟩]) := by
  intro op' line' hlast
  simp only [List.getLast?_append, List.getLast?_singleton, Option.some_or, Option.some.injEq,
    Token.mk.injEq, Lexeme.operator.injEq] at hlast
  rw [hlast.1]
  omega

theorem not_bounds_snoc_operator {k : Nat} (before : List Token) {op : Operator} (line : Nat)
    (hk : k ≤ op.precedence) : ¬ Bounds k (before ++ [⟨.operator op, line⟩]) := by
  intro h
  have := h op line (by simp)
  omega

theorem bounds_snoc_leftParen (before : List Token) (line : Nat) (k : Nat) :
    Bounds k (before ++ [⟨.leftParen, line⟩]) := by
  intro op line' hlast
  simp at hlast

/-- The induction hypothesis of `unique_of_right`, for derivations that are
together shorter than a bound. -/
def UniqueBelow (n : Nat) : Prop :=
  ∀ (k : Nat) (e e' : Infix) (r r' : List Token),
    e.tokens.length + e'.tokens.length < n → e.Grouped k → e'.Grouped k →
    Bounds k r → Bounds k r' → r ++ e.tokens = r' ++ e'.tokens → e = e' ∧ r = r'

/-- A derivation that ends in an operator is not read as one of a higher level. -/
theorem UniqueBelow.no_higher {n k : Nat} (ih : UniqueBelow n) {l g e : Infix} {op : Operator}
    {line : Nat} {r r' : List Token} (hn : (binary l op line g).tokens.length + e.tokens.length ≤ n)
    (hg : (binary l op line g).Grouped k) (he : e.Grouped (op.precedence + 1))
    (hr' : Bounds k r') : r ++ (binary l op line g).tokens ≠ r' ++ e.tokens := by
  intro heq
  obtain ⟨hk, -, hright⟩ := hg
  have hsplit : (r ++ l.tokens ++ [⟨.operator op, line⟩]) ++ g.tokens = r' ++ e.tokens := by
    simpa [tokens] using heq
  have hlt : g.tokens.length + e.tokens.length < n := by
    simp only [tokens, List.length_append, List.length_cons] at hn
    omega
  -- so `g` and `e` are the same phrase, and what stands before it ends in `op`
  obtain ⟨-, hr⟩ := ih _ g e _ _ hlt hright he (bounds_snoc_operator _ op line)
    (hr'.mono (by omega)) hsplit
  exact not_bounds_snoc_operator _ line hk (hr ▸ hr')

theorem snoc_atom_ne_paren (a : Atom) (opening : Nat) (f : Infix) (closing : Nat)
    (r r' : List Token) :
    r ++ (atom a).tokens ≠ r' ++ (paren opening f closing).tokens := by
  intro heq
  have hsplit : r ++ [a.token] =
      (r' ++ ⟨.leftParen, opening⟩ :: f.tokens) ++ [⟨.rightParen, closing⟩] := by
    simpa [tokens] using heq
  obtain ⟨-, hlast⟩ := List.append_inj' hsplit rfl
  have hspelled := a.spelled
  rw [List.singleton_inj.1 hlast] at hspelled
  cases hspelled

/-- Two derivations that end in operators, by the induction hypothesis. -/
theorem UniqueBelow.binary {n k : Nat} (ih : UniqueBelow n) {l l' g g' : Infix} {op op' : Operator}
    {line line' : Nat} {r r' : List Token}
    (hn : (Infix.binary l op line g).tokens.length +
      (Infix.binary l' op' line' g').tokens.length ≤ n)
    (he : (Infix.binary l op line g).Grouped k) (he' : (Infix.binary l' op' line' g').Grouped k)
    (hr : Bounds k r) (hr' : Bounds k r')
    (heq : r ++ (Infix.binary l op line g).tokens = r' ++ (Infix.binary l' op' line' g').tokens) :
    Infix.binary l op line g = Infix.binary l' op' line' g' ∧ r = r' := by
  rcases Nat.lt_trichotomy op.precedence op'.precedence with hlt | hprec | hgt
  · exact absurd heq (ih.no_higher hn he ⟨hlt, he'.2⟩ hr')
  · obtain ⟨hk, hl, hg⟩ := he
    obtain ⟨-, hl', hg'⟩ := he'
    rw [← hprec] at hl' hg'
    simp only [tokens, List.length_append, List.length_cons] at hn
    have hsplit : (r ++ l.tokens ++ [⟨.operator op, line⟩]) ++ g.tokens =
        (r' ++ l'.tokens ++ [⟨.operator op', line'⟩]) ++ g'.tokens := by
      simpa [tokens] using heq
    -- first the right operands are equal, then the operators before them, then the left ones
    obtain ⟨rfl, hbefore⟩ := ih _ g g' _ _ (by omega) hg hg' (bounds_snoc_operator _ op line)
      (hprec ▸ bounds_snoc_operator _ op' line') hsplit
    obtain ⟨hleft, hop⟩ := List.append_inj' hbefore rfl
    obtain ⟨rfl, rfl⟩ := ih _ l l' r r' (by omega) hl hl' (hr.mono hk) (hr'.mono hk) hleft
    cases hop
    exact ⟨rfl, rfl⟩
  · exact absurd heq.symm (ih.no_higher (by omega) he' ⟨hgt, he.2⟩ hr)

theorem uniqueBelow (n : Nat) : UniqueBelow n := by
  induction n with
  | zero => intro k e e' r r' hlt; omega
  | succ n ih =>
      intro k e e' r r' hlt he he' hr hr' heq
      match e, e' with
      | .binary l op line g, .binary l' op' line' g' =>
          exact ih.binary (by omega) he he' hr hr' heq
      | .binary l op line g, .atom a => exact absurd heq (ih.no_higher (by omega) he trivial hr')
      | .binary l op line g, .paren opening f closing =>
          exact absurd heq (ih.no_higher (by omega) he he' hr')
      | .atom a, .binary l' op' line' g' =>
          exact absurd heq.symm (ih.no_higher (by omega) he' trivial hr)
      | .paren opening f closing, .binary l' op' line' g' =>
          exact absurd heq.symm (ih.no_higher (by omega) he' he hr)
      | .atom a, .atom b =>
          obtain ⟨hbefore, hab⟩ := List.append_inj' heq rfl
          have htoken : a.token = b.token := by simpa [tokens] using hab
          exact ⟨by rw [Atom.ext_token htoken], hbefore⟩
      | .paren opening f closing, .paren opening' f' closing' =>
          have hsplit : (r ++ [⟨.leftParen, opening⟩] ++ f.tokens) ++ [⟨.rightParen, closing⟩] =
              (r' ++ [⟨.leftParen, opening'⟩] ++ f'.tokens) ++ [⟨.rightParen, closing'⟩] := by
            simpa [tokens] using heq
          obtain ⟨hinner, hclosing⟩ := List.append_inj' hsplit rfl
          simp only [tokens, List.length_cons, List.length_append] at hlt
          -- behind an opening parenthesis any operator may follow, so the level is 1
          obtain ⟨rfl, hbefore⟩ := ih _ f f' _ _ (by omega) he he'
            (bounds_snoc_leftParen r opening 1) (bounds_snoc_leftParen r' opening' 1) hinner
          obtain ⟨rfl, hopening⟩ := List.append_inj' hbefore rfl
          cases hopening
          cases hclosing
          exact ⟨rfl, rfl⟩
      | .atom a, .paren opening f closing =>
          exact absurd heq (snoc_atom_ne_paren a opening f closing r r')
      | .paren opening f closing, .atom a =>
          exact absurd heq.symm (snoc_atom_ne_paren a opening f closing r' r)

/-- The tokens of a derivation determine it. -/
theorem tokens_injective {k : Nat} {e e' : Infix} (he : e.Grouped k) (he' : e'.Grouped k)
    (h : e.tokens = e'.tokens) : e = e' := by
  have hnil : Bounds k [] := by
    intro op line hlast
    simp at hlast
  exact (uniqueBelow _ k e e' [] [] (Nat.lt_succ_self _) he he' hnil hnil (by simpa using h)).1

end Infix

end Turtle
