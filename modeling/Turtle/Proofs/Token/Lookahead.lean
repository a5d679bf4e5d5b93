import Turtle.Proofs.Token.Spelling
import Turtle.Token.Cursor

/-!
The cursor and the tokens that it takes.

A cursor that has taken so many tokens can be told at once from the tokens and this
number. It stands behind the last token that it took, or behind the last of all, and
it tells that token's line, or the last line of the source once there was nothing
left to take. To take one more leads to the cursor of the next number, and to look
ahead leads nowhere. So a row of operations does what the number of its takes says,
and what is taken are the tokens in order.

Looking ahead finds what would be taken, as long as the place to look at can be
counted. Places are counted in 64 bits, and a distance that leads beyond the last of
them leads back to a token that was taken before, where nothing should be found.
-/

namespace Turtle

/-! ### The number of tokens -/

/-- Every token takes a byte of the source. -/
theorem Lexer.length_tokens_lexFrom {line : Nat} {afterValue : Bool} {before : List Token}
    {t : Text} {l : Lexed} (h : lexFrom line afterValue before t = .ok l) :
    l.tokens.length ≤ before.length + t.length := by
  induction line, afterValue, before, t using lexFrom.induct with
  | case1 line afterValue before =>
      rw [lexFrom_nil] at h
      cases h
      simp
  | case2 line afterValue before c rest hblank ih =>
      rw [lexFrom_blank hblank] at h
      exact (ih h).trans (by simp)
  | case3 line afterValue before c rest hblank hcomment ih =>
      rw [lexFrom_comment hblank hcomment] at h
      have hskipped := length_dropWhile_le (· != Text.newline) rest
      have hlength := ih h
      simp only [skipLine, List.length_cons] at hlength ⊢
      omega
  | case4 line afterValue before c rest hblank hcomment hscan =>
      rw [lexFrom_stray hblank hcomment hscan] at h
      cases h
  | case5 line afterValue before c rest hblank hcomment l' rest' hscan ih =>
      rw [lexFrom_token hblank hcomment hscan] at h
      have hshorter := length_le_of_scan? hscan
      have hlength := ih h
      simp only [List.length_cons] at hlength ⊢
      omega

theorem length_tokens_of_lex {source : Text} {l : Lexed} (h : lex source = .ok l) :
    l.tokens.length ≤ source.length := by
  have hlength := Lexer.length_tokens_lexFrom h
  rwa [List.length_nil, Nat.zero_add] at hlength

namespace Cursor

/-! ### Operations -/

inductive Operation
  | next
  | discard
  | peek (n : Nat)
  deriving DecidableEq, Repr

/-- Whether the operation takes a token. -/
def Operation.takes : Operation → Bool
  | .next | .discard => true
  | .peek _ => false

/-- What the operation answers, and the cursor afterwards. A token that is discarded
is not told. -/
def perform (c : Cursor) : Operation → Option Token × Cursor
  | .next => c.next
  | .discard => (none, c.discard)
  | .peek n => (c.peek n, c)

def after (c : Cursor) (ops : List Operation) : Cursor :=
  ops.foldl (fun c op => (c.perform op).2) c

/-- What the operations take from the cursor, told or not, in order; nothing is taken
from a cursor that has run out of tokens. -/
def taken (c : Cursor) : List Operation → List (Option Token)
  | [] => []
  | op :: ops =>
    let rest := taken (c.perform op).2 ops
    if op.takes then c.next.1 :: rest else rest

/-- What the `n`-th of the following takes gives, `n` counting from one. -/
def coming (c : Cursor) (n : Nat) : Option Token :=
  (c.after (List.replicate (n - 1) .next)).next.1

/-! ### Counting takes -/

/-- The line that is told when so many tokens were taken. -/
def lineAt (l : Lexed) : (count : Nat) → Nat
  | 0 => 1
  | count + 1 => (l.tokens[count]?).elim l.lastLine Token.line

/-- The cursor that has taken so many tokens, or all of them. -/
def behind (l : Lexed) (count : Nat) : Cursor :=
  ⟨l.tokens.toArray, min count l.tokens.length, lineAt l count, l.lastLine⟩

theorem ofLexed_eq (l : Lexed) : ofLexed l = behind l 0 := by
  rw [ofLexed, behind, Nat.zero_min, lineAt]

section

variable (l : Lexed) (count : Nat)

theorem next_behind : (behind l count).next = (l.tokens[count]?, behind l (count + 1)) := by
  rcases Nat.lt_or_ge count l.tokens.length with hlt | hge
  · have hplace : min count l.tokens.length = count := Nat.min_eq_left hlt.le
    have hplace' : min (count + 1) l.tokens.length = count + 1 := Nat.min_eq_left hlt
    simp [next, behind, lineAt, hplace, hplace', List.getElem?_eq_getElem hlt]
  · have hplace : min count l.tokens.length = l.tokens.length := Nat.min_eq_right hge
    have hplace' : min (count + 1) l.tokens.length = l.tokens.length :=
      Nat.min_eq_right (Nat.le_succ_of_le hge)
    simp [next, behind, lineAt, hplace, hplace', List.getElem?_eq_none hge]

theorem perform_behind (op : Operation) :
    ((behind l count).perform op).2 = behind l (count + op.takes.toNat) := by
  cases op with
  | next | discard => exact congrArg Prod.snd (next_behind l count)
  | peek n => rfl

theorem after_behind (ops : List Operation) :
    (behind l count).after ops = behind l (count + ops.countP Operation.takes) := by
  induction ops generalizing count with
  | nil => rfl
  | cons op ops ih =>
      rw [after, List.foldl_cons, perform_behind, ← after, ih, List.countP_cons]
      cases op.takes <;> simp [Nat.add_comm, Nat.add_left_comm]

theorem taken_behind (ops : List Operation) :
    (behind l count).taken ops =
      (List.range' count (ops.countP Operation.takes)).map (l.tokens[·]?) := by
  induction ops generalizing count with
  | nil => rfl
  | cons op ops ih =>
      rw [taken, perform_behind, ih, next_behind, List.countP_cons]
      cases op.takes <;> simp [List.range'_succ]

theorem coming_behind (n : Nat) : (behind l count).coming n = l.tokens[count + (n - 1)]? := by
  rw [coming, after_behind, List.countP_replicate, next_behind]
  rfl

end

/-! ### Looking ahead -/

section

variable {l : Lexed} {count n : Nat}

/-- A distance of at least one is taken less one. -/
theorem peek_eq (c : Cursor) (hn : 1 ≤ n) :
    c.peek n = c.tokens[(c.position + (n - 1)) % positions]? := by
  have hwrapped : c.position + (n + (positions - 1)) = c.position + (n - 1) + positions := by
    have hpos : 0 < positions := by decide
    omega
  rw [peek, hwrapped, Nat.add_mod_right]

/-- A place that can be counted is looked at. -/
theorem peek_behind_of_le (hn : 1 ≤ n) (h : min count l.tokens.length + n ≤ positions) :
    (behind l count).peek n = (behind l count).coming n := by
  have hplace : min count l.tokens.length + (n - 1) < positions := by omega
  have hpeek : (behind l count).peek n = l.tokens[min count l.tokens.length + (n - 1)]? := by
    simp [peek_eq _ hn, behind, Nat.mod_eq_of_lt hplace]
  rw [hpeek, coming_behind]
  rcases Nat.le_total count l.tokens.length with hle | hge
  · rw [Nat.min_eq_left hle]
  · rw [Nat.min_eq_right hge, List.getElem?_eq_none (by omega), List.getElem?_eq_none (by omega)]

/-- A place beyond the last that can be counted is taken for one at the beginning. -/
theorem peek_behind_of_lt (hlength : l.tokens.length ≤ positions) (hn : n < positions)
    (h : positions < min count l.tokens.length + n) :
    (behind l count).coming n = none ∧
      ∃ place t, place < count ∧ l.tokens[place]? = some t ∧
        (behind l count).peek n = some t := by
  have hnone : (behind l count).coming n = none := by
    rw [coming_behind]
    exact List.getElem?_eq_none (by omega)
  have hfirst : 1 ≤ n := by omega
  let place := min count l.tokens.length + (n - 1) - positions
  have hplace : (min count l.tokens.length + (n - 1)) % positions = place := by
    rw [Nat.mod_eq_sub_mod (by omega)]
    exact Nat.mod_eq_of_lt (by omega)
  have hexists : place < l.tokens.length := by omega
  have hpeek : (behind l count).peek n = l.tokens[place]? := by
    simp [peek_eq _ hfirst, behind, hplace]
  exact ⟨hnone, place, l.tokens[place], by omega, List.getElem?_eq_getElem hexists,
    hpeek.trans (List.getElem?_eq_getElem hexists)⟩

end

/-- Whatever is done with the cursor of a source, it takes the tokens of the source
in order, each of them once, and nothing is taken when these have come to an end. To
look ahead leaves it where it is. It tells the first line before anything is taken,
and then the line of the token that was taken last, or the last line of the source
if there was none left to take. It looks ahead to what the take at that distance
gives, exactly if the place can be counted in 64 bits; otherwise there is nothing to
come, but a token is found that was taken before. -/
theorem views_tokens {source : Text} {l : Lexed} (hlex : lex source = .ok l)
    (hsource : source.length < positions) (ops : List Operation) :
    let c := (ofLexed l).after ops
    let count := ops.countP Operation.takes
    (ofLexed l).taken ops = (List.range count).map (l.tokens[·]?) ∧
      c.line = lineAt l count ∧
      ∀ n, 1 ≤ n → n < positions →
        (c.perform (.peek n)).2 = c ∧
          (c.peek n = c.coming n ↔ min count l.tokens.length + n ≤ positions) ∧
          (positions < min count l.tokens.length + n →
            c.coming n = none ∧
              ∃ place t, place < count ∧ l.tokens[place]? = some t ∧ c.peek n = some t) := by
  intro c count
  have hc : c = behind l count := by
    rw [← Nat.zero_add count, ← after_behind, ← ofLexed_eq]
  have hlength : l.tokens.length ≤ positions := (length_tokens_of_lex hlex).trans hsource.le
  refine ⟨?_, by rw [hc]; rfl, ?_⟩
  · rw [ofLexed_eq, taken_behind, List.range_eq_range']
  intro n hpos hn
  rw [hc]
  refine ⟨rfl, ?_, peek_behind_of_lt hlength hn⟩
  constructor
  · intro hfaithful
    by_contra hfar
    obtain ⟨hnone, -, t, -, -, hpeek⟩ := peek_behind_of_lt hlength hn (not_le.1 hfar)
    rw [hfaithful, hnone] at hpeek
    cases hpeek
  · exact peek_behind_of_le hpos

/-- Both tokens are taken, and the second one is not told. What is looked at in the
end is the last place that can be counted. -/
theorem views_tokens_two_lines :
    let source := ascii "fd\n10"
    let l : Lexed := ⟨[⟨.identifier (ascii "fd"), 1⟩, ⟨.number (ascii "10"), 2⟩], 2⟩
    let ops : List Operation := [.peek 2, .next, .discard, .next]
    let c := (ofLexed l).after ops
    (lex source = .ok l ∧ source.length < positions) ∧
      (ofLexed l).taken ops =
        [some ⟨.identifier (ascii "fd"), 1⟩, some ⟨.number (ascii "10"), 2⟩, none] ∧
      c.line = 2 ∧ c.peek (positions - 2) = c.coming (positions - 2) := by
  intro source l ops c
  have hlex : lex source = .ok l := by decide +kernel
  have hsource : source.length < positions := by decide
  obtain ⟨htaken, hline, hahead⟩ := views_tokens hlex hsource ops
  obtain ⟨-, hfaithful, -⟩ := hahead (positions - 2) (by decide) (by decide)
  exact ⟨⟨hlex, hsource⟩, htaken, hline, hfaithful.2 (by decide)⟩

/-- Both tokens of a source have been taken, so that nothing is to come. Looking ahead as far
as 64 bits can say finds the first token again. -/
theorem peek_turns_back :
    let source := ascii "a a"
    let l : Lexed := ⟨[⟨.identifier (ascii "a"), 1⟩, ⟨.identifier (ascii "a"), 1⟩], 1⟩
    let c := (ofLexed l).after [.next, .next]
    lex source = .ok l ∧ c.coming (positions - 1) = none ∧
      c.peek (positions - 1) = some ⟨.identifier (ascii "a"), 1⟩ := by
  intro source l c
  have hlex : lex source = .ok l := by decide +kernel
  have hnone : c.coming (positions - 1) = none := by
    have hc : c = behind l 2 := rfl
    rw [hc, coming_behind]
    exact List.getElem?_eq_none (by decide)
  exact ⟨hlex, hnone, by decide⟩

end Cursor

end Turtle
