import Turtle.Proofs.Canvas.Points

/-!
Lines in words of 32 bits.

Here the points of a line are found in words: whatever is added, subtracted,
doubled or negated on the way has to fit into a word, and as soon as a result
does not, there are no points at all. If the coordinates of the ends are not too
large, then this never comes up, as the error stays within four times the length
of the line.
-/

namespace Turtle.Line

/-- What a signed word of 32 bits can hold. -/
def Fits (n : Int) : Prop :=
  -2 ^ 31 ≤ n ∧ n < 2 ^ 31

instance : DecidablePred Fits :=
  fun n => inferInstanceAs (Decidable (-2 ^ 31 ≤ n ∧ n < 2 ^ 31))

/-- A result that is held in a word. -/
def word (n : Int) : Option Int :=
  if Fits n then some n else none

theorem word_bind {α : Type} {n : Int} (h : Fits n) (f : Int → Option α) :
    (word n >>= f) = f n := by
  rw [word, if_pos h]
  rfl

/-- How far a number is from zero. -/
def magnitude (n : Int) : Option Int :=
  if n < 0 then word (-n) else some n

theorem magnitude_bind {α : Type} {n : Int} (h : Fits (-n)) (f : Int → Option α) :
    (magnitude n >>= f) = f n.natAbs := by
  rw [magnitude]
  split_ifs with hnegative
  · have hopposite : -n = n.natAbs := by omega
    rw [word, if_pos h, hopposite]
    rfl
  · have hsame : n = n.natAbs := by omega
    conv_lhs => rw [hsame]
    rfl

/-! ### The points in words -/

def walkInWords (long short side : Int) : (count : Nat) → (u v d : Int) → Option (List (Int × Int))
  | 0, _, _, _ => some []
  | count + 1, u, v, d => do
    let (v', d') ←
      if 0 < d then do
        let v' ← word (v + side)
        let less ← word (short - long)
        let change ← word (2 * less)
        let d' ← word (d + change)
        pure (v', d')
      else do
        let change ← word (2 * short)
        let d' ← word (d + change)
        pure (v, d')
    let u' ← word (u + 1)
    let points ← walkInWords long short side count u' v' d'
    return (u, v) :: points

def alongInWords (u₀ v₀ u₁ v₁ : Int) : Option (List (Int × Int)) := do
  let long ← word (u₁ - u₀)
  let aside ← word (v₁ - v₀)
  let short ← magnitude aside
  let twice ← word (2 * short)
  let d ← word (twice - long)
  walkInWords long short (if aside < 0 then -1 else 1) (long + 1).toNat u₀ v₀ d

def pointsInWords (x₀ y₀ x₁ y₁ : Int) : Option (List (Int × Int)) := do
  let dy ← word (y₁ - y₀)
  let height ← magnitude dy
  let dx ← word (x₁ - x₀)
  let width ← magnitude dx
  if height < width then
    if x₁ < x₀ then alongInWords x₁ y₁ x₀ y₀ else alongInWords x₀ y₀ x₁ y₁
  else
    List.map swap <$> if y₁ < y₀ then alongInWords y₁ x₁ y₀ x₀ else alongInWords y₀ x₀ y₁ x₁

/-! ### Nothing overflows -/

section

variable {long short side u₀ v₀ u v d : Int}

theorem walkInWords_eq (hflat : Flat long short side) (hlong : long ≤ 2 ^ 29) {count : Nat}
    (hu : u.natAbs + count ≤ 2 ^ 30) (hv : v.natAbs + count ≤ 2 ^ 30)
    (h : Tracks long short side u₀ v₀ u v d) :
    walkInWords long short side count u v d = some (walk long short side count u v d) := by
  induction count generalizing u v d with
  | zero => rfl
  | succ count ih =>
      have hside := hflat.side_eq
      have hshort := hflat.short_nonneg
      have hle := hflat.short_le
      have hlow := h.low
      have hhigh := h.high
      by_cases hd : 0 < d
      · have hrest := ih (by omega) (by omega) (h.aside hflat hd)
        rw [walkInWords, walk, if_pos hd, if_pos hd]
        simp (disch := simp only [Fits]; omega) only [word_bind, pure_bind, hrest]
        rfl
      · have hrest := ih (by omega) (by omega) (h.straight hflat hd)
        rw [walkInWords, walk, if_neg hd, if_neg hd]
        simp (disch := simp only [Fits]; omega) only [word_bind, pure_bind, hrest]
        rfl

theorem alongInWords_eq {u₁ v₁ : Int} (h : (v₁ - v₀).natAbs ≤ u₁ - u₀)
    (hu₀ : u₀.natAbs ≤ 2 ^ 28) (hu₁ : u₁.natAbs ≤ 2 ^ 28) (hv₀ : v₀.natAbs ≤ 2 ^ 28)
    (hv₁ : v₁.natAbs ≤ 2 ^ 28) : alongInWords u₀ v₀ u₁ v₁ = some (along u₀ v₀ u₁ v₁) := by
  have hwords : alongInWords u₀ v₀ u₁ v₁ =
      walkInWords (u₁ - u₀) (v₁ - v₀).natAbs (if v₁ - v₀ < 0 then -1 else 1)
        (u₁ - u₀ + 1).toNat u₀ v₀ (2 * (v₁ - v₀).natAbs - (u₁ - u₀)) := by
    rw [alongInWords]
    simp (disch := simp only [Fits]; omega) only [word_bind, magnitude_bind]
  rw [hwords, along]
  exact walkInWords_eq (flat_of_le h) (by omega) (by omega) (by omega) (.begin (flat_of_le h))

end

/-- The points of a line are found in words, if the coordinates of its ends are
not too large. -/
theorem pointsInWords_eq {x₀ y₀ x₁ y₁ : Int} (hx₀ : x₀.natAbs ≤ 2 ^ 28) (hy₀ : y₀.natAbs ≤ 2 ^ 28)
    (hx₁ : x₁.natAbs ≤ 2 ^ 28) (hy₁ : y₁.natAbs ≤ 2 ^ 28) :
    pointsInWords x₀ y₀ x₁ y₁ = some (points x₀ y₀ x₁ y₁) := by
  rw [pointsInWords, points]
  simp (disch := simp only [Fits]; omega) only [word_bind, magnitude_bind, Nat.cast_lt]
  split_ifs with hflat hback hback
  · exact alongInWords_eq (by omega) hx₁ hx₀ hy₁ hy₀
  · exact alongInWords_eq (by omega) hx₀ hx₁ hy₀ hy₁
  · rw [alongInWords_eq (by omega) hy₁ hy₀ hx₁ hx₀]
    rfl
  · rw [alongInWords_eq (by omega) hy₀ hy₁ hx₀ hx₁]
    rfl

end Turtle.Line
