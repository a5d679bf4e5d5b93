import Mathlib.Tactic
import Turtle.Number.Checked
import Turtle.Text.Numeral

/-!
Checked arithmetic against arithmetic on the integers.

The guards of `Checked` never leave the 64 bits, so each of them is a
roundabout way of asking whether the exact result is in range. Here that
question is put directly: `ranged n` is the integer `n` as a word, or the
fault that it does not fit, and every operation is `ranged` of the exact
result. Nothing behind this module unfolds a guard again.
-/

namespace Turtle.Checked

/-! ### Integers in range -/

/-- The word that an integer is, unless it is out of range. -/
def ranged (n : Int) : Except Failure Int64 :=
  if Numeral.fits n then .ok (.ofInt n) else .error .overflow

theorem fits_iff {n : Int} : Numeral.fits n = true ↔ -2 ^ 63 ≤ n ∧ n < 2 ^ 63 := by
  simp only [Numeral.fits, Bool.and_eq_true, decide_eq_true_eq, Int64.toInt_minValue,
    Int64.toInt_maxValue]
  omega

theorem bmod_of_fits {n : Int} (h : Numeral.fits n = true) : n.bmod (2 ^ 64) = n := by
  rw [fits_iff] at h
  exact Int.bmod_eq_of_le (by omega) (by omega)

theorem ranged_of_fits {n : Int} {m : Int64} (h : Numeral.fits n = true) (hm : m.toInt = n) :
    ranged n = .ok m := by
  have hn : Int64.ofInt n = m := by rw [← hm, Int64.ofInt_toInt]
  rw [ranged, if_pos h, hn]

theorem ranged_of_not_fits {n : Int} (h : Numeral.fits n = false) :
    ranged n = .error .overflow := by
  simp [ranged, h]

/-- A guarded operation is exact if its guard tells the results out of range. -/
theorem guarded_eq_ranged {overflows : Bool} {n : Int} {m : Int64}
    (hguard : overflows = !Numeral.fits n) (hexact : m.toInt = n.bmod (2 ^ 64)) :
    guarded overflows m = ranged n := by
  cases hn : Numeral.fits n with
  | true =>
      rw [ranged_of_fits hn (hexact.trans (bmod_of_fits hn))]
      simp [guarded, hguard, hn]
  | false =>
      rw [ranged_of_not_fits hn]
      simp [guarded, hguard, hn]

/-! ### Sums and differences -/

/-- Moving the positive right operand to the other side of the upper bound
stays in range, and likewise on the three other sides. -/
theorem toInt_max_sub {r : Int64} (h : 0 < r.toInt) : (max - r).toInt = 2 ^ 63 - 1 - r.toInt := by
  have hr := r.toInt_lt
  rw [Int64.toInt_sub, show (max : Int64).toInt = 2 ^ 63 - 1 from rfl]
  exact Int.bmod_eq_of_le (by omega) (by omega)

theorem toInt_min_sub {r : Int64} (h : r.toInt < 0) : (min - r).toInt = -2 ^ 63 - r.toInt := by
  have hr := r.le_toInt
  rw [Int64.toInt_sub, show (min : Int64).toInt = -2 ^ 63 from rfl]
  exact Int.bmod_eq_of_le (by omega) (by omega)

theorem toInt_max_add {r : Int64} (h : r.toInt < 0) : (max + r).toInt = 2 ^ 63 - 1 + r.toInt := by
  have hr := r.le_toInt
  rw [Int64.toInt_add, show (max : Int64).toInt = 2 ^ 63 - 1 from rfl]
  exact Int.bmod_eq_of_le (by omega) (by omega)

theorem toInt_min_add {r : Int64} (h : 0 < r.toInt) : (min + r).toInt = -2 ^ 63 + r.toInt := by
  have hr := r.toInt_lt
  rw [Int64.toInt_add, show (min : Int64).toInt = -2 ^ 63 from rfl]
  exact Int.bmod_eq_of_le (by omega) (by omega)

theorem pos_iff {r : Int64} : 0 < r ↔ 0 < r.toInt := by
  rw [Int64.lt_iff_toInt_lt, Int64.toInt_zero]

theorem neg_iff {r : Int64} : r < 0 ↔ r.toInt < 0 := by
  rw [Int64.lt_iff_toInt_lt, Int64.toInt_zero]

theorem addOverflows_eq (l r : Int64) :
    addOverflows l r = !Numeral.fits (l.toInt + r.toInt) := by
  have hl := l.toInt_lt
  have hl' := l.le_toInt
  rw [Bool.eq_iff_iff, Bool.not_eq_true', ← Bool.not_eq_true, fits_iff]
  simp only [addOverflows, Bool.or_eq_true, Bool.and_eq_true, decide_eq_true_eq, pos_iff, neg_iff]
  constructor
  · rintro (⟨hr, h⟩ | ⟨hr, h⟩)
    · rw [Int64.lt_iff_toInt_lt, toInt_max_sub hr] at h; omega
    · rw [Int64.lt_iff_toInt_lt, toInt_min_sub hr] at h; omega
  · intro h
    rcases lt_trichotomy r.toInt 0 with hr | hr | hr
    · exact .inr ⟨hr, by rw [Int64.lt_iff_toInt_lt, toInt_min_sub hr]; omega⟩
    · omega
    · exact .inl ⟨hr, by rw [Int64.lt_iff_toInt_lt, toInt_max_sub hr]; omega⟩

theorem subOverflows_eq (l r : Int64) :
    subOverflows l r = !Numeral.fits (l.toInt - r.toInt) := by
  have hl := l.toInt_lt
  have hl' := l.le_toInt
  rw [Bool.eq_iff_iff, Bool.not_eq_true', ← Bool.not_eq_true, fits_iff]
  simp only [subOverflows, Bool.or_eq_true, Bool.and_eq_true, decide_eq_true_eq, pos_iff, neg_iff]
  constructor
  · rintro (⟨hr, h⟩ | ⟨hr, h⟩)
    · rw [Int64.lt_iff_toInt_lt, toInt_max_add hr] at h; omega
    · rw [Int64.lt_iff_toInt_lt, toInt_min_add hr] at h; omega
  · intro h
    rcases lt_trichotomy r.toInt 0 with hr | hr | hr
    · exact .inl ⟨hr, by rw [Int64.lt_iff_toInt_lt, toInt_max_add hr]; omega⟩
    · omega
    · exact .inr ⟨hr, by rw [Int64.lt_iff_toInt_lt, toInt_min_add hr]; omega⟩

theorem add_eq_ranged (l r : Int64) : add l r = ranged (l.toInt + r.toInt) :=
  guarded_eq_ranged (addOverflows_eq l r) (Int64.toInt_add l r)

theorem sub_eq_ranged (l r : Int64) : sub l r = ranged (l.toInt - r.toInt) :=
  guarded_eq_ranged (subOverflows_eq l r) (Int64.toInt_sub l r)

/-! ### Products and quotients -/

/-- The only quotient out of range is that of the least integer by minus one. -/
theorem fits_tdiv_iff (l r : Int64) (hr : r.toInt ≠ 0) :
    Numeral.fits (l.toInt.tdiv r.toInt) = true ↔ ¬ (l.toInt = -2 ^ 63 ∧ r.toInt = -1) := by
  have hl := l.toInt_lt
  have hl' := l.le_toInt
  rw [fits_iff]
  by_cases hr1 : r.toInt = -1
  · rw [hr1, Int.tdiv_neg, Int.tdiv_one]
    omega
  · have hle := Int.natAbs_tdiv_le_natAbs l.toInt r.toInt
    by_cases hr2 : r.toInt = 1
    · rw [hr2, Int.tdiv_one]
      omega
    · have hhalf : (l.toInt.tdiv r.toInt).natAbs ≤ l.toInt.natAbs / 2 := by
        rw [Int.natAbs_tdiv]
        exact Nat.div_le_div_left (by omega) (by decide)
      omega

theorem toInt_div_of_fits {l r : Int64} (h : Numeral.fits (l.toInt.tdiv r.toInt) = true) :
    (l / r).toInt = l.toInt.tdiv r.toInt := by
  rw [Int64.toInt_div, bmod_of_fits h]

theorem toInt_max_div {r : Int64} (h : r.toInt ≠ 0) :
    (max / r).toInt = (2 ^ 63 - 1 : Int).tdiv r.toInt :=
  toInt_div_of_fits ((fits_tdiv_iff max r h).2 fun ⟨hmax, _⟩ => absurd hmax (by decide))

theorem toInt_min_div {r : Int64} (h : 0 < r.toInt) :
    (min / r).toInt = (-2 ^ 63 : Int).tdiv r.toInt :=
  toInt_div_of_fits ((fits_tdiv_iff min r (by omega)).2 fun ⟨_, hr⟩ => by omega)

/-- A product with a positive factor passes the upper bound just if the other
factor passes the quotient. -/
theorem tdiv_lt_iff {a b c : Int} (ha : 0 ≤ a) (hb : 0 < b) : a.tdiv b < c ↔ a < c * b := by
  rw [Int.tdiv_eq_ediv_of_nonneg ha]
  exact Int.ediv_lt_iff_lt_mul hb

theorem lt_tdiv_neg_iff {a b c : Int} (ha : 0 ≤ a) (hb : 0 < b) :
    c < (-a).tdiv b ↔ c * b < -a := by
  have h := tdiv_lt_iff (c := -c) ha hb
  rw [Int.neg_mul] at h
  rw [Int.neg_tdiv]
  omega

theorem lt_tdiv_of_neg_iff {a b c : Int} (ha : 0 ≤ a) (hb : b < 0) :
    c < a.tdiv b ↔ a < c * b := by
  have h := tdiv_lt_iff (b := -b) (c := -c) ha (by omega)
  rw [Int.neg_mul_neg, Int.tdiv_neg] at h
  omega

theorem mulOverflows_eq (l r : Int64) :
    mulOverflows l r = !Numeral.fits (l.toInt * r.toInt) := by
  have hprod : ∀ n : Int, Numeral.fits n = false ↔ n < -2 ^ 63 ∨ 2 ^ 63 - 1 < n := by
    intro n
    rw [← Bool.not_eq_true, fits_iff]
    omega
  rw [Bool.eq_iff_iff, Bool.not_eq_true', hprod]
  simp only [mulOverflows, pos_iff, neg_iff]
  rcases lt_trichotomy l.toInt 0 with hl | hl | hl
  · rw [if_neg (by omega), if_pos hl]
    rcases lt_trichotomy r.toInt 0 with hr | hr | hr
    · have hsign : 0 < l.toInt * r.toInt := Int.mul_pos_of_neg_of_neg hl hr
      have hne : r ≠ 0 := fun h => by rw [h, Int64.toInt_zero] at hr; omega
      rw [if_neg (by omega)]
      simp only [bne_iff_ne, ne_eq, hne, not_false_eq_true, Bool.and_eq_true, true_and,
        decide_eq_true_eq, Int64.lt_iff_toInt_lt]
      rw [toInt_max_div (by omega), lt_tdiv_of_neg_iff (by decide) hl, Int.mul_comm]
      omega
    · have hzero : r = 0 := Int64.toInt_inj.1 hr
      rw [if_neg (by omega), hr]
      simp [hzero]
    · have hsign : l.toInt * r.toInt < 0 := Int.mul_neg_of_neg_of_pos hl hr
      rw [if_pos hr, decide_eq_true_eq, Int64.lt_iff_toInt_lt, toInt_min_div hr,
        lt_tdiv_neg_iff (by decide) hr]
      omega
  · rw [if_neg (by omega), if_neg (by omega), hl]
    simp
  · rw [if_pos hl]
    rcases lt_trichotomy r.toInt 0 with hr | hr | hr
    · have hsign : l.toInt * r.toInt < 0 := Int.mul_neg_of_pos_of_neg hl hr
      rw [if_neg (by omega), decide_eq_true_eq, Int64.lt_iff_toInt_lt, toInt_min_div hl,
        lt_tdiv_neg_iff (by decide) hl, Int.mul_comm]
      omega
    · have hmin := lt_tdiv_neg_iff (a := 2 ^ 63) (c := 0) (by decide) hl
      rw [if_neg (by omega), decide_eq_true_eq, Int64.lt_iff_toInt_lt, toInt_min_div hl, hr]
      omega
    · have hsign : 0 < l.toInt * r.toInt := Int.mul_pos hl hr
      rw [if_pos hr, decide_eq_true_eq, Int64.lt_iff_toInt_lt, toInt_max_div (by omega),
        tdiv_lt_iff (by decide) hr]
      omega

theorem divOverflows_eq (l r : Int64) (h : r.toInt ≠ 0) :
    divOverflows l r = !Numeral.fits (l.toInt.tdiv r.toInt) := by
  have hmin : l = min ↔ l.toInt = -2 ^ 63 := Int64.toInt_inj.symm
  have hone : r = -1 ↔ r.toInt = -1 := Int64.toInt_inj.symm
  rw [Bool.eq_iff_iff, Bool.not_eq_true', ← Bool.not_eq_true, fits_tdiv_iff l r h]
  simp only [divOverflows, Bool.and_eq_true, beq_iff_eq, hmin, hone]
  tauto

theorem mul_eq_ranged (l r : Int64) : mul l r = ranged (l.toInt * r.toInt) :=
  guarded_eq_ranged (mulOverflows_eq l r) (Int64.toInt_mul l r)

theorem div_eq_ranged (l r : Int64) (h : r ≠ 0) : div l r = ranged (l.toInt.tdiv r.toInt) := by
  have hr : r.toInt ≠ 0 := fun h0 => h (Int64.toInt_inj.1 h0)
  rw [div, if_neg (by simpa using h)]
  exact guarded_eq_ranged (divOverflows_eq l r hr) (Int64.toInt_div l r)

end Turtle.Checked
