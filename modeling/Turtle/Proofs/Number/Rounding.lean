import Mathlib.Tactic
import Turtle.Number.Binary64

/-!
What rounding does to a number.

A positive number lies between two powers of two, and from them the last of its
53 bits gets its weight. Counted in units of this weight it is rounded to an
integer that is no more than a half away. Hence no number of 53 bits is nearer
than the one that is chosen. All else follows from that: numbers of 53 bits stay,
rounding keeps the order, and it is off by at most one part in `2 ^ 53`.
-/

namespace Turtle.Binary64

/-! ### Nearest integers -/

theorem abs_nearest_sub_le (n : ℕ) {d : ℕ} (hd : 0 < d) : |(nearest n d : ℚ) - n / d| ≤ 1 / 2 := by
  have hd' : (0 : ℚ) < d := by exact_mod_cast hd
  have hquotient : (n : ℚ) / d = (n / d : ℕ) + (n % d : ℕ) / d := by
    have hparts : (n : ℚ) = d * (n / d : ℕ) + (n % d : ℕ) := by
      exact_mod_cast (Nat.div_add_mod n d).symm
    rw [hparts]
    field_simp
  rw [hquotient, nearest]
  split_ifs with hdown
  · have hle : 2 * (n % d) ≤ d := by
      simp only [Bool.or_eq_true, Bool.and_eq_true, decide_eq_true_eq, beq_iff_eq] at hdown
      omega
    have hle' : ((n % d : ℕ) : ℚ) / d ≤ 1 / 2 := by
      rw [div_le_div_iff₀ hd' two_pos, one_mul, mul_comm]
      exact_mod_cast hle
    rw [sub_add_cancel_left, abs_neg, abs_of_nonneg (by positivity)]
    exact hle'
  · simp only [Bool.or_eq_true, Bool.and_eq_true, decide_eq_true_eq, beq_iff_eq, not_or,
      not_lt] at hdown
    have hle : (1 : ℚ) / 2 ≤ (n % d : ℕ) / d := by
      rw [div_le_div_iff₀ two_pos hd', one_mul, mul_comm]
      exact_mod_cast hdown.1
    have hlt : ((n % d : ℕ) : ℚ) / d < 1 := by
      rw [div_lt_one hd']
      exact_mod_cast Nat.mod_lt n hd
    rw [Nat.cast_add, Nat.cast_one, add_sub_add_left_eq_sub, abs_of_nonneg (by linarith)]
    linarith

/-! ### The weight of the last bit -/

theorem twoPow_eq (k : ℕ) : twoPow k = 2 ^ k := rfl

theorem two_zpow_eq (e : ℤ) : (2 : ℚ) ^ e = (twoPow e.toNat : ℚ) / twoPow (-e).toNat := by
  rw [twoPow_eq, twoPow_eq, Nat.cast_pow, Nat.cast_pow, Nat.cast_ofNat, ← zpow_natCast,
    ← zpow_natCast, ← zpow_sub₀ two_ne_zero]
  congr 1
  omega

/-- A quotient in units of `2 ^ e` is the quotient of two integers. -/
theorem quotient_in_units (n d : ℕ) (e : ℤ) :
    ((n * twoPow (-e).toNat : ℕ) : ℚ) / (d * twoPow e.toNat : ℕ) = (n : ℚ) / d / 2 ^ e := by
  have hup : (twoPow e.toNat : ℚ) ≠ 0 := by
    rw [twoPow_eq]
    positivity
  rw [two_zpow_eq, Nat.cast_mul, Nat.cast_mul]
  field_simp

/-- With the exponent that is chosen, the quotient has the number of bits that is
asked for before its point. -/
theorem unitExponent_spec (p : ℕ) {n d : ℕ} (hn : n ≠ 0) (hd : d ≠ 0) :
    let e := unitExponent (p + 1) n d
    (2 : ℚ) ^ p * 2 ^ e ≤ (n : ℚ) / d ∧ (n : ℚ) / d < 2 ^ (p + 1) * 2 ^ e := by
  intro e
  have hd' : (0 : ℚ) < d := by exact_mod_cast Nat.pos_of_ne_zero hd
  have hnlow : (2 : ℚ) ^ n.log2 ≤ n := by exact_mod_cast Nat.log2_self_le hn
  have hnhigh : (n : ℚ) < 2 ^ (n.log2 + 1) := by exact_mod_cast Nat.lt_log2_self
  have hdlow : (2 : ℚ) ^ d.log2 ≤ d := by exact_mod_cast Nat.log2_self_le hd
  have hdhigh : (d : ℚ) < 2 ^ (d.log2 + 1) := by exact_mod_cast Nat.lt_log2_self
  let e₀ : ℤ := n.log2 - d.log2 - p
  have htest : n * twoPow (-e₀).toNat < twoPow p * (d * twoPow e₀.toNat) ↔
      (n : ℚ) / d < 2 ^ p * 2 ^ e₀ := by
    have hunits : (0 : ℚ) < (d * twoPow e₀.toNat : ℕ) := by
      rw [twoPow_eq]
      positivity
    rw [← div_lt_iff₀ (by positivity), ← quotient_in_units, div_lt_iff₀ hunits, twoPow_eq p]
    exact_mod_cast Iff.rfl
  have he : e = if (n : ℚ) / d < 2 ^ p * 2 ^ e₀ then e₀ - 1 else e₀ := by
    simp only [← htest]
    rfl
  rw [he]
  split_ifs with hsmall
  · -- the quotient is less than the power of two, but not less than half of it
    refine ⟨?_, ?_⟩
    · rw [le_div_iff₀ hd']
      calc (2 : ℚ) ^ p * 2 ^ (e₀ - 1) * d ≤ 2 ^ p * 2 ^ (e₀ - 1) * 2 ^ (d.log2 + 1) := by gcongr
        _ = 2 ^ n.log2 := by
            simp only [← zpow_natCast, ← zpow_add₀ (two_ne_zero' ℚ)]
            congr 1
            push_cast
            ring
        _ ≤ n := hnlow
    · refine hsmall.trans_eq ?_
      simp only [← zpow_natCast, ← zpow_add₀ (two_ne_zero' ℚ)]
      congr 1
      push_cast
      ring
  · refine ⟨not_lt.1 hsmall, ?_⟩
    rw [div_lt_iff₀ hd']
    calc (n : ℚ) < 2 ^ (n.log2 + 1) := hnhigh
      _ = 2 ^ (p + 1) * 2 ^ e₀ * 2 ^ d.log2 := by
          simp only [← zpow_natCast, ← zpow_add₀ (two_ne_zero' ℚ)]
          congr 1
          push_cast
          ring
      _ ≤ 2 ^ (p + 1) * 2 ^ e₀ * d := by gcongr

theorem roundQuotient_eq (bits n d : ℕ) :
    roundQuotient bits n d =
      units n d (unitExponent bits n d) * (2 : ℚ) ^ unitExponent bits n d := by
  rw [roundQuotient, Rat.mkRat_eq_div, two_zpow_eq]
  push_cast
  ring

/-! ### One rounding -/

/-- A positive number has been rounded to `k` units of `2 ^ e`. -/
structure InUnits (x : ℚ) (k e : ℤ) : Prop where
  low : 2 ^ 52 * 2 ^ e ≤ x
  high : x < 2 ^ 53 * 2 ^ e
  near : |k - x / 2 ^ e| ≤ 1 / 2

theorem round_of_nonneg {x : ℚ} (hx : 0 ≤ x) : round x = roundQuotient 53 x.num.natAbs x.den :=
  if_neg hx.not_gt

theorem exists_inUnits {x : ℚ} (hx : 0 < x) : ∃ k e, InUnits x k e ∧ round x = k * 2 ^ e := by
  have hnum : x.num.natAbs ≠ 0 := by simpa using hx.ne'
  have hquotient : (x.num.natAbs : ℚ) / x.den = x := by
    have hnonneg : 0 ≤ x.num := Rat.num_nonneg.2 hx.le
    rw [Nat.cast_natAbs, abs_of_nonneg hnonneg, Rat.num_div_den]
  obtain ⟨hlow, hhigh⟩ := unitExponent_spec 52 hnum x.den_ne_zero
  let e := unitExponent 53 x.num.natAbs x.den
  refine ⟨units x.num.natAbs x.den e, e, ⟨?_, ?_, ?_⟩, ?_⟩
  · rwa [hquotient] at hlow
  · rwa [hquotient] at hhigh
  · have hpos : 0 < x.den * twoPow e.toNat := Nat.mul_pos x.den_pos (Nat.two_pow_pos _)
    have hnear := abs_nearest_sub_le (x.num.natAbs * twoPow (-e).toNat) hpos
    rwa [quotient_in_units, hquotient] at hnear
  · rw [round_of_nonneg hx.le, roundQuotient_eq, Int.cast_natCast]

theorem round_zero : round 0 = 0 := by decide +kernel

theorem round_neg (x : ℚ) : round (-x) = -round x := by
  simp only [round, roundTo, Rat.num_neg_eq_neg_num, Rat.den_neg_eq_den, Int.natAbs_neg]
  rcases lt_trichotomy x 0 with hneg | rfl | hpos
  · rw [if_neg (by linarith), if_pos hneg, neg_neg]
  · decide +kernel
  · rw [if_pos (by linarith), if_neg (by linarith)]

/-! ### Numbers of 53 bits -/

/-- An integer of at most 53 bits, scaled by a power of two. -/
def Representable (x : ℚ) : Prop :=
  ∃ k e : ℤ, |k| ≤ 2 ^ 53 ∧ x = k * 2 ^ e

theorem Representable.neg {x : ℚ} (h : Representable x) : Representable (-x) := by
  obtain ⟨k, e, hk, rfl⟩ := h
  exact ⟨-k, e, by rwa [abs_neg], by rw [Int.cast_neg, neg_mul]⟩

theorem representable_intCast {n : ℤ} (h : |n| ≤ 2 ^ 53) : Representable n :=
  ⟨n, 0, h, by simp⟩

theorem representable_add_half {n : ℤ} (h : |2 * n + 1| ≤ 2 ^ 53) : Representable (n + 1 / 2) := by
  refine ⟨2 * n + 1, -1, h, ?_⟩
  rw [zpow_neg_one]
  push_cast
  ring

theorem representable_zero : Representable 0 := by
  simpa using representable_intCast (n := 0) (by simp)

theorem representable_one : Representable 1 := by
  simpa using representable_intCast (n := 1) (by norm_num)

theorem InUnits.bits {x : ℚ} {k e : ℤ} (h : InUnits x k e) : |k| ≤ 2 ^ 53 := by
  have hunit : (0 : ℚ) < 2 ^ e := by positivity
  have hlow : (2 : ℚ) ^ 52 ≤ x / 2 ^ e := (le_div_iff₀ hunit).2 h.low
  have hhigh : x / 2 ^ e < 2 ^ 53 := (div_lt_iff₀ hunit).2 h.high
  obtain ⟨hnear, hnear'⟩ := abs_le.1 h.near
  have hpos : ((-1 : ℤ) : ℚ) < k := by
    push_cast
    linarith
  have hlt : (k : ℚ) < (2 ^ 53 + 1 : ℤ) := by
    push_cast
    linarith
  rw [Int.cast_lt] at hpos hlt
  exact abs_le.2 ⟨by omega, by omega⟩

theorem representable_round (x : ℚ) : Representable (round x) := by
  have hpositive : ∀ {y : ℚ}, 0 < y → Representable (round y) := by
    intro y hy
    obtain ⟨k, e, hunits, hround⟩ := exists_inUnits hy
    exact ⟨k, e, hunits.bits, hround⟩
  rcases lt_trichotomy x 0 with hneg | rfl | hpos
  · rw [← neg_neg x, round_neg]
    exact (hpositive (neg_pos.2 hneg)).neg
  · rw [round_zero]
    exact representable_zero
  · exact hpositive hpos

/-! ### The nearest of them -/

section

variable {x y r : ℚ} {k e : ℤ}

theorem abs_units_sub (x : ℚ) (n e : ℤ) : |n * 2 ^ e - x| = |n - x / 2 ^ e| * 2 ^ e := by
  have hunit : (0 : ℚ) < 2 ^ e := by positivity
  rw [← abs_of_pos hunit, ← abs_mul, abs_of_pos hunit, sub_mul, div_mul_cancel₀ _ hunit.ne']

/-- Other integers than the one that was chosen are at least a half away. -/
theorem InUnits.near_multiple (h : InUnits x k e) (m : ℤ) :
    |k * 2 ^ e - x| ≤ |m * 2 ^ e - x| := by
  rw [abs_units_sub, abs_units_sub]
  refine mul_le_mul_of_nonneg_right ?_ (by positivity)
  by_cases hm : m = k
  · rw [hm]
  · have happart : (1 : ℚ) ≤ |(m : ℚ) - k| := by exact_mod_cast Int.one_le_abs (sub_ne_zero.2 hm)
    have htriangle := abs_sub_le (m : ℚ) (x / 2 ^ e) k
    have hnear := h.near
    rw [abs_sub_comm (x / 2 ^ e)] at htriangle
    linarith

/-- A number whose last bit weighs less than a unit is not larger than the least
number of so many units. -/
theorem InUnits.near_representable (h : InUnits x k e) (hr : Representable r) :
    |k * 2 ^ e - x| ≤ |r - x| := by
  obtain ⟨l, d, hl, rfl⟩ := hr
  rcases le_or_gt e d with hle | hlt
  · have hmultiple : (l : ℚ) * 2 ^ d = (l * 2 ^ (d - e).toNat : ℤ) * 2 ^ e := by
      push_cast
      rw [mul_assoc, ← zpow_natCast, ← zpow_add₀ two_ne_zero]
      congr 2
      omega
    rw [hmultiple]
    exact h.near_multiple _
  · have hsmall : (l : ℚ) * 2 ^ d ≤ 2 ^ 52 * 2 ^ e := by
      have hl' : (l : ℚ) ≤ 2 ^ 53 := by exact_mod_cast (abs_le.1 hl).2
      calc (l : ℚ) * 2 ^ d
        _ ≤ 2 ^ 53 * 2 ^ d := by gcongr
        _ = 2 ^ 52 * 2 ^ (d + 1) := by
          rw [zpow_add_one₀ two_ne_zero]
          ring
        _ ≤ 2 ^ 52 * 2 ^ e := by
          gcongr
          · norm_num
          · omega
    have hleast := h.near_multiple (2 ^ 52)
    rw [Int.cast_pow, Int.cast_ofNat] at hleast
    have hlow := h.low
    rw [abs_of_nonpos (by linarith : (2 : ℚ) ^ 52 * 2 ^ e - x ≤ 0)] at hleast
    rw [abs_of_nonpos (by linarith : (l : ℚ) * 2 ^ d - x ≤ 0)]
    linarith

/-- No number of 53 bits is nearer. -/
theorem abs_round_sub_le (x : ℚ) (hr : Representable r) : |round x - x| ≤ |r - x| := by
  have hpositive : ∀ {y s : ℚ}, 0 < y → Representable s → |round y - y| ≤ |s - y| := by
    intro y s hy hs
    obtain ⟨k, e, hunits, hround⟩ := exists_inUnits hy
    rw [hround]
    exact hunits.near_representable hs
  rcases lt_trichotomy x 0 with hneg | rfl | hpos
  · have hflipped := hpositive (neg_pos.2 hneg) hr.neg
    rwa [round_neg, ← neg_sub', ← neg_sub', abs_neg, abs_neg] at hflipped
  · rw [round_zero, sub_zero, abs_zero]
    exact abs_nonneg _
  · exact hpositive hpos hr

theorem round_eq_self (h : Representable x) : round x = x := by
  have hnear := abs_round_sub_le x h
  rw [sub_self, abs_zero] at hnear
  exact sub_eq_zero.1 (abs_nonpos_iff.1 hnear)

theorem add_le_of_nearer {l u : ℚ} (h : |u - x| ≤ |l - x|) (hlt : l < u) : l + u ≤ 2 * x := by
  have hself := le_abs_self (u - x)
  rcases abs_cases (l - x) with ⟨heq, -⟩ | ⟨heq, -⟩
  · linarith
  · linarith

theorem le_add_of_nearer {l u : ℚ} (h : |l - x| ≤ |u - x|) (hlt : l < u) : 2 * x ≤ l + u := by
  rw [← abs_neg, ← abs_neg (u - x), neg_sub', neg_sub'] at h
  have hflipped := add_le_of_nearer h (neg_lt_neg hlt)
  linarith

/-- If two numbers changed their order, then the first one would lie above the
middle between the results and the second one below. -/
theorem round_mono (h : x ≤ y) : round x ≤ round y := by
  by_contra hlt
  have hlt' : round y < round x := not_le.1 hlt
  have hx := abs_round_sub_le x (representable_round y)
  have hy := abs_round_sub_le y (representable_round x)
  rcases h.eq_or_lt with rfl | hxy
  · exact hlt le_rfl
  · have habove := add_le_of_nearer hx hlt'
    have hbelow := le_add_of_nearer hy hlt'
    linarith

theorem round_le_of_le (hr : Representable r) (h : x ≤ r) : round x ≤ r := by
  calc round x ≤ round r := round_mono h
    _ = r := round_eq_self hr

theorem le_round_of_le (hr : Representable r) (h : r ≤ x) : r ≤ round x := by
  calc r = round r := (round_eq_self hr).symm
    _ ≤ round x := round_mono h

/-- Half a unit is at most one part in `2 ^ 53`. -/
theorem abs_round_sub_le_div (x : ℚ) : |round x - x| ≤ |x| / 2 ^ 53 := by
  have hpositive : ∀ {y : ℚ}, 0 < y → |round y - y| ≤ y / 2 ^ 53 := by
    intro y hy
    obtain ⟨k, e, hunits, hround⟩ := exists_inUnits hy
    have hnear : |k - y / 2 ^ e| * 2 ^ e ≤ 1 / 2 * 2 ^ e :=
      mul_le_mul_of_nonneg_right hunits.near (by positivity)
    have hlow := hunits.low
    rw [hround, abs_units_sub, le_div_iff₀ (by positivity)]
    linarith
  rcases lt_trichotomy x 0 with hneg | rfl | hpos
  · have hflipped := hpositive (neg_pos.2 hneg)
    rwa [round_neg, ← neg_sub', abs_neg, ← abs_of_neg hneg] at hflipped
  · rw [round_zero, sub_zero, abs_zero, zero_div]
  · rw [abs_of_pos hpos]
    exact hpositive hpos

theorem eq_zero_of_round_eq_zero (h : round x = 0) : x = 0 := by
  have herror := abs_round_sub_le_div x
  rw [h, zero_sub, abs_neg] at herror
  have hzero : |x| ≤ 0 := by linarith
  exact abs_nonpos_iff.1 hzero

end

end Turtle.Binary64
