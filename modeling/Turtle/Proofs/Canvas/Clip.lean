import Turtle.Canvas.Line
import Turtle.Proofs.Number.Rounding

/-!
Clipping along one axis.

Along an axis a line meets either border of the rectangle after some part of its
way. What is kept of it begins where it enters, or at its beginning, and ends where
it leaves, or at its end. All of this is computed with rounding. As long as the
beginning is not further away than `2 ^ 52`, the place computed for a border is less
than two pixels off it. As the rectangle has a margin of one pixel around the
canvas, such a place is off the canvas or on its outermost pixel, and no pixel of
the canvas is won or lost.
-/

namespace Turtle.Segment

open Binary64

/-! ### Places on the way -/

/-- Where a line is after the part `t` of its way, if it begins at `x` and goes as
far as `d`. -/
def place (x d t : ℚ) : ℚ :=
  add x (mul t d)

/-- The part of the way after which the line meets a border. -/
def crossing (x d border : ℚ) : ℚ :=
  div (sub border x) d

section

variable {x d t u border low high : ℚ}

theorem place_mono (hd : 0 ≤ d) (h : t ≤ u) : place x d t ≤ place x d u :=
  round_mono (add_le_add le_rfl (round_mono (mul_le_mul_of_nonneg_right h hd)))

theorem crossing_mono (hd : 0 < d) (h : low ≤ high) : crossing x d low ≤ crossing x d high :=
  round_mono (div_le_div_of_nonneg_right (round_mono (sub_le_sub_right h x)) hd.le)

theorem place_zero (hx : Representable x) (d : ℚ) : place x d 0 = x := by
  rw [place, mul, zero_mul, round_zero, add, add_zero, round_eq_self hx]

theorem place_one (x : ℚ) (hd : Representable d) : place x d 1 = add x d := by
  rw [place, mul, one_mul, round_eq_self hd]

theorem place_still (hx : Representable x) (t : ℚ) : place x 0 t = x := by
  rw [place, mul, mul_zero, round_zero, add, add_zero, round_eq_self hx]

theorem place_neg (x d t : ℚ) : place (-x) (-d) t = -place x d t := by
  rw [place, place, mul, mul, mul_neg, round_neg, add, add, ← neg_add, round_neg]

theorem crossing_neg (x d border : ℚ) :
    crossing (-x) (-d) (-border) = crossing x d border := by
  rw [crossing, crossing, sub, sub, neg_sub_neg, ← neg_sub border x, round_neg, div, div,
    neg_div_neg_eq]

theorem abs_div_mul_sub_le (v : ℚ) (hd : d ≠ 0) : |div v d * d - v| ≤ |v| / 2 ^ 53 := by
  have herror : |div v d - v / d| ≤ |v / d| / 2 ^ 53 := abs_round_sub_le_div _
  have hscaled := mul_le_mul_of_nonneg_right herror (abs_nonneg d)
  rwa [← abs_mul, sub_mul, div_mul_cancel₀ _ hd, div_mul_eq_mul_div, ← abs_mul,
    div_mul_cancel₀ _ hd] at hscaled

/-- Three numbers about as large as the way to the border are rounded, and then a small one,
which hardly counts. -/
theorem abs_place_crossing_sub_le {far : ℚ} (hfar : 2 ^ 20 ≤ far) (hx : |x| ≤ far)
    (hborder : |border| ≤ 2 ^ 15) (hd : d ≠ 0) :
    |place x d (crossing x d border) - border| ≤ 7 * far / 2 ^ 54 := by
  have herror : ∀ {v bound : ℚ}, |v| ≤ bound → |Binary64.round v - v| ≤ bound / 2 ^ 53 :=
    fun hv => (abs_round_sub_le_div _).trans (div_le_div_of_nonneg_right hv (by positivity))
  have hsub : |sub border x - (border - x)| ≤ (far + 2 ^ 15) / 2 ^ 53 := by
    apply herror
    have hway := abs_sub border x
    linarith
  rw [place, crossing]
  generalize sub border x = way at *
  have hdiv := abs_div_mul_sub_le way hd
  generalize div way d = t at *
  rw [abs_le] at hx hborder hsub
  have hway : |way| ≤ far + 2 ^ 16 + far / 2 ^ 52 := abs_le.2 ⟨by linarith, by linarith⟩
  rw [abs_le] at hdiv
  have hmul : |mul t d - t * d| ≤ (far + 2 ^ 17 + far / 2 ^ 51) / 2 ^ 53 :=
    herror (abs_le.2 ⟨by linarith, by linarith⟩)
  generalize mul t d = step at *
  rw [abs_le] at hmul
  have hadd : |add x step - (x + step)| ≤ (2 ^ 16 + far / 2 ^ 51) / 2 ^ 53 :=
    herror (abs_le.2 ⟨by linarith, by linarith⟩)
  rw [abs_le] at hadd
  exact abs_le.2 ⟨by linarith, by linarith⟩

theorem abs_place_crossing_sub_lt (hx : |x| ≤ 2 ^ 52) (hborder : |border| ≤ 2 ^ 15) (hd : d ≠ 0) :
    |place x d (crossing x d border) - border| < 2 := by
  have herror := abs_place_crossing_sub_le (by norm_num) hx hborder hd
  linarith

/-! ### Cutting at both borders -/

/-- Cuts off what lies beyond the two borders of one axis. -/
def Part.between (part : Part) (x d low high : ℚ) : Option Part :=
  (part.cut (-d) (sub x low)).bind fun part => part.cut d (sub high x)

theorem Part.cut_enter (part : Part) {p : ℚ} (hp : p < 0) (q : ℚ) :
    part.cut p q =
      if part.last < div q p then none else some ⟨max part.first (div q p), part.last⟩ := by
  rw [Part.cut, if_neg hp.ne, if_pos hp, max_def_lt]

theorem Part.cut_leave (part : Part) {p : ℚ} (hp : 0 < p) (q : ℚ) :
    part.cut p q =
      if div q p < part.first then none else some ⟨part.first, min part.last (div q p)⟩ := by
  rw [Part.cut, if_neg hp.ne', if_neg hp.not_gt, min_comm, min_def_lt]

@[simp]
theorem Part.first_whole : Part.whole.first = 0 := rfl

@[simp]
theorem Part.last_whole : Part.whole.last = 1 := rfl

theorem div_sub_neg (x d border : ℚ) : div (sub x border) (-d) = crossing x d border := by
  have hflipped := crossing_neg x d border
  rwa [crossing, sub, neg_sub_neg] at hflipped

/-- What is kept of a way on which the rectangle is entered and left at these
parts. -/
def window (enter leave : ℚ) : Option Part :=
  if enter ≤ 1 ∧ 0 ≤ leave then some ⟨max 0 enter, min 1 leave⟩ else none

theorem between_forth (hd : 0 < d) (h : low ≤ high) :
    Part.whole.between x d low high = window (crossing x d low) (crossing x d high) := by
  have hle : crossing x d low ≤ crossing x d high := crossing_mono hd h
  have hhigh : div (sub high x) d = crossing x d high := rfl
  rw [Part.between, Part.cut_enter _ (neg_neg_of_pos hd), div_sub_neg, Part.first_whole,
    Part.last_whole, window]
  by_cases henter : crossing x d low ≤ 1
  · rw [if_neg henter.not_gt, Option.bind_some, Part.cut_leave _ hd, hhigh]
    by_cases hleave : 0 ≤ crossing x d high
    · rw [if_neg (max_le hleave hle).not_gt, if_pos ⟨henter, hleave⟩]
    · rw [if_pos (lt_max_of_lt_left (not_le.1 hleave)), if_neg (fun h => hleave h.2)]
  · rw [if_pos (not_le.1 henter), Option.bind_none, if_neg (fun h => henter h.1)]

/-- On the way back the rectangle is left at the lower border. -/
theorem between_back (hd : d < 0) (h : low ≤ high) :
    Part.whole.between x d low high = window (crossing x d high) (crossing x d low) := by
  have hle : crossing x d high ≤ crossing x d low := by
    rw [← crossing_neg x d high, ← crossing_neg x d low]
    exact crossing_mono (neg_pos.2 hd) (neg_le_neg h)
  have hhigh : div (sub high x) d = crossing x d high := rfl
  rw [Part.between, Part.cut_leave _ (neg_pos.2 hd), div_sub_neg, Part.first_whole,
    Part.last_whole, window]
  by_cases hleave : 0 ≤ crossing x d low
  · rw [if_neg hleave.not_gt, Option.bind_some, Part.cut_enter _ hd, hhigh]
    by_cases henter : crossing x d high ≤ 1
    · rw [if_neg (le_min henter hle).not_gt, if_pos ⟨henter, hleave⟩]
    · rw [if_pos (min_lt_of_left_lt (not_le.1 henter)), if_neg (fun h => henter h.1)]
  · rw [if_pos (not_le.1 hleave), Option.bind_none, if_neg (fun h => hleave h.2)]

/-! ### What is kept -/

/-- A border of the rectangle. -/
structure Border (b : ℚ) : Prop where
  bound : |b| ≤ 2 ^ 15
  representable : Representable b

theorem Border.neg {b : ℚ} (h : Border b) : Border (-b) :=
  ⟨by rw [abs_neg]; exact h.bound, h.representable.neg⟩

/-- Of a line that goes up it is kept that it begins and ends where it does, except
about the borders and beyond; if nothing is kept, then it does not come between
them. -/
def Keeps (x d low high : ℚ) : Option Part → Prop
  | some part => (∃ enter < low + 2, place x d part.first = max x enter) ∧
      (∃ leave > high - 2, place x d part.last = min (place x d 1) leave) ∧
      place x d part.first ≤ place x d part.last
  | none => place x d 1 ≤ low ∨ high ≤ x

theorem place_one_le_of_one_lt_crossing (hd : 0 < d) (hd' : Representable d)
    (hlow : Representable low) (h : 1 < crossing x d low) : place x d 1 ≤ low := by
  have hend : x + d ≤ low := by
    by_contra hbeyond
    have hexact : low - x ≤ d := by linarith only [hbeyond]
    have hway : sub low x ≤ d := round_le_of_le hd' hexact
    have hpart : crossing x d low ≤ 1 := round_le_of_le representable_one ((div_le_one hd).2 hway)
    exact h.not_ge hpart
  rw [place_one x hd']
  exact round_le_of_le hlow hend

theorem le_of_crossing_neg (hd : 0 < d) (h : crossing x d high < 0) : high ≤ x := by
  by_contra hbefore
  have hexact : 0 ≤ high - x := by linarith only [hbefore]
  have hway : 0 ≤ sub high x := le_round_of_le representable_zero hexact
  have hpart : 0 ≤ crossing x d high := le_round_of_le representable_zero (div_nonneg hway hd.le)
  exact h.not_ge hpart

theorem keeps_window (hx : Representable x) (hx' : |x| ≤ 2 ^ 52) (hd : 0 < d)
    (hd' : Representable d) (hlow : Border low) (hhigh : Border high) (h : low ≤ high) :
    Keeps x d low high (window (crossing x d low) (crossing x d high)) := by
  have hmono : Monotone (place x d) := fun _ _ => place_mono hd.le
  rw [window]
  split_ifs with hkept
  · obtain ⟨henter, hleave⟩ := hkept
    refine ⟨⟨place x d (crossing x d low), ?_, ?_⟩, ⟨place x d (crossing x d high), ?_, ?_⟩, ?_⟩
    · have herror := abs_lt.1 (abs_place_crossing_sub_lt hx' hlow.bound hd.ne')
      linarith
    · rw [hmono.map_max, place_zero hx]
    · have herror := abs_lt.1 (abs_place_crossing_sub_lt hx' hhigh.bound hd.ne')
      linarith
    · rw [hmono.map_min]
    · exact hmono (max_le (le_min zero_le_one hleave) (le_min henter (crossing_mono hd h)))
  · by_cases henter : crossing x d low ≤ 1
    · right
      exact le_of_crossing_neg hd (not_le.1 fun hleave => hkept ⟨henter, hleave⟩)
    · left
      exact place_one_le_of_one_lt_crossing hd hd' hlow.representable (not_le.1 henter)

theorem keeps_forth (hx : Representable x) (hx' : |x| ≤ 2 ^ 52) (hd : 0 < d)
    (hd' : Representable d) (hlow : Border low) (hhigh : Border high) (h : low ≤ high) :
    Keeps x d low high (Part.whole.between x d low high) := by
  rw [between_forth hd h]
  exact keeps_window hx hx' hd hd' hlow hhigh h

/-- Seen in a mirror, a line that goes down goes up. -/
theorem keeps_back (hx : Representable x) (hx' : |x| ≤ 2 ^ 52) (hd : d < 0)
    (hd' : Representable d) (hlow : Border low) (hhigh : Border high) (h : low ≤ high) :
    Keeps (-x) (-d) (-high) (-low) (Part.whole.between x d low high) := by
  rw [between_back hd h, ← crossing_neg x d high, ← crossing_neg x d low]
  exact keeps_window hx.neg (by rwa [abs_neg]) (neg_pos.2 hd) hd'.neg hhigh.neg hlow.neg
    (neg_le_neg h)

/-- A number from `k` to less than `k + 1` lies between the ends of a part. -/
def Meets (x d : ℚ) (k : ℤ) (part : Part) : Prop :=
  min (place x d part.first) (place x d part.last) < k + 1 ∧
    k ≤ max (place x d part.first) (place x d part.last)

variable {k : ℤ} {part? : Option Part}

/-- Nothing is lost between the borders: one pixel inside of them, what is kept
covers the same pixels as the whole line. -/
theorem Keeps.meets_forth (h : Keeps x d low high part?) (hlow : low + 1 ≤ k)
    (hhigh : k + 2 ≤ high) :
    (∃ part ∈ part?, Meets x d k part) ↔ x < k + 1 ∧ k ≤ place x d 1 := by
  cases part? with
  | none =>
      simp only [Option.not_mem_none, false_and, exists_false, false_iff, not_and]
      intro hfirst hlast
      rcases h with hbelow | habove <;> linarith
  | some part =>
      obtain ⟨⟨enter, henter, hfirst⟩, ⟨leave, hleave, hlast⟩, hle⟩ := h
      have henter' : enter < k + 1 := by linarith
      have hleave' : k ≤ leave := by linarith
      simp only [Option.mem_some, exists_eq_left', Meets]
      rw [min_eq_left hle, max_eq_right hle, hfirst, hlast, max_lt_iff, le_min_iff]
      simp only [henter', hleave', and_true]

theorem Keeps.meets_back (h : Keeps (-x) (-d) (-high) (-low) part?) (hlow : low + 1 ≤ k)
    (hhigh : k + 2 ≤ high) :
    (∃ part ∈ part?, Meets x d k part) ↔ place x d 1 < k + 1 ∧ k ≤ x := by
  cases part? with
  | none =>
      simp only [Option.not_mem_none, false_and, exists_false, false_iff, not_and]
      intro hlast hfirst
      simp only [Keeps, place_neg] at h
      rcases h with habove | hbelow <;> linarith
  | some part =>
      simp only [Keeps, place_neg] at h
      obtain ⟨⟨enter, henter, hfirst⟩, ⟨leave, hleave, hlast⟩, hle⟩ := h
      have henter' : k ≤ -enter := by linarith
      have hleave' : -leave < k + 1 := by linarith
      rw [neg_eq_iff_eq_neg, ← min_neg_neg, neg_neg] at hfirst
      rw [neg_eq_iff_eq_neg, ← max_neg_neg, neg_neg] at hlast
      simp only [Option.mem_some, exists_eq_left', Meets]
      rw [min_eq_right (neg_le_neg_iff.1 hle), max_eq_left (neg_le_neg_iff.1 hle), hfirst, hlast,
        max_lt_iff, le_min_iff]
      simp only [henter', hleave', and_true]

/-- A line that stays where it is is kept as a whole, or not at all. -/
theorem cut_zero (part : Part) (q : ℚ) : part.cut 0 q = if q < 0 then none else some part :=
  if_pos rfl

theorem between_still (part : Part) (hlow : low ≤ x) (hhigh : x ≤ high) :
    part.between x 0 low high = some part := by
  have hlow' : 0 ≤ sub x low := le_round_of_le representable_zero (sub_nonneg.2 hlow)
  have hhigh' : 0 ≤ sub high x := le_round_of_le representable_zero (sub_nonneg.2 hhigh)
  rw [Part.between, neg_zero, cut_zero, if_neg hlow'.not_gt, Option.bind_some, cut_zero,
    if_neg hhigh'.not_gt]

end

end Turtle.Segment
