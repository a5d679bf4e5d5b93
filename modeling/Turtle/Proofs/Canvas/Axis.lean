import Turtle.Proofs.Canvas.Clip

/-!
Lines along one axis of the canvas, in pixels.

The canvas has its origin in the middle, and the middle of an odd side is half a
pixel off the lower left corners of the pixels. Rounding keeps the order of numbers
and keeps all halves that are not too large. So it can always be told on which side
of a pixel of the canvas an end of a line lies; and if the line begins no further
away than `2 ^ 52`, then the same holds of the end that is computed from how far it
goes. Together with what clipping keeps, this gives the pixels that a line covers.
-/

namespace Turtle.Segment

open Binary64

/-! ### Coordinates of pixels -/

/-- Where a coordinate of the turtle lies, counted from the corner of the canvas. -/
def fromCorner (side : ℕ) (a : ℤ) : ℚ :=
  add (ofInt a) (Canvas.middle side)

/-- How far the turtle is from the lower left corner of its pixel: the origin of an
odd side lies in the middle of a pixel. -/
def inset (side : ℕ) : ℚ :=
  Canvas.middle side - (side / 2 : ℕ)

section

variable {side : ℕ} {a b j k : ℤ}

theorem inset_cases (side : ℕ) : inset side = 0 ∨ inset side = 1 / 2 := by
  have hparts : (side : ℚ) = 2 * (side / 2 : ℕ) + (side % 2 : ℕ) := by
    exact_mod_cast (Nat.div_add_mod side 2).symm
  rw [inset, Canvas.middle]
  rcases Nat.mod_two_eq_zero_or_one side with heven | hodd
  · left
    rw [heven, Nat.cast_zero] at hparts
    linarith
  · right
    rw [hodd, Nat.cast_one] at hparts
    linarith

theorem inset_nonneg (side : ℕ) : 0 ≤ inset side := by
  rcases inset_cases side with heven | hodd <;> linarith

theorem inset_lt_one (side : ℕ) : inset side < 1 := by
  rcases inset_cases side with heven | hodd <;> linarith

theorem representable_add_inset (side : ℕ) (hj : |j| ≤ 2 ^ 50) :
    Representable (j + inset side) := by
  rw [abs_le] at hj
  rcases inset_cases side with heven | hodd
  · rw [heven, add_zero]
    exact representable_intCast (abs_le.2 ⟨by omega, by omega⟩)
  · rw [hodd]
    exact representable_add_half (abs_le.2 ⟨by omega, by omega⟩)

/-! ### Ends on either side of a pixel -/

theorem fromCorner_mono (h : a ≤ b) : fromCorner side a ≤ fromCorner side b :=
  round_mono (add_le_add_left (round_mono (Int.cast_le.2 h)) _)

theorem representable_fromCorner (side : ℕ) (a : ℤ) : Representable (fromCorner side a) :=
  representable_round _

/-- If it is not too far away, only the half of an odd side can make a difference. -/
theorem fromCorner_eq_round (hside : side ≤ 2 ^ 14) (ha : |a + (side / 2 : ℕ)| ≤ 2 ^ 52) :
    fromCorner side a = Binary64.round ((a + (side / 2 : ℕ) : ℤ) + inset side) := by
  rw [abs_le] at ha
  have hint : ofInt a = a := round_eq_self (representable_intCast (abs_le.2 ⟨by omega, by omega⟩))
  rw [fromCorner, hint, add, inset, Int.cast_add, Int.cast_natCast]
  ring_nf

theorem fromCorner_near (hside : side ≤ 2 ^ 14) (hj : |j| ≤ 2 ^ 15) :
    fromCorner side (j - (side / 2 : ℕ)) = j + inset side := by
  have hcancel : j - (side / 2 : ℕ) + (side / 2 : ℕ) = j := sub_add_cancel ..
  rw [fromCorner_eq_round hside (by rw [hcancel]; exact hj.trans (by norm_num)), hcancel]
  exact round_eq_self (representable_add_inset side (hj.trans (by norm_num)))

theorem le_fromCorner (hside : side ≤ 2 ^ 14) (hj : |j| ≤ 2 ^ 15) (h : j ≤ a + (side / 2 : ℕ)) :
    j + inset side ≤ fromCorner side a := by
  rw [← fromCorner_near hside hj]
  exact fromCorner_mono (by omega)

theorem fromCorner_le (hside : side ≤ 2 ^ 14) (hj : |j| ≤ 2 ^ 15) (h : a + (side / 2 : ℕ) ≤ j) :
    fromCorner side a ≤ j + inset side := by
  rw [← fromCorner_near hside hj]
  exact fromCorner_mono (by omega)

/-- To tell on which side of a pixel an end is, it suffices to compare it with the
inner points of this pixel and of the next one. -/
theorem lt_succ_iff_of_inset {v : ℚ} {n : ℤ} (hle : n ≤ j → v ≤ j + inset side)
    (hge : j + 1 ≤ n → (j + 1 : ℤ) + inset side ≤ v) : v < j + 1 ↔ n ≤ j := by
  constructor
  · intro hlt
    by_contra hbeyond
    have hnext := hge (by omega)
    have hinset := inset_nonneg side
    push_cast at hnext
    linarith
  · intro h
    have hinset := inset_lt_one side
    linarith [hle h]

theorem le_iff_of_lt_iff {v : ℚ} {n : ℤ} (h : v < (j - 1 : ℤ) + 1 ↔ n ≤ j - 1) :
    j ≤ v ↔ j ≤ n := by
  rw [Int.cast_sub, Int.cast_one, sub_add_cancel] at h
  rw [← not_lt, h]
  omega

/-- However far away the turtle is, it can be told on which side of a pixel of the
canvas it is. -/
theorem fromCorner_lt_iff (hside : side ≤ 2 ^ 14) (hj : |j| < 2 ^ 15) :
    fromCorner side a < j + 1 ↔ a + (side / 2 : ℕ) ≤ j := by
  rw [abs_lt] at hj
  exact lt_succ_iff_of_inset (fromCorner_le hside (abs_le.2 ⟨by omega, by omega⟩))
    (le_fromCorner hside (abs_le.2 ⟨by omega, by omega⟩))

theorem le_fromCorner_iff (hside : side ≤ 2 ^ 14) (hj : |j| ≤ 2 ^ 14) :
    j ≤ fromCorner side a ↔ j ≤ a + (side / 2 : ℕ) := by
  rw [abs_le] at hj
  exact le_iff_of_lt_iff (fromCorner_lt_iff hside (abs_lt.2 ⟨by omega, by omega⟩))

/-! ### From end to end -/

/-- There is no room for another half. -/
theorem round_half_above : Binary64.round (2 ^ 52 + 1 / 2) = 2 ^ 52 := by decide +kernel

theorem abs_fromCorner_le (hside : side ≤ 2 ^ 14) (ha : |a + (side / 2 : ℕ)| ≤ 2 ^ 52) :
    |fromCorner side a| ≤ 2 ^ 52 := by
  rw [fromCorner_eq_round hside ha]
  have ha' : |((a + (side / 2 : ℕ) : ℤ) : ℚ)| ≤ 2 ^ 52 := by exact_mod_cast ha
  obtain ⟨hlow, hhigh⟩ := abs_le.1 ha'
  refine abs_le.2 ⟨le_round_of_le ?_ ?_, ?_⟩
  · exact Representable.neg ⟨1, 52, by norm_num, by norm_num⟩
  · have hinset := inset_nonneg side
    linarith
  · rw [← round_half_above]
    apply round_mono
    rcases inset_cases side with heven | hodd <;> linarith

theorem fromCorner_cases (hside : side ≤ 2 ^ 14) (ha : |a + (side / 2 : ℕ)| ≤ 2 ^ 52) :
    fromCorner side a = (a + (side / 2 : ℕ) : ℤ) + inset side ∨
      a + (side / 2 : ℕ) = 2 ^ 52 ∧ inset side = 1 / 2 ∧ fromCorner side a = 2 ^ 52 := by
  rw [fromCorner_eq_round hside ha]
  rw [abs_le] at ha
  rcases inset_cases side with heven | hodd
  · left
    rw [heven, add_zero]
    exact round_eq_self (representable_intCast (abs_le.2 ⟨by omega, by omega⟩))
  · rw [hodd]
    rcases ha.2.lt_or_eq with hlt | heq
    · left
      exact round_eq_self (representable_add_half (abs_le.2 ⟨by omega, by omega⟩))
    · right
      rw [heq, Int.cast_pow, Int.cast_ofNat]
      exact ⟨rfl, rfl, round_half_above⟩

/-- How far it is from the beginning of a line to a pixel of the canvas. -/
theorem representable_sub_fromCorner (hside : side ≤ 2 ^ 14)
    (ha : |a + (side / 2 : ℕ)| ≤ 2 ^ 52) (hj : |j| ≤ 2 ^ 15)
    (hexact : 0 ≤ j ∨ a + (side / 2 : ℕ) < 2 ^ 52) :
    Representable (j + inset side - fromCorner side a) := by
  rw [abs_le] at ha hj
  rcases fromCorner_cases hside (abs_le.2 ha) with hcase | ⟨hfar, hodd, hcase⟩
  · have hway : j + inset side - fromCorner side a = (j - (a + (side / 2 : ℕ)) : ℤ) := by
      rw [hcase]
      push_cast
      ring
    rw [hway]
    exact representable_intCast (abs_le.2 ⟨by omega, by omega⟩)
  · have hway : j + inset side - fromCorner side a = (j - 2 ^ 52 : ℤ) + 1 / 2 := by
      rw [hcase, hodd]
      push_cast
      ring
    rw [hway]
    exact representable_add_half (abs_le.2 ⟨by omega, by omega⟩)

/-- Where the line ends is computed from how far it goes. Whatever lies at an exact
distance from the beginning stays on its side of the end. -/
theorem add_sub_le {x y r : ℚ} (hr : Representable r) (hway : Representable (r - x)) (h : y ≤ r) :
    add x (sub y x) ≤ r := by
  have hle : sub y x ≤ r - x := round_le_of_le hway (by linarith)
  exact round_le_of_le hr (by linarith)

theorem le_add_sub {x y r : ℚ} (hr : Representable r) (hway : Representable (r - x)) (h : r ≤ y) :
    r ≤ add x (sub y x) := by
  have hle : r - x ≤ sub y x := le_round_of_le hway (by linarith)
  exact le_round_of_le hr (by linarith)

/-- How far a line goes. -/
def extent (side : ℕ) (a b : ℤ) : ℚ :=
  sub (fromCorner side b) (fromCorner side a)

theorem representable_extent (side : ℕ) (a b : ℤ) : Representable (extent side a b) :=
  representable_round _

theorem extent_nonneg (h : a ≤ b) : 0 ≤ extent side a b :=
  le_round_of_le representable_zero (sub_nonneg.2 (fromCorner_mono h))

theorem extent_nonpos (h : b ≤ a) : extent side a b ≤ 0 :=
  round_le_of_le representable_zero (sub_nonpos.2 (fromCorner_mono h))

theorem end_lt_iff (hside : side ≤ 2 ^ 14) (ha : |a + (side / 2 : ℕ)| ≤ 2 ^ 52) (hj : |j| < 2 ^ 15)
    (hexact : 0 ≤ j ∨ a + (side / 2 : ℕ) < 2 ^ 52) :
    place (fromCorner side a) (extent side a b) 1 < j + 1 ↔ b + (side / 2 : ℕ) ≤ j := by
  rw [place_one _ (representable_extent side a b), extent]
  rw [abs_lt] at hj
  have hj' : |j| ≤ 2 ^ 15 := abs_le.2 ⟨by omega, by omega⟩
  have hnext : |j + 1| ≤ 2 ^ 15 := abs_le.2 ⟨by omega, by omega⟩
  apply lt_succ_iff_of_inset
  · intro h
    exact add_sub_le (representable_add_inset side (hj'.trans (by norm_num)))
      (representable_sub_fromCorner hside ha hj' hexact) (fromCorner_le hside hj' h)
  · intro h
    exact le_add_sub (representable_add_inset side (hnext.trans (by norm_num)))
      (representable_sub_fromCorner hside ha hnext (by omega)) (le_fromCorner hside hnext h)

theorem le_end_iff (hside : side ≤ 2 ^ 14) (ha : |a + (side / 2 : ℕ)| ≤ 2 ^ 52) (hj : |j| ≤ 2 ^ 14)
    (hexact : a + (side / 2 : ℕ) < 2 ^ 52) :
    j ≤ place (fromCorner side a) (extent side a b) 1 ↔ j ≤ b + (side / 2 : ℕ) := by
  rw [abs_le] at hj
  exact le_iff_of_lt_iff (end_lt_iff hside ha (abs_lt.2 ⟨by omega, by omega⟩) (.inr hexact))

theorem border_low : Border (-1) :=
  ⟨by norm_num, representable_one.neg⟩

theorem border_high (hside : side ≤ 2 ^ 14) : Border (side + 1) := by
  have hint : (side : ℚ) + 1 = (side + 1 : ℤ) := by push_cast; rfl
  have hsmall : |(side + 1 : ℤ)| ≤ 2 ^ 15 := abs_le.2 ⟨by omega, by omega⟩
  rw [hint]
  exact ⟨by exact_mod_cast hsmall, representable_intCast (hsmall.trans (by norm_num))⟩

/-- If rounding leaves no way between the ends, then either both are on the pixel or
both are on the same side of it. -/
theorem meets_still_iff (hside : side ≤ 2 ^ 14) (hk : 0 ≤ k) (hk' : k < side)
    (h : fromCorner side a = fromCorner side b) :
    (∃ part ∈ Part.whole.between (fromCorner side a) 0 (-1) (side + 1),
        Meets (fromCorner side a) 0 k part) ↔
      min (a + (side / 2 : ℕ)) (b + (side / 2 : ℕ)) ≤ k ∧
        k ≤ max (a + (side / 2 : ℕ)) (b + (side / 2 : ℕ)) := by
  have hlt : ∀ {c : ℤ}, fromCorner side c < k + 1 ↔ c + (side / 2 : ℕ) ≤ k :=
    fromCorner_lt_iff hside (abs_lt.2 ⟨by omega, by omega⟩)
  have hle : ∀ {c : ℤ}, k ≤ fromCorner side c ↔ k ≤ c + (side / 2 : ℕ) :=
    le_fromCorner_iff hside (abs_le.2 ⟨by omega, by omega⟩)
  rw [min_le_iff, le_max_iff, ← hlt, ← hlt, ← hle, ← hle, ← h, or_self, or_self]
  simp only [Meets, place_still (representable_fromCorner side a), min_self, max_self]
  constructor
  · rintro ⟨part, -, hmeets⟩
    exact hmeets
  · rintro ⟨hfirst, hlast⟩
    have hlow : (0 : ℚ) ≤ k := Int.cast_nonneg hk
    have hhigh : (k : ℚ) < side := by exact_mod_cast hk'
    exact ⟨_, between_still _ (by linarith) (by linarith), hfirst, hlast⟩

/-- On the canvas, what is kept of a line covers the pixels that lie between the
pixels of its ends. -/
theorem meets_iff (hside : side ≤ 2 ^ 14) (ha : |a + (side / 2 : ℕ)| ≤ 2 ^ 52) (hk : 0 ≤ k)
    (hk' : k < side) :
    (∃ part ∈ Part.whole.between (fromCorner side a) (extent side a b) (-1) (side + 1),
        Meets (fromCorner side a) (extent side a b) k part) ↔
      min (a + (side / 2 : ℕ)) (b + (side / 2 : ℕ)) ≤ k ∧
        k ≤ max (a + (side / 2 : ℕ)) (b + (side / 2 : ℕ)) := by
  have hrange : |k| ≤ 2 ^ 14 := abs_le.2 ⟨by omega, by omega⟩
  have hx := representable_fromCorner side a
  have hx' := abs_fromCorner_le hside ha
  have hd := representable_extent side a b
  have hlow : (-1 : ℚ) + 1 ≤ k := by
    rw [neg_add_cancel]
    exact_mod_cast hk
  have hhigh : (k : ℚ) + 2 ≤ side + 1 := by
    have hnext : (k : ℚ) + 1 ≤ side := by exact_mod_cast hk'
    linarith
  have hborders : (-1 : ℚ) ≤ side + 1 := by linarith
  rcases lt_trichotomy (extent side a b) 0 with hback | hstill | hforth
  · have hle : b ≤ a := le_of_not_ge fun h => hback.not_ge (extent_nonneg h)
    have hkept := keeps_back hx hx' hback hd border_low (border_high hside) hborders
    rw [hkept.meets_back hlow hhigh, le_fromCorner_iff hside hrange,
      end_lt_iff hside ha (hrange.trans_lt (by norm_num)) (.inl hk), min_eq_right (by omega),
      max_eq_left (by omega)]
  · rw [hstill]
    exact meets_still_iff hside hk hk' (sub_eq_zero.1 (eq_zero_of_round_eq_zero hstill)).symm
  · have hle : a ≤ b := le_of_not_ge fun h => hforth.not_ge (extent_nonpos h)
    have hkept := keeps_forth hx hx' hforth hd border_low (border_high hside) hborders
    rw [hkept.meets_forth hlow hhigh, fromCorner_lt_iff hside (hrange.trans_lt (by norm_num)),
      min_eq_left (by omega), max_eq_right (by omega)]
    -- the beginning is before the pixel, and so not as far away as possible
    exact and_congr_right fun hfirst => le_end_iff hside ha hrange (by omega)

end

end Turtle.Segment
