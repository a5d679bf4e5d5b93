import Turtle.Canvas.Basic

/-!
The places of the pixels.

All pixels of a canvas stand in one array, row behind row. Inside of the canvas
every pair of coordinates has a place of its own, from which column and row can
be told again: they are the remainder and the quotient by the width. So no two
coordinates share a place, and what is painted at a place is seen at one pixel
only.
-/

namespace Turtle.Canvas

variable {c : Canvas} {x y x' y' : Int}

/-- Every pixel of the canvas is there. -/
def Sized (c : Canvas) : Prop :=
  c.pixels.size = c.width * c.height

theorem contains_iff :
    c.contains x y = true ↔ ∃ a b : Nat, a < c.width ∧ b < c.height ∧ x = a ∧ y = b := by
  simp only [contains, Bool.and_eq_true, decide_eq_true_eq]
  constructor
  · rintro ⟨⟨⟨hx, hwidth⟩, hy⟩, hheight⟩
    exact ⟨x.toNat, y.toNat, by omega, by omega, by omega, by omega⟩
  · rintro ⟨a, b, ha, hb, rfl, rfl⟩
    omega

theorem index_natCast (a b : Nat) : c.index a b = b * c.width + a := rfl

theorem index_mod {a b : Nat} (h : a < c.width) : c.index a b % c.width = a := by
  rw [index_natCast, Nat.mul_comm, Nat.mul_add_mod, Nat.mod_eq_of_lt h]

theorem index_div {a b : Nat} (h : a < c.width) : c.index a b / c.width = b := by
  have hwidth : 0 < c.width := Nat.zero_lt_of_lt h
  rw [index_natCast, Nat.mul_comm, Nat.mul_add_div hwidth, Nat.div_eq_of_lt h, Nat.add_zero]

theorem index_lt {a b : Nat} (ha : a < c.width) (hb : b < c.height) :
    c.index a b < c.width * c.height := by
  have hwidth : 0 < c.width := Nat.zero_lt_of_lt ha
  rw [Nat.mul_comm, ← Nat.div_lt_iff_lt_mul hwidth, index_div ha]
  exact hb

/-- Different pixels stand at different places. -/
theorem index_inj (h : c.contains x y = true) (h' : c.contains x' y' = true)
    (hindex : c.index x y = c.index x' y') : x = x' ∧ y = y' := by
  obtain ⟨a, b, ha, -, rfl, rfl⟩ := contains_iff.1 h
  obtain ⟨a', b', ha', -, rfl, rfl⟩ := contains_iff.1 h'
  have hcolumn : a = a' := by rw [← index_mod (b := b) ha, hindex, index_mod ha']
  have hrow : b = b' := by rw [← index_div (b := b) ha, hindex, index_div ha']
  exact ⟨congrArg Nat.cast hcolumn, congrArg Nat.cast hrow⟩

/-- The same canvas with other pixels. -/
theorem pixel?_with_pixels (c : Canvas) (pixels : Array Color) (x y : Int) :
    { c with pixels }.pixel? x y = if c.contains x y then pixels[c.index x y]? else none := rfl

theorem pixel?_of_contains (h : c.contains x y = true) :
    c.pixel? x y = c.pixels[c.index x y]? := by
  rw [pixel?, if_pos h]

theorem contains_of_pixel? {color : Color} (h : c.pixel? x y = some color) :
    c.contains x y = true := by
  rw [pixel?] at h
  split at h
  · assumption
  · cases h

end Turtle.Canvas
