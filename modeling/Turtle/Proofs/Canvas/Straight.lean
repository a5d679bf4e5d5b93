import Turtle.Number.Series
import Turtle.Proofs.Canvas.Axis
import Turtle.Proofs.Canvas.Stroke

/-!
Lines along a row or a column of the canvas.

Along the axis on which such a line stays, nothing is cut off and nothing is
rounded. What is kept of the other axis covers, as far as it is on the canvas, the
pixels between those of the ends of the whole line. So the line paints just these.
-/

namespace Turtle

/-! ### Points -/

namespace Line

section

variable {u₀ u₁ v : Int} {points : List (Int × Int)} {p : Int × Int}

/-- A row of length one has no other point than its ends. -/
theorem Row.eq_of_level (h : Row u₀ v u₁ v points) (hp : p ∈ points) : p.2 = v := by
  by_cases hends : u₀ = u₁
  · have hlength : points.length = 1 := by
      rw [h.length, hends]
      omega
    obtain ⟨q, hq⟩ := List.length_eq_one_iff.1 hlength
    have hfirst := h.first
    rw [hq, List.mem_singleton] at hp hfirst
    rw [hp, ← hfirst]
  · have hnear := h.near p hp
    rw [sub_self, zero_mul, sub_zero, Int.natAbs_mul] at hnear
    by_contra hne
    have hoff : 1 ≤ (p.2 - v).natAbs := by omega
    have hmore := Nat.mul_le_mul_left (u₁ - u₀).natAbs hoff
    omega

theorem Row.mem_iff (h : Row u₀ v u₁ v points) :
    p ∈ points ↔ p.2 = v ∧ min u₀ u₁ ≤ p.1 ∧ p.1 ≤ max u₀ u₁ := by
  have haxis : (∃ q ∈ points, q.1 = p.1) ↔ min u₀ u₁ ≤ p.1 ∧ p.1 ≤ max u₀ u₁ := by
    rw [← List.mem_map, h.axis, mem_upward]
    omega
  rw [← haxis]
  constructor
  · intro hp
    exact ⟨h.eq_of_level hp, p, hp, rfl⟩
  · rintro ⟨hlevel, q, hq, hcolumn⟩
    rwa [← Prod.ext hcolumn ((h.eq_of_level hq).trans hlevel.symm)]

end

theorem mem_points_level (x₀ x₁ y : Int) (p : Int × Int) :
    p ∈ points x₀ y x₁ y ↔ p.2 = y ∧ min x₀ x₁ ≤ p.1 ∧ p.1 ≤ max x₀ x₁ := by
  rcases points_cases x₀ y x₁ y with ⟨-, hrow⟩ | ⟨hsteep, row, hpoints, hrow⟩
  · exact hrow.mem_iff
  · obtain rfl : x₀ = x₁ := by omega
    have hswap : p ∈ row.map swap ↔ swap p ∈ row := List.mem_map_of_involutive (fun _ => rfl)
    rw [hpoints, hswap, hrow.mem_iff]
    simp only [swap]
    omega

theorem mem_points_upright (x y₀ y₁ : Int) (p : Int × Int) :
    p ∈ points x y₀ x y₁ ↔ p.1 = x ∧ min y₀ y₁ ≤ p.2 ∧ p.2 ≤ max y₀ y₁ := by
  rcases points_cases x y₀ x y₁ with ⟨hflat, -⟩ | ⟨-, row, hpoints, hrow⟩
  · omega
  · have hswap : p ∈ row.map swap ↔ swap p ∈ row := List.mem_map_of_involutive (fun _ => rfl)
    rw [hpoints, hswap, hrow.mem_iff]
    rfl

end Line

/-! ### Clipping -/

namespace Segment

open Binary64

variable {x y left bottom right top : ℚ}

/-- The rectangle cuts one axis after the other. -/
theorem clip?_eq (s : Segment) (left bottom right top : ℚ) :
    let dx := sub s.x₁ s.x₀
    let dy := sub s.y₁ s.y₀
    s.clip? left bottom right top =
      ((Part.whole.between s.x₀ dx left right).bind fun part =>
        part.between s.y₀ dy bottom top).map fun part =>
          ⟨place s.x₀ dx part.first, place s.y₀ dy part.first,
            place s.x₀ dx part.last, place s.y₀ dy part.last⟩ := by
  simp only [clip?, Part.between, Option.map_eq_bind, Option.bind_assoc]
  rfl

theorem sub_self_eq_zero (x : ℚ) : sub x x = 0 := by
  rw [sub, sub_self, round_zero]

theorem clip?_level (hy : Representable y) (hbottom : bottom ≤ y) (htop : y ≤ top) (x₀ x₁ : ℚ) :
    let dx := sub x₁ x₀
    Segment.clip? ⟨x₀, y, x₁, y⟩ left bottom right top =
      (Part.whole.between x₀ dx left right).map fun part =>
        ⟨place x₀ dx part.first, y, place x₀ dx part.last, y⟩ := by
  simp only [clip?_eq, sub_self_eq_zero, between_still _ hbottom htop, place_still hy,
    Option.bind_fun_some]

theorem clip?_upright (hx : Representable x) (hleft : left ≤ x) (hright : x ≤ right) (y₀ y₁ : ℚ) :
    let dy := sub y₁ y₀
    Segment.clip? ⟨x, y₀, x, y₁⟩ left bottom right top =
      (Part.whole.between y₀ dy bottom top).map fun part =>
        ⟨x, place y₀ dy part.first, x, place y₀ dy part.last⟩ := by
  simp only [clip?_eq, sub_self_eq_zero, between_still _ hleft hright, place_still hx,
    Option.bind_some]

theorem floor_le_iff {q : ℚ} {k : ℤ} : q.floor ≤ k ↔ q < k + 1 := by
  rw [← Int.lt_add_one_iff, Rat.floor_lt_iff, Int.cast_add, Int.cast_one]

theorem meets_iff_floor (x d : ℚ) (k : ℤ) (part : Part) :
    Meets x d k part ↔
      min (place x d part.first).floor (place x d part.last).floor ≤ k ∧
        k ≤ max (place x d part.first).floor (place x d part.last).floor := by
  simp only [Meets, min_le_iff, min_lt_iff, le_max_iff, floor_le_iff, Rat.le_floor_iff]

/-- Within the canvas the turtle is on the pixel that one would expect. -/
theorem fromCorner_within {side : ℕ} {a : ℤ} (hside : side ≤ 2 ^ 14)
    (hlow : 0 ≤ a + (side / 2 : ℕ)) (hhigh : a + (side / 2 : ℕ) < side) :
    (fromCorner side a).floor = a + (side / 2 : ℕ) ∧
      -1 ≤ fromCorner side a ∧ fromCorner side a ≤ side + 1 := by
  have hfirst := (le_fromCorner_iff (a := a) hside (abs_le.2 ⟨by omega, by omega⟩)).2 le_rfl
  have hlast := (fromCorner_lt_iff (a := a) hside (abs_lt.2 ⟨by omega, by omega⟩)).2 le_rfl
  refine ⟨le_antisymm (floor_le_iff.2 hlast) (Rat.le_floor_iff.2 hfirst), ?_, ?_⟩
  · have hlow' : (0 : ℚ) ≤ (a + (side / 2 : ℕ) : ℤ) := Int.cast_nonneg hlow
    linarith
  · have hhigh' : ((a + (side / 2 : ℕ) : ℤ) : ℚ) ≤ (side : ℤ) := Int.cast_le.2 hhigh.le
    rw [Int.cast_natCast] at hhigh'
    linarith

theorem sub_fromCorner (side : ℕ) (a b : ℤ) :
    sub (fromCorner side b) (fromCorner side a) = extent side a b := rfl

end Segment

namespace Canvas

open Binary64 Segment

/-! ### Lines -/

section

variable {c : Canvas} {a b y : ℤ} {p : Int × Int}

theorem visiblePart?_eq (hpen : c.penSize = 1) (x₀ y₀ x₁ y₁ : ℤ) :
    c.visiblePart? ⟨ofInt x₀, ofInt y₀, ofInt x₁, ofInt y₁⟩ =
      Segment.clip? ⟨fromCorner c.width x₀, fromCorner c.height y₀,
        fromCorner c.width x₁, fromCorner c.height y₁⟩ (-1) (-1) (c.width + 1) (c.height + 1) := by
  rw [visiblePart?, hpen, Nat.cast_one]
  rfl

theorem covers_one {p q : Int × Int} : Covers 1 p q ↔ p = q := by
  rw [Covers, Prod.ext_iff]
  omega

theorem mem_linePoints_level (hpen : c.penSize = 1) (hheight : c.height ≤ 2 ^ 14)
    (hlow : 0 ≤ y + (c.height / 2 : ℕ)) (hhigh : y + (c.height / 2 : ℕ) < c.height) :
    p ∈ c.linePoints ⟨ofInt a, ofInt y, ofInt b, ofInt y⟩ ↔
      p.2 = y + (c.height / 2 : ℕ) ∧
        ∃ part ∈ Part.whole.between (fromCorner c.width a) (extent c.width a b) (-1) (c.width + 1),
          Meets (fromCorner c.width a) (extent c.width a b) p.1 part := by
  obtain ⟨hfloor, hbottom, htop⟩ := fromCorner_within hheight hlow hhigh
  rw [linePoints, visiblePart?_eq hpen, clip?_level (representable_fromCorner ..) hbottom htop]
  simp only [sub_fromCorner, meets_iff_floor]
  cases Part.whole.between (fromCorner c.width a) (extent c.width a b) (-1) (c.width + 1) with
  | none => simp
  | some part => simp [Line.mem_points_level, hfloor]

theorem mem_linePoints_upright (hpen : c.penSize = 1) (hwidth : c.width ≤ 2 ^ 14)
    (hlow : 0 ≤ y + (c.width / 2 : ℕ)) (hhigh : y + (c.width / 2 : ℕ) < c.width) :
    p ∈ c.linePoints ⟨ofInt y, ofInt a, ofInt y, ofInt b⟩ ↔
      p.1 = y + (c.width / 2 : ℕ) ∧
        ∃ part ∈
          Part.whole.between (fromCorner c.height a) (extent c.height a b) (-1) (c.height + 1),
          Meets (fromCorner c.height a) (extent c.height a b) p.2 part := by
  obtain ⟨hfloor, hleft, hright⟩ := fromCorner_within hwidth hlow hhigh
  rw [linePoints, visiblePart?_eq hpen, clip?_upright (representable_fromCorner ..) hleft hright]
  simp only [sub_fromCorner, meets_iff_floor]
  cases Part.whole.between (fromCorner c.height a) (extent c.height a b) (-1) (c.height + 1) with
  | none => simp
  | some part => simp [Line.mem_points_upright, hfloor]

end

end Canvas

/-! ### Straight lines -/

/-- Goes to a point without drawing, and draws a line from there to another one. -/
def Instruction.line (x₀ y₀ x₁ y₁ : Int64) : List Instruction :=
  [⟨.penUp, []⟩, ⟨.setXY, [x₀, y₀]⟩, ⟨.penDown, []⟩, ⟨.setXY, [x₁, y₁]⟩]

namespace Canvas

open Binary64 Segment

section

variable {c : Canvas}

/-- Where the turtle is before and after does not matter to a line. -/
theorem pixel?_drawLine_between (hsized : c.Sized) (hpen : c.penSize = 1) (x y x' y' : ℚ)
    (s : Segment) (q : Int × Int) :
    { { c with x, y, penDown := true }.drawLine s with x := x', y := y' }.pixel? q.1 q.2 =
      if c.contains q.1 q.2 = true ∧ q ∈ c.linePoints s then some c.pen
      else c.pixel? q.1 q.2 := by
  have hdrawn := pixel?_drawLine hsized hpen.ge s q
  simp only [hpen, covers_one, exists_eq_right] at hdrawn
  exact hdrawn

variable [Circle]

/-- The way to the first point leaves no trace. -/
theorem foldl_line (c : Canvas) (x₀ y₀ x₁ y₁ : Int64) :
    (Instruction.line x₀ y₀ x₁ y₁).foldl execute c =
      { { c with x := ofInt64 x₀, y := ofInt64 y₀, penDown := true }.drawLine
          ⟨ofInt64 x₀, ofInt64 y₀, ofInt64 x₁, ofInt64 y₁⟩ with
        x := ofInt64 x₁
        y := ofInt64 y₁ } := by
  simp [Instruction.line, execute, moveTo, Instruction.argument]

theorem pixel?_line (hsized : c.Sized) (hpen : c.penSize = 1) (x₀ y₀ x₁ y₁ : Int64)
    (q : Int × Int) :
    ((Instruction.line x₀ y₀ x₁ y₁).foldl execute c).pixel? q.1 q.2 =
      if c.contains q.1 q.2 = true ∧
          q ∈ c.linePoints ⟨ofInt64 x₀, ofInt64 y₀, ofInt64 x₁, ofInt64 y₁⟩ then
        some c.pen
      else c.pixel? q.1 q.2 := by
  rw [foldl_line]
  exact pixel?_drawLine_between hsized hpen _ _ _ _ _ q

variable {a b y : Int64}

theorem pixel?_line_level (hsized : c.Sized) (hpen : c.penSize = 1) (hwidth : c.width ≤ 16384)
    (hheight : c.height ≤ 16384) (hlow : 0 ≤ y.toInt + c.height / 2)
    (hhigh : y.toInt + c.height / 2 < c.height) (ha : |a.toInt + c.width / 2| ≤ 2 ^ 52)
    (i j : ℤ) :
    ((Instruction.line a y b y).foldl execute c).pixel? i j =
      if c.contains i j = true ∧ j = y.toInt + c.height / 2 ∧
          min a.toInt b.toInt + c.width / 2 ≤ i ∧ i ≤ max a.toInt b.toInt + c.width / 2 then
        some c.pen
      else c.pixel? i j := by
  rw [pixel?_line hsized hpen a y b y (i, j)]
  refine if_congr (and_congr_right fun hinside => ?_) rfl rfl
  obtain ⟨k, l, hk, hl, rfl, rfl⟩ := contains_iff.1 hinside
  rw [ofInt64, ofInt64, ofInt64, mem_linePoints_level hpen hheight hlow hhigh,
    meets_iff hwidth ha (by omega) (by omega), min_add_add_right, max_add_add_right]
  rfl

theorem pixel?_line_upright (hsized : c.Sized) (hpen : c.penSize = 1) (hwidth : c.width ≤ 16384)
    (hheight : c.height ≤ 16384) (hlow : 0 ≤ y.toInt + c.width / 2)
    (hhigh : y.toInt + c.width / 2 < c.width) (ha : |a.toInt + c.height / 2| ≤ 2 ^ 52)
    (i j : ℤ) :
    ((Instruction.line y a y b).foldl execute c).pixel? i j =
      if c.contains i j = true ∧ i = y.toInt + c.width / 2 ∧
          min a.toInt b.toInt + c.height / 2 ≤ j ∧ j ≤ max a.toInt b.toInt + c.height / 2 then
        some c.pen
      else c.pixel? i j := by
  rw [pixel?_line hsized hpen y a y b (i, j)]
  refine if_congr (and_congr_right fun hinside => ?_) rfl rfl
  obtain ⟨k, l, hk, hl, rfl, rfl⟩ := contains_iff.1 hinside
  rw [ofInt64, ofInt64, ofInt64, mem_linePoints_upright hpen hwidth hlow hhigh,
    meets_iff hheight ha (by omega) (by omega), min_add_add_right, max_add_add_right]
  rfl

/-- However far away a line begins, it stays in its row. -/
theorem pixel?_line_off_level (hsized : c.Sized) (hpen : c.penSize = 1)
    (hheight : c.height ≤ 16384) (hlow : 0 ≤ y.toInt + c.height / 2)
    (hhigh : y.toInt + c.height / 2 < c.height) {j : ℤ} (hj : j ≠ y.toInt + c.height / 2) (i : ℤ) :
    ((Instruction.line a y b y).foldl execute c).pixel? i j = c.pixel? i j := by
  rw [pixel?_line hsized hpen a y b y (i, j), if_neg]
  rintro ⟨-, hmem⟩
  rw [ofInt64, ofInt64, ofInt64, mem_linePoints_level hpen hheight hlow hhigh] at hmem
  exact hj hmem.1

theorem pixel?_line_off_upright (hsized : c.Sized) (hpen : c.penSize = 1)
    (hwidth : c.width ≤ 16384) (hlow : 0 ≤ y.toInt + c.width / 2)
    (hhigh : y.toInt + c.width / 2 < c.width) {i : ℤ} (hi : i ≠ y.toInt + c.width / 2) (j : ℤ) :
    ((Instruction.line y a y b).foldl execute c).pixel? i j = c.pixel? i j := by
  rw [pixel?_line hsized hpen y a y b (i, j), if_neg]
  rintro ⟨-, hmem⟩
  rw [ofInt64, ofInt64, ofInt64, mem_linePoints_upright hpen hwidth hlow hhigh] at hmem
  exact hi hmem.1

end

/-- A line along a row that the canvas has changes nothing off that row. If it does
not begin further away than `2 ^ 52`, it gives the color of the pen to exactly those
pixels of the row which lie on the canvas and between the pixels of its ends, and
these may be as far away as they like on the other side. The same holds of a line
along a column. -/
theorem line_paints_visible [Circle] {c : Canvas} (hsized : c.Sized) (hpen : c.penSize = 1)
    (hwidth : c.width ≤ 16384) (hheight : c.height ≤ 16384) (a b y : Int64) :
    (0 ≤ y.toInt + c.height / 2 ∧ y.toInt + c.height / 2 < c.height →
      let drawn := (Instruction.line a y b y).foldl execute c
      (∀ i j : ℤ, j ≠ y.toInt + c.height / 2 → drawn.pixel? i j = c.pixel? i j) ∧
        (|a.toInt + c.width / 2| ≤ 2 ^ 52 → ∀ i j : ℤ, drawn.pixel? i j =
          if c.contains i j = true ∧ j = y.toInt + c.height / 2 ∧
              min a.toInt b.toInt + c.width / 2 ≤ i ∧ i ≤ max a.toInt b.toInt + c.width / 2 then
            some c.pen
          else c.pixel? i j)) ∧
      (0 ≤ y.toInt + c.width / 2 ∧ y.toInt + c.width / 2 < c.width →
        let drawn := (Instruction.line y a y b).foldl execute c
        (∀ i j : ℤ, i ≠ y.toInt + c.width / 2 → drawn.pixel? i j = c.pixel? i j) ∧
          (|a.toInt + c.height / 2| ≤ 2 ^ 52 → ∀ i j : ℤ, drawn.pixel? i j =
            if c.contains i j = true ∧ i = y.toInt + c.width / 2 ∧
                min a.toInt b.toInt + c.height / 2 ≤ j ∧
                j ≤ max a.toInt b.toInt + c.height / 2 then
              some c.pen
            else c.pixel? i j)) := by
  constructor
  · rintro ⟨hlow, hhigh⟩
    exact ⟨fun i j hj => pixel?_line_off_level hsized hpen hheight hlow hhigh hj i,
      pixel?_line_level hsized hpen hwidth hheight hlow hhigh⟩
  · rintro ⟨hlow, hhigh⟩
    exact ⟨fun i j hi => pixel?_line_off_upright hsized hpen hwidth hlow hhigh hi j,
      pixel?_line_upright hsized hpen hwidth hheight hlow hhigh⟩

/-- As far away as possible, on a canvas with an odd and an even side. -/
theorem line_paints_visible_far :
    let c := blank 3 2
    let a : Int64 := -2 ^ 52 - 1
    let level := (Instruction.line a 0 (-1) 0).foldl execute c
    let upright := (Instruction.line 0 a 0 (-1)).foldl execute c
    (c.Sized ∧ c.penSize = 1 ∧ c.width ≤ 16384 ∧ c.height ≤ 16384) ∧
      (level.pixel? 0 1 = some .black ∧ level.pixel? 1 1 = some .white ∧
        level.pixel? 0 0 = some .white) ∧
      upright.pixel? 1 0 = some .black ∧ upright.pixel? 1 1 = some .white ∧
        upright.pixel? 0 0 = some .white := by
  intro c a level upright
  have hsized : c.Sized := rfl
  have hpen : c.penSize = 1 := rfl
  have hwidth : c.width ≤ 16384 := by decide
  have hheight : c.height ≤ 16384 := by decide
  obtain ⟨hlevel, hupright⟩ := line_paints_visible hsized hpen hwidth hheight a (-1) 0
  obtain ⟨hoff, hrow⟩ := hlevel ⟨by decide +kernel, by decide +kernel⟩
  obtain ⟨hoff', hcolumn⟩ := hupright ⟨by decide +kernel, by decide +kernel⟩
  have hrow' := hrow (by decide +kernel)
  have hcolumn' := hcolumn (by decide +kernel)
  refine ⟨⟨hsized, hpen, hwidth, hheight⟩, ⟨?_, ?_, ?_⟩, ?_, ?_, ?_⟩
  · exact (hrow' 0 1).trans (by decide +kernel)
  · exact (hrow' 1 1).trans (by decide +kernel)
  · exact hoff 0 0 (by decide +kernel)
  · exact (hcolumn' 1 0).trans (by decide +kernel)
  · exact (hcolumn' 1 1).trans (by decide +kernel)
  · exact hoff' 0 0 (by decide +kernel)

/-- Without a limit the pixels would not be exact: coming from the far end of the 64
bits, a line misses the pixel in which it ends. -/
theorem not_line_paints_visible :
    ¬ ∀ (c : Canvas) (a b y : Int64), c.Sized → c.penSize = 1 →
      1 ≤ c.width ∧ c.width ≤ 16384 → 1 ≤ c.height ∧ c.height ≤ 16384 →
      0 ≤ y.toInt + c.height / 2 ∧ y.toInt + c.height / 2 < c.height → ∀ i j : ℤ,
        ((Instruction.line a y b y).foldl execute c).pixel? i j =
          if c.contains i j = true ∧ j = y.toInt + c.height / 2 ∧
              min a.toInt b.toInt + c.width / 2 ≤ i ∧ i ≤ max a.toInt b.toInt + c.width / 2 then
            some c.pen
          else c.pixel? i j := by
  intro h
  have hexact := h (blank 3 1) (-2 ^ 63) 0 0 rfl rfl (by decide) (by decide) (by decide +kernel) 1 0
  have hmissed : ((Instruction.line (-2 ^ 63) 0 0 0).foldl execute (blank 3 1)).pixel? 1 0 =
      some .white := by decide +kernel
  rw [hmissed] at hexact
  exact absurd hexact (by decide +kernel)

/-- Nor can the limit be any higher: here the line goes one pixel too far. -/
example : ((Instruction.line (-2 ^ 52 - 2) 0 0 0).foldl execute (blank 3 1)).pixel? 2 0 =
    some .black := by decide +kernel

end Canvas

end Turtle
