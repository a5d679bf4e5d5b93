import Mathlib.Data.List.Chain
import Turtle.Canvas.Execute
import Turtle.Proofs.Canvas.Region
import Turtle.Proofs.Canvas.Words

/-!
Drawing a line.

The pen is set down at one point after the other. What it covers there is cut to
the canvas and painted row by row; as no row of pixels that it paints goes beyond
the end of a row of the canvas, a place is painted exactly when its column and its
row are both covered. What a line paints is what the pen covers at some of its
points.
-/

namespace Turtle

/-! ### The points -/

namespace Line

section

variable {x₀ y₀ x₁ y₁ : Int}

/-- The points join the ends of a line: there is one for each place on the longer
axis, each touches the one before, and all are as close to the line as they can
be. -/
structure Joins (x₀ y₀ x₁ y₁ : Int) (points : List (Int × Int)) : Prop where
  first : (x₀, y₀) ∈ points
  last : (x₁, y₁) ∈ points
  length : points.length = max (x₁ - x₀).natAbs (y₁ - y₀).natAbs + 1
  axis :
    if (y₁ - y₀).natAbs < (x₁ - x₀).natAbs then
      points.map Prod.fst = upward (min x₀ x₁) ((x₁ - x₀).natAbs + 1)
    else points.map Prod.snd = upward (min y₀ y₁) ((y₁ - y₀).natAbs + 1)
  chain : points.IsChain Touches
  near : ∀ p ∈ points,
    2 * ((x₁ - x₀) * (p.2 - y₀) - (y₁ - y₀) * (p.1 - x₀)).natAbs ≤
      max (x₁ - x₀).natAbs (y₁ - y₀).natAbs

theorem Row.length {points : List (Int × Int)} (h : Row x₀ y₀ x₁ y₁ points) :
    points.length = (x₁ - x₀).natAbs + 1 := by
  rw [← List.length_map Prod.fst, h.axis, upward, List.length_map, List.length_range]

theorem isChain_map_swap {points : List (Int × Int)} (h : points.IsChain Touches) :
    (points.map swap).IsChain Touches :=
  List.isChain_map_of_isChain swap (fun _ _ htouches => ⟨htouches.2, htouches.1⟩) h

theorem Row.joins {points : List (Int × Int)} (h : Row x₀ y₀ x₁ y₁ points)
    (hflat : (y₁ - y₀).natAbs < (x₁ - x₀).natAbs) : Joins x₀ y₀ x₁ y₁ points where
  first := h.first
  last := h.last
  length := by rw [h.length, max_eq_left hflat.le]
  axis := by
    rw [if_pos hflat]
    exact h.axis
  chain := h.chain
  near := by
    rw [max_eq_left hflat.le]
    exact h.near

theorem Row.joins_swap {row : List (Int × Int)} (h : Row y₀ x₀ y₁ x₁ row)
    (hsteep : (x₁ - x₀).natAbs ≤ (y₁ - y₀).natAbs) : Joins x₀ y₀ x₁ y₁ (row.map swap) where
  first := List.mem_map.2 ⟨_, h.first, rfl⟩
  last := List.mem_map.2 ⟨_, h.last, rfl⟩
  length := by rw [List.length_map, h.length, max_eq_right hsteep]
  axis := by
    rw [if_neg hsteep.not_gt, List.map_map]
    exact h.axis
  chain := isChain_map_swap h.chain
  near := by
    rw [max_eq_right hsteep]
    intro p hp
    obtain ⟨q, hq, rfl⟩ := List.mem_map.1 hp
    have hoff := h.near q hq
    have hsame : (x₁ - x₀) * (q.1 - y₀) - (y₁ - y₀) * (q.2 - x₀) =
        -((y₁ - y₀) * (q.2 - x₀) - (x₁ - x₀) * (q.1 - y₀)) := by ring
    rw [swap, hsame, Int.natAbs_neg]
    exact hoff

theorem joins_points (x₀ y₀ x₁ y₁ : Int) : Joins x₀ y₀ x₁ y₁ (points x₀ y₀ x₁ y₁) := by
  rcases points_cases x₀ y₀ x₁ y₁ with ⟨hflat, hrow⟩ | ⟨hsteep, row, hpoints, hrow⟩
  · exact hrow.joins hflat
  · rw [hpoints]
    exact hrow.joins_swap hsteep

/-! ### The points are not far away -/

/-- Neither coordinate is further from zero than the bound. -/
def Within (bound : Nat) (p : Int × Int) : Prop :=
  p.1.natAbs ≤ bound ∧ p.2.natAbs ≤ bound

theorem within_walk {long short side : Int} (hside : side = 1 ∨ side = -1) {bound count : Nat}
    {u v d : Int} (hu : u.natAbs + count ≤ bound) (hv : v.natAbs + count ≤ bound) :
    ∀ p ∈ walk long short side count u v d, Within bound p := by
  induction count generalizing u v d with
  | zero => exact fun _ hp => nomatch hp
  | succ count ih =>
      rw [walk]
      intro p hp
      rcases List.mem_cons.1 hp with rfl | hlater
      · exact ⟨by omega, by omega⟩
      · split_ifs at hlater
        · exact ih (by omega) (by omega) p hlater
        · exact ih (by omega) (by omega) p hlater

theorem within_along {u₀ v₀ u₁ v₁ : Int} (hu₀ : u₀.natAbs ≤ 2 ^ 28) (hv₀ : v₀.natAbs ≤ 2 ^ 28)
    (hu₁ : u₁.natAbs ≤ 2 ^ 28) : ∀ p ∈ along u₀ v₀ u₁ v₁, Within (2 ^ 30) p := by
  rw [along]
  exact within_walk (by omega) (by omega) (by omega)

theorem within_points (hx₀ : x₀.natAbs ≤ 2 ^ 28) (hy₀ : y₀.natAbs ≤ 2 ^ 28)
    (hx₁ : x₁.natAbs ≤ 2 ^ 28) (hy₁ : y₁.natAbs ≤ 2 ^ 28) :
    ∀ p ∈ points x₀ y₀ x₁ y₁, Within (2 ^ 30) p := by
  intro p hp
  rw [points] at hp
  split_ifs at hp
  · exact within_along hx₁ hy₁ hx₀ p hp
  · exact within_along hx₀ hy₀ hx₁ p hp
  · obtain ⟨q, hq, rfl⟩ := List.mem_map.1 hp
    exact (within_along hy₁ hx₁ hy₀ q hq).symm
  · obtain ⟨q, hq, rfl⟩ := List.mem_map.1 hp
    exact (within_along hy₀ hx₀ hy₁ q hq).symm

end

end Line

/-! ### One stamp -/

namespace Canvas

/-- The pen, when it is set down at `p`, covers `q`: it reaches equally far to all
sides, or one pixel further to the right and upwards if its size is even. -/
def Covers (size : Nat) (p q : Int × Int) : Prop :=
  (-((size - 1) / 2) ≤ q.1 - p.1 ∧ q.1 - p.1 ≤ size / 2) ∧
    -((size - 1) / 2) ≤ q.2 - p.2 ∧ q.2 - p.2 ≤ size / 2

instance (size : Nat) (p q : Int × Int) : Decidable (Covers size p q) :=
  inferInstanceAs (Decidable (_ ∧ _))

section

variable {color : Color} {pixels : Array Color}

@[simp]
theorem size_paintRun (start count : Nat) :
    (paintRun color start count pixels).size = pixels.size := by
  induction count generalizing start pixels with
  | zero => rfl
  | succ count ih => rw [paintRun, ih, Array.size_setIfInBounds]

theorem getElem?_paintRun {start count i : Nat} (hi : i < pixels.size) :
    (paintRun color start count pixels)[i]? =
      if start ≤ i ∧ i < start + count then some color else pixels[i]? := by
  induction count generalizing start pixels with
  | zero => rw [paintRun, if_neg (by omega)]
  | succ count ih =>
      rw [paintRun, ih (by rwa [Array.size_setIfInBounds]), Array.getElem?_setIfInBounds]
      by_cases hstart : start = i
      · rw [if_neg (by omega), if_pos hstart, if_pos (hstart ▸ hi), if_pos (by omega)]
      · rw [if_neg hstart]
        by_cases hlater : start + 1 ≤ i ∧ i < start + 1 + count
        · rw [if_pos hlater, if_pos (by omega)]
        · rw [if_neg hlater, if_neg (by omega)]

@[simp]
theorem size_paintRows (width x count y rows : Nat) :
    (paintRows color width x count y rows pixels).size = pixels.size := by
  induction rows generalizing y pixels with
  | zero => rfl
  | succ rows ih => rw [paintRows, ih, size_paintRun]

/-- A run that stays within its row is met by the places of that row only. -/
theorem mem_run_iff {width x count a b y : Nat} (hcount : count = 0 ∨ x + count ≤ width)
    (ha : a < width) :
    (y * width + x ≤ b * width + a ∧ b * width + a < y * width + x + count) ↔
      b = y ∧ x ≤ a ∧ a < x + count := by
  rcases lt_trichotomy b y with hbelow | rfl | habove
  · have hrows : (b + 1) * width ≤ y * width := Nat.mul_le_mul_right width hbelow
    rw [Nat.succ_mul] at hrows
    omega
  · omega
  · have hrows : (y + 1) * width ≤ b * width := Nat.mul_le_mul_right width habove
    rw [Nat.succ_mul] at hrows
    omega

theorem getElem?_paintRows {width x count y rows a b : Nat}
    (hcount : count = 0 ∨ x + count ≤ width) (ha : a < width) (hi : b * width + a < pixels.size) :
    (paintRows color width x count y rows pixels)[b * width + a]? =
      if (x ≤ a ∧ a < x + count) ∧ y ≤ b ∧ b < y + rows then some color
      else pixels[b * width + a]? := by
  induction rows generalizing y pixels with
  | zero => rw [paintRows, if_neg (by omega)]
  | succ rows ih =>
      rw [paintRows, ih (by rwa [size_paintRun]), getElem?_paintRun hi]
      simp only [mem_run_iff hcount ha]
      by_cases hcolumn : x ≤ a ∧ a < x + count
      · by_cases hrow : b = y
        · rw [if_neg (by omega), if_pos ⟨hrow, hcolumn⟩, if_pos (by omega)]
        · rw [if_neg (c := b = y ∧ _) (by omega)]
          by_cases hlater : y + 1 ≤ b ∧ b < y + 1 + rows
          · rw [if_pos ⟨hcolumn, hlater⟩, if_pos (by omega)]
          · rw [if_neg (by omega), if_neg (by omega)]
      · rw [if_neg (by omega), if_neg (by omega), if_neg (by omega)]

theorem penSpan_le (size side : Nat) (place : Int) :
    (penSpan size side place).2 = 0 ∨
      (penSpan size side place).1 + (penSpan size side place).2 ≤ side := by
  simp only [penSpan]
  omega

theorem mem_penSpan {size side n : Nat} {place : Int} (hsize : 1 ≤ size) (hn : n < side) :
    ((penSpan size side place).1 ≤ n ∧
        n < (penSpan size side place).1 + (penSpan size side place).2) ↔
      -((size - 1 : Int) / 2) ≤ n - place ∧ n - place ≤ (size : Int) / 2 := by
  simp only [penSpan]
  omega

variable {c : Canvas} {size : Nat}

theorem stamp_eq (color : Color) (size width height : Nat) (pixels : Array Color) (p : Int × Int) :
    stamp color size width height pixels p =
      paintRows color width (penSpan size width p.1).1 (penSpan size width p.1).2
        (penSpan size height p.2).1 (penSpan size height p.2).2 pixels := rfl

@[simp]
theorem size_stamp (width height : Nat) (p : Int × Int) :
    (stamp color size width height pixels p).size = pixels.size :=
  size_paintRows ..

theorem getElem?_stamp (hsize : 1 ≤ size) (hpixels : pixels.size = c.width * c.height)
    (p : Int × Int) {q : Int × Int} (hq : c.contains q.1 q.2 = true) :
    (stamp color size c.width c.height pixels p)[c.index q.1 q.2]? =
      if Covers size p q then some color else pixels[c.index q.1 q.2]? := by
  obtain ⟨x, y⟩ := q
  obtain ⟨a, b, ha, hb, rfl, rfl⟩ := contains_iff.1 hq
  have hplace : b * c.width + a < pixels.size := by
    rw [hpixels]
    exact index_lt ha hb
  show (stamp color size c.width c.height pixels p)[b * c.width + a]? = _
  rw [stamp_eq, getElem?_paintRows (penSpan_le size c.width p.1) ha hplace]
  simp only [mem_penSpan hsize ha, mem_penSpan hsize hb]
  rfl

/-! ### All stamps -/

@[simp]
theorem size_foldl_stamp (width height : Nat) (points : List (Int × Int)) :
    (points.foldl (stamp color size width height) pixels).size = pixels.size := by
  induction points generalizing pixels with
  | nil => rfl
  | cons p points ih => rw [List.foldl_cons, ih, size_stamp]

theorem getElem?_foldl_stamp (hsize : 1 ≤ size) (hpixels : pixels.size = c.width * c.height)
    (points : List (Int × Int)) {q : Int × Int} (hq : c.contains q.1 q.2 = true) :
    (points.foldl (stamp color size c.width c.height) pixels)[c.index q.1 q.2]? =
      if ∃ p ∈ points, Covers size p q then some color else pixels[c.index q.1 q.2]? := by
  induction points generalizing pixels with
  | nil => simp
  | cons p points ih =>
      rw [List.foldl_cons, ih (by rwa [size_stamp]), getElem?_stamp hsize hpixels p hq]
      simp only [List.exists_mem_cons_iff]
      by_cases hlater : ∃ p ∈ points, Covers size p q
      · rw [if_pos hlater, if_pos (.inr hlater)]
      · simp only [hlater, or_false, if_false]

/-! ### A whole line -/

/-- A line changes nothing but pixels. -/
theorem drawLine_eq (c : Canvas) (s : Segment) :
    ∃ pixels, c.drawLine s = { c with pixels } ∧ pixels.size = c.pixels.size :=
  ⟨_, rfl, size_foldl_stamp ..⟩

/-- A line paints what the pen covers at some of its points. -/
theorem pixel?_drawLine (hsized : c.Sized) (hsize : 1 ≤ c.penSize) (s : Segment) (q : Int × Int) :
    (c.drawLine s).pixel? q.1 q.2 =
      if c.contains q.1 q.2 = true ∧ ∃ p ∈ c.linePoints s, Covers c.penSize p q then some c.pen
      else c.pixel? q.1 q.2 := by
  rw [drawLine, pixel?_with_pixels, pixel?]
  by_cases hq : c.contains q.1 q.2 = true
  · simp only [hq, if_true, true_and]
    exact getElem?_foldl_stamp hsize hsized (c.linePoints s) hq
  · rw [if_neg hq, if_neg hq, if_neg (fun h => hq h.1)]

/-- The pen does not reach out of the words of 32 bits. -/
theorem fits_of_covers {p q : Int × Int} (hsize : size ≤ maxPenSize)
    (hp : Line.Within (2 ^ 30) p) (h : Covers size p q) : Line.Fits q.1 ∧ Line.Fits q.2 := by
  obtain ⟨hp₁, hp₂⟩ := hp
  obtain ⟨⟨hleft, hright⟩, hbelow, habove⟩ := h
  simp only [maxPenSize] at hsize
  simp only [Line.Fits]
  omega

end

/-! ### Canvases as the instructions leave them -/

/-- All pixels are there, and the pen has a size that a pen can have. -/
structure Proper (c : Canvas) : Prop where
  sized : c.Sized
  penSize_pos : 1 ≤ c.penSize
  penSize_le : c.penSize ≤ maxPenSize

theorem proper_blank (width height : Nat) : (blank width height).Proper where
  sized := Array.size_replicate
  penSize_pos := le_rfl
  penSize_le := Nat.le_of_ble_eq_true rfl

section

variable {c : Canvas}

theorem Proper.with_pixels (h : c.Proper) {pixels : Array Color}
    (hpixels : pixels.size = c.pixels.size) : { c with pixels }.Proper where
  sized := hpixels.trans h.sized
  penSize_pos := h.penSize_pos
  penSize_le := h.penSize_le

theorem Proper.moveTo (h : c.Proper) (x y : Rat) : (c.moveTo x y).Proper := by
  have hdrawn : (if c.penDown then c.drawLine ⟨c.x, c.y, x, y⟩ else c).Proper := by
    obtain ⟨pixels, hline, hpixels⟩ := drawLine_eq c ⟨c.x, c.y, x, y⟩
    split_ifs
    · rw [hline]
      exact h.with_pixels hpixels
    · exact h
  exact ⟨hdrawn.sized, hdrawn.penSize_pos, hdrawn.penSize_le⟩

theorem Proper.fillRegion (h : c.Proper) : c.fillRegion.Proper := by
  obtain ⟨pixels, hfilled, hpixels⟩ := fillRegion_eq c
  rw [hfilled]
  exact h.with_pixels hpixels

/-- No instruction takes pixels away or gives the pen a size that it cannot have. -/
theorem Proper.execute [Circle] (h : c.Proper) (i : Instruction) : (c.execute i).Proper := by
  obtain ⟨hsized, hpos, hle⟩ := h
  have hcleared : (c.pixels.map fun _ => c.background).size = c.width * c.height := by
    rw [Array.size_map, hsized]
  cases hcommand : i.command <;> simp only [Canvas.execute, hcommand]
  case forward | backward | setXY => exact Proper.moveTo ⟨hsized, hpos, hle⟩ _ _
  case fill => exact Proper.fillRegion ⟨hsized, hpos, hle⟩
  case home =>
    have hmoved := Proper.moveTo ⟨hsized, hpos, hle⟩ 0 0
    exact ⟨hmoved.sized, hmoved.penSize_pos, hmoved.penSize_le⟩
  case setPenSize =>
    refine ⟨hsized, ?_, ?_⟩ <;> simp only [penSizeOf, maxPenSize] <;> omega
  case setScreenColor => exact ⟨(Array.size_map).trans hsized, hpos, hle⟩
  case clearScreen | clean => exact ⟨hcleared, hpos, hle⟩
  all_goals exact ⟨hsized, hpos, hle⟩

end

/-- So every canvas on which a program draws is one. -/
theorem proper_foldl_execute [Circle] (width height : Nat) (is : List Instruction) :
    (is.foldl execute (blank width height)).Proper :=
  List.foldlRecOn is execute (proper_blank width height) fun _ h i _ => h.execute i

/-! ### Bresenham lines -/

/-- The points of a line between two pixels that are not too far away join them,
in whatever order the ends are given, and are found in words of 32 bits. If these
pixels are the ends of what can be seen of a line, then the line is drawn by
setting down the pen at these points: within the canvas, what the pen covers at
any of them gets the color of the pen, and nothing else changes. -/
theorem drawLine_joins {x₀ y₀ x₁ y₁ : Int} (hx₀ : x₀.natAbs ≤ 2 ^ 28) (hy₀ : y₀.natAbs ≤ 2 ^ 28)
    (hx₁ : x₁.natAbs ≤ 2 ^ 28) (hy₁ : y₁.natAbs ≤ 2 ^ 28) :
    Line.Joins x₀ y₀ x₁ y₁ (Line.points x₀ y₀ x₁ y₁) ∧
      Line.points x₁ y₁ x₀ y₀ = Line.points x₀ y₀ x₁ y₁ ∧
      Line.pointsInWords x₀ y₀ x₁ y₁ = some (Line.points x₀ y₀ x₁ y₁) ∧
      ∀ (c : Canvas) (s visible : Segment), c.Proper → c.visiblePart? s = some visible →
        visible.x₀.floor = x₀ ∧ visible.y₀.floor = y₀ →
        visible.x₁.floor = x₁ ∧ visible.y₁.floor = y₁ →
          c.linePoints s = Line.points x₀ y₀ x₁ y₁ ∧
          (∀ p ∈ c.linePoints s, ∀ q, Covers c.penSize p q → Line.Fits q.1 ∧ Line.Fits q.2) ∧
          (∃ pixels, c.drawLine s = { c with pixels } ∧ pixels.size = c.pixels.size) ∧
          ∀ q : Int × Int, (c.drawLine s).pixel? q.1 q.2 =
            if c.contains q.1 q.2 = true ∧ ∃ p ∈ c.linePoints s, Covers c.penSize p q then
              some c.pen
            else c.pixel? q.1 q.2 := by
  refine ⟨Line.joins_points .., Line.points_flip .., Line.pointsInWords_eq hx₀ hy₀ hx₁ hy₁, ?_⟩
  rintro c s visible hproper hvisible ⟨rfl, rfl⟩ ⟨rfl, rfl⟩
  have hpoints : c.linePoints s = Line.points visible.x₀.floor visible.y₀.floor
      visible.x₁.floor visible.y₁.floor := by rw [linePoints, hvisible]
  refine ⟨hpoints, ?_, drawLine_eq c s, pixel?_drawLine hproper.sized hproper.penSize_pos s⟩
  intro p hp q hcovers
  rw [hpoints] at hp
  exact fits_of_covers hproper.penSize_le (Line.within_points hx₀ hy₀ hx₁ hy₁ p hp) hcovers

/-- A line that goes up by two on three columns, drawn with a pen of size 2: the
pixel above its end is outside of the canvas. -/
theorem drawLine_joins_slope :
    let c : Canvas := { blank 4 3 with penSize := 2 }
    let s : Segment := ⟨-2, -1, 1, 1⟩
    (c.Proper ∧ c.visiblePart? s = some ⟨0, 1 / 2, 3, 5 / 2⟩) ∧
      c.linePoints s = [(0, 0), (1, 1), (2, 1), (3, 2)] ∧
      (c.drawLine s).pixel? 1 2 = some .black ∧ (c.drawLine s).pixel? 0 2 = some .white := by
  intro c s
  have hproper : c.Proper := ⟨rfl, by decide, by decide⟩
  have hvisible : c.visiblePart? s = some ⟨0, 1 / 2, 3, 5 / 2⟩ := by decide +kernel
  have hzero : (0 : Int).natAbs ≤ 2 ^ 28 := by decide
  have htwo : (2 : Int).natAbs ≤ 2 ^ 28 := by decide
  have hthree : (3 : Int).natAbs ≤ 2 ^ 28 := by decide
  obtain ⟨-, -, -, hdrawn⟩ := drawLine_joins hzero hzero hthree htwo
  obtain ⟨hpoints, -, -, hpixels⟩ := hdrawn c s _ hproper hvisible
    ⟨by decide +kernel, by decide +kernel⟩ ⟨by decide +kernel, by decide +kernel⟩
  have hlist : c.linePoints s = [(0, 0), (1, 1), (2, 1), (3, 2)] := by
    rw [hpoints]
    decide
  simp only [hlist] at hpixels
  refine ⟨⟨hproper, hvisible⟩, hlist, ?_, ?_⟩
  · rw [hpixels (1, 2)]
    decide
  · rw [hpixels (0, 2)]
    decide

end Canvas

end Turtle
