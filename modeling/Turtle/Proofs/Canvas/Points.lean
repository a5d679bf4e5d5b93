import Mathlib.Tactic.LinearCombination
import Mathlib.Tactic.Ring
import Mathlib.Tactic.SplitIfs
import Turtle.Canvas.Line

/-!
The points of a line.

A walk goes along the longer axis and turns aside when its error is positive.
The error tells how far the walk is from the ideal line: every step adds
`2 * short` to it, and a turn takes `2 * long` from it. Since the walk turns as
soon as the error is positive, the error stays between `2 * (short - long)` and
`2 * short`, and this says that no point is more than half a pixel off the line.
At the far end that leaves only the end itself.

The four ways to draw a line are the walk from its left or lower end, with the
axes swapped if the line is steep.
-/

namespace Turtle.Line

/-! ### The error of a walk -/

/-- A walk from `(u₀, v₀)` has come to `(u, v)` with the error `d`. -/
structure Tracks (long short side u₀ v₀ u v d : Int) : Prop where
  error : d = 2 * (short * (u - u₀ + 1) - long * (side * (v - v₀))) - long
  low : 2 * (short - long) ≤ d
  high : d ≤ 2 * short

/-- The walk goes along a line that is not steep. -/
structure Flat (long short side : Int) : Prop where
  short_nonneg : 0 ≤ short
  short_le : short ≤ long
  side_eq : side = 1 ∨ side = -1

section

variable {long short side u₀ v₀ u v d : Int}

theorem Flat.side_mul_side (h : Flat long short side) : side * side = 1 := by
  rcases h.side_eq with rfl | rfl <;> rfl

theorem Tracks.begin (h : Flat long short side) :
    Tracks long short side u₀ v₀ u₀ v₀ (2 * short - long) where
  error := by ring
  low := by
    have hshort := h.short_nonneg
    have hle := h.short_le
    omega
  high := by
    have hshort := h.short_nonneg
    have hle := h.short_le
    omega

theorem Tracks.aside (h : Tracks long short side u₀ v₀ u v d) (hflat : Flat long short side)
    (hd : 0 < d) : Tracks long short side u₀ v₀ (u + 1) (v + side) (d + 2 * (short - long)) := by
  have hside := hflat.side_mul_side
  obtain ⟨herror, hlow, hhigh⟩ := h
  obtain ⟨hshort, hle, -⟩ := hflat
  refine ⟨?_, by omega, by omega⟩
  linear_combination herror + 2 * long * hside

theorem Tracks.straight (h : Tracks long short side u₀ v₀ u v d) (hflat : Flat long short side)
    (hd : ¬ 0 < d) : Tracks long short side u₀ v₀ (u + 1) v (d + 2 * short) := by
  obtain ⟨herror, hlow, hhigh⟩ := h
  obtain ⟨hshort, hle, -⟩ := hflat
  refine ⟨?_, by omega, by omega⟩
  linear_combination herror

/-- One step of the walk, to the side or straight on. -/
theorem Tracks.step (h : Tracks long short side u₀ v₀ u v d) (hflat : Flat long short side)
    (count : Nat) :
    ∃ v' d', walk long short side (count + 1) u v d =
        (u, v) :: walk long short side count (u + 1) v' d' ∧
      (v' = v ∨ v' = v + side) ∧ Tracks long short side u₀ v₀ (u + 1) v' d' := by
  by_cases hd : 0 < d
  · exact ⟨_, _, by rw [walk, if_pos hd], .inr rfl, h.aside hflat hd⟩
  · exact ⟨_, _, by rw [walk, if_neg hd], .inl rfl, h.straight hflat hd⟩

/-- The point is at most half a pixel off the line. -/
theorem Tracks.near (h : Tracks long short side u₀ v₀ u v d) :
    2 * (long * (side * (v - v₀)) - short * (u - u₀)).natAbs ≤ long := by
  obtain ⟨herror, hlow, hhigh⟩ := h
  have hexpand : short * (u - u₀ + 1) = short * (u - u₀) + short := by ring
  rw [hexpand] at herror
  omega

/-! ### Walks -/

/-- As many integers as counted, from the first one upwards. -/
def upward (first : Int) (count : Nat) : List Int :=
  (List.range count).map fun k : Nat => first + k

theorem upward_succ (first : Int) (count : Nat) :
    upward first (count + 1) = first :: upward (first + 1) count := by
  simp [upward, List.range_succ_eq_map, Function.comp_def, Int.add_assoc, Int.add_comm 1]

theorem mem_upward {first n : Int} {count : Nat} :
    n ∈ upward first count ↔ first ≤ n ∧ n < first + count := by
  simp only [upward, List.mem_map, List.mem_range]
  constructor
  · rintro ⟨k, hk, rfl⟩
    omega
  · rintro ⟨hfirst, hlast⟩
    exact ⟨(n - first).toNat, by omega, by omega⟩

/-- The walk has one point for each place on the longer axis. -/
theorem map_fst_walk (long short side : Int) (count : Nat) (u v d : Int) :
    (walk long short side count u v d).map Prod.fst = upward u count := by
  induction count generalizing u v d with
  | zero => rfl
  | succ count ih =>
      rw [walk, upward_succ]
      split_ifs
      · rw [List.map_cons, ih]
      · rw [List.map_cons, ih]

theorem near_walk (hflat : Flat long short side) (count : Nat)
    (h : Tracks long short side u₀ v₀ u v d) :
    ∀ p ∈ walk long short side count u v d,
      2 * (long * (side * (p.2 - v₀)) - short * (p.1 - u₀)).natAbs ≤ long := by
  induction count generalizing u v d with
  | zero => exact fun _ hp => nomatch hp
  | succ count ih =>
      obtain ⟨v', d', hwalk, -, hnext⟩ := h.step hflat count
      rw [hwalk]
      intro p hp
      rcases List.mem_cons.1 hp with rfl | hlater
      · exact h.near
      · exact ih hnext p hlater

/-- The points are next to each other, possibly across a corner. -/
def Touches (p q : Int × Int) : Prop :=
  (q.1 - p.1).natAbs ≤ 1 ∧ (q.2 - p.2).natAbs ≤ 1

theorem isChain_walk (hflat : Flat long short side) (count : Nat)
    (h : Tracks long short side u₀ v₀ u v d) :
    (walk long short side count u v d).IsChain Touches := by
  induction count generalizing u v d with
  | zero => exact .nil
  | succ count ih =>
      obtain ⟨v', d', hwalk, hv', hnext⟩ := h.step hflat count
      have hlater := ih hnext
      have htouches : Touches (u, v) (u + 1, v') := by
        have hside := hflat.side_eq
        simp only [Touches]
        omega
      rw [hwalk]
      cases count with
      | zero => exact .singleton _
      | succ count =>
          obtain ⟨v'', d'', hwalk', -, -⟩ := hnext.step hflat count
          rw [hwalk'] at hlater ⊢
          exact .cons_cons htouches hlater

end

/-! ### Lines that are not steep -/

/-- A row of points from `(u₀, v₀)` to `(u₁, v₁)` along the first axis, or the
other way round. -/
structure Row (u₀ v₀ u₁ v₁ : Int) (points : List (Int × Int)) : Prop where
  first : (u₀, v₀) ∈ points
  last : (u₁, v₁) ∈ points
  axis : points.map Prod.fst = upward (min u₀ u₁) ((u₁ - u₀).natAbs + 1)
  near : ∀ p ∈ points,
    2 * ((u₁ - u₀) * (p.2 - v₀) - (v₁ - v₀) * (p.1 - u₀)).natAbs ≤ (u₁ - u₀).natAbs
  chain : points.IsChain Touches

section

variable {u₀ v₀ u₁ v₁ : Int}

/-- At the end of a line that has a length, half a pixel leaves no choice. -/
theorem eq_of_near {v : Int} (h : u₀ ≠ u₁)
    (hnear : 2 * ((u₁ - u₀) * (v - v₀) - (v₁ - v₀) * (u₁ - u₀)).natAbs ≤ (u₁ - u₀).natAbs) :
    v = v₁ := by
  have hproduct : (u₁ - u₀) * (v - v₀) - (v₁ - v₀) * (u₁ - u₀) = (u₁ - u₀) * (v - v₁) := by ring
  have hlength : 0 < (u₁ - u₀).natAbs := by omega
  rw [hproduct, Int.natAbs_mul] at hnear
  by_contra hne
  have hoff : 1 ≤ (v - v₁).natAbs := by omega
  have hmore := Nat.mul_le_mul_left (u₁ - u₀).natAbs hoff
  omega

theorem flat_of_le (h : (v₁ - v₀).natAbs ≤ u₁ - u₀) :
    Flat (u₁ - u₀) (v₁ - v₀).natAbs (if v₁ - v₀ < 0 then -1 else 1) where
  short_nonneg := by omega
  short_le := h
  side_eq := by omega

theorem along_eq_walk (h : u₀ ≤ u₁) (v₀ v₁ : Int) :
    along u₀ v₀ u₁ v₁ =
      walk (u₁ - u₀) (v₁ - v₀).natAbs (if v₁ - v₀ < 0 then -1 else 1) ((u₁ - u₀).natAbs + 1)
        u₀ v₀ (2 * (v₁ - v₀).natAbs - (u₁ - u₀)) := by
  have hcount : (u₁ - u₀ + 1).toNat = (u₁ - u₀).natAbs + 1 := by omega
  rw [along, hcount]

theorem axis_along (h : u₀ ≤ u₁) (v₀ v₁ : Int) :
    (along u₀ v₀ u₁ v₁).map Prod.fst = upward (min u₀ u₁) ((u₁ - u₀).natAbs + 1) := by
  rw [along_eq_walk h, map_fst_walk, min_eq_left h]

theorem first_along (h : (v₁ - v₀).natAbs ≤ u₁ - u₀) : (u₀, v₀) ∈ along u₀ v₀ u₁ v₁ := by
  obtain ⟨v', d', hstep, -, -⟩ := Tracks.step (.begin (flat_of_le h)) (flat_of_le h)
    (u₁ - u₀).natAbs
  rw [along_eq_walk (by omega), hstep]
  exact List.mem_cons_self

/-- The error is told with the sign of the side to which the line goes. -/
theorem near_along (h : (v₁ - v₀).natAbs ≤ u₁ - u₀) : ∀ p ∈ along u₀ v₀ u₁ v₁,
    2 * ((u₁ - u₀) * (p.2 - v₀) - (v₁ - v₀) * (p.1 - u₀)).natAbs ≤ (u₁ - u₀).natAbs := by
  let side : Int := if v₁ - v₀ < 0 then -1 else 1
  let short : Int := (v₁ - v₀).natAbs
  have hflat : Flat (u₁ - u₀) short side := flat_of_le h
  have hshort : v₁ - v₀ = side * short := by
    simp only [side, short]
    split_ifs <;> omega
  intro p hp
  rw [along_eq_walk (by omega)] at hp
  have hoff := near_walk hflat _ (.begin hflat) p hp
  have hturned : (u₁ - u₀) * (p.2 - v₀) - (v₁ - v₀) * (p.1 - u₀) =
      side * ((u₁ - u₀) * (side * (p.2 - v₀)) - short * (p.1 - u₀)) := by
    rw [hshort]
    linear_combination -(u₁ - u₀) * (p.2 - v₀) * hflat.side_mul_side
  have hunit : side.natAbs = 1 := by
    have hside := hflat.side_eq
    omega
  rw [hturned, Int.natAbs_mul, hunit, Nat.one_mul]
  omega

/-- There is a point at the far end of the axis, and it can only be the end. -/
theorem last_along (h : (v₁ - v₀).natAbs ≤ u₁ - u₀) : (u₁, v₁) ∈ along u₀ v₀ u₁ v₁ := by
  by_cases hends : u₀ = u₁
  · obtain rfl : v₀ = v₁ := by omega
    have hfirst := first_along h
    rwa [hends] at hfirst ⊢
  · have hmem : u₁ ∈ (along u₀ v₀ u₁ v₁).map Prod.fst := by
      rw [axis_along (by omega), mem_upward]
      omega
    obtain ⟨⟨u, v⟩, hp, hu⟩ := List.mem_map.1 hmem
    obtain rfl : u = u₁ := hu
    obtain rfl : v = v₁ := eq_of_near hends (near_along h _ hp)
    exact hp

theorem row_along (h : (v₁ - v₀).natAbs ≤ u₁ - u₀) : Row u₀ v₀ u₁ v₁ (along u₀ v₀ u₁ v₁) where
  first := first_along h
  last := last_along h
  axis := axis_along (by omega) v₀ v₁
  near := near_along h
  chain := by
    rw [along_eq_walk (by omega)]
    exact isChain_walk (flat_of_le h) _ (.begin (flat_of_le h))

/-- A row may be described from either end. -/
theorem Row.flip {points : List (Int × Int)} (h : Row u₁ v₁ u₀ v₀ points) :
    Row u₀ v₀ u₁ v₁ points where
  first := h.last
  last := h.first
  axis := by
    have hlength : (u₁ - u₀).natAbs = (u₀ - u₁).natAbs := by omega
    rw [h.axis, hlength, min_comm]
  near := by
    intro p hp
    have hsame : (u₁ - u₀) * (p.2 - v₀) - (v₁ - v₀) * (p.1 - u₀) =
        -((u₀ - u₁) * (p.2 - v₁) - (v₀ - v₁) * (p.1 - u₁)) := by ring
    have hoff := h.near p hp
    rw [hsame, Int.natAbs_neg]
    omega
  chain := h.chain

/-! ### All lines -/

variable (x₀ y₀ x₁ y₁ : Int)

/-- A line is a row, along the first axis if it is flat and along the second one
if it is steep. -/
theorem points_cases :
    ((y₁ - y₀).natAbs < (x₁ - x₀).natAbs ∧ Row x₀ y₀ x₁ y₁ (points x₀ y₀ x₁ y₁)) ∨
      ((x₁ - x₀).natAbs ≤ (y₁ - y₀).natAbs ∧
        ∃ row, points x₀ y₀ x₁ y₁ = row.map swap ∧ Row y₀ x₀ y₁ x₁ row) := by
  by_cases hflat : (y₁ - y₀).natAbs < (x₁ - x₀).natAbs
  · left
    refine ⟨hflat, ?_⟩
    rw [points, if_pos hflat]
    split_ifs with hback
    · exact (row_along (by omega)).flip
    · exact row_along (by omega)
  · right
    rw [points, if_neg hflat]
    split_ifs with hback
    · exact ⟨by omega, _, rfl, (row_along (by omega)).flip⟩
    · exact ⟨by omega, _, rfl, row_along (by omega)⟩

/-- It does not matter at which end a line begins. -/
theorem points_flip : points x₁ y₁ x₀ y₀ = points x₀ y₀ x₁ y₁ := by
  have hx : (x₀ - x₁).natAbs = (x₁ - x₀).natAbs := by omega
  have hy : (y₀ - y₁).natAbs = (y₁ - y₀).natAbs := by omega
  rw [points, points, hx, hy]
  by_cases hflat : (y₁ - y₀).natAbs < (x₁ - x₀).natAbs
  · rw [if_pos hflat, if_pos hflat]
    rcases lt_or_gt_of_ne (show x₀ ≠ x₁ by omega) with hforth | hback
    · rw [if_pos hforth, if_neg hforth.not_gt]
    · rw [if_neg hback.not_gt, if_pos hback]
  · rw [if_neg hflat, if_neg hflat]
    rcases lt_trichotomy y₀ y₁ with hforth | rfl | hback
    · rw [if_pos hforth, if_neg hforth.not_gt]
    · obtain rfl : x₀ = x₁ := by omega
      rfl
    · rw [if_neg hback.not_gt, if_pos hback]

end

end Turtle.Line
