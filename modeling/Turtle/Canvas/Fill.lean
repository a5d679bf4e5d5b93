import Turtle.Canvas.Basic

/-!
Filling a region.

Starting from one pixel, the fill spreads to the neighbours above, below and on either side, as long
as they have the color of the first pixel. A pixel is painted when it is found and then waits for
its own neighbours to be looked at. Every pixel waits at most once, since a painted one has lost the
color that is looked for; this is why the spreading ends.
-/

namespace Turtle.Fill

/-- The pixels that share a side with the pixel at a place. -/
def neighbours (width height i : Nat) : List Nat :=
  (if 0 < i % width then [i - 1] else []) ++
    (if i % width + 1 < width then [i + 1] else []) ++
    (if 0 < i / width then [i - width] else []) ++
    (if i / width + 1 < height then [i + width] else [])

/-- Paints a pixel of the color looked for, and lets it wait. -/
def visit (found paint : Color) (s : Array Color × List Nat) (i : Nat) : Array Color × List Nat :=
  if s.1[i]? = some found then (s.1.setIfInBounds i paint, i :: s.2) else s

/-- How much is left to do: pixels to be found, and pixels that wait. -/
def weight (found : Color) (s : Array Color × List Nat) : Nat :=
  s.1.count found + s.2.length

theorem weight_visit {found paint : Color} (h : paint ≠ found) (s : Array Color × List Nat)
    (i : Nat) : weight found (visit found paint s i) = weight found s := by
  unfold visit
  split
  · rename_i hi
    obtain ⟨hlt, hget⟩ := Array.getElem?_eq_some_iff.1 hi
    have hpos : 0 < s.1.count found := Array.count_pos_iff.2 (hget ▸ Array.getElem_mem hlt)
    simp only [weight, List.length_cons, Array.setIfInBounds, hlt, dif_pos, Array.count_set, hget,
      beq_self_eq_true, if_true, beq_iff_eq, h, if_false]
    omega
  · rfl

theorem weight_foldl_visit {found paint : Color} (h : paint ≠ found) (is : List Nat)
    (s : Array Color × List Nat) :
    weight found (is.foldl (visit found paint) s) = weight found s := by
  induction is generalizing s with
  | nil => rfl
  | cons i is ih => rw [List.foldl_cons, ih, weight_visit h]

/-- Looks at the neighbours of all pixels that wait. -/
def spread (width height : Nat) (found paint : Color) (differ : paint ≠ found)
    (pixels : Array Color) (waiting : List Nat) : Array Color :=
  match waiting with
  | [] => pixels
  | i :: waiting =>
    match _next : (neighbours width height i).foldl (visit found paint) (pixels, waiting) with
    | (pixels, waiting) => spread width height found paint differ pixels waiting
termination_by weight found (pixels, waiting)
decreasing_by
  rw [← _next, weight_foldl_visit differ]
  simp [weight]

end Turtle.Fill

namespace Turtle.Canvas

/-- Fills the region under the turtle with the fill color. -/
def fillRegion (c : Canvas) : Canvas :=
  match c.pixelUnderTurtle? with
  | none => c
  | some found =>
    if h : c.fill = found then c
    else
      let i := c.index c.column c.row
      { c with
        pixels := Fill.spread c.width c.height found c.fill h (c.pixels.setIfInBounds i c.fill) [i] }

end Turtle.Canvas
