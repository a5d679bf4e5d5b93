import Mathlib.Logic.Relation
import Mathlib.Tactic.SplitIfs
import Turtle.Canvas.Execute
import Turtle.Proofs.Canvas.Grid

/-!
The region that a fill paints.

The fill works on places of pixels. While it spreads, a place has the color from
before, or it has been reached and painted. A painted place waits, or all that
there is to find around it has been found. When no place waits any more, the
painted places are thus closed under steps to a neighbour of the color looked
for, and as each of them has been reached, they are the places that can be
reached.

What is said of places holds of coordinates, since the neighbours of a place are
the places of those pixels that share a side and lie on the canvas. At the ends
of a row this is what the tests of the fill are for.
-/

namespace Turtle

/-! ### Spreading -/

namespace Fill

/-- A step to a neighbour of the color looked for. -/
def Step (width height : Nat) (found : Color) (before : Array Color) (i j : Nat) : Prop :=
  j ∈ neighbours width height i ∧ before[j]? = some found

/-- What can be reached from a place. -/
abbrev Reach (width height : Nat) (found : Color) (before : Array Color) : Nat → Nat → Prop :=
  Relation.ReflTransGen (Step width height found before)

/-- A fill that began at the first place has come to these pixels, and has still
to look around the places that wait. -/
structure Spread (width height : Nat) (found paint : Color) (before : Array Color) (first : Nat)
    (pixels : Array Color) (waiting : List Nat) : Prop where
  began : pixels[first]? = some paint
  painted : ∀ i, pixels[i]? = before[i]? ∨
    Reach width height found before first i ∧ pixels[i]? = some paint
  reached : ∀ i ∈ waiting, Reach width height found before first i
  looked : ∀ i, Reach width height found before first i → pixels[i]? = some paint →
    i ∈ waiting ∨ ∀ j ∈ neighbours width height i, pixels[j]? ≠ some found

section

variable {width height : Nat} {found paint : Color} {before pixels : Array Color} {first : Nat}

/-- All that is reached has the color looked for. -/
theorem color_of_reach (h : before[first]? = some found) {i : Nat}
    (hi : Reach width height found before first i) : before[i]? = some found := by
  cases hi with
  | refl => exact h
  | tail _ hstep => exact hstep.2

theorem getElem?_paint {j : Nat} (h : pixels[j]? = some found) (i : Nat) :
    (pixels.setIfInBounds j paint)[i]? = if i = j then some paint else pixels[i]? := by
  obtain ⟨hj, -⟩ := Array.getElem?_eq_some_iff.1 h
  rw [Array.getElem?_setIfInBounds]
  simp only [hj, if_true, eq_comm]

/-- Painting takes the color looked for away. -/
theorem ne_found_of_paint (differ : paint ≠ found) {j k : Nat} (h : pixels[j]? = some found)
    (hk : pixels[k]? ≠ some found) : (pixels.setIfInBounds j paint)[k]? ≠ some found := by
  rw [getElem?_paint h]
  split_ifs
  · exact fun heq => differ (Option.some.inj heq)
  · exact hk

theorem Spread.begin (differ : paint ≠ found) (h : before[first]? = some found) :
    Spread width height found paint before first (before.setIfInBounds first paint) [first] where
  began := by rw [getElem?_paint h, if_pos rfl]
  painted := by
    intro i
    rw [getElem?_paint h]
    split_ifs with hi
    · subst hi
      exact .inr ⟨.refl, rfl⟩
    · exact .inl rfl
  reached := by
    intro i hi
    rw [List.mem_singleton.1 hi]
  looked := by
    intro i hreach hi
    rw [getElem?_paint h] at hi
    split_ifs at hi with hfirst
    · exact .inl (List.mem_singleton.2 hfirst)
    · rw [color_of_reach h hreach] at hi
      exact absurd (Option.some.inj hi).symm differ

namespace Spread

variable {i : Nat} {waiting : List Nat}

/-- A reached place of the color looked for is painted, and waits then. -/
theorem paint_place (h : Spread width height found paint before first pixels (i :: waiting))
    (differ : paint ≠ found) {j : Nat} (hreach : Reach width height found before first j)
    (hj : pixels[j]? = some found) :
    Spread width height found paint before first (pixels.setIfInBounds j paint)
      (i :: j :: waiting) where
  began := by rw [getElem?_paint hj, h.began, ite_self]
  painted := by
    intro k
    rw [getElem?_paint hj]
    split_ifs with hk
    · exact .inr ⟨hk ▸ hreach, rfl⟩
    · exact h.painted k
  reached := by
    intro k hk
    simp only [List.mem_cons] at hk
    rcases hk with rfl | rfl | hk
    · exact h.reached k List.mem_cons_self
    · exact hreach
    · exact h.reached k (List.mem_cons_of_mem i hk)
  looked := by
    intro k hk hpainted
    rw [getElem?_paint hj] at hpainted
    by_cases hkj : k = j
    · exact .inl (by simp [hkj])
    rw [if_neg hkj] at hpainted
    rcases h.looked k hk hpainted with hwaiting | haround
    · left
      rcases List.mem_cons.1 hwaiting with rfl | hwaiting
      · exact List.mem_cons_self
      · exact List.mem_cons_of_mem i (List.mem_cons_of_mem j hwaiting)
    · exact .inr fun l hl => ne_found_of_paint differ hj (haround l hl)

/-- A neighbour of the place that is looked around is painted, if it has the
color looked for. -/
theorem visit (h : Spread width height found paint before first pixels (i :: waiting))
    (differ : paint ≠ found) {j : Nat} (hj : j ∈ neighbours width height i) :
    let s := Fill.visit found paint (pixels, waiting) j
    Spread width height found paint before first s.1 (i :: s.2) ∧
      s.1[j]? ≠ some found ∧ ∀ k : Nat, pixels[k]? ≠ some found → s.1[k]? ≠ some found := by
  intro s
  by_cases hcolor : pixels[j]? = some found
  · have hs : s = (pixels.setIfInBounds j paint, j :: waiting) := if_pos hcolor
    have hreach : Reach width height found before first j := by
      refine .tail (h.reached i List.mem_cons_self) ⟨hj, ?_⟩
      rcases h.painted j with hsame | ⟨-, hpainted⟩
      · rw [← hsame, hcolor]
      · rw [hcolor] at hpainted
        exact absurd (Option.some.inj hpainted).symm differ
    rw [hs]
    refine ⟨h.paint_place differ hreach hcolor, ?_, fun k => ne_found_of_paint differ hcolor⟩
    rw [getElem?_paint hcolor, if_pos rfl]
    exact fun heq => differ (Option.some.inj heq)
  · have hs : s = (pixels, waiting) := if_neg hcolor
    rw [hs]
    exact ⟨h, hcolor, fun _ hk => hk⟩

/-- When all neighbours have been visited, there is nothing left to find around
the place. -/
theorem visitAll (differ : paint ≠ found) {js : List Nat}
    (hjs : ∀ j ∈ js, j ∈ neighbours width height i)
    (h : Spread width height found paint before first pixels (i :: waiting)) :
    let s := js.foldl (Fill.visit found paint) (pixels, waiting)
    Spread width height found paint before first s.1 (i :: s.2) ∧
      (∀ j ∈ js, s.1[j]? ≠ some found) ∧
      ∀ k : Nat, pixels[k]? ≠ some found → s.1[k]? ≠ some found := by
  induction js generalizing pixels waiting with
  | nil => exact ⟨h, fun _ hj => (nomatch hj), fun _ hk => hk⟩
  | cons j js ih =>
      obtain ⟨hvisit, hhere, hkept⟩ := h.visit differ (hjs j List.mem_cons_self)
      obtain ⟨hspread, hothers, hkept'⟩ := ih (fun j hj => hjs j (List.mem_cons_of_mem _ hj)) hvisit
      refine ⟨hspread, ?_, fun k hk => hkept' k (hkept k hk)⟩
      intro k hk
      rcases List.mem_cons.1 hk with rfl | hk
      · exact hkept' k hhere
      · exact hothers k hk

/-- A place around which there is nothing left to find need not wait. -/
theorem next (differ : paint ≠ found)
    (h : Spread width height found paint before first pixels (i :: waiting)) :
    let s := (neighbours width height i).foldl (Fill.visit found paint) (pixels, waiting)
    Spread width height found paint before first s.1 s.2 := by
  obtain ⟨hspread, haround, -⟩ := h.visitAll differ (fun _ hj => hj)
  refine ⟨hspread.began, hspread.painted, ?_, ?_⟩
  · exact fun k hk => hspread.reached k (List.mem_cons_of_mem i hk)
  · intro k hk hpainted
    rcases hspread.looked k hk hpainted with hwaiting | hlooked
    · rcases List.mem_cons.1 hwaiting with rfl | hwaiting
      · exact .inr haround
      · exact .inl hwaiting
    · exact .inr hlooked

/-- The fill goes on until no place waits. -/
theorem spread (differ : paint ≠ found) {waiting : List Nat}
    (h : Spread width height found paint before first pixels waiting) :
    Spread width height found paint before first
      (Fill.spread width height found paint differ pixels waiting) [] := by
  fun_induction Fill.spread width height found paint differ pixels waiting with
  | case1 pixels => exact h
  | case2 pixels i waiting pixels' waiting' hnext ih =>
      have hs := h.next differ
      rw [hnext] at hs
      exact ih hs

/-- Where no place waits, all that can be reached has been painted. -/
theorem painted_of_reach (h : Spread width height found paint before first pixels []) {i : Nat}
    (hi : Reach width height found before first i) : pixels[i]? = some paint := by
  induction hi with
  | refl => exact h.began
  | tail hreach hstep ih =>
      obtain ⟨hneighbour, hcolor⟩ := hstep
      rcases h.looked _ hreach ih with hwaiting | haround
      · cases hwaiting
      · rcases h.painted _ with hsame | ⟨-, hpainted⟩
        · exact absurd (hsame.trans hcolor) (haround _ hneighbour)
        · exact hpainted

end Spread

theorem size_visit (s : Array Color × List Nat) (j : Nat) :
    (Fill.visit found paint s j).1.size = s.1.size := by
  rw [Fill.visit]
  split_ifs
  · exact Array.size_setIfInBounds
  · rfl

theorem size_foldl_visit (js : List Nat) (s : Array Color × List Nat) :
    (js.foldl (Fill.visit found paint) s).1.size = s.1.size := by
  induction js generalizing s with
  | nil => rfl
  | cons j js ih => rw [List.foldl_cons, ih, size_visit]

theorem size_spread (width height : Nat) (differ : paint ≠ found) (pixels : Array Color)
    (waiting : List Nat) :
    (spread width height found paint differ pixels waiting).size = pixels.size := by
  fun_induction spread width height found paint differ pixels waiting with
  | case1 pixels => rfl
  | case2 pixels i waiting pixels' waiting' hnext ih =>
      have hsize : pixels'.size = pixels.size := by
        calc pixels'.size
          _ = ((neighbours width height i).foldl (Fill.visit found paint) (pixels, waiting)).1.size := by
            rw [hnext]
          _ = pixels.size := size_foldl_visit ..
      rw [ih, hsize]

/-- The fill paints what can be reached from the first place, and nothing else. -/
theorem getElem?_spread (differ : paint ≠ found) (h : before[first]? = some found) (i : Nat) :
    let after := spread width height found paint differ (before.setIfInBounds first paint) [first]
    (Reach width height found before first i → after[i]? = some paint) ∧
      (¬ Reach width height found before first i → after[i]? = before[i]?) := by
  intro after
  have hspread : Spread width height found paint before first after [] :=
    (Spread.begin differ h).spread differ
  refine ⟨hspread.painted_of_reach, ?_⟩
  intro hreach
  rcases hspread.painted i with hsame | ⟨hreached, -⟩
  · exact hsame
  · exact absurd hreached hreach

end

end Fill

/-! ### Regions -/

namespace Canvas

/-- The pixels share a side. -/
def Adjacent (p q : Int × Int) : Prop :=
  (q.1 - p.1).natAbs + (q.2 - p.2).natAbs = 1

/-- The second pixel can be reached from the first one, from each pixel to one
that shares a side with it, and only by way of pixels of the color. -/
def Connected (c : Canvas) (color : Color) : Int × Int → Int × Int → Prop :=
  Relation.ReflTransGen fun p q => Adjacent p q ∧ c.pixel? q.1 q.2 = some color

section

variable {c : Canvas} {found : Color} {p q : Int × Int}

theorem adjacent_iff :
    Adjacent p q ↔ (q.2 = p.2 ∧ (q.1 = p.1 - 1 ∨ q.1 = p.1 + 1)) ∨
      (q.1 = p.1 ∧ (q.2 = p.2 - 1 ∨ q.2 = p.2 + 1)) := by
  rw [Adjacent]
  omega

/-- Neighbours of a place are the places of the pixels around. A row's ends have
no neighbours in the rows before and behind. -/
theorem mem_neighbours_iff (hp : c.contains p.1 p.2 = true) (j : Nat) :
    j ∈ Fill.neighbours c.width c.height (c.index p.1 p.2) ↔
      ∃ q : Int × Int, Adjacent p q ∧ c.contains q.1 q.2 = true ∧ c.index q.1 q.2 = j := by
  obtain ⟨x, y⟩ := p
  obtain ⟨a, b, ha, hb, rfl, rfl⟩ := contains_iff.1 hp
  simp only [Fill.neighbours, index_mod ha, index_div ha, List.mem_append, List.mem_ite_nil_right,
    List.mem_singleton, adjacent_iff]
  constructor
  · rintro (((⟨hleft, rfl⟩ | ⟨hright, rfl⟩) | ⟨hbelow, rfl⟩) | ⟨habove, rfl⟩)
    · refine ⟨(↑(a - 1), ↑b), by omega, contains_iff.2 ⟨a - 1, b, by omega, hb, rfl, rfl⟩, ?_⟩
      simp only [index_natCast]
      omega
    · refine ⟨(↑(a + 1), ↑b), by omega, contains_iff.2 ⟨a + 1, b, hright, hb, rfl, rfl⟩, rfl⟩
    · refine ⟨(↑a, ↑(b - 1)), by omega, contains_iff.2 ⟨a, b - 1, ha, by omega, rfl, rfl⟩, ?_⟩
      obtain ⟨b, rfl⟩ := Nat.exists_eq_succ_of_ne_zero (Nat.pos_iff_ne_zero.1 hbelow)
      simp only [index_natCast, Nat.succ_mul, Nat.succ_sub_one]
      omega
    · refine ⟨(↑a, ↑(b + 1)), by omega, contains_iff.2 ⟨a, b + 1, ha, habove, rfl, rfl⟩, ?_⟩
      simp only [index_natCast, Nat.succ_mul]
      omega
  · rintro ⟨⟨x, y⟩, hadjacent, hq, rfl⟩
    obtain ⟨a', b', ha', hb', rfl, rfl⟩ := contains_iff.1 hq
    rcases hadjacent with ⟨hrow, hleft | hright⟩ | ⟨hcolumn, hbelow | habove⟩
    · obtain ⟨rfl, rfl⟩ : b' = b ∧ a = a' + 1 := by omega
      refine .inl (.inl (.inl ⟨a'.succ_pos, ?_⟩))
      simp only [index_natCast]
      omega
    · obtain ⟨rfl, rfl⟩ : b' = b ∧ a' = a + 1 := by omega
      exact .inl (.inl (.inr ⟨ha', rfl⟩))
    · obtain ⟨rfl, rfl⟩ : a' = a ∧ b = b' + 1 := by omega
      refine .inl (.inr ⟨b'.succ_pos, ?_⟩)
      simp only [index_natCast, Nat.succ_mul]
      omega
    · obtain ⟨rfl, rfl⟩ : a' = a ∧ b' = b + 1 := by omega
      refine .inr ⟨hb', ?_⟩
      simp only [index_natCast, Nat.succ_mul]
      omega

theorem contains_of_connected (hp : c.contains p.1 p.2 = true) (h : c.Connected found p q) :
    c.contains q.1 q.2 = true := by
  cases h with
  | refl => exact hp
  | tail _ hstep => exact contains_of_pixel? hstep.2

/-- Pixels are connected when the place of one is reached from that of the other. -/
theorem connected_iff_reach (hp : c.contains p.1 p.2 = true) (hq : c.contains q.1 q.2 = true) :
    c.Connected found p q ↔
      Fill.Reach c.width c.height found c.pixels (c.index p.1 p.2) (c.index q.1 q.2) := by
  constructor
  · intro h
    clear hq
    induction h with
    | refl => exact .refl
    | tail hfirst hstep ih =>
        obtain ⟨hadjacent, hcolor⟩ := hstep
        have hin := contains_of_connected hp hfirst
        have hnext := contains_of_pixel? hcolor
        refine .tail ih ⟨(mem_neighbours_iff hin _).2 ⟨_, hadjacent, hnext, rfl⟩, ?_⟩
        rw [← pixel?_of_contains hnext, hcolor]
  · intro h
    have hplaces : ∀ i, Fill.Reach c.width c.height found c.pixels (c.index p.1 p.2) i →
        ∃ r : Int × Int, c.contains r.1 r.2 = true ∧ c.index r.1 r.2 = i ∧
          c.Connected found p r := by
      intro i hi
      induction hi with
      | refl => exact ⟨p, hp, rfl, .refl⟩
      | tail _ hstep ih =>
          obtain ⟨hneighbour, hcolor⟩ := hstep
          obtain ⟨r, hr, rfl, hconnected⟩ := ih
          obtain ⟨r', hadjacent, hr', rfl⟩ := (mem_neighbours_iff hr _).1 hneighbour
          rw [← pixel?_of_contains hr'] at hcolor
          exact ⟨r', hr', rfl, hconnected.tail ⟨hadjacent, hcolor⟩⟩
    obtain ⟨r, hr, hindex, hconnected⟩ := hplaces _ h
    obtain ⟨hx, hy⟩ := index_inj hr hq hindex
    rwa [Prod.ext hx hy] at hconnected

end

/-! ### Filling -/

section

variable {c : Canvas} {found : Color}

/-- What the fill does where the turtle stands on another color. -/
theorem fillRegion_of_differ (h : c.pixelUnderTurtle? = some found) (differ : c.fill ≠ found) :
    c.fillRegion = { c with
      pixels := Fill.spread c.width c.height found c.fill differ
        (c.pixels.setIfInBounds (c.index c.column c.row) c.fill) [c.index c.column c.row] } := by
  unfold fillRegion
  rw [h]
  exact dif_neg differ

/-- The fill color is not spread where it is already. -/
theorem fillRegion_of_same (h : c.pixelUnderTurtle? = none ∨ c.pixelUnderTurtle? = some c.fill) :
    c.fillRegion = c := by
  unfold fillRegion
  rcases h with h | h
  · rw [h]
  · rw [h]
    exact dif_pos rfl

/-- A fill changes nothing but pixels. -/
theorem fillRegion_eq (c : Canvas) :
    ∃ pixels, c.fillRegion = { c with pixels } ∧ pixels.size = c.pixels.size := by
  cases hunder : c.pixelUnderTurtle? with
  | none => exact ⟨c.pixels, fillRegion_of_same (.inl hunder), rfl⟩
  | some found =>
      by_cases differ : c.fill = found
      · exact ⟨c.pixels, fillRegion_of_same (.inr (differ ▸ hunder)), rfl⟩
      · refine ⟨_, fillRegion_of_differ hunder differ, ?_⟩
        rw [Fill.size_spread, Array.size_setIfInBounds]

/-- The pixels that are connected with the one under the turtle get the fill
color, and all others stay. -/
theorem pixel?_fillRegion (h : c.pixelUnderTurtle? = some found) (differ : c.fill ≠ found)
    (p : Int × Int) :
    (c.Connected found (c.column, c.row) p → c.fillRegion.pixel? p.1 p.2 = some c.fill) ∧
      (¬ c.Connected found (c.column, c.row) p →
        c.fillRegion.pixel? p.1 p.2 = c.pixel? p.1 p.2) := by
  have hfirst : c.contains c.column c.row = true := contains_of_pixel? h
  have hcolor : c.pixels[c.index c.column c.row]? = some found := by
    rw [← pixel?_of_contains hfirst]
    exact h
  rw [fillRegion_of_differ h differ, pixel?_with_pixels, pixel?]
  by_cases hp : c.contains p.1 p.2 = true
  · rw [if_pos hp, if_pos hp, connected_iff_reach (p := (c.column, c.row)) hfirst hp]
    exact Fill.getElem?_spread differ hcolor _
  · rw [if_neg hp, if_neg hp]
    have houtside : ¬ c.Connected found (c.column, c.row) p :=
      fun hconnected => hp (contains_of_connected (p := (c.column, c.row)) hfirst hconnected)
    exact ⟨fun hconnected => absurd hconnected houtside, fun _ => rfl⟩

end

/-- If the turtle is outside of the canvas, or on a pixel that has the fill color
already, then a fill changes nothing. Otherwise it sets exactly those pixels to
the fill color that can be reached from the one under the turtle by way of pixels
of the same color, each of which shares a side with the one before. It changes
nothing else, and to fill once more changes nothing at all. -/
theorem fillRegion_paints_region (c : Canvas) :
    (c.pixelUnderTurtle? = none ∨ c.pixelUnderTurtle? = some c.fill → c.fillRegion = c) ∧
      (∀ found, c.pixelUnderTurtle? = some found → c.fill ≠ found →
        (∃ pixels, c.fillRegion = { c with pixels } ∧ pixels.size = c.pixels.size) ∧
        ∀ p : Int × Int,
          (c.Connected found (c.column, c.row) p → c.fillRegion.pixel? p.1 p.2 = some c.fill) ∧
          (¬ c.Connected found (c.column, c.row) p →
            c.fillRegion.pixel? p.1 p.2 = c.pixel? p.1 p.2)) ∧
      c.fillRegion.fillRegion = c.fillRegion := by
  refine ⟨fillRegion_of_same, ?_, ?_⟩
  · intro found h differ
    refine ⟨⟨_, fillRegion_of_differ h differ, ?_⟩, pixel?_fillRegion h differ⟩
    rw [Fill.size_spread, Array.size_setIfInBounds]
  · cases h : c.pixelUnderTurtle? with
    | none =>
        have hsame := fillRegion_of_same (.inl h)
        rw [hsame, hsame]
    | some found =>
        by_cases differ : c.fill = found
        · have hsame := fillRegion_of_same (.inr (differ ▸ h))
          rw [hsame, hsame]
        · apply fillRegion_of_same
          right
          -- the turtle is where it was, and its pixel is connected with itself
          have hpainted := (pixel?_fillRegion h differ (c.column, c.row)).1 .refl
          have hunder : c.fillRegion.pixelUnderTurtle? = some c.fill := by
            rw [← hpainted, fillRegion_of_differ h differ]
            rfl
          have hfill : c.fillRegion.fill = c.fill := by rw [fillRegion_of_differ h differ]
          rw [hunder, hfill]

/-- Places next to each other in the array, at the end of one row and at the
beginning of the next one: these pixels share no side, and only the one under
the turtle is painted. -/
theorem fillRegion_paints_region_corner :
    let red : Color := ⟨255, 0, 0⟩
    let c : Canvas := { blank 2 2 with
      y := -1
      fill := red
      pixels := #[.black, .white, .white, .black] }
    (c.pixelUnderTurtle? = some .white ∧ c.fill ≠ .white) ∧
      c.fillRegion.pixel? 1 0 = some red ∧ c.fillRegion.pixel? 0 1 = some .white ∧
      c.fillRegion.fillRegion = c.fillRegion := by
  intro red c
  have hunder : c.pixelUnderTurtle? = some .white := by decide +kernel
  have differ : c.fill ≠ .white := by decide
  have hstart : (c.column, c.row) = (1, 0) := by decide +kernel
  have halone : ∀ p, c.Connected .white (1, 0) p → p = (1, 0) := by
    intro p hp
    induction hp with
    | refl => rfl
    | @tail q r _ hstep ih =>
        obtain ⟨hadjacent, hcolor⟩ := hstep
        obtain ⟨x, y⟩ := r
        obtain ⟨a, b, ha, hb, rfl, rfl⟩ := contains_iff.1 (contains_of_pixel? hcolor)
        rw [ih, adjacent_iff] at hadjacent
        obtain ⟨rfl, rfl⟩ | ⟨rfl, rfl⟩ : a = 0 ∧ b = 0 ∨ a = 1 ∧ b = 1 := by
          simp only [c, blank] at ha hb
          omega
        · exact absurd hcolor (by decide)
        · exact absurd hcolor (by decide)
  obtain ⟨-, hpaints, hagain⟩ := fillRegion_paints_region c
  obtain ⟨-, hpixels⟩ := hpaints .white hunder differ
  rw [hstart] at hpixels
  refine ⟨⟨hunder, differ⟩, (hpixels (1, 0)).1 .refl, ?_, hagain⟩
  rw [(hpixels (0, 1)).2 fun h => absurd (halone _ h) (by decide)]
  decide

end Canvas

end Turtle
