import Turtle.Proofs.Canvas.Decoding
import Turtle.Proofs.Canvas.Pose

/-!
Every access is in range.

The pixels are one array, and the instructions come to a place in it by way of
columns and rows, or by steps from place to place. To look at a place that does not
exist yields nothing, and to paint it does nothing, so that a wrong place would not
be noticed. Here the instructions are executed by loops that give no result as soon
as a single place does not exist. The pen looks at all pixels that it covers, one
by one, and asks of each whether it is on the canvas; a fill asks this of the pixel
under the turtle only, and from then on relies on its four tests; and the background
is exchanged place by place.

On a canvas that has all its pixels these loops have a result, and it is the result
of the instruction.
-/

namespace Turtle

/-! ### Loops that can fail -/

/-- A loop whose steps do not fail, as long as an invariant holds that they keep. -/
theorem foldlM_eq_some_foldl {α β : Type} {step? : β → α → Option β} {step : β → α → β}
    (Inv : β → Prop) {xs : List α} {b : β} (hb : Inv b)
    (h : ∀ b, Inv b → ∀ x ∈ xs, step? b x = some (step b x) ∧ Inv (step b x)) :
    xs.foldlM step? b = some (xs.foldl step b) := by
  induction xs generalizing b with
  | nil => rfl
  | cons x xs ih =>
      obtain ⟨hstep, hinv⟩ := h b hb x List.mem_cons_self
      rw [List.foldlM_cons, hstep, List.foldl_cons]
      exact ih hinv fun b hb y hy => h b hb y (List.mem_cons_of_mem x hy)

/-- Paints a place, if there is one. -/
def write? (pixels : Array Color) (place : Nat) (color : Color) : Option (Array Color) :=
  if place < pixels.size then some (pixels.setIfInBounds place color) else none

theorem write?_eq_some {pixels : Array Color} {place : Nat} (h : place < pixels.size)
    (color : Color) : write? pixels place color = some (pixels.setIfInBounds place color) :=
  if_pos h

/-- Exchanges the color of a place. -/
def repaintAt? (f : Color → Color) (pixels : Array Color) (place : Nat) :
    Option (Array Color) := do
  let color ← pixels[place]?
  write? pixels place (f color)

/-- Exchanges the colors of all places, one after the other. -/
def repaint? (f : Color → Color) (pixels : Array Color) : Option (Array Color) :=
  (List.range pixels.size).foldlM (repaintAt? f) pixels

theorem repaintAt?_eq_some (f : Color → Color) {pixels : Array Color} {place : Nat}
    (h : place < pixels.size) : repaintAt? f pixels place = some (pixels.modify place f) := by
  rw [repaintAt?, Array.getElem?_eq_getElem h, Option.bind_eq_bind, Option.bind_some,
    write?_eq_some h, Option.some.injEq]
  apply Array.ext_getElem?
  intro i
  rw [Array.getElem?_setIfInBounds, Array.getElem?_modify]
  split_ifs with hi
  · subst hi
    rw [Array.getElem?_eq_getElem h]
    rfl
  · rfl

theorem getElem?_foldl_modify (f : Color → Color) (pixels : Array Color) (n place : Nat) :
    ((List.range n).foldl (fun pixels place => pixels.modify place f) pixels)[place]? =
      if place < n then pixels[place]?.map f else pixels[place]? := by
  induction n with
  | zero => rfl
  | succ n ih =>
      rw [List.range_succ, List.foldl_append, List.foldl_cons, List.foldl_nil,
        Array.getElem?_modify, ih]
      rcases lt_trichotomy place n with hbefore | rfl | hbehind
      · rw [if_neg (by omega), if_pos hbefore, if_pos (by omega)]
      · rw [if_pos rfl, if_neg (lt_irrefl place), if_pos (lt_add_one place)]
      · rw [if_neg (by omega), if_neg (by omega), if_neg (by omega)]

theorem repaint?_eq_some (f : Color → Color) (pixels : Array Color) :
    repaint? f pixels = some (pixels.map f) := by
  have hloop : repaint? f pixels =
      some ((List.range pixels.size).foldl (fun pixels place => pixels.modify place f) pixels) := by
    refine foldlM_eq_some_foldl (fun now => now.size = pixels.size) rfl ?_
    intro now hnow place hplace
    have hplace' : place < now.size := by rwa [hnow, ← List.mem_range]
    exact ⟨repaintAt?_eq_some f hplace', Array.size_modify.trans hnow⟩
  rw [hloop, Option.some.injEq]
  apply Array.ext_getElem?
  intro place
  rw [getElem?_foldl_modify, Array.getElem?_map]
  split_ifs with hplace
  · rfl
  · rw [Array.getElem?_eq_none (not_lt.1 hplace), Option.map_none]

/-! ### Fills -/

namespace Fill

/-- Looks at a pixel, and paints it if it has the color looked for. -/
def visit? (found paint : Color) (s : Array Color × List Nat) (i : Nat) :
    Option (Array Color × List Nat) := do
  let color ← s.1[i]?
  if color = found then return (← write? s.1 i paint, i :: s.2) else return s

section

variable {found paint : Color} {s s' : Array Color × List Nat}

theorem visit?_eq_some {i : Nat} (h : i < s.1.size) :
    visit? found paint s i = some (visit found paint s i) := by
  simp only [visit?, visit, Array.getElem?_eq_getElem h, write?_eq_some h, Option.some.injEq,
    Option.bind_eq_bind, Option.bind_some, Option.pure_def]
  split_ifs <;> rfl

theorem eq_visit_of_visit? {i : Nat} (h : visit? found paint s i = some s') :
    s' = visit found paint s i := by
  have hi : i < s.1.size := by
    by_contra hge
    simp [visit?, Array.getElem?_eq_none (not_lt.1 hge)] at h
  rw [visit?_eq_some hi] at h
  exact (Option.some.inj h).symm

theorem eq_foldl_visit_of_foldlM {is : List Nat} (h : is.foldlM (visit? found paint) s = some s') :
    s' = is.foldl (visit found paint) s := by
  induction is generalizing s with
  | nil => exact (Option.some.inj h).symm
  | cons i is ih =>
      rw [List.foldlM_cons, Option.bind_eq_bind, Option.bind_eq_some_iff] at h
      obtain ⟨next, hnext, hrest⟩ := h
      rw [List.foldl_cons, ← eq_visit_of_visit? hnext]
      exact ih hrest

end

/-- Looks at the neighbours of all pixels that wait. -/
def spread? (width height : Nat) (found paint : Color) (differ : paint ≠ found)
    (pixels : Array Color) (waiting : List Nat) : Option (Array Color) :=
  match waiting with
  | [] => some pixels
  | i :: waiting =>
    match _next : (neighbours width height i).foldlM (visit? found paint) (pixels, waiting) with
    | none => none
    | some (pixels, waiting) => spread? width height found paint differ pixels waiting
termination_by weight found (pixels, waiting)
decreasing_by
  rw [eq_foldl_visit_of_foldlM _next, weight_foldl_visit differ]
  simp [weight]

/-- The four tests keep the fill on the canvas. -/
theorem lt_of_mem_neighbours {width height i j : Nat} (hi : i < width * height)
    (hj : j ∈ neighbours width height i) : j < width * height := by
  have hwidth : 0 < width := Nat.pos_of_mul_pos_right (Nat.zero_lt_of_lt hi)
  have hcolumn : i % width < width := Nat.mod_lt i hwidth
  have hplace : width * (i / width) + i % width = i := Nat.div_add_mod i width
  have hrow : width * (i / width) + width ≤ width * height := by
    rw [← Nat.mul_succ]
    exact Nat.mul_le_mul_left width (Nat.div_lt_of_lt_mul hi)
  simp only [neighbours, List.mem_append, List.mem_ite_nil_right, List.mem_singleton] at hj
  rcases hj with ((⟨hleft, rfl⟩ | ⟨hright, rfl⟩) | ⟨hbelow, rfl⟩) | ⟨habove, rfl⟩
  · omega
  · omega
  · omega
  · have hnext : width * (i / width) + width + width ≤ width * height := by
      rw [← Nat.mul_succ, ← Nat.mul_succ]
      exact Nat.mul_le_mul_left width habove
    omega

section

variable {width height : Nat} {found paint : Color} {pixels : Array Color} {waiting : List Nat}

theorem foldlM_visit?_eq_some {is : List Nat} (h : ∀ i ∈ is, i < pixels.size) :
    is.foldlM (visit? found paint) (pixels, waiting) =
      some (is.foldl (visit found paint) (pixels, waiting)) := by
  refine foldlM_eq_some_foldl (fun s => s.1.size = pixels.size) rfl ?_
  intro s hs i hi
  exact ⟨visit?_eq_some (hs.symm ▸ h i hi), (size_visit s i).trans hs⟩

/-- Only neighbours come to wait. -/
theorem mem_foldl_visit {is : List Nat} {s : Array Color × List Nat} {j : Nat}
    (h : j ∈ (is.foldl (visit found paint) s).2) : j ∈ is ∨ j ∈ s.2 := by
  induction is generalizing s with
  | nil => exact .inr h
  | cons i is ih =>
      rcases ih h with hlater | hnow
      · exact .inl (List.mem_cons_of_mem i hlater)
      · rw [visit] at hnow
        split_ifs at hnow
        · rcases List.mem_cons.1 hnow with rfl | hbefore
          · exact .inl List.mem_cons_self
          · exact .inr hbefore
        · exact .inr hnow

/-- A fill that waits only at places that exist comes to no other ones. -/
theorem spread?_eq_some (differ : paint ≠ found) (hsize : pixels.size = width * height)
    (hwaiting : ∀ i ∈ waiting, i < width * height) :
    spread? width height found paint differ pixels waiting =
      some (spread width height found paint differ pixels waiting) := by
  fun_induction spread width height found paint differ pixels waiting with
  | case1 pixels => rw [spread?]
  | case2 pixels i waiting pixels' waiting' hnext ih =>
      have hi := hwaiting i List.mem_cons_self
      have hlook : (neighbours width height i).foldlM (visit? found paint) (pixels, waiting) =
          some (pixels', waiting') := by
        rw [← hnext]
        exact foldlM_visit?_eq_some fun j hj => hsize ▸ lt_of_mem_neighbours hi hj
      have hsize' : pixels'.size = width * height := by
        rw [← hsize, ← size_foldl_visit (neighbours width height i) (pixels, waiting), hnext]
      have hwaiting' : ∀ j ∈ waiting', j < width * height := by
        intro j hj
        have hj' : j ∈ ((neighbours width height i).foldl (visit found paint)
            (pixels, waiting)).2 := by
          rw [hnext]
          exact hj
        rcases mem_foldl_visit hj' with hnear | hbefore
        · exact lt_of_mem_neighbours hi hnear
        · exact hwaiting j (List.mem_cons_of_mem i hbefore)
      rw [spread?]
      split
      · rename_i hstuck
        rw [hlook] at hstuck
        cases hstuck
      · rename_i hfound
        rw [hlook] at hfound
        cases hfound
        exact ih hsize' hwaiting'

end

end Fill

namespace Canvas

variable {c : Canvas}

/-! ### The pen -/

/-- All pixels that the pen covers at a point, row by row. -/
def penSquare (size : Nat) (p : Int × Int) : List (Int × Int) :=
  let offsets := Line.upward (-((size - 1) / 2 : Nat)) size
  offsets.flatMap fun dy => offsets.map fun dx => (p.1 + dx, p.2 + dy)

/-- Paints a pixel that is on the canvas. -/
def plotPixel (c : Canvas) (pixels : Array Color) (q : Int × Int) : Array Color :=
  if c.contains q.1 q.2 then pixels.setIfInBounds (c.index q.1 q.2) c.pen else pixels

def plotPixel? (c : Canvas) (pixels : Array Color) (q : Int × Int) : Option (Array Color) :=
  if c.contains q.1 q.2 then write? pixels (c.index q.1 q.2) c.pen else some pixels

/-- Sets the pen down at a point. -/
def plot? (c : Canvas) (pixels : Array Color) (p : Int × Int) : Option (Array Color) :=
  (penSquare c.penSize p).foldlM c.plotPixel? pixels

theorem mem_penSquare {size : Nat} (hsize : 1 ≤ size) {p q : Int × Int} :
    q ∈ penSquare size p ↔ Covers size p q := by
  obtain ⟨x, y⟩ := q
  simp only [penSquare, List.mem_flatMap, List.mem_map, Line.mem_upward, Prod.mk.injEq, Covers]
  constructor
  · rintro ⟨dy, hdy, dx, hdx, rfl, rfl⟩
    omega
  · rintro ⟨hx, hy⟩
    exact ⟨y - p.2, by omega, x - p.1, by omega, by omega, by omega⟩

theorem index_lt_of_contains {x y : Int} (h : c.contains x y = true) :
    c.index x y < c.width * c.height := by
  obtain ⟨a, b, ha, hb, rfl, rfl⟩ := contains_iff.1 h
  exact index_lt ha hb

section

variable {pixels : Array Color}

theorem size_plotPixel (c : Canvas) (pixels : Array Color) (q : Int × Int) :
    (c.plotPixel pixels q).size = pixels.size := by
  rw [plotPixel]
  split_ifs
  · exact Array.size_setIfInBounds
  · rfl

theorem plotPixel?_eq_some (hpixels : pixels.size = c.width * c.height) (q : Int × Int) :
    c.plotPixel? pixels q = some (c.plotPixel pixels q) := by
  rw [plotPixel?, plotPixel]
  split_ifs with hq
  · exact write?_eq_some (hpixels ▸ index_lt_of_contains hq) c.pen
  · rfl

theorem getElem?_plotPixel (hpixels : pixels.size = c.width * c.height) (p : Int × Int)
    {q : Int × Int} (hq : c.contains q.1 q.2 = true) :
    (c.plotPixel pixels p)[c.index q.1 q.2]? =
      if q = p then some c.pen else pixels[c.index q.1 q.2]? := by
  rw [plotPixel]
  by_cases hpq : q = p
  · subst hpq
    rw [if_pos hq, if_pos rfl, Array.getElem?_setIfInBounds_self_of_lt]
    exact hpixels ▸ index_lt_of_contains hq
  · rw [if_neg hpq]
    split_ifs with hp
    · have hplace : c.index p.1 p.2 ≠ c.index q.1 q.2 := by
        intro hsame
        obtain ⟨hx, hy⟩ := index_inj hq hp hsame.symm
        exact hpq (Prod.ext hx hy)
      rw [Array.getElem?_setIfInBounds_ne hplace]
    · rfl

theorem size_foldl_plotPixel (qs : List (Int × Int)) :
    (qs.foldl c.plotPixel pixels).size = pixels.size := by
  induction qs generalizing pixels with
  | nil => rfl
  | cons q qs ih => rw [List.foldl_cons, ih, size_plotPixel]

theorem getElem?_foldl_plotPixel (hpixels : pixels.size = c.width * c.height)
    (qs : List (Int × Int)) {q : Int × Int} (hq : c.contains q.1 q.2 = true) :
    (qs.foldl c.plotPixel pixels)[c.index q.1 q.2]? =
      if q ∈ qs then some c.pen else pixels[c.index q.1 q.2]? := by
  induction qs generalizing pixels with
  | nil => simp
  | cons p qs ih =>
      rw [List.foldl_cons, ih ((size_plotPixel c pixels p).trans hpixels),
        getElem?_plotPixel hpixels p hq]
      by_cases hlater : q ∈ qs
      · rw [if_pos hlater, if_pos (List.mem_cons_of_mem p hlater)]
      · simp only [List.mem_cons, hlater, or_false, if_false]

/-- The pen paints what it covers, pixel by pixel, and comes to no place that does
not exist. -/
theorem plot?_eq_some (hsize : 1 ≤ c.penSize) (hpixels : pixels.size = c.width * c.height)
    (p : Int × Int) :
    c.plot? pixels p = some (stamp c.pen c.penSize c.width c.height pixels p) := by
  have hloop : c.plot? pixels p = some ((penSquare c.penSize p).foldl c.plotPixel pixels) := by
    refine foldlM_eq_some_foldl (fun now => now.size = c.width * c.height) hpixels ?_
    intro now hnow q _
    exact ⟨plotPixel?_eq_some hnow q, (size_plotPixel c now q).trans hnow⟩
  rw [hloop, Option.some.injEq]
  -- the stamp paints whole runs instead, so the two are compared at each pixel
  let plotted := { c with pixels := (penSquare c.penSize p).foldl c.plotPixel pixels }
  let stamped := { c with pixels := stamp c.pen c.penSize c.width c.height pixels p }
  have hplotted : plotted.Sized := (size_foldl_plotPixel _).trans hpixels
  have hstamped : stamped.Sized := (size_stamp ..).trans hpixels
  refine pixels_eq_of_pixel? hplotted hstamped rfl rfl ?_
  intro x y
  rw [pixel?_with_pixels, pixel?_with_pixels]
  split_ifs with hq
  · have hplotted := getElem?_foldl_plotPixel hpixels (penSquare c.penSize p) (q := (x, y)) hq
    simp only [mem_penSquare hsize] at hplotted
    rw [hplotted, getElem?_stamp hsize hpixels p (q := (x, y)) hq]
  · rfl

end

/-! ### Instructions -/

def drawLine? (c : Canvas) (s : Segment) : Option Canvas := do
  return { c with pixels := ← (c.linePoints s).foldlM c.plot? c.pixels }

/-- Draws a line to the new place, if the pen is down. -/
def moveTo? (c : Canvas) (p : Pose) : Option Canvas := do
  let drawn ← if c.penDown then c.drawLine? ⟨c.x, c.y, p.x, p.y⟩ else some c
  return { drawn with x := p.x, y := p.y, heading := p.heading }

def fillRegion? (c : Canvas) : Option Canvas :=
  if c.contains c.column c.row then do
    let place := c.index c.column c.row
    let found ← c.pixels[place]?
    if differ : c.fill ≠ found then
      let pixels ← write? c.pixels place c.fill
      return { c with
        pixels := ← Fill.spread? c.width c.height found c.fill differ pixels [place] }
    else return c
  else return c

/-- Executes an instruction, unless it comes to a place that does not exist. -/
def execute? [Circle] (c : Canvas) (i : Instruction) : Option Canvas :=
  match i.command with
  | .forward | .backward | .setXY | .home => c.moveTo? (c.pose.after i)
  | .fill => c.fillRegion?
  | .setScreenColor => do
    let exchange := fun color => if color = c.background then i.color else color
    return { c with background := i.color, pixels := ← repaint? exchange c.pixels }
  | .clearScreen => do
    let pixels ← repaint? (fun _ => c.background) c.pixels
    return { c with pixels, x := 0, y := 0, heading := 0 }
  | .clean => do
    return { c with pixels := ← repaint? (fun _ => c.background) c.pixels }
  | _ => return c.execute i

theorem drawLine?_eq_some (h : c.Proper) (s : Segment) : c.drawLine? s = some (c.drawLine s) := by
  have hloop : (c.linePoints s).foldlM c.plot? c.pixels =
      some ((c.linePoints s).foldl (stamp c.pen c.penSize c.width c.height) c.pixels) := by
    refine foldlM_eq_some_foldl (fun now : Array Color => now.size = c.width * c.height) h.sized ?_
    intro now hnow p _
    exact ⟨plot?_eq_some h.penSize_pos hnow p, (size_stamp ..).trans hnow⟩
  rw [drawLine?, hloop]
  rfl

theorem fillRegion?_eq_some (h : c.Proper) : c.fillRegion? = some c.fillRegion := by
  rw [fillRegion?]
  split_ifs with hunder
  · have hplace := index_lt_of_contains hunder
    have hplace' : c.index c.column c.row < c.pixels.size := h.sized.symm ▸ hplace
    have hfound : c.pixelUnderTurtle? = some c.pixels[c.index c.column c.row] := by
      rw [pixelUnderTurtle?, pixel?_of_contains hunder, Array.getElem?_eq_getElem hplace']
    dsimp only
    rw [Array.getElem?_eq_getElem hplace', Option.bind_eq_bind, Option.bind_some]
    split_ifs with differ
    · have hsize : (c.pixels.setIfInBounds (c.index c.column c.row) c.fill).size =
          c.width * c.height := Array.size_setIfInBounds.trans h.sized
      have hwaiting : ∀ i ∈ [c.index c.column c.row], i < c.width * c.height :=
        List.forall_mem_singleton.2 hplace
      rw [write?_eq_some hplace', Option.bind_eq_bind, Option.bind_some,
        Fill.spread?_eq_some differ hsize hwaiting, fillRegion_of_differ hfound differ]
      rfl
    · rw [fillRegion_of_same (.inr (not_not.1 differ ▸ hfound))]
      rfl
  · have hnone : c.pixelUnderTurtle? = none := if_neg hunder
    rw [fillRegion_of_same (.inl hnone)]
    rfl

theorem moveTo?_eq_some (h : c.Proper) (p : Pose) :
    c.moveTo? p = some { c.moveTo p.x p.y with heading := p.heading } := by
  rw [moveTo?, moveTo]
  split_ifs
  · rw [drawLine?_eq_some h]
    rfl
  · rfl

/-- The turtle moves to the pose that the instruction leads to. -/
theorem execute_of_moves [Circle] {i : Instruction} (hi : i.command.moves = true) :
    c.execute i =
      { c.moveTo (c.pose.after i).x (c.pose.after i).y with
        heading := (c.pose.after i).heading } := by
  have hstays : ∀ x y, c.moveTo x y = { c.moveTo x y with heading := c.heading } := by
    intro x y
    rw [moveTo]
    split_ifs <;> rfl
  cases hcommand : i.command <;> simp only [hcommand, Command.moves, Bool.false_eq_true] at hi
  case home => simp only [execute, Pose.after, hcommand]
  all_goals
    simp only [execute, Pose.after, hcommand]
    exact hstays _ _

/-- An instruction comes to no place that does not exist. -/
theorem execute?_eq_some [Circle] (h : c.Proper) (i : Instruction) :
    c.execute? i = some (c.execute i) := by
  cases hcommand : i.command <;> simp only [execute?, hcommand]
  case forward | backward | setXY | home =>
    rw [moveTo?_eq_some h, execute_of_moves (by rw [hcommand]; rfl)]
  case fill => rw [fillRegion?_eq_some h, execute, hcommand]
  case setScreenColor | clean | clearScreen =>
    rw [repaint?_eq_some, execute, hcommand]
    rfl
  all_goals rfl

/-- Nor does a whole run. -/
theorem foldlM_execute?_eq_some [Circle] (h : c.Proper) (is : List Instruction) :
    is.foldlM execute? c = some (is.foldl execute c) := by
  refine foldlM_eq_some_foldl Proper h ?_
  intro now hnow i _
  exact ⟨execute?_eq_some hnow i, hnow.execute i⟩

end Canvas

end Turtle
