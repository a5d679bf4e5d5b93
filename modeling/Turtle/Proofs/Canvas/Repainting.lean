import Turtle.Canvas.Create
import Turtle.Proofs.Canvas.Access

/-!
What instructions can do to a canvas.

The canvas keeps its size and all its pixels, and the pen a size that a pen can
have. A pixel changes its color in four ways only: the pen that is down passes over
it, a fill reaches it, it has the color of the background while that is exchanged,
or everything is cleared. Each of them leaves one color behind, which the canvas or
the instruction tells.
-/

namespace Turtle

/-! ### Mixed colors -/

theorem Color.toNat_component (n : Int64) :
    ((Color.component n).toNat : ℤ) = min 255 (max 0 n.toInt) := by
  have hnegative : n < 0 ↔ n.toInt < 0 := by rw [Int64.lt_iff_toInt_lt, Int64.toInt_zero]
  have hlarge : 255 < n ↔ 255 < n.toInt := by
    rw [Int64.lt_iff_toInt_lt]
    rfl
  rw [component]
  split_ifs with hneg habove
  · rw [hnegative] at hneg
    rw [max_eq_left hneg.le]
    rfl
  · rw [hlarge] at habove
    rw [max_eq_right (by omega), min_eq_left habove.le]
    rfl
  · rw [hnegative] at hneg
    rw [hlarge] at habove
    have hbyte : n.toInt.toNat.toUInt8.toNat = n.toInt.toNat := by
      rw [Nat.toUInt8, UInt8.toNat_ofNat']
      omega
    rw [hbyte]
    omega

/-- The components of the color are the arguments, each brought into the range of a
component. -/
structure Instruction.Mixes (i : Instruction) (color : Color) : Prop where
  red : (color.red.toNat : ℤ) = min 255 (max 0 (i.argument 0).toInt)
  green : (color.green.toNat : ℤ) = min 255 (max 0 (i.argument 1).toInt)
  blue : (color.blue.toNat : ℤ) = min 255 (max 0 (i.argument 2).toInt)

theorem Instruction.mixes_color (i : Instruction) : i.Mixes i.color where
  red := Color.toNat_component _
  green := Color.toNat_component _
  blue := Color.toNat_component _

namespace Canvas

variable {c : Canvas} {i : Instruction} {x y : ℤ} {old new : Color}

/-- The ways in which an instruction can change the color of a pixel. -/
inductive Repaints (c : Canvas) (i : Instruction) : Color → Color → Prop
  | stroke {old : Color} (hdown : c.penDown = true) (hmoves : i.command.moves = true) :
      Repaints c i old c.pen
  | fill {old : Color} (hcommand : i.command = .fill) : Repaints c i old c.fill
  | exchange (hcommand : i.command = .setScreenColor) : Repaints c i c.background i.color
  | clear {old : Color} (hcommand : i.command = .clearScreen ∨ i.command = .clean) :
      Repaints c i old c.background

/-! ### Moves and fills -/

theorem pixel?_moveTo (h : c.Proper) (u v : Rat) (x y : ℤ) :
    (c.moveTo u v).pixel? x y = c.pixel? x y ∨
      c.penDown = true ∧ (c.moveTo u v).pixel? x y = some c.pen := by
  rw [moveTo]
  split_ifs with hdown
  · have hdrawn := pixel?_drawLine h.sized h.penSize_pos ⟨c.x, c.y, u, v⟩ (x, y)
    split_ifs at hdrawn
    · exact .inr ⟨hdown, hdrawn⟩
    · exact .inl hdrawn
  · exact .inl rfl

theorem pixel?_fillRegion_cases (c : Canvas) (x y : ℤ) :
    c.fillRegion.pixel? x y = c.pixel? x y ∨ c.fillRegion.pixel? x y = some c.fill := by
  cases hunder : c.pixelUnderTurtle? with
  | none => exact .inl (by rw [fillRegion_of_same (.inl hunder)])
  | some found =>
      by_cases differ : c.fill = found
      · exact .inl (by rw [fillRegion_of_same (.inr (differ ▸ hunder))])
      · obtain ⟨hpainted, hkept⟩ := pixel?_fillRegion hunder differ (x, y)
        by_cases hconnected : c.Connected found (c.column, c.row) (x, y)
        · exact .inr (hpainted hconnected)
        · exact .inl (hkept hconnected)

theorem pixel?_map (c : Canvas) (f : Color → Color) (x y : ℤ) :
    { c with pixels := c.pixels.map f }.pixel? x y = (c.pixel? x y).map f := by
  rw [pixel?_with_pixels, pixel?, Array.getElem?_map]
  split_ifs <;> rfl

/-- A pixel is there exactly if its coordinates are on the canvas. -/
theorem Proper.isSome_pixel? (h : c.Proper) (x y : ℤ) : (c.pixel? x y).isSome = c.contains x y := by
  rw [pixel?]
  split_ifs with hcontains
  · have hplace : c.index x y < c.pixels.size := h.sized.symm ▸ index_lt_of_contains hcontains
    rw [Array.getElem?_eq_getElem hplace, hcontains]
    rfl
  · exact (Bool.eq_false_iff.2 hcontains).symm

/-! ### One instruction -/

section

variable [Circle]

/-- No instruction changes the size of the canvas. -/
theorem size_execute (c : Canvas) (i : Instruction) :
    (c.execute i).width = c.width ∧ (c.execute i).height = c.height := by
  have hmove : ∀ u v, (c.moveTo u v).width = c.width ∧ (c.moveTo u v).height = c.height := by
    intro u v
    rw [moveTo]
    split_ifs <;> exact ⟨rfl, rfl⟩
  cases hcommand : i.command <;> rw [execute, hcommand]
  case forward | backward | setXY | home => exact hmove _ _
  case fill =>
    obtain ⟨pixels, hfilled, -⟩ := fillRegion_eq c
    dsimp only
    rw [hfilled]
    exact ⟨rfl, rfl⟩
  all_goals exact ⟨rfl, rfl⟩

/-- A pixel that has another color than before got it in one of the four ways. -/
theorem repaints_of_ne (h : c.Proper) (hold : c.pixel? x y = some old)
    (hnew : (c.execute i).pixel? x y = some new) (hne : old ≠ new) : c.Repaints i old new := by
  have hchanged : (c.execute i).pixel? x y ≠ c.pixel? x y := by
    rw [hold, hnew]
    exact fun hsame => hne (Option.some.inj hsame).symm
  have hmapped : ∀ f : Color → Color,
      (c.execute i).pixel? x y = { c with pixels := c.pixels.map f }.pixel? x y → new = f old := by
    intro f hexecuted
    rw [pixel?_map, hold, hnew] at hexecuted
    exact Option.some.inj hexecuted
  by_cases hmoves : i.command.moves = true
  · have hmoved : (c.execute i).pixel? x y =
        (c.moveTo (c.pose.after i).x (c.pose.after i).y).pixel? x y := by
      rw [execute_of_moves hmoves]
      rfl
    rcases pixel?_moveTo h (c.pose.after i).x (c.pose.after i).y x y with hkept | ⟨hdown, hpainted⟩
    · exact absurd (hmoved.trans hkept) hchanged
    · rw [← hmoved, hnew] at hpainted
      cases hpainted
      exact .stroke hdown hmoves
  cases hcommand : i.command
  case forward | backward | setXY | home => simp [hcommand, Command.moves] at hmoves
  case fill =>
    have hfilled : c.execute i = c.fillRegion := by rw [execute, hcommand]
    rw [hfilled] at hnew hchanged
    rcases pixel?_fillRegion_cases c x y with hkept | hpainted
    · exact absurd hkept hchanged
    · rw [hnew] at hpainted
      cases hpainted
      exact .fill hcommand
  case setScreenColor =>
    have hexchanged : new = if old = c.background then i.color else old :=
      hmapped (fun p => if p = c.background then i.color else p)
        (by rw [execute, hcommand]; rfl)
    split_ifs at hexchanged with hbackground
    · rw [hexchanged, hbackground]
      exact .exchange hcommand
    · exact absurd hexchanged.symm hne
  case clearScreen | clean =>
    have hcleared : new = c.background :=
      hmapped (fun _ => c.background) (by rw [execute, hcommand]; rfl)
    rw [hcleared]
    exact .clear (by simp [hcommand])
  -- what is left paints nothing
  case print | exit => exact absurd (by rw [execute, hcommand]) hchanged
  all_goals
    have hkept : (c.execute i).pixel? x y = c.pixel? x y := by
      rw [execute, hcommand]
      rfl
    exact absurd hkept hchanged

/-! ### A whole run -/

theorem size_foldl_execute (c : Canvas) (is : List Instruction) :
    (is.foldl execute c).width = c.width ∧ (is.foldl execute c).height = c.height := by
  induction is generalizing c with
  | nil => exact ⟨rfl, rfl⟩
  | cons i is ih =>
      obtain ⟨hwidth, hheight⟩ := size_execute c i
      exact ⟨(ih (c.execute i)).1.trans hwidth, (ih (c.execute i)).2.trans hheight⟩

/-- Every positive size gives a canvas. Whatever instructions it is given, no place
is looked at or painted that does not exist; the canvas keeps its size and has
exactly its pixels, which are found at all coordinates on the canvas; the pen has a
size from 1 to 256, colors that are mixed have the arguments for components, as far
as these are components; and a pixel changes its color only by a pen that is down,
by a fill, by an exchange of the background, or when everything is cleared. -/
theorem representation_kept (width height : ℤ) (hwidth : 0 < width) (hheight : 0 < height) :
    ∃ c, create width height = .ok c ∧ ∀ is : List Instruction,
      let d := is.foldl execute c
      is.foldlM execute? c = some d ∧
        ((d.width : ℤ) = width ∧ (d.height : ℤ) = height ∧ d.pixels.size = d.width * d.height) ∧
        (∀ x y, (d.pixel? x y).isSome = d.contains x y) ∧
        (1 ≤ d.penSize ∧ d.penSize ≤ 256) ∧
        (∀ i : Instruction,
          (i.command = .setPenColor → i.Mixes (d.execute i).pen) ∧
          (i.command = .setFillColor → i.Mixes (d.execute i).fill) ∧
          (i.command = .setScreenColor → i.Mixes (d.execute i).background)) ∧
        ∀ (i : Instruction) (x y : ℤ) (old new : Color), d.pixel? x y = some old →
          (d.execute i).pixel? x y = some new → old ≠ new → d.Repaints i old new := by
  refine ⟨blank width.toNat height.toNat, ?_, ?_⟩
  · rw [create, if_neg (by simp [hwidth, hheight])]
  intro is d
  have hblank : (blank width.toNat height.toNat).Proper := proper_blank _ _
  have hd : d.Proper := proper_foldl_execute _ _ is
  obtain ⟨hdwidth, hdheight⟩ := size_foldl_execute (blank width.toNat height.toNat) is
  refine ⟨foldlM_execute?_eq_some hblank is, ⟨?_, ?_, hd.sized⟩, hd.isSome_pixel?,
    ⟨hd.penSize_pos, hd.penSize_le⟩, ?_, ?_⟩
  · rw [hdwidth]
    exact Int.toNat_of_nonneg hwidth.le
  · rw [hdheight]
    exact Int.toNat_of_nonneg hheight.le
  · intro i
    refine ⟨?_, ?_, ?_⟩ <;> intro hcommand <;> simp only [execute, hcommand]
    · exact i.mixes_color
    · exact i.mixes_color
    · exact i.mixes_color
  · intro i x y old new hold hnew hne
    exact repaints_of_ne hd hold hnew hne

end

theorem representation_kept_extreme :
    let largest : Int64 := 9223372036854775807
    let is : List Instruction := [⟨.setPenSize, [largest]⟩, ⟨.setFillColor, [largest, -1, 255]⟩,
      ⟨.fill, []⟩, ⟨.setXY, [-largest, largest]⟩, ⟨.setScreenColor, [256, 0, -largest]⟩]
    ((0 : ℤ) < 3 ∧ (0 : ℤ) < 2) ∧ create 3 2 = .ok (blank 3 2) ∧
      is.foldlM execute? (blank 3 2) = some (is.foldl execute (blank 3 2)) ∧
      (is.foldl execute (blank 3 2)).pixels.size = 3 * 2 := by
  intro largest is
  obtain ⟨c, hc, hkept⟩ := representation_kept 3 2 (by decide) (by decide)
  have hblank : c = blank 3 2 := Except.ok.inj (hc.symm.trans rfl)
  subst hblank
  obtain ⟨hranges, ⟨hwidth, hheight, hsize⟩, -⟩ := hkept is
  refine ⟨⟨by decide, by decide⟩, hc, hranges, ?_⟩
  rw [hsize, Int.ofNat_inj.1 hwidth, Int.ofNat_inj.1 hheight]

end Canvas

end Turtle
