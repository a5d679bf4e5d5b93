import Mathlib.Data.List.Induction
import Turtle.Proofs.Canvas.Repainting

/-!
Drawings on a background that changes.

A pixel belongs to the drawing if it has another color than the background, and
nothing else tells the two apart. A new color for the background keeps them apart
exactly if no pixel of the drawing has it. The pixels of the background then still
have one color, which is that of no other pixel, so that the next color finds the
same background again: of several colors only the last one is seen in the end.

As colors that were different stay different, a region of one color keeps its shape
as well, and a fill spreads over the same pixels.
-/

namespace Turtle.Canvas

variable {c : Canvas} {color found : Color} {x y : ℤ}

/-! ### Drawing and background -/

/-- The color of a pixel that belongs to the drawing. -/
def drawn? (c : Canvas) (x y : ℤ) : Option Color :=
  (c.pixel? x y).filter (· ≠ c.background)

/-- No pixel of the drawing has the color. -/
def Unused (c : Canvas) (color : Color) : Prop :=
  ∀ p ∈ c.pixels, p ≠ c.background → p ≠ color

/-- The background after the instructions, all of which set it. -/
def lastBackground (c : Canvas) (is : List Instruction) : Color :=
  (is.getLast?.map Instruction.color).getD c.background

/-- What becomes of a color when the background gets another one. -/
def exchange (old new p : Color) : Color :=
  if p = old then new else p

theorem unused_background (c : Canvas) : c.Unused c.background :=
  fun _ _ hdrawn => hdrawn

theorem unused_lastBackground {is : List Instruction} (h : ∀ i ∈ is, c.Unused i.color) :
    c.Unused (c.lastBackground is) := by
  rw [lastBackground]
  cases hlast : is.getLast? with
  | none => exact c.unused_background
  | some i => exact h i (List.mem_of_getLast? hlast)

theorem mem_of_pixel? (h : c.pixel? x y = some color) : color ∈ c.pixels := by
  rw [pixel?_of_contains (contains_of_pixel? h)] at h
  exact Array.mem_of_getElem? h

/-! ### Setting the background -/

theorem pixel?_setBackground (c : Canvas) (color : Color) (x y : ℤ) :
    (c.setBackground color).pixel? x y = (c.pixel? x y).map (exchange c.background color) :=
  c.pixel?_map (exchange c.background color) x y

theorem setBackground_background (c : Canvas) : c.setBackground c.background = c := by
  have hpixels : c.pixels.map (exchange c.background c.background) = c.pixels := by
    conv_rhs => rw [← Array.map_id c.pixels]
    congr 1
    funext p
    rw [exchange]
    split_ifs with hp
    · exact hp.symm
    · rfl
  exact congrArg (fun pixels => { c with pixels }) hpixels

/-- An unused color is seen nowhere once another one takes its place. -/
theorem setBackground_setBackground (h : c.Unused color) (color' : Color) :
    (c.setBackground color).setBackground color' = c.setBackground color' := by
  have hpixels : (c.pixels.map (exchange c.background color)).map (exchange color color') =
      c.pixels.map (exchange c.background color') := by
    rw [Array.map_map]
    apply Array.map_congr_left
    intro p hp
    by_cases hbackground : p = c.background
    · simp [exchange, hbackground]
    · simp [exchange, hbackground, h p hp hbackground]
  exact congrArg (fun pixels => { c with background := color', pixels }) hpixels

theorem execute_setScreenColor [Circle] {i : Instruction} (h : i.command = .setScreenColor)
    (c : Canvas) :
    c.execute i = c.setBackground i.color := by
  rw [execute, h]

/-- Of several backgrounds the last one counts. -/
theorem foldl_setScreenColor [Circle] {is : List Instruction}
    (hcommand : ∀ i ∈ is, i.command = .setScreenColor) (hunused : ∀ i ∈ is, c.Unused i.color) :
    is.foldl execute c = c.setBackground (c.lastBackground is) := by
  induction is using List.reverseRecOn with
  | nil => exact c.setBackground_background.symm
  | append_singleton is i ih =>
      rw [List.forall_mem_append] at hcommand hunused
      have hlast : c.lastBackground (is ++ [i]) = i.color := by simp [lastBackground]
      rw [List.foldl_append, ih hcommand.1 hunused.1, List.foldl_cons, List.foldl_nil,
        execute_setScreenColor (hcommand.2 i List.mem_cons_self),
        setBackground_setBackground (unused_lastBackground hunused.1), hlast]

/-- What is drawn is found again on another background. -/
theorem filter_map_exchange {old new : Color} {pixel? : Option Color}
    (h : ∀ p, pixel? = some p → p ≠ old → p ≠ new) :
    (pixel?.map (exchange old new)).filter (· ≠ new) = pixel?.filter (· ≠ old) := by
  cases pixel? with
  | none => rfl
  | some p =>
      by_cases hp : p = old
      · simp [Option.filter, exchange, hp]
      · simp [Option.filter, exchange, hp, h p rfl hp]

/-- The drawing stays. -/
theorem drawn?_setBackground (h : c.Unused color) (x y : ℤ) :
    (c.setBackground color).drawn? x y = c.drawn? x y := by
  rw [drawn?, drawn?, pixel?_setBackground]
  exact filter_map_exchange fun p hp => h p (mem_of_pixel? hp)

/-! ### Filling -/

/-- Colors that were different stay different. -/
theorem exchange_inj {old new p q : Color} (hp : p ≠ old → p ≠ new) (hq : q ≠ old → q ≠ new) :
    exchange old new p = exchange old new q ↔ p = q := by
  rw [exchange, exchange]
  split_ifs with hpold hqold hqold
  · simp [hpold, hqold]
  · exact iff_of_false (hq hqold).symm (fun heq => hqold (heq ▸ hpold))
  · exact iff_of_false (hp hpold) (fun heq => hpold (heq ▸ hqold))
  · rfl

theorem pixel?_setBackground_eq_some_iff (h : c.Unused color) (hfound : found ∈ c.pixels) :
    (c.setBackground color).pixel? x y = some (exchange c.background color found) ↔
      c.pixel? x y = some found := by
  rw [pixel?_setBackground]
  cases hpixel : c.pixel? x y with
  | none => simp
  | some p => simpa using exchange_inj (h p (mem_of_pixel? hpixel)) (h found hfound)

theorem connected_setBackground (h : c.Unused color) (hfound : found ∈ c.pixels) :
    (c.setBackground color).Connected (exchange c.background color found) = c.Connected found := by
  simp only [Connected, pixel?_setBackground_eq_some_iff h hfound]

section

variable (h : c.Unused color) (hold : c.fill ≠ c.background) (hnew : c.fill ≠ color)

include h hold hnew

/-- A fill paints the same pixels, as long as its color is not one of the
backgrounds. -/
theorem pixel?_fillRegion_setBackground (x y : ℤ) :
    (c.setBackground color).fillRegion.pixel? x y =
      (c.fillRegion.pixel? x y).map (exchange c.background color) := by
  have hkept := c.pixel?_setBackground color x y
  have hunder : (c.setBackground color).pixelUnderTurtle? =
      c.pixelUnderTurtle?.map (exchange c.background color) :=
    c.pixel?_setBackground color c.column c.row
  have hfill : exchange c.background color c.fill = c.fill := if_neg hold
  cases hfound : c.pixelUnderTurtle? with
  | none =>
      rw [hfound] at hunder
      rw [fillRegion_of_same (.inl hfound), fillRegion_of_same (.inl hunder), hkept]
  | some found =>
      rw [hfound] at hunder
      by_cases differ : c.fill = found
      · have hsame : c.fillRegion = c := fillRegion_of_same (.inr (differ ▸ hfound))
        rw [← differ, Option.map_some, hfill] at hunder
        rw [hsame, fillRegion_of_same (.inr hunder), hkept]
      · have differ' : (c.setBackground color).fill ≠ exchange c.background color found := by
          change c.fill ≠ _
          rw [exchange]
          split_ifs
          · exact hnew
          · exact differ
        obtain ⟨hpainted, hstays⟩ := pixel?_fillRegion hfound differ (x, y)
        obtain ⟨hpainted', hstays'⟩ := pixel?_fillRegion hunder differ' (x, y)
        rw [connected_setBackground h (mem_of_pixel? hfound)] at hpainted' hstays'
        by_cases hconnected : c.Connected found (c.column, c.row) (x, y)
        · rw [hpainted hconnected, hpainted' hconnected, Option.map_some, hfill]
          rfl
        · rw [hstays hconnected, hstays' hconnected, hkept]

/-- Behind the fill the drawings are the same. -/
theorem drawn?_fillRegion_setBackground (x y : ℤ) :
    (c.setBackground color).fillRegion.drawn? x y = c.fillRegion.drawn? x y := by
  have hbackground : ∀ d : Canvas, d.fillRegion.background = d.background := by
    intro d
    obtain ⟨pixels, hfilled, -⟩ := fillRegion_eq d
    rw [hfilled]
  rw [drawn?, drawn?, hbackground, hbackground, pixel?_fillRegion_setBackground h hold hnew]
  apply filter_map_exchange
  intro p hp
  rcases pixel?_fillRegion_cases c x y with hkept | hpainted
  · exact h p (mem_of_pixel? (hkept ▸ hp))
  · rw [hpainted] at hp
    cases hp
    exact fun _ => hnew

/-- The fill changes a pixel on one background if it does on the other. -/
theorem fillRegion_setBackground_ne_iff (x y : ℤ) :
    (c.setBackground color).fillRegion.pixel? x y ≠ (c.setBackground color).pixel? x y ↔
      c.fillRegion.pixel? x y ≠ c.pixel? x y := by
  rw [pixel?_fillRegion_setBackground h hold hnew, pixel?_setBackground, not_iff_not]
  rcases pixel?_fillRegion_cases c x y with hkept | hpainted
  · rw [hkept]
    exact iff_of_true rfl rfl
  · rw [hpainted]
    cases hpixel : c.pixel? x y with
    | none => simp
    | some p => simpa using exchange_inj (fun _ => hnew) (h p (mem_of_pixel? hpixel))

end

/-! ### Several backgrounds -/

/-- Backgrounds that are set one after the other, none of them a color of the
drawing, leave the drawing as it is, pixel by pixel, and all other pixels have the
last color that was set. Nothing else changes, and to set the old background again
gives the canvas of the beginning. If the fill color is none of the backgrounds, a
fill paints the same pixels as it would have painted before. -/
theorem drawing_kept [Circle] (c : Canvas) (is : List Instruction)
    (hcommand : ∀ i ∈ is, i.command = .setScreenColor) (hunused : ∀ i ∈ is, c.Unused i.color) :
    let d := is.foldl execute c
    let last := c.lastBackground is
    d.background = last ∧
      (∀ x y, d.drawn? x y = c.drawn? x y) ∧
      (∀ x y, c.pixel? x y = some c.background → d.pixel? x y = some last) ∧
      (∃ pixels, d = { c with background := last, pixels }) ∧
      (∀ i : Instruction, i.command = .setScreenColor → i.color = c.background →
        d.execute i = c) ∧
      ∀ i : Instruction, i.command = .fill → c.fill ≠ c.background → c.fill ≠ last → ∀ x y,
        ((d.execute i).pixel? x y ≠ d.pixel? x y ↔ (c.execute i).pixel? x y ≠ c.pixel? x y) ∧
          (d.execute i).drawn? x y = (c.execute i).drawn? x y := by
  intro d last
  have hd : d = c.setBackground last := foldl_setScreenColor hcommand hunused
  have hlast : c.Unused last := unused_lastBackground hunused
  rw [hd]
  refine ⟨rfl, drawn?_setBackground hlast, ?_, ⟨_, rfl⟩, ?_, ?_⟩
  · intro x y hbackground
    rw [pixel?_setBackground, hbackground, Option.map_some, exchange, if_pos rfl]
  · intro i hi hold
    rw [execute_setScreenColor hi, setBackground_setBackground hlast, hold,
      setBackground_background]
  · intro i hi hold hnew x y
    have hexecute : ∀ d : Canvas, d.execute i = d.fillRegion := by
      intro d
      rw [execute, hi]
    rw [hexecute, hexecute]
    exact ⟨fillRegion_setBackground_ne_iff hlast hold hnew x y,
      drawn?_fillRegion_setBackground hlast hold hnew x y⟩

/-- The background is red and then black, beside a green pixel. That red is also the
fill color does not matter in the end. -/
theorem drawing_kept_twice :
    let red : Color := ⟨255, 0, 0⟩
    let c : Canvas := { blank 3 1 with fill := red, pixels := #[.white, .white, ⟨0, 255, 0⟩] }
    let is : List Instruction := [⟨.setScreenColor, [300, -1, 0]⟩, ⟨.setScreenColor, []⟩]
    ((∀ i ∈ is, i.command = .setScreenColor) ∧ (∀ i ∈ is, c.Unused i.color)) ∧
      (is.foldl execute c).background = .black ∧
      (is.foldl execute c).drawn? 2 0 = some ⟨0, 255, 0⟩ ∧
      (is.foldl execute c).pixel? 1 0 = some .black ∧
      (is.foldl execute c).execute ⟨.setScreenColor, [255, 255, 256]⟩ = c ∧
      (((is.foldl execute c).execute ⟨.fill, []⟩).pixel? 0 0 ≠ (is.foldl execute c).pixel? 0 0 ↔
        (c.execute ⟨.fill, []⟩).pixel? 0 0 ≠ c.pixel? 0 0) := by
  intro red c is
  have hcommand : ∀ i ∈ is, i.command = .setScreenColor := by decide
  have hunused : ∀ i ∈ is, c.Unused i.color := by
    unfold Unused
    decide
  obtain ⟨hbackground, hdrawn, hrest, -, hagain, hfill⟩ := drawing_kept c is hcommand hunused
  refine ⟨⟨hcommand, hunused⟩, hbackground, (hdrawn 2 0).trans (by decide),
    hrest 1 0 (by decide), hagain _ rfl (by decide), ?_⟩
  exact (hfill ⟨.fill, []⟩ rfl (by decide) (by decide) 0 0).1

end Turtle.Canvas
