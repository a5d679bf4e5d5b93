import Turtle.Proofs.Canvas.Clip
import Turtle.Proofs.Canvas.Words

/-!
What is visible of a line fits into words.

The ends of a line are cut to the canvas and its margin before they become integers of
32 bits. Cutting is computed with rounding, so an end may come to lie beside the border
at which it was cut, the further the longer the way to that border is. For a line that
begins no further away than `2 ^ 77`, it stays so close to the border that all integers
from there on fit into their words. How far away the line ends does not matter.
-/

namespace Turtle

namespace Segment

open Binary64

variable {x d t low high p q : ℚ} {part part' : Part}

/-! ### Parts that respect borders -/

/-- The part lies on the inner side of a border. -/
structure Part.Respects (part : Part) (p q : ℚ) : Prop where
  enters : p < 0 → div q p ≤ part.first
  leaves : 0 < p → part.last ≤ div q p
  inside : p = 0 → 0 ≤ q

/-- The part is what another one has become. -/
structure Part.Narrows (part part' : Part) : Prop where
  first : part.first ≤ part'.first
  last : part'.last ≤ part.last
  nonempty : part.first ≤ part.last → part'.first ≤ part'.last

theorem Part.Narrows.trans {part'' : Part} (h : part.Narrows part') (h' : part'.Narrows part'') :
    part.Narrows part'' where
  first := h.first.trans h'.first
  last := h'.last.trans h.last
  nonempty := fun hpart => h'.nonempty (h.nonempty hpart)

/-- Borders that were respected stay so. -/
theorem Part.Respects.narrows (h : part.Respects p q) (hnarrows : part.Narrows part') :
    part'.Respects p q where
  enters := fun hp => (h.enters hp).trans hnarrows.first
  leaves := fun hp => hnarrows.last.trans (h.leaves hp)
  inside := h.inside

theorem Part.cut_eq_some (h : part.cut p q = some part') :
    part.Narrows part' ∧ part'.Respects p q := by
  rcases lt_trichotomy p 0 with hneg | rfl | hpos
  · rw [cut_enter part hneg] at h
    split_ifs at h with hout
    cases h
    exact ⟨⟨le_max_left _ _, le_rfl, fun hpart => max_le hpart (not_lt.1 hout)⟩,
      ⟨fun _ => le_max_right _ _, fun hp => absurd hp hneg.not_gt, fun hp => absurd hp hneg.ne⟩⟩
  · rw [cut_zero] at h
    split_ifs at h with hout
    cases h
    exact ⟨⟨le_rfl, le_rfl, id⟩, ⟨fun hp => absurd hp (lt_irrefl 0),
      fun hp => absurd hp (lt_irrefl 0), fun _ => not_lt.1 hout⟩⟩
  · rw [cut_leave part hpos] at h
    split_ifs at h with hout
    cases h
    exact ⟨⟨le_rfl, min_le_left _ _, fun hpart => le_min hpart (not_lt.1 hout)⟩,
      ⟨fun hp => absurd hp hpos.not_gt, fun _ => min_le_right _ _, fun hp => absurd hp hpos.ne'⟩⟩

/-! ### Places in a part -/

/-- A difference that is not zero is not rounded to zero. -/
theorem le_of_sub_nonneg {a b : ℚ} (h : 0 ≤ sub a b) : b ≤ a := by
  by_contra hlt
  have hneg : a - b < 0 := sub_neg.2 (not_le.1 hlt)
  have hle : Binary64.round (a - b) ≤ 0 := round_le_of_le representable_zero hneg.le
  exact hneg.ne (eq_zero_of_round_eq_zero (le_antisymm hle h))

section

variable (hx : Representable x) (hx' : |x| ≤ 2 ^ 78) (hlow : |low| ≤ 2 ^ 15)
  (hhigh : |high| ≤ 2 ^ 15) (hfirst : part.first ≤ t) (hlast : t ≤ part.last)

include hx' in
/-- Where a border is met is not much further away than the border. -/
theorem abs_place_crossing_le {border : ℚ} (hborder : |border| ≤ 2 ^ 15) (hd : d ≠ 0) :
    |place x d (crossing x d border)| ≤ 2 ^ 28 := by
  have herror := abs_place_crossing_sub_le (by norm_num) hx' hborder hd
  rw [abs_le] at herror hborder ⊢
  exact ⟨by linarith, by linarith⟩

include hx hx' hlow hhigh hfirst hlast in
theorem abs_place_le (hlower : part.Respects (-d) (sub x low))
    (hupper : part.Respects d (sub high x)) : |place x d t| ≤ 2 ^ 28 := by
  have hmeets := div_sub_neg x d low
  rcases lt_trichotomy d 0 with hneg | rfl | hpos
  · -- on the way back the places come in the opposite order
    have henter := abs_le.1 (abs_place_crossing_le hx' hhigh hneg.ne)
    have hleave := abs_le.1 (abs_place_crossing_le hx' hlow hneg.ne)
    have hmono : ∀ {t u : ℚ}, t ≤ u → place x d u ≤ place x d t := by
      intro t u htu
      rw [← neg_le_neg_iff, ← place_neg, ← place_neg]
      exact place_mono (neg_pos.2 hneg).le htu
    have hbegin := hmono ((hupper.enters hneg).trans hfirst)
    have hend := hmono (hlast.trans (hmeets ▸ hlower.leaves (neg_pos.2 hneg)))
    exact abs_le.2 ⟨hleave.1.trans hend, hbegin.trans henter.2⟩
  · have hinside : low ≤ x := le_of_sub_nonneg (hlower.inside neg_zero)
    have hinside' : x ≤ high := le_of_sub_nonneg (hupper.inside rfl)
    rw [place_still hx]
    rw [abs_le] at hlow hhigh ⊢
    exact ⟨by linarith, by linarith⟩
  · have henter := abs_le.1 (abs_place_crossing_le hx' hlow hpos.ne')
    have hleave := abs_le.1 (abs_place_crossing_le hx' hhigh hpos.ne')
    have hbegin := place_mono (x := x) hpos.le
      ((hmeets ▸ hlower.enters (neg_neg_of_pos hpos)).trans hfirst)
    have hend := place_mono (x := x) hpos.le (hlast.trans (hupper.leaves hpos))
    exact abs_le.2 ⟨henter.1.trans hbegin, hend.trans hleave.2⟩

end

/-- Both ends of what is left of a line lie about the borders. -/
theorem abs_clip?_le {s visible : Segment} {left bottom right top : ℚ}
    (h : s.clip? left bottom right top = some visible)
    (hx : Representable s.x₀) (hx' : |s.x₀| ≤ 2 ^ 78) (hy : Representable s.y₀)
    (hy' : |s.y₀| ≤ 2 ^ 78) (hborders : ∀ border ∈ [left, bottom, right, top], |border| ≤ 2 ^ 15) :
    ∀ v ∈ [visible.x₀, visible.y₀, visible.x₁, visible.y₁], |v| ≤ 2 ^ 28 := by
  simp only [List.forall_mem_cons] at hborders ⊢
  obtain ⟨hleft, hbottom, hright, htop, -⟩ := hborders
  simp only [clip?, Option.bind_eq_bind, Option.bind_eq_some_iff] at h
  obtain ⟨_, hcutLeft, _, hcutRight, _, hcutBottom, part, hcutTop, hvisible⟩ := h
  obtain ⟨hfromLeft, hlower⟩ := Part.cut_eq_some hcutLeft
  obtain ⟨hfromRight, hupper⟩ := Part.cut_eq_some hcutRight
  obtain ⟨hfromBottom, hlower'⟩ := Part.cut_eq_some hcutBottom
  obtain ⟨hfromTop, hupper'⟩ := Part.cut_eq_some hcutTop
  have hlater := hfromBottom.trans hfromTop
  have hle : part.first ≤ part.last :=
    (hfromLeft.trans (hfromRight.trans hlater)).nonempty zero_le_one
  have hcolumns : ∀ t, part.first ≤ t → t ≤ part.last → |place s.x₀ (sub s.x₁ s.x₀) t| ≤ 2 ^ 28 :=
    fun t hfirst hlast => abs_place_le hx hx' hleft hright hfirst hlast
      (hlower.narrows (hfromRight.trans hlater)) (hupper.narrows hlater)
  have hrows : ∀ t, part.first ≤ t → t ≤ part.last → |place s.y₀ (sub s.y₁ s.y₀) t| ≤ 2 ^ 28 :=
    fun t hfirst hlast => abs_place_le hy hy' hbottom htop hfirst hlast
      (hlower'.narrows hfromTop) hupper'
  cases hvisible
  exact ⟨hcolumns _ le_rfl hle, hrows _ le_rfl hle, hcolumns _ hle le_rfl, hrows _ hle le_rfl,
    List.forall_mem_nil _⟩

end Segment

namespace Canvas

open Binary64 Segment

theorem abs_add_middle_le {x : ℚ} {side : ℕ} (hx : |x| ≤ 2 ^ 77) (hside : side ≤ 2 ^ 14) :
    |add x (middle side)| ≤ 2 ^ 78 := by
  have hmiddle : |middle side| ≤ 2 ^ 13 := by
    have hside' : (side : ℚ) ≤ 2 ^ 14 := by exact_mod_cast hside
    rw [middle, abs_of_nonneg (by positivity)]
    linarith
  have hsum : |x + middle side| ≤ 2 ^ 77 + 2 ^ 13 := (abs_add_le _ _).trans (add_le_add hx hmiddle)
  have herror : |add x (middle side) - (x + middle side)| ≤ |x + middle side| / 2 ^ 53 :=
    abs_round_sub_le_div _
  have hrounded := abs_sub_abs_le_abs_sub (add x (middle side)) (x + middle side)
  linarith

theorem abs_border_le {side size : ℕ} (hside : side ≤ 2 ^ 14) (hsize : size ≤ 2 ^ 8) :
    |-(size : ℚ)| ≤ 2 ^ 15 ∧ |(side : ℚ) + size| ≤ 2 ^ 15 := by
  have hside' : (side : ℚ) ≤ 2 ^ 14 := by exact_mod_cast hside
  have hsize' : (size : ℚ) ≤ 2 ^ 8 := by exact_mod_cast hsize
  rw [abs_neg, abs_of_nonneg (by positivity), abs_of_nonneg (by positivity)]
  exact ⟨by linarith, by linarith⟩

theorem natAbs_floor_le {v : ℚ} (h : |v| ≤ 2 ^ 28) : v.floor.natAbs ≤ 2 ^ 28 := by
  rw [abs_le] at h
  have hlow : -2 ^ 28 ≤ v.floor := Rat.le_floor_iff.2 (by exact_mod_cast h.1)
  have hhigh : v.floor ≤ 2 ^ 28 := by
    have hcast : (v.floor : ℚ) ≤ 2 ^ 28 := (Rat.floor_le v).trans h.2
    exact_mod_cast hcast
  omega

/-- The pixels in which the visible part of a line begins and ends are told by words of 32
bits, and in such words the points between them are found, if the line begins no further
away than `2 ^ 77`. -/
theorem linePoints_in_words {c : Canvas} (hpen : c.penSize ≤ 2 ^ 8) (hwidth : c.width ≤ 2 ^ 14)
    (hheight : c.height ≤ 2 ^ 14) {s visible : Segment} (hx : |s.x₀| ≤ 2 ^ 77)
    (hy : |s.y₀| ≤ 2 ^ 77) (hvisible : c.visiblePart? s = some visible) :
    (∀ v ∈ [visible.x₀, visible.y₀, visible.x₁, visible.y₁], Line.Fits v.floor) ∧
      Line.pointsInWords visible.x₀.floor visible.y₀.floor visible.x₁.floor visible.y₁.floor =
        some (c.linePoints s) := by
  obtain ⟨hlow, hright⟩ := abs_border_le hwidth hpen
  obtain ⟨-, htop⟩ := abs_border_le hheight hpen
  have hborders : ∀ border ∈ [-(c.penSize : ℚ), -c.penSize, c.width + c.penSize,
      c.height + c.penSize], |border| ≤ 2 ^ 15 := by
    simp only [List.forall_mem_cons]
    exact ⟨hlow, hlow, hright, htop, List.forall_mem_nil _⟩
  have hends := abs_clip?_le hvisible (representable_round _) (abs_add_middle_le hx hwidth)
    (representable_round _) (abs_add_middle_le hy hheight) hborders
  have hfloors : ∀ v ∈ [visible.x₀, visible.y₀, visible.x₁, visible.y₁],
      v.floor.natAbs ≤ 2 ^ 28 := fun v hv => natAbs_floor_le (hends v hv)
  refine ⟨?_, ?_⟩
  · intro v hv
    have hfloor := hfloors v hv
    rw [Line.Fits]
    omega
  · simp only [List.forall_mem_cons] at hfloors
    obtain ⟨hx₀, hy₀, hx₁, hy₁, -⟩ := hfloors
    rw [Line.pointsInWords_eq hx₀ hy₀ hx₁ hy₁, linePoints, hvisible]

end Canvas

end Turtle
