import Mathlib.Data.Rat.Floor
import Turtle.Proofs.Canvas.Pose
import Turtle.Proofs.Number.Rounding

/-!
Headings do not drift.

A turn rounds three times: the integer that is given becomes a number of 53 bits,
it is added to the heading, and a negative remainder is raised by a full circle.
None of this leads out of the integers, as a number of 53 bits that is too large to
be held exactly is an integer all the same, and the remainder is exact. So the
heading is always a whole number of degrees, and it is the remainder that is
expected, as long as no rounding takes place at all. Turns of that kind add up,
whatever is drawn between them.
-/

namespace Turtle

/-! ### Rounded integers -/

namespace Binary64

/-- Beyond the integers of 53 bits the last bit weighs at least one. -/
theorem exists_round_intCast (n : ℤ) : ∃ m : ℤ, round n = m := by
  have hpositive : ∀ {n : ℤ}, 2 ^ 53 < n → ∃ m : ℤ, round n = m := by
    intro n hn
    have hn' : (2 : ℚ) ^ 53 < n := by exact_mod_cast hn
    obtain ⟨k, e, hunits, hround⟩ := exists_inUnits (x := n) (by linarith)
    have hunit : (1 : ℚ) < 2 ^ e := by
      have hhigh := hunits.high
      linarith
    have he : 0 < e := (one_lt_zpow_iff_right₀ one_lt_two).1 hunit
    refine ⟨k * 2 ^ e.toNat, ?_⟩
    rw [hround, Int.cast_mul, Int.cast_pow, Int.cast_ofNat, ← zpow_natCast,
      Int.toNat_of_nonneg he.le]
  rcases lt_or_ge (2 ^ 53) n with hlarge | hle
  · exact hpositive hlarge
  rcases lt_or_ge n (-2 ^ 53) with hsmall | hge
  · obtain ⟨m, hm⟩ := hpositive (n := -n) (by omega)
    refine ⟨-m, ?_⟩
    rw [Int.cast_neg, ← hm, Int.cast_neg, round_neg, neg_neg]
  · exact ⟨n, round_eq_self (representable_intCast (abs_le.2 ⟨hge, hle⟩))⟩

theorem ofInt64_of_abs_le {n : Int64} (h : |n.toInt| ≤ 2 ^ 53) : ofInt64 n = n.toInt :=
  round_eq_self (representable_intCast h)

/-- The remainder of integers has the sign of the first one. -/
theorem remainder_intCast (n : ℤ) (m : ℕ) : remainder n m = (n.tmod m : ℤ) := by
  have hfloor : ∀ k : ℤ, ((k : ℚ) / m).floor = k / m := Rat.floor_intCast_div_natCast (d := m)
  have hexpand : ∀ k : ℤ, (k : ℚ) - m * (k / m : ℤ) = (k % m : ℤ) := by
    intro k
    rw [Int.emod_def]
    push_cast
    ring
  rw [remainder]
  split_ifs with hneg
  · have hnonneg : 0 ≤ -n := by
      have hneg' : n < 0 := by exact_mod_cast hneg
      omega
    have hsign : n.tmod m = -(-n % m) := by
      rw [← Int.tmod_eq_emod_of_nonneg hnonneg, Int.neg_tmod, neg_neg]
    rw [hsign, Int.cast_neg, ← hexpand, ← Int.cast_neg, hfloor]
    push_cast
    ring
  · have hnonneg : 0 ≤ n := by
      have hge : (0 : ℚ) ≤ n := not_lt.1 hneg
      exact_mod_cast hge
    rw [hfloor, hexpand, Int.tmod_eq_emod_of_nonneg hnonneg]

end Binary64

/-! ### Turns -/

namespace Instruction

/-- By how many degrees an instruction turns the turtle to the right. -/
def turn (i : Instruction) : ℤ :=
  match i.command with
  | .right => (i.argument 0).toInt
  | .left => -(i.argument 0).toInt
  | _ => 0

/-- The instruction does not set the heading, but at most turns the turtle, and by
a number of degrees that can be added to a heading without being rounded. -/
def Relative (i : Instruction) : Prop :=
  i.command ≠ .setHeading ∧ i.command ≠ .home ∧ i.command ≠ .clearScreen ∧ |i.turn| ≤ 2 ^ 53 - 360

end Instruction

namespace Canvas

variable {c : Canvas} {k : ℤ} {i : Instruction}

/-- The heading is a whole number of degrees, less than a full circle. -/
structure Faces (c : Canvas) (k : ℤ) : Prop where
  heading : c.heading = k
  nonneg : 0 ≤ k
  lt : k < 360

theorem Faces.of_heading {c' : Canvas} (h : c.Faces k) (hheading : c'.heading = c.heading) :
    c'.Faces k :=
  ⟨hheading.trans h.heading, h.nonneg, h.lt⟩

/-- The remainder, if it is negative, is more than -360, so that it is raised to
less than a full circle. -/
theorem normalize_intCast (n : ℤ) : normalize n = (n % 360 : ℤ) := by
  have hremainder : Binary64.remainder n 360 = (n.tmod 360 : ℤ) := Binary64.remainder_intCast n 360
  have hsign := Int.tmod_eq_emod (a := n) (b := 360)
  rw [normalize, hremainder]
  split_ifs with hneg
  · have hneg' : n.tmod 360 < 0 := by exact_mod_cast hneg
    have hraised : n.tmod 360 + 360 = n % 360 := by
      split_ifs at hsign <;> omega
    have hsum : ((n.tmod 360 : ℤ) : ℚ) + 360 = (n % 360 : ℤ) := by exact_mod_cast hraised
    rw [Binary64.add, hsum]
    exact Binary64.round_eq_self (Binary64.representable_intCast (abs_le.2 ⟨by omega, by omega⟩))
  · have hnonneg : 0 ≤ n.tmod 360 := by
      have hge : (0 : ℚ) ≤ (n.tmod 360 : ℤ) := not_lt.1 hneg
      exact_mod_cast hge
    have hsame : n.tmod 360 = n % 360 := by
      split_ifs at hsign <;> omega
    rw [hsame]

theorem faces_of_normalize (h : c.heading = normalize k) : c.Faces (k % 360) :=
  ⟨h.trans (normalize_intCast k), Int.emod_nonneg k (by decide), Int.emod_lt_of_pos k (by decide)⟩

theorem faces_blank (width height : Nat) : (blank width height).Faces 0 :=
  ⟨rfl, le_rfl, by decide⟩

/-! ### One instruction -/

/-- What the heading becomes depends on the heading before, and on nothing else of
the canvas. -/
theorem heading_execute [Circle] (c : Canvas) (i : Instruction) :
    (c.execute i).heading =
      match i.command with
      | .left => normalize (Binary64.sub c.heading (Binary64.ofInt64 (i.argument 0)))
      | .right => normalize (Binary64.add c.heading (Binary64.ofInt64 (i.argument 0)))
      | .setHeading => normalize (Binary64.ofInt64 (i.argument 0))
      | .home | .clearScreen => 0
      | _ => c.heading := by
  have hpose := congrArg Pose.heading (pose_execute c i)
  rw [Pose.after] at hpose
  cases hcommand : i.command <;>
    (simp only [hcommand] at hpose ⊢; exact hpose)

section

variable [Circle]

/-- However often a turn is rounded, it ends at a whole number of degrees. -/
theorem Faces.exists_execute (h : c.Faces k) (i : Instruction) : ∃ k', (c.execute i).Faces k' := by
  have hheading := heading_execute c i
  obtain ⟨n, hn⟩ : ∃ n : ℤ, Binary64.ofInt64 (i.argument 0) = n := Binary64.exists_round_intCast _
  cases hcommand : i.command <;> simp only [hcommand] at hheading
  case left =>
    obtain ⟨m, hm⟩ := Binary64.exists_round_intCast (k - n)
    rw [h.heading, hn, Binary64.sub, ← Int.cast_sub, hm] at hheading
    exact ⟨_, faces_of_normalize hheading⟩
  case right =>
    obtain ⟨m, hm⟩ := Binary64.exists_round_intCast (k + n)
    rw [h.heading, hn, Binary64.add, ← Int.cast_add, hm] at hheading
    exact ⟨_, faces_of_normalize hheading⟩
  case setHeading =>
    rw [hn] at hheading
    exact ⟨_, faces_of_normalize hheading⟩
  case home | clearScreen => exact ⟨0, by simpa using hheading, le_rfl, by decide⟩
  all_goals exact ⟨k, h.of_heading hheading⟩

/-- An instruction that sets the heading to a number that is not rounded. -/
theorem faces_of_setHeading (hcommand : i.command = .setHeading)
    (hbound : |(i.argument 0).toInt| ≤ 2 ^ 53) :
    (c.execute i).Faces ((i.argument 0).toInt % 360) := by
  have hheading := heading_execute c i
  simp only [hcommand] at hheading
  rw [Binary64.ofInt64_of_abs_le hbound] at hheading
  exact faces_of_normalize hheading

/-- A turn by a number of degrees that is not rounded. -/
theorem Faces.execute (h : c.Faces k) (hi : i.Relative) :
    (c.execute i).Faces ((k + i.turn) % 360) := by
  obtain ⟨hset, hhome, hclear, hbound⟩ := hi
  obtain ⟨hlow, hhigh⟩ := abs_le.1 hbound
  have hnonneg := h.nonneg
  have hlt := h.lt
  have hexact : Binary64.round (k + i.turn) = (k + i.turn : ℤ) := by
    rw [← Int.cast_add]
    exact Binary64.round_eq_self (Binary64.representable_intCast (abs_le.2 ⟨by omega, by omega⟩))
  have hheading := heading_execute c i
  cases hcommand : i.command <;> simp only [hcommand] at hheading
  case left =>
    have hturn : i.turn = -(i.argument 0).toInt := by rw [Instruction.turn, hcommand]
    have hargument : Binary64.ofInt64 (i.argument 0) = (-i.turn : ℤ) := by
      rw [hturn, neg_neg]
      exact Binary64.ofInt64_of_abs_le (abs_le.2 ⟨by omega, by omega⟩)
    rw [h.heading, hargument, Binary64.sub, Int.cast_neg, sub_neg_eq_add, hexact] at hheading
    exact faces_of_normalize hheading
  case right =>
    have hturn : i.turn = (i.argument 0).toInt := by rw [Instruction.turn, hcommand]
    have hargument : Binary64.ofInt64 (i.argument 0) = i.turn := by
      rw [hturn]
      exact Binary64.ofInt64_of_abs_le (abs_le.2 ⟨by omega, by omega⟩)
    rw [h.heading, hargument, Binary64.add, hexact] at hheading
    exact faces_of_normalize hheading
  case setHeading | home | clearScreen => contradiction
  all_goals
    have hturn : i.turn = 0 := by rw [Instruction.turn, hcommand]
    rw [hturn, add_zero, Int.emod_eq_of_lt hnonneg hlt]
    exact h.of_heading hheading

/-! ### A whole run -/

theorem exists_faces_foldl_execute (h : c.Faces k) (is : List Instruction) :
    ∃ k', (is.foldl execute c).Faces k' := by
  induction is generalizing c k with
  | nil => exact ⟨k, h⟩
  | cons i is ih =>
      obtain ⟨k', hturned⟩ := h.exists_execute i
      exact ih hturned

/-- All turns together are one turn. -/
theorem Faces.foldl_execute (h : c.Faces k) {is : List Instruction} (his : ∀ i ∈ is, i.Relative) :
    (is.foldl Canvas.execute c).Faces ((k + (is.map Instruction.turn).sum) % 360) := by
  induction is generalizing c k with
  | nil =>
      rw [List.map_nil, List.sum_nil, add_zero, Int.emod_eq_of_lt h.nonneg h.lt]
      exact h
  | cons i is ih =>
      have hrest := ih (h.execute (his i List.mem_cons_self))
        fun j hj => his j (List.mem_cons_of_mem i hj)
      rw [Int.emod_add_emod, add_assoc] at hrest
      rw [List.map_cons, List.sum_cons]
      exact hrest

/-- Only the sum of the turns matters. -/
theorem Faces.heading_eq_of_sum_eq (h : c.Faces k) {is is' : List Instruction}
    (his : ∀ i ∈ is, i.Relative) (his' : ∀ i ∈ is', i.Relative)
    (hsum : (is.map Instruction.turn).sum = (is'.map Instruction.turn).sum) :
    (is.foldl Canvas.execute c).heading = (is'.foldl Canvas.execute c).heading := by
  rw [(h.foldl_execute his).heading, (h.foldl_execute his').heading, hsum]

/-- The heading is a whole number of degrees from 0 to 359, whatever the
instructions were. With an argument of at most `2 ^ 53 - 360`, a turn and a setting
of the heading are exact. Hence turns of that kind can be brought into another
order, and opposite ones can be left out, without any influence on the heading at
the end, also if other instructions stand between them. -/
theorem heading_exact :
    (∀ (width height : Nat) (is : List Instruction),
      ∃ k, (is.foldl execute (blank width height)).Faces k) ∧
    (∀ (c : Canvas) (k : ℤ) (i : Instruction), c.Faces k →
      |(i.argument 0).toInt| ≤ 2 ^ 53 - 360 →
        (i.command = .right → (c.execute i).Faces ((k + (i.argument 0).toInt) % 360)) ∧
        (i.command = .left → (c.execute i).Faces ((k - (i.argument 0).toInt) % 360)) ∧
        (i.command = .setHeading → (c.execute i).Faces ((i.argument 0).toInt % 360))) ∧
    (∀ (c : Canvas) (k : ℤ) (is is' : List Instruction), c.Faces k → (∀ i ∈ is, i.Relative) →
      is.Perm is' → (is'.foldl execute c).heading = (is.foldl execute c).heading) ∧
    ∀ (c : Canvas) (k : ℤ) (before between after : List Instruction) (i j : Instruction),
      c.Faces k → (∀ x ∈ before ++ i :: (between ++ j :: after), x.Relative) →
        i.turn = -j.turn →
          ((before ++ i :: (between ++ j :: after)).foldl execute c).heading =
            ((before ++ (between ++ after)).foldl execute c).heading := by
  refine ⟨?whole, ?exact, ?order, ?opposite⟩
  case whole =>
    intro width height is
    exact exists_faces_foldl_execute (faces_blank width height) is
  case exact =>
    intro c k i h hbound
    refine ⟨?_, ?_, ?_⟩
    · intro hcommand
      have hturn : i.turn = (i.argument 0).toInt := by rw [Instruction.turn, hcommand]
      rw [← hturn] at hbound ⊢
      exact h.execute ⟨by simp [hcommand], by simp [hcommand], by simp [hcommand], hbound⟩
    · intro hcommand
      have hturn : i.turn = -(i.argument 0).toInt := by rw [Instruction.turn, hcommand]
      rw [← abs_neg, ← hturn] at hbound
      rw [sub_eq_add_neg, ← hturn]
      exact h.execute ⟨by simp [hcommand], by simp [hcommand], by simp [hcommand], hbound⟩
    · intro hcommand
      exact faces_of_setHeading hcommand (by omega)
  case order =>
    intro c k is is' h his hperm
    exact h.heading_eq_of_sum_eq (fun i hi => his i (hperm.mem_iff.2 hi)) his
      (hperm.map Instruction.turn).sum_eq.symm
  case opposite =>
    intro c k before between after i j h hall hturn
    refine h.heading_eq_of_sum_eq hall ?_ ?_
    · intro x hx
      apply hall x
      simp only [List.mem_append, List.mem_cons] at hx ⊢
      tauto
    · simp only [List.map_append, List.map_cons, List.sum_append, List.sum_cons, hturn]
      ring

end

/-- The largest turn to the left that is promised to be exact, two turns in either
order with a step between them, and two turns that cancel each other. -/
theorem heading_exact_largest :
    let c : Canvas := blank 1 1
    let largest : Instruction := ⟨.left, [9007199254740632]⟩
    let is : List Instruction := [⟨.right, [90]⟩, ⟨.forward, [1]⟩, ⟨.left, [200]⟩]
    let is' : List Instruction := [⟨.left, [200]⟩, ⟨.right, [90]⟩, ⟨.forward, [1]⟩]
    (c.Faces 0 ∧ |(largest.argument 0).toInt| ≤ 2 ^ 53 - 360 ∧ (∀ i ∈ is, i.Relative) ∧
        is.Perm is') ∧
      (c.execute largest).Faces 328 ∧
      (is'.foldl execute c).heading = (is.foldl execute c).heading ∧
      ([⟨.right, [-7]⟩, ⟨.penUp, []⟩, ⟨.left, [-7]⟩, ⟨.right, [5]⟩].foldl execute c).heading =
        ([⟨.penUp, []⟩, ⟨.right, [5]⟩].foldl execute c).heading := by
  intro c largest is is'
  have hfaces : c.Faces 0 := faces_blank 1 1
  have hlargest : |(largest.argument 0).toInt| ≤ 2 ^ 53 - 360 := by decide +kernel
  have hrelative : ∀ i ∈ is, i.Relative := by
    simp only [is, List.forall_mem_cons, Instruction.Relative]
    decide
  have hperm : is.Perm is' := by decide
  obtain ⟨-, hexact, horder, hopposite⟩ := heading_exact
  refine ⟨⟨hfaces, hlargest, hrelative, hperm⟩, ?_, horder c 0 is is' hfaces hrelative hperm, ?_⟩
  · exact (hexact c 0 largest hfaces hlargest).2.1 rfl
  · refine hopposite c 0 [] [⟨.penUp, []⟩] [⟨.right, [5]⟩] _ _ hfaces ?_ rfl
    simp only [List.nil_append, List.cons_append, List.forall_mem_cons, Instruction.Relative]
    decide

end Canvas

end Turtle
