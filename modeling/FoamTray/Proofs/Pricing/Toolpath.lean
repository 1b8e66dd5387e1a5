import FoamTray.Pricing.Toolpath
import Mathlib.Algebra.BigOperators.Intervals
import Mathlib.Algebra.Order.Field.Rat
import Mathlib.Algebra.Order.Floor.Semiring
import Mathlib.Algebra.Order.Group.MinMax
import Mathlib.Data.Rat.Floor
import Mathlib.Tactic.FieldSimp
import Mathlib.Tactic.Linarith
import Mathlib.Tactic.Positivity
import Mathlib.Tactic.Ring

/-! # The length of a toolpath

    Over the rationals the number of turns is a quotient rounded up, for a rectangle, or down, for
    a circle: a rectangle without an inside gets no turn, while a circle gets the one that just
    leaves its margins. With the number known the length is a sum.

    * `rectTurns_eq`, `circleTurns_eq` : the loops, from any turn on, with any fuel.
    * `rectLength`, `circleLength` : the length of a toolpath as a sum.
    * `rect?_eq`, `circle?_eq` : the toolpath has this length exactly if the fuel lasts.
    * `toolpaths_measured` : lengths are never negative, and larger pockets have no shorter
      toolpaths.
-/

namespace FoamTray.Toolpath

/-! ## Section 1: Turns of a rectangle -/

section Rectangles

variable {step : Rat}

/-- The number of turns between sides the nearer ones of which are `extent` apart. -/
def rectCount (step extent : Rat) : Nat := ⌈extent / (2 * step)⌉₊

/-- The length of a turn in metres, so many turns after one between sides that are `width` and
    `height` apart. -/
def rectTurn (step width height : Rat) (k : Nat) : Rat :=
  2 * ((width - 2 * k * step) + (height - 2 * k * step)) / 1000

/-- There is a turn as long as there is an inside. -/
theorem lt_rectCount_iff (hs : 0 < step) {extent : Rat} {k : Nat} :
    k < rectCount step extent ↔ 0 < extent - 2 * k * step := by
  have hunit : 0 < 2 * step := by linarith
  have hcomm : (k : Rat) * (2 * step) = 2 * k * step := by ring
  rw [rectCount, Nat.lt_ceil, lt_div_iff₀ hunit, hcomm, sub_pos]

/-- The turn after the first one starts a loop with one turn less. -/
theorem rectCount_pred (hs : 0 < step) (extent : Rat) :
    rectCount step (extent - 2 * step) = rectCount step extent - 1 := by
  have hunit : 2 * step ≠ 0 := by linarith
  rw [rectCount, sub_div, div_self hunit]
  exact Nat.ceil_sub_one _

theorem rectCount_mono (hs : 0 < step) {extent extent' : Rat} (h : extent ≤ extent') :
    rectCount step extent ≤ rectCount step extent' := by
  have hunit : 0 ≤ 2 * step := by linarith
  exact Nat.ceil_mono (div_le_div_of_nonneg_right h hunit)

theorem rectTurn_succ (step width height : Rat) (k : Nat) :
    rectTurn step width height (k + 1) =
      rectTurn step (width - 2 * step) (height - 2 * step) k := by
  unfold rectTurn
  push_cast
  ring

/-- The loop from any sides on: it adds up all turns if the fuel lasts for them. -/
theorem rectTurns_eq (hs : 0 < step) (fuel : Nat) (xMin yMin xMax yMax total : Rat) :
    rectTurns step fuel xMin yMin xMax yMax total =
      if rectCount step (min (xMax - xMin) (yMax - yMin)) < fuel then
        some (total + ∑ k ∈ Finset.range (rectCount step (min (xMax - xMin) (yMax - yMin))),
          rectTurn step (xMax - xMin) (yMax - yMin) k)
      else none := by
  induction fuel generalizing xMin yMin xMax yMax total with
  | zero => rfl
  | succ fuel ih =>
    have hinside : 0 < rectCount step (min (xMax - xMin) (yMax - yMin)) ↔ _ :=
      lt_rectCount_iff hs
    simp only [Nat.cast_zero, mul_zero, zero_mul, sub_zero, lt_min_iff, sub_pos] at hinside
    unfold rectTurns
    by_cases hturn : xMin < xMax ∧ yMin < yMax
    · have hcount := hinside.mpr hturn
      have hwidth : xMax - step - (xMin + step) = xMax - xMin - 2 * step := by ring
      have hheight : yMax - step - (yMin + step) = yMax - yMin - 2 * step := by ring
      rw [if_pos hturn, ih, hwidth, hheight, min_sub_sub_right, rectCount_pred hs]
      generalize rectCount step (min (xMax - xMin) (yMax - yMin)) = n at hcount ⊢
      obtain ⟨n, rfl⟩ := Nat.exists_eq_succ_of_ne_zero hcount.ne'
      simp only [Nat.succ_eq_add_one, Nat.add_sub_cancel, Nat.add_lt_add_iff_right]
      -- the first turn is taken out of the sum
      rw [Finset.sum_range_succ']
      simp only [rectTurn_succ]
      congr 2
      unfold rectTurn
      push_cast
      ring
    · have hcount : rectCount step (min (xMax - xMin) (yMax - yMin)) = 0 := by
        by_contra hne
        exact hturn (hinside.mp (Nat.pos_of_ne_zero hne))
      rw [if_neg hturn, hcount, if_pos (Nat.succ_pos fuel), Finset.sum_range_zero, add_zero]

end Rectangles

/-! ## Section 2: Turns of a circle -/

section Circles

variable {pi step : Rat}

/-- The number of turns from a radius on, up to a last one. -/
def circleCount (step last radius : Rat) : Nat := ⌊(last - radius) / step + 1⌋₊

/-- There is a first turn if it is not beyond the last one. -/
theorem circleCount_pos_iff (hs : 0 < step) {last radius : Rat} :
    0 < circleCount step last radius ↔ radius ≤ last := by
  rw [circleCount, Nat.floor_pos, le_add_iff_nonneg_left, le_div_iff₀ hs, zero_mul, sub_nonneg]

theorem circleCount_pred (hs : 0 < step) (last radius : Rat) :
    circleCount step last (radius + step) = circleCount step last radius - 1 := by
  have hquotient : (last - (radius + step)) / step + 1 = (last - radius) / step + 1 - 1 := by
    field_simp
    ring
  rw [circleCount, hquotient]
  exact Nat.floor_sub_one _

/-- The turns from the first one on. -/
theorem circleCount_step (hs : 0 < step) (last : Rat) :
    circleCount step last step = ⌊last / step⌋₊ := by
  unfold circleCount
  congr 1
  field_simp
  ring

/-- The loop from any radius on: it adds up all turns if the fuel lasts for them. -/
theorem circleTurns_eq (hs : 0 < step) (roughLimit finish : Rat) (fuel : Nat)
    (radius total : Rat) :
    circleTurns pi step roughLimit finish fuel radius total =
      if circleCount step (min roughLimit finish) radius < fuel then
        some (total + ∑ k ∈ Finset.range (circleCount step (min roughLimit finish) radius),
          2 * pi * (radius + k * step) / 1000)
      else none := by
  induction fuel generalizing radius total with
  | zero => rfl
  | succ fuel ih =>
    have hpos : 0 < circleCount step (min roughLimit finish) radius ↔ _ :=
      circleCount_pos_iff hs
    rw [le_min_iff] at hpos
    unfold circleTurns
    by_cases hturn : radius ≤ roughLimit ∧ radius ≤ finish
    · have hcount := hpos.mpr hturn
      rw [if_pos hturn, ih, circleCount_pred hs]
      generalize circleCount step (min roughLimit finish) radius = n at hcount ⊢
      obtain ⟨n, rfl⟩ := Nat.exists_eq_succ_of_ne_zero hcount.ne'
      simp only [Nat.succ_eq_add_one, Nat.add_sub_cancel, Nat.add_lt_add_iff_right]
      rw [Finset.sum_range_succ']
      have hterm : ∀ k : Nat, 2 * pi * (radius + step + k * step) / 1000 =
          2 * pi * (radius + ((k + 1 : Nat) : Rat) * step) / 1000 := by
        intro k
        push_cast
        ring
      simp only [hterm]
      congr 2
      push_cast
      ring
    · have hcount : circleCount step (min roughLimit finish) radius = 0 := by
        by_contra hne
        exact hturn (hpos.mp (Nat.pos_of_ne_zero hne))
      rw [if_neg hturn, hcount, if_pos (Nat.succ_pos fuel), Finset.sum_range_zero, add_zero]

/-- The sum of the turns from the first one on. -/
theorem sum_circleTurns (pi step : Rat) (n : Nat) :
    ∑ k ∈ Finset.range n, 2 * pi * (step + k * step) / 1000 =
      2 * pi / 1000 * (step * n * (n + 1) / 2) := by
  induction n with
  | zero => simp
  | succ n ih =>
    rw [Finset.sum_range_succ, ih]
    push_cast
    ring

end Circles

/-! ## Section 3: Toolpaths -/

section Lengths

variable {pi tool : Rat}

/-- The number of turns in a rectangle. -/
def rectTurnCount (width height tool : Rat) : Nat :=
  let step := tool / 2
  let start := step + 1
  ⌈(min width height - 2 * start) / (2 * step)⌉₊

/-- The length of the toolpath of a rectangle. -/
def rectLength (width height tool : Rat) : Rat :=
  let step := tool / 2
  let start := step + 1
  if width ≤ 0 ∨ height ≤ 0 then 0
  else
    ∑ k ∈ Finset.range (rectTurnCount width height tool),
        2 * ((width - 2 * start - 2 * k * step) + (height - 2 * start - 2 * k * step)) / 1000 +
      if tool < width ∧ tool < height then 2 * ((width - tool) + (height - tool)) / 1000 else 0

/-- The number of turns in a circle, without the last one at its side. -/
def circleTurnCount (radius tool : Rat) : Nat :=
  let step := tool / 2
  ⌊min (radius - 3) (radius - step) / step⌋₊

/-- The length of the toolpath of a circle. -/
def circleLength (pi radius tool : Rat) : Rat :=
  let step := tool / 2
  let n : Rat := circleTurnCount radius tool
  if radius ≤ step then 0
  else 2 * pi / 1000 * (step * n * (n + 1) / 2 + (radius - step))

/-- A rectangle has a toolpath if the fuel lasts for one turn more than there are. -/
theorem rect?_eq (htool : 0 < tool) (width height : Rat) (fuel : Nat) :
    rect? fuel width height tool =
      if rectTurnCount width height tool < fuel ∨ width ≤ 0 ∨ height ≤ 0 then
        some (rectLength width height tool)
      else none := by
  have hs : 0 < tool / 2 := by linarith
  unfold rect? rectLength
  simp only [Nat.cast_zero, Nat.cast_ofNat, Nat.cast_one, hs, not_true_eq_false, or_false]
  by_cases hempty : width ≤ 0 ∨ height ≤ 0
  · rw [if_pos hempty, if_pos (.inr hempty), if_pos hempty]
  · rw [if_neg hempty, if_neg hempty]
    simp only [hempty, or_false]
    have hwidth : width - (tool / 2 + 1) - (tool / 2 + 1) = width - 2 * (tool / 2 + 1) := by ring
    have hheight : height - (tool / 2 + 1) - (tool / 2 + 1) = height - 2 * (tool / 2 + 1) := by
      ring
    have hcount : rectCount (tool / 2)
        (min (width - 2 * (tool / 2 + 1)) (height - 2 * (tool / 2 + 1))) =
          rectTurnCount width height tool := by
      rw [min_sub_sub_right]
      rfl
    rw [rectTurns_eq hs, hwidth, hheight, hcount]
    split
    · have hdiameter : 2 * (tool / 2) = tool := by ring
      simp only [Option.bind_eq_bind, Option.bind_some, Option.pure_def, hdiameter, sub_pos,
        zero_add]
      split
      · rfl
      · rw [add_zero]
        rfl
    · rfl

/-- A circle has a toolpath if the fuel lasts for one turn more than there are. -/
theorem circle?_eq (htool : 0 < tool) (radius : Rat) (fuel : Nat) :
    circle? pi fuel radius tool =
      if circleTurnCount radius tool < fuel ∨ radius ≤ tool / 2 then
        some (circleLength pi radius tool)
      else none := by
  have hs : 0 < tool / 2 := by linarith
  unfold circle? circleLength
  simp only [Nat.cast_zero, Nat.cast_ofNat, hs, not_true_eq_false, or_false, sub_nonpos]
  by_cases hempty : radius ≤ tool / 2
  · rw [if_pos (.inr hempty), if_pos (.inr hempty), if_pos hempty]
  · have hempty' : ¬ (radius ≤ 0 ∨ radius ≤ tool / 2) := by
      rintro (h | h)
      · exact hempty (by linarith)
      · exact hempty h
    have hcount : circleCount (tool / 2) (min (radius - 3) (radius - tool / 2)) (tool / 2) =
        circleTurnCount radius tool := circleCount_step hs _
    rw [if_neg hempty', if_neg hempty, circleTurns_eq hs, hcount, sum_circleTurns]
    simp only [hempty, or_false]
    split
    · simp only [Option.bind_eq_bind, Option.bind_some, Option.pure_def, Option.some.injEq,
        zero_add]
      ring
    · rfl

/-! ## Section 4: Larger pockets -/

/-- Every turn of a rectangle has an inside. -/
theorem rectTurn_inside (htool : 0 < tool) {width height : Rat} {k : Nat}
    (hk : k < rectTurnCount width height tool) :
    0 < width - 2 * (tool / 2 + 1) - 2 * k * (tool / 2) ∧
      0 < height - 2 * (tool / 2 + 1) - 2 * k * (tool / 2) := by
  have hs : 0 < tool / 2 := by linarith
  have hinside : 0 < min width height - 2 * (tool / 2 + 1) - 2 * k * (tool / 2) :=
    (lt_rectCount_iff hs).mp hk
  constructor
  · linarith [min_le_left width height]
  · linarith [min_le_right width height]

theorem rectTurnCount_mono (htool : 0 < tool) {width width' height height' : Rat}
    (hwidth : width ≤ width') (hheight : height ≤ height') :
    rectTurnCount width height tool ≤ rectTurnCount width' height' tool := by
  have hs : 0 < tool / 2 := by linarith
  have hshorter := min_le_min hwidth hheight
  exact rectCount_mono hs (by linarith)

/-- The turns of a larger rectangle are at least as many, and each is at least as long. -/
theorem sum_rectTurns_mono (htool : 0 < tool) {width width' height height' : Rat}
    (hwidth : width ≤ width') (hheight : height ≤ height') :
    ∑ k ∈ Finset.range (rectTurnCount width height tool), rectTurn (tool / 2)
        (width - 2 * (tool / 2 + 1)) (height - 2 * (tool / 2 + 1)) k ≤
      ∑ k ∈ Finset.range (rectTurnCount width' height' tool), rectTurn (tool / 2)
        (width' - 2 * (tool / 2 + 1)) (height' - 2 * (tool / 2 + 1)) k := by
  calc
    _ ≤ ∑ k ∈ Finset.range (rectTurnCount width height tool), rectTurn (tool / 2)
          (width' - 2 * (tool / 2 + 1)) (height' - 2 * (tool / 2 + 1)) k := by
      refine Finset.sum_le_sum fun k _ => ?_
      unfold rectTurn
      linarith
    _ ≤ _ := by
      refine Finset.sum_le_sum_of_subset_of_nonneg
        (Finset.range_mono (rectTurnCount_mono htool hwidth hheight)) ?_
      intro k hk _
      obtain ⟨hx, hy⟩ := rectTurn_inside htool (Finset.mem_range.mp hk)
      unfold rectTurn
      linarith

/-- The last turn of a larger rectangle is at least as long. -/
theorem lastTurn_mono {width width' height height' : Rat} (hwidth : width ≤ width')
    (hheight : height ≤ height') :
    (if tool < width ∧ tool < height then 2 * ((width - tool) + (height - tool)) / 1000 else 0) ≤
      if tool < width' ∧ tool < height' then
        2 * ((width' - tool) + (height' - tool)) / 1000 else 0 := by
  split
  · rename_i h
    rw [if_pos ⟨by linarith [h.1], by linarith [h.2]⟩]
    linarith
  · split
    · rename_i h
      linarith [h.1, h.2]
    · exact le_rfl

/-- A pocket without an inside has no turns. -/
theorem rectLength_eq_sum (htool : 0 < tool) (width height : Rat) :
    rectLength width height tool =
      ∑ k ∈ Finset.range (rectTurnCount width height tool), rectTurn (tool / 2)
        (width - 2 * (tool / 2 + 1)) (height - 2 * (tool / 2 + 1)) k +
      if tool < width ∧ tool < height then 2 * ((width - tool) + (height - tool)) / 1000
      else 0 := by
  unfold rectLength
  dsimp only
  split
  · rename_i hempty
    have hcount : rectTurnCount width height tool = 0 := by
      by_contra hne
      obtain ⟨hx, hy⟩ := rectTurn_inside htool (Nat.pos_of_ne_zero hne)
      rw [Nat.cast_zero, mul_zero, zero_mul, sub_zero] at hx hy
      rcases hempty with h | h <;> linarith
    have hlast : ¬ (tool < width ∧ tool < height) := by
      rintro ⟨hx, hy⟩
      rcases hempty with h | h <;> linarith
    rw [hcount, Finset.sum_range_zero, if_neg hlast, add_zero]
  · rfl

theorem rectLength_mono (htool : 0 < tool) {width width' height height' : Rat}
    (hwidth : width ≤ width') (hheight : height ≤ height') :
    rectLength width height tool ≤ rectLength width' height' tool := by
  rw [rectLength_eq_sum htool, rectLength_eq_sum htool]
  exact add_le_add (sum_rectTurns_mono htool hwidth hheight) (lastTurn_mono hwidth hheight)

/-- Every rectangle contains one without an inside, which has no toolpath. -/
theorem rectLength_nonneg (htool : 0 < tool) (width height : Rat) :
    0 ≤ rectLength width height tool := by
  have hempty : rectLength (min width 0) height tool = 0 :=
    if_pos (.inl (min_le_right width 0))
  rw [← hempty]
  exact rectLength_mono htool (min_le_left width 0) le_rfl

theorem circleLength_mono (hpi : 0 < pi) (htool : 0 < tool) {radius radius' : Rat}
    (h : radius ≤ radius') : circleLength pi radius tool ≤ circleLength pi radius' tool := by
  have hs : 0 < tool / 2 := by linarith
  have hcount : circleTurnCount radius tool ≤ circleTurnCount radius' tool := by
    unfold circleTurnCount
    refine Nat.floor_mono (div_le_div_of_nonneg_right (min_le_min ?_ ?_) hs.le) <;> linarith
  have hcount' : (circleTurnCount radius tool : Rat) ≤ circleTurnCount radius' tool := by
    exact_mod_cast hcount
  unfold circleLength
  dsimp only
  split
  -- nothing is cut of the smaller one
  · split
    · exact le_rfl
    · have hfinish : 0 ≤ radius' - tool / 2 := by linarith
      positivity
  · rename_i hinside
    rw [if_neg (by linarith)]
    gcongr

theorem circleLength_nonneg (hpi : 0 < pi) (htool : 0 < tool) (radius : Rat) :
    0 ≤ circleLength pi radius tool := by
  have hempty : circleLength pi (min radius (tool / 2)) tool = 0 :=
    if_pos (min_le_right radius (tool / 2))
  rw [← hempty]
  exact circleLength_mono hpi htool (min_le_left radius (tool / 2))

/-- With fuel for one turn more than there are the loops end, and what they add up to is the length
    of the toolpath. It is not negative, and does not decrease when a pocket grows. -/
theorem toolpaths_measured (hpi : 0 < pi) (htool : 0 < tool) :
    (∀ width height fuel, rectTurnCount width height tool < fuel →
      rect? fuel width height tool = some (rectLength width height tool)) ∧
    (∀ radius fuel, circleTurnCount radius tool < fuel →
      circle? pi fuel radius tool = some (circleLength pi radius tool)) ∧
    (∀ width height, 0 ≤ rectLength width height tool) ∧
    (∀ radius, 0 ≤ circleLength pi radius tool) ∧
    (∀ width width' height height', width ≤ width' → height ≤ height' →
      rectLength width height tool ≤ rectLength width' height' tool) ∧
    (∀ radius radius', radius ≤ radius' →
      circleLength pi radius tool ≤ circleLength pi radius' tool) := by
  refine ⟨?_, ?_, rectLength_nonneg htool, circleLength_nonneg hpi htool, ?_, ?_⟩
  · intro width height fuel hfuel
    rw [rect?_eq htool, if_pos (.inl hfuel)]
  · intro radius fuel hfuel
    rw [circle?_eq htool, if_pos (.inl hfuel)]
  · intro width width' height height' hwidth hheight
    exact rectLength_mono htool hwidth hheight
  · intro radius radius' h
    exact circleLength_mono hpi htool h

/-- A square of 50 mm is milled with a tool of 6 mm: seven turns of 168 mm down to 24 mm, and the
    last one of 176 mm. A circle is milled in seven turns and the last one at 22 mm. -/
theorem toolpaths_measured_square :
    (0 : Rat) < 22 / 7 ∧ (0 : Rat) < 6 ∧
      rect? 8 (50 : Rat) 50 6 = some (848 / 1000) ∧
      circle? (22 / 7 : Rat) 8 25 6 = some (2 * (22 / 7) * (84 + 22) / 1000) := by
  have hpi : (0 : Rat) < 22 / 7 := by norm_num
  have htool : (0 : Rat) < 6 := by norm_num
  obtain ⟨hrect, hcircle, -⟩ := toolpaths_measured hpi htool
  have hcount : rectTurnCount 50 50 6 < 8 := by decide +kernel
  have hcount' : circleTurnCount 25 6 < 8 := by decide +kernel
  refine ⟨hpi, htool, ?_, ?_⟩
  · rw [hrect 50 50 8 hcount]
    decide +kernel
  · rw [hcircle 25 8 hcount']
    decide +kernel

end Lengths

end FoamTray.Toolpath
