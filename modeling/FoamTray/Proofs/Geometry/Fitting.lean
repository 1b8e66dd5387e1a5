import FoamTray.Layout.Invariants
import FoamTray.Proofs.Geometry.Millimetres
import FoamTray.Proofs.Geometry.Stretching
import FoamTray.Proofs.Layout.Edit
import Mathlib.Algebra.Order.Group.MinMax

/-! # Moving one box into another

    Along each axis a label lies inside the area of its contour, or begins where the area does.
    The machine brings it there with a few rounded operations.

    * `AxisFit` : an interval that lies inside another one, or begins where it does, up to an
      error.
    * `axisFit_axisShift`, `Rect.Keeps` : over the rationals there is no error.
    * `grain`, `Zoom.Moderate.millimetres_add`, … : the error of one operation of the machine.
    * `SpansSide.lowerSide_error`, `SpansSide.upperSide_error` : the sides of the area, as the
      machine finds them.
    * `axisFit_settled`, `axisFits_of_axisFit` : a shift and a test of the machine.
    * `SpansSide.settled`, `SpansSide.zoomed`, `SpansSide.axisFits` : what becomes of a label along
      an axis when it is brought back, stretched and tested.
-/

namespace FoamTray

/-! ## Section 1: Intervals -/

theorem Coordinate.near_self (q : Rat) : Coordinate.near q q = true := by
  show decide (rationalAbs (q - q) ≤ 1 / 1000) = true
  rw [sub_self]
  decide +kernel

/-- An interval does not begin before another one, and ends no later than it or begins no later
    than it, up to an error. -/
structure AxisFit (e low high innerLow innerHigh : Rat) : Prop where
  /-- It does not begin too early. -/
  begins : low - e ≤ innerLow
  /-- It does not end too late, or begins with the other one. -/
  ends : innerHigh ≤ high + e ∨ innerLow ≤ low + e

namespace AxisFit

variable {e d low high innerLow innerHigh : Rat}

theorem mono (h : AxisFit e low high innerLow innerHigh) (hd : e ≤ d) :
    AxisFit d low high innerLow innerHigh := by
  refine ⟨by linarith [h.begins], ?_⟩
  rcases h.ends with h' | h'
  · exact .inl (by linarith)
  · exact .inr (by linarith)

/-- Intervals that moved a little fit as well, with so much more of an error. -/
theorem moved {low' high' innerLow' innerHigh' d' : Rat}
    (h : AxisFit e low high innerLow innerHigh) (hlow : |low' - low| ≤ d)
    (hhigh : |high' - high| ≤ d) (hinner : |innerLow' - innerLow| ≤ d')
    (hinner' : |innerHigh' - innerHigh| ≤ d') :
    AxisFit (e + d + d') low' high' innerLow' innerHigh' := by
  rw [abs_le] at hlow hhigh hinner hinner'
  refine ⟨by linarith [h.begins], ?_⟩
  rcases h.ends with h' | h'
  · exact .inl (by linarith)
  · exact .inr (by linarith)

/-- Without an error it fits at every scale. -/
theorem mul (h : AxisFit 0 low high innerLow innerHigh) {r : Rat} (hr : 0 < r) :
    AxisFit 0 (low * r) (high * r) (innerLow * r) (innerHigh * r) := by
  obtain ⟨hbegins, hends⟩ := h
  rw [sub_zero] at hbegins
  rw [add_zero, add_zero] at hends
  refine ⟨?_, ?_⟩
  · rw [sub_zero]
    exact mul_le_mul_of_nonneg_right hbegins hr.le
  · rw [add_zero, add_zero]
    exact hends.imp (mul_le_mul_of_nonneg_right · hr.le) (mul_le_mul_of_nonneg_right · hr.le)

/-- An interval that fits passes the test, which allows for more than no error. -/
theorem axisFits (h : AxisFit 0 low high innerLow innerHigh) :
    Layout.axisFits low high innerLow innerHigh = true := by
  obtain ⟨hbegins, hends⟩ := h
  rw [sub_zero] at hbegins
  rw [add_zero, add_zero] at hends
  have hatMost : ∀ {a b : Rat}, a ≤ b → Coordinate.atMost a b = true := by
    intro a b hab
    unfold Coordinate.atMost
    rcases hab.lt_or_eq with hlt | rfl
    · rw [decide_eq_true hlt, Bool.or_true]
    · rw [Coordinate.near_self, Bool.true_or]
  unfold Layout.axisFits
  split
  · rename_i hlong
    have hlow : innerLow = low := by
      rcases hends with h' | h' <;> linarith
    rw [hlow]
    exact Coordinate.near_self low
  · rename_i hshort
    rw [not_lt] at hshort
    have hhigh : innerHigh ≤ high := by
      rcases hends with h' | h' <;> linarith
    rw [hatMost hbegins, hatMost hhigh]
    rfl

end AxisFit

/-- A shifted interval fits. -/
theorem axisFit_axisShift (low high innerLow innerHigh : Rat) :
    AxisFit 0 low high (innerLow + Rect.axisShift low high innerLow innerHigh)
      (innerHigh + Rect.axisShift low high innerLow innerHigh) := by
  unfold Rect.axisShift
  split
  · exact ⟨by linarith, .inr (by linarith)⟩
  · rename_i h
    rw [not_or, not_lt, not_lt] at h
    obtain ⟨hshort, hlow⟩ := h
    split
    · exact ⟨by linarith, .inl (by linarith)⟩
    · rename_i hhigh
      rw [not_lt] at hhigh
      rw [Nat.cast_zero]
      exact ⟨by linarith, .inl (by linarith)⟩

namespace Rect

/-- A box fits into an area along both axes, up to an error. -/
structure Keeps (area : Rect Rat) (e : Rat) (inner : Rect Rat) : Prop where
  /-- From left to right. -/
  horizontal : AxisFit e area.xMin area.xMax inner.xMin inner.xMax
  /-- From top to bottom. -/
  vertical : AxisFit e area.yMin area.yMax inner.yMin inner.yMax

theorem Keeps.mono {area inner : Rect Rat} {e d : Rat} (h : area.Keeps e inner) (hd : e ≤ d) :
    area.Keeps d inner :=
  ⟨h.horizontal.mono hd, h.vertical.mono hd⟩

theorem Keeps.scale {area inner : Rect Rat} (h : area.Keeps 0 inner) {r : Rat} (hr : 0 < r) :
    (area.scale r).Keeps 0 (inner.scale r) :=
  ⟨h.horizontal.mul hr, h.vertical.mul hr⟩

theorem keeps_shiftInto (area inner : Rect Rat) :
    area.Keeps 0 (inner.translate (area.shiftInto inner).1 (area.shiftInto inner).2) :=
  ⟨axisFit_axisShift _ _ _ _, axisFit_axisShift _ _ _ _⟩

end Rect

namespace Label

variable (label : Label Rat) (area : Rect Rat) (s : LabelSettings Rat) (z : Zoom Rat)

theorem translate_zero : label.translate 0 0 = label := by
  simp [translate, Point.translate]

/-- The box of a label is moved with it. -/
theorem bounds_translate (dx dy : Rat) :
    (label.translate dx dy).bounds s z = (label.bounds s z).translate dx dy := by
  simp only [bounds, translate, Rect.ofTopLeft, Rect.translate, Point.translate, Rect.mk.injEq,
    true_and]
  constructor
  · exact add_right_comm _ _ _
  · exact add_right_comm _ _ _

/-- Leaving out a shift by nothing makes no difference. -/
theorem movedInto_eq_translate : label.movedInto area s z =
    label.translate (area.shiftInto (label.bounds s z)).1
      (area.shiftInto (label.bounds s z)).2 := by
  unfold movedInto
  dsimp only
  split
  · rename_i hzero
    obtain ⟨hx, hy⟩ := Bool.and_eq_true_iff.mp hzero
    rw [eq_of_beq hx, eq_of_beq hy, Nat.cast_zero, translate_zero]
  · rfl

/-- Over the rationals a label that is brought back fits exactly. -/
theorem keeps_movedInto : area.Keeps 0 ((label.movedInto area s z).bounds s z) := by
  rw [movedInto_eq_translate, bounds_translate]
  exact area.keeps_shiftInto (label.bounds s z)

end Label

/-! ## Section 2: One operation of the machine -/

/-- The error of one operation on lengths of no more than so many millimetres. -/
def grain (bound : Rat) : Rat := (bound + 1) / 2 ^ 24

theorem grain_double (bound : Rat) : grain (2 * bound + 1) = 2 * grain bound := by
  unfold grain
  ring

theorem grain_le {bound : Rat} (h : bound ≤ 2 ^ 19) : grain bound ≤ 1 / 31 := by
  unfold grain
  linarith

theorem grain_nonneg {bound : Rat} (h : 0 ≤ bound) : 0 ≤ grain bound := by
  unfold grain
  positivity

namespace Zoom

section Operations

variable {z : Zoom Single} {x y p : Single} {bound : Rat}

/-- The share that is lost. -/
theorem share_le_grain {q : Rat} (hq : |q| ≤ bound + 1 / 2) :
    |q| / 2 ^ 24 + 1 / 2 ^ 110 ≤ grain bound := by
  unfold grain
  linarith

theorem Moderate.millimetres_add (hz : z.Moderate) (hx : x.isFinite = true)
    (hy : y.isFinite = true) (hxbound : |z.millimetres x| ≤ 2 ^ 23)
    (hybound : |z.millimetres y| ≤ 2 ^ 23)
    (hsum : |z.millimetres x + z.millimetres y| ≤ bound + 1 / 2) :
    (x + y).isFinite = true ∧
      |z.millimetres (x + y) - (z.millimetres x + z.millimetres y)| ≤ grain bound := by
  have hx' := hz.abs_toRat_le hxbound
  have hy' := hz.abs_toRat_le hybound
  have htriangle := abs_add_le x.toRat y.toRat
  have hround : Single.RoundsTo (x + y) (x.toRat + y.toRat) :=
    Single.add_roundsTo hx hy (by linarith)
  have herror := hround.abs_div_sub_le hz.low
  rw [add_div] at herror
  exact ⟨hround.finite, le_trans herror (share_le_grain hsum)⟩

theorem Moderate.millimetres_sub (hz : z.Moderate) (hx : x.isFinite = true)
    (hy : y.isFinite = true) (hxbound : |z.millimetres x| ≤ 2 ^ 23)
    (hybound : |z.millimetres y| ≤ 2 ^ 23)
    (hdifference : |z.millimetres x - z.millimetres y| ≤ bound + 1 / 2) :
    (x - y).isFinite = true ∧
      |z.millimetres (x - y) - (z.millimetres x - z.millimetres y)| ≤ grain bound := by
  have hx' := hz.abs_toRat_le hxbound
  have hy' := hz.abs_toRat_le hybound
  have htriangle := abs_sub x.toRat y.toRat
  have hround : Single.RoundsTo (x - y) (x.toRat - y.toRat) :=
    Single.sub_roundsTo hx hy (by linarith)
  have herror := hround.abs_div_sub_le hz.low
  rw [sub_div] at herror
  exact ⟨hround.finite, le_trans herror (share_le_grain hdifference)⟩

theorem Moderate.millimetres_toWorkspace (hz : z.Moderate) (hp : p.isFinite = true)
    (hbound : bound ≤ 2 ^ 19) (hpbound : |p.toRat| ≤ bound) :
    (z.toWorkspace p).isFinite = true ∧
      |z.millimetres (z.toWorkspace p) - p.toRat| ≤ grain bound := by
  have hs := z.factor_pos
  have hround : Single.RoundsTo (z.toWorkspace p) (p.toRat * z.factor.toRat) := by
    refine Single.mul_roundsTo hp z.finite_factor ?_
    rw [abs_mul, abs_of_pos hs]
    calc |p.toRat| * z.factor.toRat ≤ 2 ^ 19 * 2 ^ 40 :=
          mul_le_mul (le_trans hpbound hbound) hz.high hs.le (by positivity)
      _ ≤ 2 ^ 127 := by norm_num
  have herror := hround.abs_div_sub_le hz.low
  rw [mul_div_cancel_right₀ _ hs.ne'] at herror
  exact ⟨hround.finite, le_trans herror (share_le_grain (by linarith))⟩

theorem Moderate.millimetres_half (hz : z.Moderate) (hx : x.isFinite = true)
    (hxbound : |z.millimetres x| ≤ 2 ^ 23) (hhalf : |z.millimetres x / 2| ≤ bound + 1 / 2) :
    (x / ((2 : Nat) : Single)).isFinite = true ∧
      |z.millimetres (x / ((2 : Nat) : Single)) - z.millimetres x / 2| ≤ grain bound := by
  have htwo : ((2 : Nat) : Single).toRat = 2 := by decide +kernel
  have hx' := hz.abs_toRat_le hxbound
  have hround : Single.RoundsTo (x / ((2 : Nat) : Single)) (x.toRat / 2) := by
    have hdiv := Single.div_roundsTo (y := ((2 : Nat) : Single)) hx (by decide +kernel)
      (by rw [htwo]; norm_num) (by rw [htwo, abs_div, abs_two]; linarith [abs_nonneg x.toRat])
    rw [htwo] at hdiv
    exact hdiv
  have herror := hround.abs_div_sub_le hz.low
  rw [div_right_comm] at herror
  exact ⟨hround.finite, le_trans herror (share_le_grain hhalf)⟩

/-- A shift by nothing, which the machine leaves out. -/
theorem Moderate.millimetres_add_zero (hz : z.Moderate) (hx : x.isFinite = true)
    (hy : y.isFinite = true) (hxbound : |z.millimetres x| ≤ 2 ^ 23)
    (hzero : (y == ((0 : Nat) : Single)) = true) :
    z.millimetres (x + y) = z.millimetres x := by
  rw [Single.beq_iff_toRat hy Single.isFinite_zero, Single.toRat_zero] at hzero
  have hx' := hz.abs_toRat_le hxbound
  have hround : Single.RoundsTo (x + y) x.toRat := by
    have hsum := Single.add_roundsTo hx hy
    rw [hzero, add_zero] at hsum
    exact hsum (by linarith)
  unfold millimetres
  rw [hround.eq_toRat hx]

theorem millimetres_min (hx : x.isFinite = true) (hy : y.isFinite = true) :
    (Scalar.min x y).isFinite = true ∧
      z.millimetres (Scalar.min x y) = min (z.millimetres x) (z.millimetres y) := by
  obtain ⟨hfinite, hvalue⟩ := Single.toRat_min hx hy
  refine ⟨hfinite, ?_⟩
  unfold millimetres
  rw [hvalue, min_div_div_right z.factor_pos.le]

theorem millimetres_max (hx : x.isFinite = true) (hy : y.isFinite = true) :
    (Scalar.max x y).isFinite = true ∧
      z.millimetres (Scalar.max x y) = max (z.millimetres x) (z.millimetres y) := by
  obtain ⟨hfinite, hvalue⟩ := Single.toRat_max hx hy
  refine ⟨hfinite, ?_⟩
  unfold millimetres
  rw [hvalue, max_div_div_right z.factor_pos.le]

theorem lt_iff_millimetres (z : Zoom Single) (hx : x.isFinite = true) (hy : y.isFinite = true) :
    x < y ↔ z.millimetres x < z.millimetres y := by
  unfold millimetres
  rw [Single.lt_iff hx hy, div_lt_div_iff_of_pos_right z.factor_pos]

end Operations

end Zoom

/-! ## Section 3: The sides of an area -/

namespace Zoom

section Sides

variable {α : Type} [Scalar α]

/-- Where the area of a contour begins along one axis. -/
def lowerSide (z : Zoom α) (x w p : α) : α :=
  Scalar.min (x - z.toWorkspace p) ((x + (x + z.toWorkspace w)) / ((2 : Nat) : α))

/-- Where it ends. -/
def upperSide (z : Zoom α) (x w p : α) : α :=
  Scalar.max (x + z.toWorkspace w + z.toWorkspace p)
    ((x + (x + z.toWorkspace w)) / ((2 : Nat) : α))

theorem lowerSide_unit (x w p : Rat) :
    (unit : Zoom Rat).lowerSide x w p = min (x - p) (x + w / 2) := by
  unfold lowerSide toWorkspace unit
  rw [Scalar.min_eq]
  congr 1
  · push_cast
    ring
  · push_cast
    ring

theorem upperSide_unit (x w p : Rat) :
    (unit : Zoom Rat).upperSide x w p = max (x + w + p) (x + w / 2) := by
  unfold upperSide toWorkspace unit
  rw [Scalar.max_eq]
  congr 1
  · push_cast
    ring
  · push_cast
    ring

/-- In millimetres the area goes along with the contour. -/
theorem lowerSide_unit_sub (x x' w p : Rat) :
    (unit : Zoom Rat).lowerSide x' w p - (unit : Zoom Rat).lowerSide x w p = x' - x := by
  have hside : ∀ x : Rat, (unit : Zoom Rat).lowerSide x w p = x + min (-p) (w / 2) := by
    intro x
    rw [lowerSide_unit, ← min_add_add_left, sub_eq_add_neg]
  rw [hside, hside, add_sub_add_right_eq_sub]

theorem upperSide_unit_sub (x x' w p : Rat) :
    (unit : Zoom Rat).upperSide x' w p - (unit : Zoom Rat).upperSide x w p = x' - x := by
  have hside : ∀ x : Rat, (unit : Zoom Rat).upperSide x w p = x + max (w + p) (w / 2) := by
    intro x
    rw [upperSide_unit, ← max_add_add_left, ← add_assoc]
  rw [hside, hside, add_sub_add_right_eq_sub]

end Sides

/-- A finite interval that reaches no more than so many millimetres from the origin: it begins on
    the workspace, and its length is in millimetres. -/
structure SpansSide (z : Zoom Single) (bound : Rat) (x w : Single) : Prop where
  finite : x.isFinite = true
  finite_length : w.isFinite = true
  reach : |z.millimetres x| + |w.toRat| ≤ bound

instance (z : Zoom Single) (bound : Rat) (x w : Single) : Decidable (z.SpansSide bound x w) :=
  decidable_of_iff
    (x.isFinite = true ∧ w.isFinite = true ∧ |z.millimetres x| + |w.toRat| ≤ bound)
    ⟨fun ⟨h₁, h₂, h₃⟩ => ⟨h₁, h₂, h₃⟩, fun ⟨h₁, h₂, h₃⟩ => ⟨h₁, h₂, h₃⟩⟩

variable {z : Zoom Single} {x w p : Single} {bound : Rat}

/-- The end of an interval, as the machine finds it. -/
theorem SpansSide.millimetres_end (h : z.SpansSide bound x w) (hz : z.Moderate)
    (hbound : bound ≤ 2 ^ 19) :
    (x + z.toWorkspace w).isFinite = true ∧
      |z.millimetres (x + z.toWorkspace w) - (z.millimetres x + w.toRat)| ≤ 2 * grain bound ∧
      |z.millimetres (x + z.toWorkspace w)| ≤ bound + 2 * grain bound := by
  obtain ⟨hx, hw, hreach⟩ := h
  have hx0 := abs_nonneg (z.millimetres x)
  have hw0 := abs_nonneg w.toRat
  have hgrain := grain_le hbound
  obtain ⟨hfinite, hlength⟩ := hz.millimetres_toWorkspace hw hbound (by linarith)
  have hsize := abs_sub_abs_le_abs_sub (z.millimetres (z.toWorkspace w)) w.toRat
  have hsum : |z.millimetres x + z.millimetres (z.toWorkspace w)| ≤ bound + 1 / 2 := by
    linarith [abs_add_le (z.millimetres x) (z.millimetres (z.toWorkspace w))]
  obtain ⟨hfinite', herror⟩ := hz.millimetres_add hx hfinite (by linarith) (by linarith) hsum
  have herror' : |z.millimetres (x + z.toWorkspace w) - (z.millimetres x + w.toRat)| ≤
      2 * grain bound := by
    rw [abs_le] at hlength herror ⊢
    constructor <;> linarith
  refine ⟨hfinite', herror', ?_⟩
  linarith [abs_add_le (z.millimetres x) w.toRat,
    abs_sub_abs_le_abs_sub (z.millimetres (x + z.toWorkspace w)) (z.millimetres x + w.toRat)]

/-- The middle of an interval. -/
theorem SpansSide.millimetres_middle (h : z.SpansSide bound x w) (hz : z.Moderate)
    (hbound : bound ≤ 2 ^ 19) :
    ((x + (x + z.toWorkspace w)) / ((2 : Nat) : Single)).isFinite = true ∧
      |z.millimetres ((x + (x + z.toWorkspace w)) / ((2 : Nat) : Single)) -
        (z.millimetres x + w.toRat / 2)| ≤ 3 * grain bound := by
  obtain ⟨hfinite, hend, hendbound⟩ := h.millimetres_end hz hbound
  obtain ⟨hx, hw, hreach⟩ := h
  generalize x + z.toWorkspace w = y at hfinite hend hendbound ⊢
  have hw0 := abs_nonneg w.toRat
  have hgrain := grain_le hbound
  have htriangle := abs_add_le (z.millimetres x) (z.millimetres y)
  -- the sum may be twice as large
  have hlong : |z.millimetres x + z.millimetres y| ≤ 2 * bound + 1 + 1 / 2 := by linarith
  obtain ⟨hfinite', hsum⟩ := hz.millimetres_add hx hfinite (by linarith) (by linarith) hlong
  rw [grain_double] at hsum
  generalize x + y = s at hfinite' hsum ⊢
  have hsize := abs_sub_abs_le_abs_sub (z.millimetres s) (z.millimetres x + z.millimetres y)
  have hmiddle : |z.millimetres s / 2| ≤ bound + 1 / 2 := by
    rw [abs_div, abs_two]
    linarith
  obtain ⟨hfinite'', hhalf⟩ := hz.millimetres_half hfinite' (by linarith) hmiddle
  refine ⟨hfinite'', ?_⟩
  rw [abs_le] at hend hsum hhalf ⊢
  constructor <;> linarith

/-- Without the padding it reaches no further. -/
theorem SpansSide.of_padded (h : z.SpansSide (bound - |p.toRat|) x w) : z.SpansSide bound x w :=
  ⟨h.finite, h.finite_length, le_trans h.reach (sub_le_self _ (abs_nonneg _))⟩

/-- The beginning of an area, as the machine finds it. -/
theorem SpansSide.lowerSide_error (h : z.SpansSide (bound - |p.toRat|) x w) (hz : z.Moderate)
    (hp : p.isFinite = true) (hbound : bound ≤ 2 ^ 19) :
    (z.lowerSide x w p).isFinite = true ∧
      |z.millimetres (z.lowerSide x w p) -
        (unit : Zoom Rat).lowerSide (z.millimetres x) w.toRat p.toRat| ≤ 4 * grain bound ∧
      |z.millimetres (z.lowerSide x w p)| ≤ bound + 4 * grain bound := by
  have hp0 := abs_nonneg p.toRat
  have hw0 := abs_nonneg w.toRat
  have hx0 := abs_nonneg (z.millimetres x)
  have hreach := h.reach
  have hgrain := grain_le hbound
  have hgrain0 : 0 ≤ grain bound := grain_nonneg (by linarith)
  obtain ⟨hmiddle, hmiddle'⟩ := h.of_padded.millimetres_middle hz hbound
  obtain ⟨hpadding, hpadding'⟩ := hz.millimetres_toWorkspace hp hbound (by linarith)
  have hsize := abs_sub_abs_le_abs_sub (z.millimetres (z.toWorkspace p)) p.toRat
  have hdifference : |z.millimetres x - z.millimetres (z.toWorkspace p)| ≤ bound + 1 / 2 := by
    linarith [abs_sub (z.millimetres x) (z.millimetres (z.toWorkspace p))]
  obtain ⟨hside, hside'⟩ := hz.millimetres_sub h.finite hpadding (by linarith) (by linarith)
    hdifference
  obtain ⟨hfinite, hvalue⟩ := millimetres_min (z := z) hside hmiddle
  have herror : |z.millimetres (z.lowerSide x w p) -
      (unit : Zoom Rat).lowerSide (z.millimetres x) w.toRat p.toRat| ≤ 4 * grain bound := by
    rw [lowerSide_unit]
    unfold lowerSide
    rw [hvalue]
    refine le_trans (abs_min_sub_min_le_max _ _ _ _) (max_le ?_ (by linarith))
    rw [abs_le] at hpadding' hside' ⊢
    constructor <;> linarith
  have hexact : |(unit : Zoom Rat).lowerSide (z.millimetres x) w.toRat p.toRat| ≤ bound := by
    rw [lowerSide_unit]
    refine le_trans abs_min_le_max_abs_abs (max_le ?_ ?_)
    · linarith [abs_sub (z.millimetres x) p.toRat]
    · have hhalf : |w.toRat / 2| ≤ |w.toRat| := by
        rw [abs_div, abs_two]
        linarith
      linarith [abs_add_le (z.millimetres x) (w.toRat / 2)]
  refine ⟨hfinite, herror, ?_⟩
  linarith [abs_sub_abs_le_abs_sub (z.millimetres (z.lowerSide x w p))
    ((unit : Zoom Rat).lowerSide (z.millimetres x) w.toRat p.toRat)]

/-- The end of an area, as the machine finds it. -/
theorem SpansSide.upperSide_error (h : z.SpansSide (bound - |p.toRat|) x w) (hz : z.Moderate)
    (hp : p.isFinite = true) (hbound : bound ≤ 2 ^ 19) :
    (z.upperSide x w p).isFinite = true ∧
      |z.millimetres (z.upperSide x w p) -
        (unit : Zoom Rat).upperSide (z.millimetres x) w.toRat p.toRat| ≤ 4 * grain bound ∧
      |z.millimetres (z.upperSide x w p)| ≤ bound + 4 * grain bound := by
  have hp0 := abs_nonneg p.toRat
  have hw0 := abs_nonneg w.toRat
  have hx0 := abs_nonneg (z.millimetres x)
  have hreach := h.reach
  have hgrain := grain_le hbound
  have hgrain0 : 0 ≤ grain bound := grain_nonneg (by linarith)
  obtain ⟨hmiddle, hmiddle'⟩ := h.of_padded.millimetres_middle hz hbound
  obtain ⟨hend, hend', hendbound⟩ := h.of_padded.millimetres_end hz hbound
  obtain ⟨hpadding, hpadding'⟩ := hz.millimetres_toWorkspace hp hbound (by linarith)
  have hsize := abs_sub_abs_le_abs_sub (z.millimetres (z.toWorkspace p)) p.toRat
  have hlong := abs_add_le (z.millimetres x) w.toRat
  have hsize' := abs_sub_abs_le_abs_sub (z.millimetres (x + z.toWorkspace w))
    (z.millimetres x + w.toRat)
  have hsum : |z.millimetres (x + z.toWorkspace w) + z.millimetres (z.toWorkspace p)| ≤
      bound + 1 / 2 := by
    linarith [abs_add_le (z.millimetres (x + z.toWorkspace w)) (z.millimetres (z.toWorkspace p))]
  obtain ⟨hside, hside'⟩ := hz.millimetres_add hend hpadding (by linarith) (by linarith) hsum
  obtain ⟨hfinite, hvalue⟩ := millimetres_max (z := z) hside hmiddle
  have herror : |z.millimetres (z.upperSide x w p) -
      (unit : Zoom Rat).upperSide (z.millimetres x) w.toRat p.toRat| ≤ 4 * grain bound := by
    rw [upperSide_unit]
    unfold upperSide
    rw [hvalue]
    refine le_trans (abs_max_sub_max_le_max _ _ _ _) (max_le ?_ (by linarith))
    rw [abs_le] at hend' hpadding' hside' ⊢
    constructor <;> linarith
  have hexact : |(unit : Zoom Rat).upperSide (z.millimetres x) w.toRat p.toRat| ≤ bound := by
    rw [upperSide_unit]
    refine le_trans abs_max_le_max_abs_abs (max_le ?_ ?_)
    · linarith [abs_add_le (z.millimetres x + w.toRat) p.toRat,
        abs_add_le (z.millimetres x) w.toRat]
    · have hhalf : |w.toRat / 2| ≤ |w.toRat| := by
        rw [abs_div, abs_two]
        linarith
      linarith [abs_add_le (z.millimetres x) (w.toRat / 2)]
  refine ⟨hfinite, herror, ?_⟩
  linarith [abs_sub_abs_le_abs_sub (z.millimetres (z.upperSide x w p))
    ((unit : Zoom Rat).upperSide (z.millimetres x) w.toRat p.toRat)]

end Zoom

/-! ## Section 4: Shifting and testing -/

section Axes

variable {z : Zoom Single} {low high a b x y d : Single} {bound e q : Rat}

/-- The difference of two sides. -/
theorem Zoom.Moderate.millimetres_difference (hz : z.Moderate) (hbound : bound ≤ 2 ^ 19)
    (hx : x.isFinite = true) (hy : y.isFinite = true)
    (hxbound : |z.millimetres x| ≤ bound + 4 * grain bound)
    (hybound : |z.millimetres y| ≤ bound + 4 * grain bound) :
    (x - y).isFinite = true ∧
      |z.millimetres (x - y) - (z.millimetres x - z.millimetres y)| ≤ 2 * grain bound := by
  have hgrain := grain_le hbound
  -- it may be twice as large as the sides
  have hlong : |z.millimetres x - z.millimetres y| ≤ 2 * bound + 1 + 1 / 2 := by
    linarith [abs_sub (z.millimetres x) (z.millimetres y)]
  have hdifference := hz.millimetres_sub hx hy (by linarith) (by linarith) hlong
  rw [grain_double] at hdifference
  exact hdifference

/-- A shift by a difference leads about to where it should. -/
theorem Zoom.Moderate.millimetres_shifted (hz : z.Moderate) (hbound : bound ≤ 2 ^ 19)
    (ha : a.isFinite = true) (hd : d.isFinite = true) (habound : |z.millimetres a| ≤ bound)
    (hdq : |z.millimetres d - (q - z.millimetres a)| ≤ 2 * grain bound)
    (hq : |q| ≤ bound + 8 * grain bound) :
    |z.millimetres (a + d) - q| ≤ 3 * grain bound := by
  have hgrain := grain_le hbound
  have hsize := abs_sub_abs_le_abs_sub (z.millimetres d) (q - z.millimetres a)
  have htriangle := abs_sub q (z.millimetres a)
  have hsum : |z.millimetres a + z.millimetres d| ≤ bound + 1 / 2 := by
    rw [abs_le] at hdq hq ⊢
    constructor <;> linarith
  obtain ⟨-, herror⟩ := hz.millimetres_add ha hd (by linarith) (by linarith) hsum
  rw [abs_le] at hdq herror ⊢
  constructor <;> linarith

/-- An interval that the machine shifts fits, up to seven operations. -/
theorem axisFit_settled (hz : z.Moderate) (hbound : bound ≤ 2 ^ 19) (hlow : low.isFinite = true)
    (hhigh : high.isFinite = true) (ha : a.isFinite = true) (hb : b.isFinite = true)
    (hlowbound : |z.millimetres low| ≤ bound + 4 * grain bound)
    (hhighbound : |z.millimetres high| ≤ bound + 4 * grain bound)
    (habound : |z.millimetres a| ≤ bound) (hbbound : |z.millimetres b| ≤ bound + 2 * grain bound) :
    (Rect.axisShift low high a b).isFinite = true ∧
      AxisFit (7 * grain bound) (z.millimetres low) (z.millimetres high)
        (z.millimetres (a + Rect.axisShift low high a b))
        (z.millimetres (a + Rect.axisShift low high a b) +
          (z.millimetres b - z.millimetres a)) := by
  have hgrain0 := grain_nonneg (le_trans (abs_nonneg _) habound)
  have habound' : |z.millimetres a| ≤ bound + 4 * grain bound := by linarith
  have hbbound' : |z.millimetres b| ≤ bound + 4 * grain bound := by linarith
  obtain ⟨hextent, hextent'⟩ := hz.millimetres_difference hbound hhigh hlow hhighbound hlowbound
  obtain ⟨hlength, hlength'⟩ := hz.millimetres_difference hbound hb ha hbbound' habound'
  rw [abs_le] at hextent' hlength'
  unfold Rect.axisShift
  split
  -- to the beginning of the other one
  · obtain ⟨hd, hd'⟩ := hz.millimetres_difference hbound hlow ha hlowbound habound'
    have herror := hz.millimetres_shifted hbound ha hd habound hd' (by linarith)
    refine ⟨hd, ?_⟩
    rw [abs_le] at herror
    exact ⟨by linarith, .inr (by linarith)⟩
  · rename_i h
    rw [not_or, z.lt_iff_millimetres hextent hlength, z.lt_iff_millimetres ha hlow, not_lt,
      not_lt] at h
    obtain ⟨hshort, hbegins⟩ := h
    split
    -- to the end: there is room, up to the error of the two lengths
    · rename_i hends
      rw [z.lt_iff_millimetres hhigh hb] at hends
      obtain ⟨hd, hd'⟩ := hz.millimetres_difference hbound hhigh hb hhighbound hbbound'
      have hsplit : z.millimetres high - z.millimetres b =
          z.millimetres high - (z.millimetres b - z.millimetres a) - z.millimetres a := by ring
      have hq : |z.millimetres high - (z.millimetres b - z.millimetres a)| ≤
          bound + 8 * grain bound := by
        rw [abs_le] at hlowbound habound ⊢
        constructor <;> linarith
      rw [hsplit] at hd'
      have herror := hz.millimetres_shifted hbound ha hd habound hd' hq
      refine ⟨hd, ?_⟩
      rw [abs_le] at herror
      exact ⟨by linarith, .inl (by linarith)⟩
    -- to where it is
    · rename_i hends
      rw [z.lt_iff_millimetres hhigh hb, not_lt] at hends
      have hzero : z.millimetres ((0 : Nat) : Single) = 0 := by
        unfold Zoom.millimetres
        rw [Single.toRat_zero, zero_div]
      have hstay : |z.millimetres ((0 : Nat) : Single) - (z.millimetres a - z.millimetres a)| ≤
          2 * grain bound := by
        rw [hzero, sub_self, sub_self, abs_zero]
        linarith
      have hfinite : ((0 : Nat) : Single).isFinite = true := by decide +kernel
      have herror := hz.millimetres_shifted hbound ha hfinite habound hstay (by linarith)
      refine ⟨hfinite, ?_⟩
      rw [abs_le] at herror
      exact ⟨by linarith, .inl (by linarith)⟩

/-- Sides that differ by little are near to each other. -/
theorem Zoom.Moderate.near_of_abs_le (hz : z.Moderate) (hbound : bound ≤ 2 ^ 19)
    (hx : x.isFinite = true) (hy : y.isFinite = true)
    (hxbound : |z.millimetres x| ≤ bound + 4 * grain bound)
    (hybound : |z.millimetres y| ≤ bound + 4 * grain bound)
    (hclose : |z.millimetres x - z.millimetres y| ≤ e)
    (he : (e + 2 * grain bound) * z.factor.toRat ≤ 1 / 1000) : Coordinate.near x y = true := by
  obtain ⟨hfinite, herror⟩ := hz.millimetres_difference hbound hx hy hxbound hybound
  have hsize := abs_sub_abs_le_abs_sub (z.millimetres (x - y)) (z.millimetres x - z.millimetres y)
  have hvalue : |(x - y).toRat| ≤ 1 / 1000 := by
    rw [← z.millimetres_mul (x - y), abs_mul, abs_of_pos z.factor_pos]
    exact le_trans (mul_le_mul_of_nonneg_right (by linarith) z.factor_pos.le) he
  have hdrift : (1 : Rat) / 1000 ≤ Single.drift.toRat := by decide +kernel
  have hle : (x - y).abs ≤ Single.drift := by
    rw [Single.le_iff (by rw [Single.isFinite_abs, hfinite]) (by decide +kernel), Single.toRat_abs]
    exact le_trans hvalue hdrift
  show Single.approxEqual Single.drift 4 x y = true
  unfold Single.approxEqual
  rw [decide_eq_true hle, Bool.or_true, Bool.true_or]

/-- An interval that fits passes the test of the machine if the error is small at this zoom. -/
theorem axisFits_of_axisFit (hz : z.Moderate) (hbound : bound ≤ 2 ^ 19)
    (hlow : low.isFinite = true) (hhigh : high.isFinite = true) (ha : a.isFinite = true)
    (hb : b.isFinite = true) (hlowbound : |z.millimetres low| ≤ bound + 4 * grain bound)
    (hhighbound : |z.millimetres high| ≤ bound + 4 * grain bound)
    (habound : |z.millimetres a| ≤ bound + 4 * grain bound)
    (hbbound : |z.millimetres b| ≤ bound + 4 * grain bound)
    (hfit : AxisFit e (z.millimetres low) (z.millimetres high) (z.millimetres a)
      (z.millimetres b))
    (he : (e + 6 * grain bound) * z.factor.toRat ≤ 1 / 1000) :
    Layout.axisFits low high a b = true := by
  obtain ⟨hextent, hextent'⟩ := hz.millimetres_difference hbound hhigh hlow hhighbound hlowbound
  obtain ⟨hlength, hlength'⟩ := hz.millimetres_difference hbound hb ha hbbound habound
  rw [abs_le] at hextent' hlength'
  obtain ⟨hbegins, hends⟩ := hfit
  -- sides in order, up to the error, are in order up to tolerance
  have he' : (e + 4 * grain bound + 2 * grain bound) * z.factor.toRat ≤ 1 / 1000 := by
    rw [show e + 4 * grain bound + 2 * grain bound = e + 6 * grain bound by ring]
    exact he
  have hatMost : ∀ {x y : Single}, x.isFinite = true → y.isFinite = true →
      |z.millimetres x| ≤ bound + 4 * grain bound → |z.millimetres y| ≤ bound + 4 * grain bound →
      z.millimetres x ≤ z.millimetres y + (e + 4 * grain bound) →
      Coordinate.atMost x y = true := by
    intro x y hx hy hxbound hybound hle
    unfold Coordinate.atMost
    by_cases hlt : x < y
    · rw [decide_eq_true hlt, Bool.or_true]
    · rw [z.lt_iff_millimetres hx hy, not_lt] at hlt
      have hclose : |z.millimetres x - z.millimetres y| ≤ e + 4 * grain bound := by
        rw [abs_of_nonneg (by linarith)]
        linarith
      rw [hz.near_of_abs_le hbound hx hy hxbound hybound hclose he', Bool.true_or]
  have hgrain0 : 0 ≤ grain bound := by linarith
  unfold Layout.axisFits
  split
  -- too long: it begins where the other one does
  · rename_i hlong
    rw [z.lt_iff_millimetres hextent hlength] at hlong
    refine hz.near_of_abs_le hbound ha hlow habound hlowbound ?_ he'
    rw [abs_le]
    rcases hends with hends | hends
    · constructor <;> linarith
    · constructor <;> linarith
  · rename_i hshort
    rw [z.lt_iff_millimetres hextent hlength, not_lt] at hshort
    have hends' : z.millimetres b ≤ z.millimetres high + (e + 4 * grain bound) := by
      rcases hends with hends | hends <;> linarith
    rw [hatMost hlow ha hlowbound habound (by linarith), hatMost hb hhigh hbbound hhighbound hends']
    rfl

end Axes

/-! ## Section 5: A label along an axis -/

namespace Zoom

variable {z t : Zoom Single} {x w p a b : Single} {bound e : Rat}

/-- The label begins at `a` and has the length `b`, the contour begins at `x` and has the length
    `w`, and there is a padding of `p` around it. The machine shifts the label. -/
theorem SpansSide.settled (hlabel : z.SpansSide bound a b)
    (hcontour : z.SpansSide (bound - |p.toRat|) x w) (hz : z.Moderate) (hp : p.isFinite = true)
    (hbound : bound ≤ 2 ^ 19) :
    let d := Rect.axisShift (z.lowerSide x w p) (z.upperSide x w p) a (a + z.toWorkspace b)
    d.isFinite = true ∧
      AxisFit (13 * grain bound) ((unit : Zoom Rat).lowerSide (z.millimetres x) w.toRat p.toRat)
        ((unit : Zoom Rat).upperSide (z.millimetres x) w.toRat p.toRat)
        (z.millimetres (a + d)) (z.millimetres (a + d) + b.toRat) := by
  intro d
  obtain ⟨hlow, hlow', hlowbound⟩ := hcontour.lowerSide_error hz hp hbound
  obtain ⟨hhigh, hhigh', hhighbound⟩ := hcontour.upperSide_error hz hp hbound
  obtain ⟨hend, hend', hendbound⟩ := hlabel.millimetres_end hz hbound
  have hstartbound : |z.millimetres a| ≤ bound := by
    linarith [hlabel.reach, abs_nonneg b.toRat]
  obtain ⟨hfinite, hfit⟩ := axisFit_settled hz hbound hlow hhigh hlabel.finite hend hlowbound
    hhighbound hstartbound hendbound
  refine ⟨hfinite, ?_⟩
  -- from the sides that the machine found to the exact ones
  rw [abs_sub_comm] at hlow' hhigh'
  have hstart : |z.millimetres (a + d) - z.millimetres (a + d)| ≤ 2 * grain bound := by
    rw [sub_self, abs_zero]
    exact le_trans (abs_nonneg _) hend'
  have hlength : |z.millimetres (a + d) + b.toRat - (z.millimetres (a + d) +
      (z.millimetres (a + z.toWorkspace b) - z.millimetres a))| ≤ 2 * grain bound := by
    rw [abs_le] at hend' ⊢
    constructor <;> linarith
  refine (hfit.moved hlow' hhigh' hstart hlength).mono ?_
  linarith

/-- A change of the zoom moves the label and its contour. -/
theorem SpansSide.zoomed (hlabel : z.SpansSide bound a b)
    (hcontour : z.SpansSide (bound - |p.toRat|) x w) (hz : z.Moderate) (ht : t.Moderate)
    (hbound : bound ≤ 2 ^ 19)
    (hfit : AxisFit e ((unit : Zoom Rat).lowerSide (z.millimetres x) w.toRat p.toRat)
      ((unit : Zoom Rat).upperSide (z.millimetres x) w.toRat p.toRat)
      (z.millimetres a) (z.millimetres a + b.toRat)) :
    AxisFit (e + 4 * grain bound)
      ((unit : Zoom Rat).lowerSide (t.millimetres (x * z.ratioTo t)) w.toRat p.toRat)
      ((unit : Zoom Rat).upperSide (t.millimetres (x * z.ratioTo t)) w.toRat p.toRat)
      (t.millimetres (a * z.ratioTo t)) (t.millimetres (a * z.ratioTo t) + b.toRat) := by
  -- each of the two is moved by two operations
  have hmoved : ∀ {y : Single}, y.isFinite = true → |z.millimetres y| ≤ bound →
      |t.millimetres (y * z.ratioTo t) - z.millimetres y| ≤ 2 * grain bound := by
    intro y hy hybound
    obtain ⟨-, herror⟩ := millimetres_stretched hz ht hy (by linarith)
    refine le_trans herror ?_
    unfold grain
    linarith
  have hlabel' := hmoved hlabel.finite (by linarith [hlabel.reach, abs_nonneg b.toRat])
  have hcontour' := hmoved hcontour.finite
    (by linarith [hcontour.reach, abs_nonneg w.toRat, abs_nonneg p.toRat])
  have hlow : |(unit : Zoom Rat).lowerSide (t.millimetres (x * z.ratioTo t)) w.toRat p.toRat -
      (unit : Zoom Rat).lowerSide (z.millimetres x) w.toRat p.toRat| ≤ 2 * grain bound := by
    rw [lowerSide_unit_sub]
    exact hcontour'
  have hhigh : |(unit : Zoom Rat).upperSide (t.millimetres (x * z.ratioTo t)) w.toRat p.toRat -
      (unit : Zoom Rat).upperSide (z.millimetres x) w.toRat p.toRat| ≤ 2 * grain bound := by
    rw [upperSide_unit_sub]
    exact hcontour'
  have hend : |t.millimetres (a * z.ratioTo t) + b.toRat - (z.millimetres a + b.toRat)| ≤
      2 * grain bound := by
    rw [add_sub_add_right_eq_sub]
    exact hlabel'
  refine (hfit.moved hlow hhigh hlabel' hend).mono ?_
  linarith

/-- The machine tests whether the label is where it should be. -/
theorem SpansSide.axisFits (hlabel : z.SpansSide bound a b)
    (hcontour : z.SpansSide (bound - |p.toRat|) x w) (hz : z.Moderate) (hp : p.isFinite = true)
    (hbound : bound ≤ 2 ^ 19)
    (hfit : AxisFit e ((unit : Zoom Rat).lowerSide (z.millimetres x) w.toRat p.toRat)
      ((unit : Zoom Rat).upperSide (z.millimetres x) w.toRat p.toRat)
      (z.millimetres a) (z.millimetres a + b.toRat))
    (he : (e + 12 * grain bound) * z.factor.toRat ≤ 1 / 1000) :
    Layout.axisFits (z.lowerSide x w p) (z.upperSide x w p) a (a + z.toWorkspace b) = true := by
  obtain ⟨hlow, hlow', hlowbound⟩ := hcontour.lowerSide_error hz hp hbound
  obtain ⟨hhigh, hhigh', hhighbound⟩ := hcontour.upperSide_error hz hp hbound
  obtain ⟨hend, hend', hendbound⟩ := hlabel.millimetres_end hz hbound
  have hstartbound : |z.millimetres a| ≤ bound := by
    linarith [hlabel.reach, abs_nonneg b.toRat]
  have hstart : |z.millimetres a - z.millimetres a| ≤ 2 * grain bound := by
    rw [sub_self, abs_zero]
    exact le_trans (abs_nonneg _) hend'
  have hgrain0 := le_trans (abs_nonneg _) hend'
  refine axisFits_of_axisFit hz hbound hlow hhigh hlabel.finite hend hlowbound hhighbound
    (by linarith) (by linarith) (hfit.moved hlow' hhigh' hstart hend') ?_
  rw [show e + 4 * grain bound + 2 * grain bound + 6 * grain bound = e + 12 * grain bound by ring]
  exact he

end Zoom

end FoamTray
