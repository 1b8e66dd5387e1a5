import FoamTray.Contour
import FoamTray.Label
import FoamTray.Primitive
import FoamTray.Tray
import Mathlib.Algebra.Order.Field.Rat
import Mathlib.Tactic.FieldSimp
import Mathlib.Tactic.Linarith
import Mathlib.Tactic.Ring

/-! # Stretching the plane

    Over the rationals a change of the zoom from `z` to `t` multiplies every length on the
    workspace by exactly `z.ratioTo t`, and what is built from lengths goes along with it. The
    lengths that are kept in millimetres are not multiplied: they are converted at the new zoom,
    which comes to the same.

    * `Zoom.toWorkspace_mul_ratioTo` : a length converted at the one zoom and stretched is the
      length converted at the other.
    * `Rect.inflate_scale`, `Rect.shiftInto_scale` : growing and moving inside.
    * `Contour.bounds_rescale`, `Contour.rotateTo_rescale`, `Label.bounds_rescale`,
      `Primitive.bounds_rescale`, `Tray.rect_scale` : the boxes of what is on the workspace.
-/

namespace FoamTray

/-! ## Section 1: Numbers and zooms -/

namespace Scalar

/-- The smaller of two rationals. -/
theorem min_eq (a b : Rat) : Scalar.min a b = Min.min a b := by
  unfold Scalar.min isNumber
  rw [if_pos (beq_self_eq_true b)]
  split
  · rename_i h
    exact (min_eq_left h.le).symm
  · rename_i h
    exact (min_eq_right (not_lt.mp h)).symm

/-- The larger of two rationals. -/
theorem max_eq (a b : Rat) : Scalar.max a b = Max.max a b := by
  unfold Scalar.max isNumber
  rw [if_pos (beq_self_eq_true b)]
  split
  · rename_i h
    exact (max_eq_left h.le).symm
  · rename_i h
    exact (max_eq_right (not_lt.mp h)).symm

end Scalar

namespace Zoom

variable (z t u : Zoom Rat)

theorem zero_lt_factor : 0 < z.factor :=
  of_decide_eq_true (Bool.and_eq_true_iff.mp z.valid).2

theorem ratioTo_pos : 0 < z.ratioTo t := div_pos t.zero_lt_factor z.zero_lt_factor

theorem ratioTo_self : z.ratioTo z = 1 := div_self z.zero_lt_factor.ne'

theorem ratioTo_mul_ratioTo : z.ratioTo t * t.ratioTo u = z.ratioTo u :=
  div_mul_div_cancel₀' t.zero_lt_factor.ne' _ _

/-- A length converted at one zoom and stretched to another is the length converted there. -/
theorem toWorkspace_mul_ratioTo (length : Rat) :
    z.toWorkspace length * z.ratioTo t = t.toWorkspace length := by
  have hz := z.zero_lt_factor.ne'
  unfold toWorkspace ratioTo
  field_simp

/-- A stretched length is measured as before. -/
theorem toMillimetres_mul_ratioTo (length : Rat) :
    t.toMillimetres (length * z.ratioTo t) = z.toMillimetres length := by
  have hz := z.zero_lt_factor.ne'
  have ht := t.zero_lt_factor.ne'
  unfold toMillimetres ratioTo
  field_simp

variable {z t}

/-- Zooms of one factor are one zoom. -/
theorem eq_of_factor (h : z.factor = t.factor) : z = t := by
  cases z
  cases t
  cases h
  rfl

end Zoom

/-! ## Section 2: Points and rectangles -/

section Plane

variable (r : Rat)

theorem Point.rescale_one (p : Point Rat) : p.rescale 1 = p := by
  simp [Point.rescale]

theorem Point.rescale_rescale (p : Point Rat) (a b : Rat) :
    (p.rescale a).rescale b = p.rescale (a * b) := by
  simp only [Point.rescale, mul_assoc]

theorem Point.translate_rescale (p : Point Rat) (dx dy : Rat) :
    (p.rescale r).translate (dx * r) (dy * r) = (p.translate dx dy).rescale r := by
  simp only [Point.translate, Point.rescale, add_mul]

namespace Rect

theorem ofTopLeft_rescale (corner : Point Rat) (width height : Rat) :
    ofTopLeft (corner.rescale r) (width * r) (height * r) =
      (ofTopLeft corner width height).scale r := by
  simp only [ofTopLeft, Point.rescale, scale, add_mul]

theorem centroid_scale (a : Rect Rat) : (a.scale r).centroid = a.centroid.rescale r := by
  simp only [centroid, scale, Point.rescale, Point.mk.injEq]
  constructor <;> ring

variable {r}

theorem inflate_scale (hr : 0 < r) (a : Rect Rat) (d : Rat) :
    (a.scale r).inflate (d * r) = (a.inflate d).scale r := by
  unfold inflate
  dsimp only
  rw [centroid_scale]
  simp only [Scalar.min_eq, Scalar.max_eq, scale, Point.rescale, ← sub_mul, ← add_mul,
    min_mul_of_nonneg _ _ hr.le, max_mul_of_nonneg _ _ hr.le]

/-- The comparisons that decide on a shift come out the same at every zoom. -/
theorem axisShift_mul (hr : 0 < r) (low high innerLow innerHigh : Rat) :
    axisShift (low * r) (high * r) (innerLow * r) (innerHigh * r) =
      axisShift low high innerLow innerHigh * r := by
  unfold axisShift
  simp only [← sub_mul, mul_lt_mul_iff_left₀ hr]
  split
  · rfl
  · split
    · rfl
    · exact (zero_mul r).symm

theorem shiftInto_scale (hr : 0 < r) (a inner : Rect Rat) :
    (a.scale r).shiftInto (inner.scale r) =
      ((a.shiftInto inner).1 * r, (a.shiftInto inner).2 * r) := by
  unfold shiftInto
  exact Prod.ext (axisShift_mul hr _ _ _ _) (axisShift_mul hr _ _ _ _)

end Rect

end Plane

/-! ## Section 3: What is on the workspace -/

section Entities

variable (z t : Zoom Rat) (r : Rat)

namespace Contour

@[simp] theorem id_rescale (c : Contour Rat) : (c.rescale r).id = c.id := rfl

@[simp] theorem rotation_rescale (c : Contour Rat) : (c.rescale r).rotation = c.rotation := rfl

theorem rescale_one (c : Contour Rat) : c.rescale 1 = c := by
  simp [rescale, Point.rescale_one]

theorem translate_rescale (c : Contour Rat) (dx dy : Rat) :
    (c.rescale r).translate (dx * r) (dy * r) = (c.translate dx dy).rescale r := by
  unfold translate rescale
  dsimp only
  rw [Point.translate_rescale]

theorem lastDelta_rescale (c : Contour Rat) :
    (c.rescale r).lastDelta = (c.lastDelta.1 * r, c.lastDelta.2 * r) := by
  simp only [lastDelta, rescale, Point.sub, Point.rescale, sub_mul]

theorem size_ratioTo (c : Contour Rat) :
    (c.size t).width = (c.size z).width * z.ratioTo t ∧
      (c.size t).height = (c.size z).height * z.ratioTo t :=
  ⟨(z.toWorkspace_mul_ratioTo t _).symm, (z.toWorkspace_mul_ratioTo t _).symm⟩

theorem bounds_rescale (c : Contour Rat) :
    (c.rescale (z.ratioTo t)).bounds t = (c.bounds z).scale (z.ratioTo t) := by
  obtain ⟨hwidth, hheight⟩ := c.size_ratioTo z t
  unfold bounds
  dsimp only
  rw [← Rect.ofTopLeft_rescale, ← hwidth, ← hheight]
  rfl

/-- A contour is turned around the stretched centre. -/
theorem rotateTo_rescale (c : Contour Rat) (rotation : Rotation) :
    (c.rescale (z.ratioTo t)).rotateTo rotation t =
      (c.rotateTo rotation z).rescale (z.ratioTo t) := by
  obtain ⟨hwidth, hheight⟩ := ({ c with rotation := rotation } : Contour Rat).size_ratioTo z t
  have hposition : (((c.rescale (z.ratioTo t)).rotateTo rotation t).position : Point Rat) =
      (c.rotateTo rotation z).position.rescale (z.ratioTo t) := by
    unfold rotateTo
    dsimp only
    rw [bounds_rescale, Rect.centroid_scale]
    change (⟨_ - (({ c with rotation := rotation } : Contour Rat).size t).width / _,
      _ - (({ c with rotation := rotation } : Contour Rat).size t).height / _⟩ : Point Rat) = _
    rw [hwidth, hheight]
    simp only [Point.rescale, sub_mul, div_mul_eq_mul_div]
  unfold rotateTo rescale at hposition ⊢
  dsimp only at hposition ⊢
  rw [hposition]

end Contour

namespace Label

@[simp] theorem owner_rescale (label : Label Rat) : (label.rescale r).owner = label.owner := rfl

theorem rescale_one (label : Label Rat) : label.rescale 1 = label := by
  simp [rescale, Point.rescale_one]

theorem translate_rescale (label : Label Rat) (dx dy : Rat) :
    (label.rescale r).translate (dx * r) (dy * r) = (label.translate dx dy).rescale r := by
  unfold translate rescale
  dsimp only
  rw [Point.translate_rescale]

theorem bounds_rescale (label : Label Rat) (s : LabelSettings Rat) :
    (label.rescale (z.ratioTo t)).bounds s t = (label.bounds s z).scale (z.ratioTo t) := by
  unfold bounds
  dsimp only
  rw [← Rect.ofTopLeft_rescale, z.toWorkspace_mul_ratioTo, z.toWorkspace_mul_ratioTo]
  rfl

end Label

namespace PrimitiveShape

theorem scaled_one (shape : PrimitiveShape Rat) : shape.scaled 1 = shape := by
  cases shape <;> simp [scaled]

theorem scaled_scaled (shape : PrimitiveShape Rat) (a b : Rat) :
    (shape.scaled a).scaled b = shape.scaled (a * b) := by
  cases shape <;> simp only [scaled, mul_assoc]

theorem kind_scaled (shape : PrimitiveShape Rat) : (shape.scaled r).kind = shape.kind := by
  cases shape <;> rfl

/-- A size in millimetres is converted at the one zoom and stretched, or converted at the
    other. -/
theorem scaled_ratioTo (shape : PrimitiveShape Rat) :
    (shape.scaled z.factor).scaled (z.ratioTo t) = shape.scaled t.factor := by
  have h : ∀ length, length * z.factor * z.ratioTo t = length * t.factor :=
    z.toWorkspace_mul_ratioTo t
  cases shape <;> simp only [scaled, h]

end PrimitiveShape

namespace Primitive

@[simp] theorem kind_rescale (p : Primitive Rat) : (p.rescale r).shape.kind = p.shape.kind :=
  p.shape.kind_scaled r

theorem rescale_one (p : Primitive Rat) : p.rescale 1 = p := by
  simp [rescale, Point.rescale_one, PrimitiveShape.scaled_one]

theorem translate_rescale (p : Primitive Rat) (dx dy : Rat) :
    (p.rescale r).translate (dx * r) (dy * r) = (p.translate dx dy).rescale r := by
  unfold translate rescale
  dsimp only
  rw [Point.translate_rescale]

/-- The size of a primitive is kept in workspace units, so its box needs no zoom. -/
theorem bounds_rescale (p : Primitive Rat) : (p.rescale r).bounds = p.bounds.scale r := by
  obtain ⟨shape, position, highlighted⟩ := p
  cases shape with
  | rect w h => exact Rect.ofTopLeft_rescale r position w h
  | circle radius =>
    show Rect.ofTopLeft ((position.rescale r).translate (-(radius * r)) (-(radius * r)))
      (2 * (radius * r)) (2 * (radius * r)) =
      (Rect.ofTopLeft (position.translate (-radius) (-radius)) (2 * radius) (2 * radius)).scale r
    rw [← neg_mul, Point.translate_rescale, ← mul_assoc, Rect.ofTopLeft_rescale]

end Primitive

theorem Tray.rect_scale (tray : Tray Rat) :
    (tray.rect z).scale (z.ratioTo t) = tray.rect t := by
  unfold rect
  rw [← Rect.ofTopLeft_rescale, z.toWorkspace_mul_ratioTo, z.toWorkspace_mul_ratioTo]
  unfold origin Point.rescale
  dsimp only
  rw [z.toWorkspace_mul_ratioTo]

/-- The middle of the tray is where the middle of the tray was. -/
theorem Tray.centroid_rect (tray : Tray Rat) :
    (tray.rect t).centroid = (tray.rect z).centroid.rescale (z.ratioTo t) := by
  rw [← tray.rect_scale z t, Rect.centroid_scale]

/-- So is the corner of a box of some millimetres that is put in the middle. -/
theorem Tray.middle_zoom (tray : Tray Rat) (width height : Rat) :
    (tray.rect t).centroid.translate (-t.toWorkspace width / ((2 : Nat) : Rat))
        (-t.toWorkspace height / ((2 : Nat) : Rat)) =
      ((tray.rect z).centroid.translate (-z.toWorkspace width / ((2 : Nat) : Rat))
        (-z.toWorkspace height / ((2 : Nat) : Rat))).rescale (z.ratioTo t) := by
  rw [tray.centroid_rect z t, ← Point.translate_rescale, ← z.toWorkspace_mul_ratioTo t,
    ← z.toWorkspace_mul_ratioTo t, ← neg_mul, ← neg_mul, mul_div_right_comm, mul_div_right_comm]

end Entities

end FoamTray
