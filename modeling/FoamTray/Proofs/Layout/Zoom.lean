import FoamTray.Proofs.Layout.Validate
import FoamTray.Proofs.Numeric.Single

/-! # Zooming

    Stretching a layout changes positions and sizes, and neither what is placed nor how much.

    * `rescaleTo_frame` : what stretching leaves alone.
    * `eq_of_beq` : zooms that the machine finds equal are one zoom, since no zoom is zero.
    * `zoom_rescaleTo`, `rescaleTo_self` : so a layout of machine numbers ends up at exactly the
      zoom it is stretched to, and stays as it is if it was there before.
-/

namespace FoamTray

namespace SlotTable

variable {β : Type}

@[simp] theorem size_map (f : Key → β → β) (t : SlotTable β) : (t.map f).size = t.size := by
  unfold size
  rw [entries_map, List.length_map]

@[simp] theorem size_ofValues (vs : List β) : (ofValues vs).size = vs.length := by
  have hlength : (ofValues vs).values.length = vs.length := by rw [values_ofValues]
  rw [← hlength]
  exact (List.length_map _).symm

end SlotTable

namespace Layout

/-! ## Section 1: What stretching leaves alone -/

/-- The same numbers, the same items, as many entities of each kind, the same tray. -/
structure SameContents {α : Type} [Scalar α] (l l' : Layout α) : Prop where
  /-- The contours keep their numbers, items, factors and sizes. -/
  identities : l'.placements.contours.map Contour.identity =
    l.placements.contours.map Contour.identity
  /-- The items are those of before. -/
  items : l'.placements.items = l.placements.items
  /-- So is the next number. -/
  nextId : l'.placements.nextId = l.placements.nextId
  /-- There are as many primitives. -/
  primitives : l'.primitives.size = l.primitives.size
  /-- There are as many labels. -/
  labels : l'.labels.size = l.labels.size
  /-- The tray is the same. -/
  tray : l'.tray = l.tray
  /-- So is the foam. -/
  material : l'.material = l.material

theorem rescaleTo_frame {α : Type} [Scalar α] (l : Layout α) (z : Zoom α) :
    l.SameContents (l.rescaleTo z) := by
  unfold rescaleTo
  split
  · exact ⟨rfl, rfl, rfl, rfl, rfl, rfl, rfl⟩
  · refine ⟨?_, rfl, rfl, SlotTable.size_map _ _, SlotTable.size_map _ _, rfl, rfl⟩
    dsimp only
    rw [List.map_map]
    exact List.map_congr_left fun _ _ => rfl

end Layout

/-! ## Section 2: Zooms of machine numbers -/

namespace Zoom

/-- No zoom is zero. -/
theorem isZero_factor (z : Zoom Single) : z.factor.isZero = false := by
  by_contra hz
  rw [Bool.not_eq_false] at hz
  -- neither zero is above zero
  have hpos : ((0 : Nat) : Single) < z.factor :=
    of_decide_eq_true (Bool.and_eq_true_iff.mp z.valid).2
  rcases Single.eq_of_isZero hz with h | h
  · rw [h] at hpos
    exact absurd hpos (by decide +kernel)
  · rw [h] at hpos
    exact absurd hpos (by decide +kernel)

/-- Zooms that the machine finds equal are one zoom. -/
theorem eq_of_beq {z z' : Zoom Single} (h : (z.factor == z'.factor) = true) : z = z' := by
  have hfactor : z.factor = z'.factor := Single.eq_of_beq h z'.isZero_factor
  cases z
  cases z'
  cases hfactor
  rfl

/-- The machine finds every zoom equal to itself. -/
theorem beq_self (z : Zoom Single) : (z.factor == z.factor) = true := by
  have hfinite : z.factor.isFinite = true := (Bool.and_eq_true_iff.mp z.valid).1
  have hnumber : z.factor.isNaN = false := by
    by_contra hnan
    rw [Bool.not_eq_false, Single.isNaN_iff] at hnan
    exact (Single.isFinite_iff _).mp hfinite hnan.1
  exact (Single.beq_iff _ _).mpr (.inl ⟨rfl, hnumber⟩)

theorem isUnit_unit : (unit : Zoom Single).isUnit = true := by
  decide +kernel

end Zoom

namespace Layout

/-- A stretched layout is at the zoom it was stretched to. -/
@[simp] theorem zoom_rescaleTo (l : Layout Single) (z : Zoom Single) :
    (l.rescaleTo z).zoom = z := by
  unfold rescaleTo
  -- nothing is stretched if the machine finds the zooms equal, and then they are equal
  split
  · rename_i h
    exact (Zoom.eq_of_beq h).symm
  · rfl

/-- Stretching to the zoom of a layout does nothing. -/
@[simp] theorem rescaleTo_self (l : Layout Single) : l.rescaleTo l.zoom = l :=
  if_pos l.zoom.beq_self

theorem millimetres_of_unit {l : Layout Single} (h : l.zoom = .unit) : l.millimetres = l := by
  unfold millimetres
  rw [← h, rescaleTo_self]

/-- A layout in millimetres can be validated. -/
theorem isUnit_millimetres (l : Layout Single) : l.millimetres.zoom.isUnit = true := by
  unfold millimetres
  rw [zoom_rescaleTo]
  exact Zoom.isUnit_unit

end Layout

end FoamTray
