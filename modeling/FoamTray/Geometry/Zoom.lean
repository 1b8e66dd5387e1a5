import FoamTray.Numeric.Machine

/-! # Zoom

    The workspace shows a layout at a zoom factor: one millimetre spans `factor` workspace units.
-/

namespace FoamTray

/-- A zoom factor: positive and finite. -/
structure Zoom (α : Type) [Scalar α] where
  /-- Workspace units per millimetre. -/
  factor : α
  /-- The factor is usable. -/
  valid : (Scalar.isFinite factor && decide (((0 : Nat) : α) < factor)) = true

namespace Zoom

section Factor

variable {α : Type} [Scalar α]

/-- The zoom with a given factor, if that is positive and finite. -/
def ofFactor? (factor : α) : Option (Zoom α) :=
  if h : (Scalar.isFinite factor && decide (((0 : Nat) : α) < factor)) = true then
    some ⟨factor, h⟩
  else none

/-- The zoom at which a workspace unit is a millimetre. -/
def unit : Zoom α := ⟨((1 : Nat) : α), Scalar.one_usable⟩

/-- What workspace coordinates are multiplied with when the zoom changes to `target`. -/
def ratioTo (z target : Zoom α) : α := target.factor / z.factor

/-- A length in workspace units as millimetres. -/
def toMillimetres (z : Zoom α) (length : α) : α := length / z.factor

/-- A length in millimetres as workspace units. -/
def toWorkspace (z : Zoom α) (length : α) : α := length * z.factor

end Factor

/-- Whether a workspace unit is a millimetre, up to tolerance. -/
def isUnit {α : Type} [Coordinate α] (z : Zoom α) : Bool :=
  Coordinate.near z.factor ((1 : Nat) : α)

end Zoom

end FoamTray
