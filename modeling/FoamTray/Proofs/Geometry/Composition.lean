import FoamTray.Geometry.Transform
import Mathlib.Algebra.Ring.Rat
import Mathlib.Tactic.Ring

/-! # Composed maps

    A composed map is one matrix, whatever it was composed of. Each step is multiplied on from the
    left, and the constant of a point takes part in that product, so the steps come out in their
    order only as long as the last row of the matrix leaves the constant alone.

    * `Affine` : the last row is that of the identity; kept by every product of such matrices.
    * `Affine.apply_andThen` : a product takes a point first through one map, then through the
      other.
    * `run_spec` : steps that are added to a map, to any depth of nesting.
    * `ofCoefficients?` : the map that a backend makes of six coefficients.
    * `composed_in_order` : a composed map takes its steps one after the other.
-/

namespace FoamTray.Transform

/-! ## Section 1: Products -/

/-- The last row leaves the constant of a point as it is. -/
def Affine (t : Transform Rat) : Prop := t.rowW = ⟨0, 0, 1⟩

variable {t u : Transform Rat}

theorem affine_identity : (identity : Transform Rat).Affine := rfl

theorem affine_shift (dx dy : Rat) : (shift dx dy).Affine := rfl

theorem affine_stretching (factor : Rat) : (stretching factor).Affine := rfl

theorem affine_rotation (r : Rotation) : (rotation r : Transform Rat).Affine := rfl

theorem Affine.andThen (ht : t.Affine) (hu : u.Affine) : (t.andThen u).Affine := by
  unfold Affine at ht hu ⊢
  unfold Transform.andThen rowMul
  simp [ht, hu]

/-- A product takes a point through the first map and then through the second one. Without the
    condition on the first map, its last row would change the shift of the second. -/
theorem Affine.apply_andThen (ht : t.Affine) (u : Transform Rat) (p : Point Rat) :
    (t.andThen u).apply p = u.apply (t.apply p) := by
  unfold Affine at ht
  unfold Transform.andThen rowMul apply
  rw [ht, Point.mk.injEq]
  constructor <;> ring

theorem apply_identity (p : Point Rat) : identity.apply p = p := by
  simp [identity, apply]

theorem apply_shift (dx dy : Rat) (p : Point Rat) : (shift dx dy).apply p = p.translate dx dy := by
  simp [shift, apply, Point.translate]

theorem apply_stretching (factor : Rat) (p : Point Rat) :
    (stretching factor).apply p = p.rescale factor := by
  simp [stretching, apply, Point.rescale, mul_comm]

theorem apply_rotation (r : Rotation) (p : Point Rat) : (rotation r).apply p = turned p r := by
  cases r <;> simp [rotation, apply, turned, Rotation.sin, Rotation.cos]

/-! ## Section 2: Steps -/

/-- What is added to an affine map leaves it affine, and acts after it. -/
structure Adds (t t' : Transform Rat) (f : Point Rat → Point Rat) : Prop where
  affine : t'.Affine
  apply : ∀ p, t'.apply p = f (t.apply p)

theorem Affine.adds (ht : t.Affine) (hu : u.Affine) {f : Point Rat → Point Rat}
    (hf : ∀ p, u.apply p = f p) : t.Adds (t.andThen u) f :=
  ⟨ht.andThen hu, fun p => by rw [ht.apply_andThen, hf]⟩

mutual

/-- A step that is added acts after everything before. A composed step starts from the identity. -/
theorem step_spec (s : Step Rat) {t : Transform Rat} (ht : t.Affine) :
    t.Adds (t.step s) (stepped · s) := by
  cases s with
  | translate dx dy => exact ht.adds (affine_shift dx dy) (apply_shift dx dy)
  | scale factor => exact ht.adds (affine_stretching factor) (apply_stretching factor)
  | rotate r => exact ht.adds (affine_rotation r) (apply_rotation r)
  | compound steps =>
    have hnested := run_spec steps affine_identity
    refine ht.adds hnested.affine fun p => ?_
    rw [hnested.apply, apply_identity]
    rfl

/-- Steps that are added act after everything before, each after the one before. -/
theorem run_spec (steps : List (Step Rat)) {t : Transform Rat} (ht : t.Affine) :
    t.Adds (t.run steps) (moved · steps) := by
  cases steps with
  | nil => exact ⟨ht, fun _ => rfl⟩
  | cons s rest =>
    have hfirst := step_spec s ht
    have hrest := run_spec rest hfirst.affine
    refine ⟨hrest.affine, fun p => ?_⟩
    show ((t.step s).run rest).apply p = _
    rw [hrest.apply, hfirst.apply]
    rfl

end

/-! ## Section 3: Composed maps -/

/-- The map that a rendering backend makes of six coefficients: they stand column by column, and the
    last row is not among them. -/
def ofCoefficients? : List Rat → Option (Transform Rat)
  | [sx, ky, kx, sy, tx, ty] => some ⟨⟨sx, kx, tx⟩, ⟨ky, sy, ty⟩, ⟨0, 0, 1⟩⟩
  | _ => none

theorem Affine.ofCoefficients?_eq (ht : t.Affine) : ofCoefficients? t.coefficients = some t := by
  obtain ⟨rowX, rowY, rowW⟩ := t
  cases ht
  rfl

/-- For all steps, among them composed ones of any depth:
    - the last row of the composed map is that of the identity;
    - it takes a point where the steps take it, each after the one before;
    - what is applied after it, whatever map that is, acts on where it has taken the point;
    - its coefficients are enough for a backend to have the same map. -/
theorem composed_in_order (steps : List (Step Rat)) :
    let t := ofSteps steps
    t.rowW = ⟨0, 0, 1⟩ ∧ (∀ p, t.apply p = moved p steps) ∧
      (∀ (u : Transform Rat) (p : Point Rat), (t.andThen u).apply p = u.apply (t.apply p)) ∧
      ofCoefficients? t.coefficients = some t := by
  intro t
  have hspec := run_spec steps affine_identity
  have haffine : t.Affine := hspec.affine
  have hmoved : ∀ p, t.apply p = moved p steps := by
    intro p
    show (run identity steps).apply p = moved p steps
    rw [hspec.apply, apply_identity]
  exact ⟨haffine, hmoved, haffine.apply_andThen, haffine.ofCoefficients?_eq⟩

/-- A quarter turn and a shift, doubled, and then shifted: the order can be seen. -/
example : let steps := [.compound [.rotate .deg90, .translate 1 0], .scale 2, .translate 0 (5 : Rat)]
    (ofSteps steps).apply ⟨3, 4⟩ = ⟨-6, 11⟩ ∧ moved ⟨3, 4⟩ steps = ⟨-6, 11⟩ := by
  decide +kernel

end FoamTray.Transform
