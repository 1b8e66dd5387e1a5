import FoamTray.Numeric.Machine

/-! # Quarter turns

    A contour lies on the workspace in one of four orientations. Angles that come from outside
    are either normalised (multiples of a right angle) or snapped (anything).
-/

namespace FoamTray

/-- An orientation: a number of quarter turns, clockwise on the screen. -/
inductive Rotation where
  /-- As drawn. -/
  | deg0
  /-- A quarter turn. -/
  | deg90
  /-- Upside down. -/
  | deg180
  /-- Three quarter turns. -/
  | deg270
  deriving DecidableEq, Repr, Inhabited

namespace Rotation

/-- All orientations, in order. -/
def all : List Rotation := [.deg0, .deg90, .deg180, .deg270]

/-- The angle in degrees. -/
def degrees : Rotation → Nat
  | .deg0 => 0
  | .deg90 => 90
  | .deg180 => 180
  | .deg270 => 270

/-- A further quarter turn. -/
def next : Rotation → Rotation
  | .deg0 => .deg90
  | .deg90 => .deg180
  | .deg180 => .deg270
  | .deg270 => .deg0

/-- The orientation as text. -/
def text (r : Rotation) : String := toString r.degrees ++ "°"

/-- Whether width and height of a shape change places. -/
def isSideways : Rotation → Bool
  | .deg90 | .deg270 => true
  | .deg0 | .deg180 => false

/-- The next allowed orientation clockwise; a full turn back to the same one counts. -/
def nextAllowed (r : Rotation) (allowed : List Rotation) : Rotation :=
  ([r.next, r.next.next, r.next.next.next, r].find? (· ∈ allowed)).getD r

/-- The orientation with the smallest angle; `deg0` if there is none. -/
def lowest : List Rotation → Rotation
  | [] => .deg0
  | r :: rest => rest.foldl (fun a b => if b.degrees < a.degrees then b else a) r

section Angles

variable {α : Type} [Scalar α]

/-- The sine of the angle. -/
def sin : Rotation → α
  | .deg0 | .deg180 => ((0 : Nat) : α)
  | .deg90 => ((1 : Nat) : α)
  | .deg270 => -((1 : Nat) : α)

/-- The cosine of the angle. -/
def cos : Rotation → α
  | .deg0 => ((1 : Nat) : α)
  | .deg90 | .deg270 => ((0 : Nat) : α)
  | .deg180 => -((1 : Nat) : α)

/-- The angle in degrees as a scalar. -/
def angle (r : Rotation) : α := (r.degrees : α)

/-- The orientation at exactly this angle. -/
def ofDegrees? (angle : α) : Option Rotation :=
  all.find? fun r => r.angle == angle

end Angles

section Reduction

variable {α : Type} [Coordinate α]

/-- The orientation that a multiple of a right angle comes to: `-90` is `deg270`, `450` is
    `deg90`. Other angles have none. -/
def normalize? (angle : α) : Option Rotation :=
  if Scalar.isFinite angle && Coordinate.remainder angle ((90 : Nat) : α) == ((0 : Nat) : α) then
    ofDegrees? (Coordinate.remEuclid angle ((360 : Nat) : α))
  else none

/-- The distance of an orientation from a reduced angle around the circle. -/
def circularDistance (reduced : α) (r : Rotation) : α :=
  let d := Coordinate.abs (r.angle - reduced)
  Scalar.min d (((360 : Nat) : α) - d)

/-- The nearer of two orientations with their distances; of two equally near ones the lower. -/
def nearer (best next : Rotation × α) : Rotation × α :=
  if best.2 < next.2 ∨ (best.2 == next.2) = true ∧ best.1.degrees < next.1.degrees then best
  else next

/-- The allowed orientation nearest to an observed angle; the lower of two equally near ones.
    An angle that is not finite is taken to the lowest one, and without any allowed orientation
    the answer is `deg0`. -/
def snap (angle : α) (allowed : List Rotation) : Rotation :=
  if Scalar.isFinite angle then
    let reduced := Coordinate.remEuclid angle ((360 : Nat) : α)
    match allowed.map fun r => (r, circularDistance reduced r) with
    | [] => .deg0
    | first :: rest => (rest.foldl nearer first).1
  else lowest allowed

end Reduction

end Rotation

end FoamTray
