import FoamTray.Geometry.Rect
import FoamTray.Geometry.Rotation

/-! # Affine maps

    An affine map of the plane, composed of shifts, stretchings from the origin and quarter
    turns, held as a matrix that acts on `(x, y, 1)`. Each step is multiplied on from the left, so
    steps act in the order in which they are written.
-/

namespace FoamTray

/-- A row of three entries. -/
structure Row (α : Type) where
  /-- The entry that meets `x`. -/
  x : α
  /-- The entry that meets `y`. -/
  y : α
  /-- The entry that meets the constant. -/
  w : α
  deriving DecidableEq, Repr

/-- An affine map as a matrix of three rows. -/
structure Transform (α : Type) where
  /-- The row that gives the new `x`. -/
  rowX : Row α
  /-- The row that gives the new `y`. -/
  rowY : Row α
  /-- The row of the constant. -/
  rowW : Row α
  deriving DecidableEq, Repr

namespace Transform

variable {α : Type} [Scalar α]

/-- The map that moves nothing. -/
def identity : Transform α :=
  let zero := ((0 : Nat) : α)
  let one := ((1 : Nat) : α)
  ⟨⟨one, zero, zero⟩, ⟨zero, one, zero⟩, ⟨zero, zero, one⟩⟩

/-- The matrix of a shift. -/
def shift (dx dy : α) : Transform α :=
  let zero := ((0 : Nat) : α)
  let one := ((1 : Nat) : α)
  ⟨⟨one, zero, dx⟩, ⟨zero, one, dy⟩, ⟨zero, zero, one⟩⟩

/-- The matrix of a stretching from the origin. -/
def stretching (factor : α) : Transform α :=
  let zero := ((0 : Nat) : α)
  ⟨⟨factor, zero, zero⟩, ⟨zero, factor, zero⟩, ⟨zero, zero, ((1 : Nat) : α)⟩⟩

/-- The matrix of a rotation around the origin, clockwise on the screen. -/
def rotation (r : Rotation) : Transform α :=
  let zero := ((0 : Nat) : α)
  ⟨⟨r.cos, -r.sin, zero⟩, ⟨r.sin, r.cos, zero⟩, ⟨zero, zero, ((1 : Nat) : α)⟩⟩

/-- A row times a matrix. -/
def rowMul (l : Row α) (m : Transform α) : Row α :=
  ⟨l.x * m.rowX.x + l.y * m.rowY.x + l.w * m.rowW.x,
    l.x * m.rowX.y + l.y * m.rowY.y + l.w * m.rowW.y,
    l.x * m.rowX.w + l.y * m.rowY.w + l.w * m.rowW.w⟩

/-- The map that applies `other` after `t`. -/
def andThen (t other : Transform α) : Transform α :=
  ⟨rowMul other.rowX t, rowMul other.rowY t, rowMul other.rowW t⟩

/-- The map followed by a shift. -/
def translate (t : Transform α) (dx dy : α) : Transform α := t.andThen (shift dx dy)

/-- The map followed by a stretching from the origin. -/
def scale (t : Transform α) (factor : α) : Transform α := t.andThen (stretching factor)

/-- The map followed by a rotation around the origin. -/
def rotate (t : Transform α) (r : Rotation) : Transform α := t.andThen (rotation r)

/-- Where the map takes a point. -/
def apply (t : Transform α) (p : Point α) : Point α :=
  ⟨t.rowX.x * p.x + t.rowX.y * p.y + t.rowX.w, t.rowY.x * p.x + t.rowY.y * p.y + t.rowY.w⟩

/-- The rows one after the other. -/
def entries (t : Transform α) : List (List α) :=
  [t.rowX, t.rowY, t.rowW].map fun r => [r.x, r.y, r.w]

/-- Whether the matrix is that of the identity, entries compared as numbers. -/
def isIdentity (t : Transform α) : Bool := t.entries == (identity : Transform α).entries

/-- The six coefficients `(sx, ky, kx, sy, tx, ty)` in which rendering backends take a map. -/
def coefficients (t : Transform α) : List α :=
  [t.rowX.x, t.rowY.x, t.rowX.y, t.rowY.y, t.rowX.w, t.rowY.w]

/-- One step of a composed map; a step may itself be composed. -/
inductive Step (α : Type) where
  /-- Move by `(dx, dy)`. -/
  | translate (dx dy : α)
  /-- Stretch from the origin. -/
  | scale (factor : α)
  /-- Turn around the origin. -/
  | rotate (r : Rotation)
  /-- Apply a composed map. -/
  | compound (steps : List (Step α))

mutual

/-- The map followed by one step. -/
def step (t : Transform α) : Step α → Transform α
  | .translate dx dy => t.translate dx dy
  | .scale factor => t.scale factor
  | .rotate r => t.rotate r
  | .compound steps => t.andThen (run identity steps)

/-- The map followed by steps, each after the one before. -/
def run (t : Transform α) : List (Step α) → Transform α
  | [] => t
  | s :: rest => run (step t s) rest

end

/-- The map composed of steps. -/
def ofSteps (steps : List (Step α)) : Transform α := run identity steps

/-! ## Steps without a matrix -/

/-- Where a quarter turn takes a point. -/
def turned (p : Point α) : Rotation → Point α
  | .deg0 => p
  | .deg90 => ⟨-p.y, p.x⟩
  | .deg180 => ⟨-p.x, -p.y⟩
  | .deg270 => ⟨p.y, -p.x⟩

mutual

/-- Where one step takes a point. -/
def stepped (p : Point α) : Step α → Point α
  | .translate dx dy => p.translate dx dy
  | .scale factor => p.rescale factor
  | .rotate r => turned p r
  | .compound steps => moved p steps

/-- Where steps take a point, each after the one before. -/
def moved (p : Point α) : List (Step α) → Point α
  | [] => p
  | s :: rest => moved (stepped p s) rest

end

end Transform

end FoamTray
