import FoamTray.Numeric.Machine

/-! # Points and rectangles

    The workspace is a plane whose `y` axis points down, as on a screen. Rectangles have sides
    parallel to the axes.
-/

namespace FoamTray

/-! ## Points -/

/-- A point of the plane. -/
structure Point (α : Type) where
  /-- Distance to the right of the origin. -/
  x : α
  /-- Distance below the origin. -/
  y : α
  deriving DecidableEq, Repr

namespace Point

variable {α : Type} [Scalar α]

/-- The point moved by `(dx, dy)`. -/
def translate (p : Point α) (dx dy : α) : Point α :=
  ⟨p.x + dx, p.y + dy⟩

/-- The sum of two points, by coordinates. -/
def add (p q : Point α) : Point α :=
  ⟨p.x + q.x, p.y + q.y⟩

/-- The difference of two points, by coordinates. -/
def sub (p q : Point α) : Point α :=
  ⟨p.x - q.x, p.y - q.y⟩

/-- The point after the plane is stretched from the origin. -/
def rescale (p : Point α) (ratio : α) : Point α :=
  ⟨p.x * ratio, p.y * ratio⟩

/-- The square of the distance of two points. -/
def squaredDistance (p q : Point α) : α :=
  (p.x - q.x) * (p.x - q.x) + (p.y - q.y) * (p.y - q.y)

/-- Equality of coordinates as numbers. -/
def same (p q : Point α) : Bool :=
  p.x == q.x && p.y == q.y

/-- Both coordinates are finite. -/
def isFinite (p : Point α) : Bool :=
  Scalar.isFinite p.x && Scalar.isFinite p.y

/-- The distance of two points. -/
def distance (p q : Point Single) : Single :=
  (p.squaredDistance q).sqrt

end Point

/-! ## Shapes that cannot be -/

/-- Why a description of a shape is refused. -/
inductive ShapeError (α : Type) where
  /-- A rectangle whose corners are not in order. -/
  | invertedRect (xMin yMin xMax yMax : α)
  /-- A silhouette without any outline. -/
  | noOutline
  /-- A silhouette with an outline of less than three points. -/
  | shortOutline
  /-- A silhouette with a coordinate that is not finite. -/
  | notFinite
  /-- A silhouette whose bounding box has no area. -/
  | degenerateBounds (xMin yMin xMax yMax : α)
  /-- A polygon that has less than three vertices once repeated ones are merged. -/
  | fewDistinctVertices
  deriving DecidableEq, Repr

/-- The text that explains a refused shape. -/
def ShapeError.message : ShapeError Single → String
  | .invertedRect x₀ y₀ x₁ y₁ =>
      "invalid rectangle, x_min: " ++ plainText x₀ ++ ", x_max: " ++ plainText x₁ ++
        ", y_min: " ++ plainText y₀ ++ ", y_max: " ++ plainText y₁
  | .noOutline => "silhouette needs at least one outline"
  | .shortOutline => "every outline needs at least three points"
  | .notFinite => "silhouette contains non-finite coordinates"
  | .degenerateBounds x₀ y₀ x₁ y₁ =>
      "silhouette has a degenerate bounding box: Rect \x7b x_min: " ++ inspectionText x₀ ++
        ", y_min: " ++ inspectionText y₀ ++ ", x_max: " ++ inspectionText x₁ ++
        ", y_max: " ++ inspectionText y₁ ++ " \x7d"
  | .fewDistinctVertices => "outline has fewer than three distinct vertices"

/-! ## Rectangles -/

/-- A rectangle, given by its sides. -/
structure Rect (α : Type) where
  /-- The left side. -/
  xMin : α
  /-- The upper side. -/
  yMin : α
  /-- The right side. -/
  xMax : α
  /-- The lower side. -/
  yMax : α
  deriving DecidableEq, Repr

namespace Rect

section Plane

variable {α : Type} [Scalar α]

/-- The rectangle with the given sides, if it has an inside. -/
def make (xMin yMin xMax yMax : α) : Except (ShapeError α) (Rect α) :=
  if xMin < xMax ∧ yMin < yMax then .ok ⟨xMin, yMin, xMax, yMax⟩
  else .error (.invertedRect xMin yMin xMax yMax)

/-- The rectangle with the given upper left corner and size. -/
def ofTopLeft (corner : Point α) (width height : α) : Rect α :=
  ⟨corner.x, corner.y, corner.x + width, corner.y + height⟩

/-- The upper left corner. -/
def topLeft (r : Rect α) : Point α := ⟨r.xMin, r.yMin⟩

/-- The extent from left to right. -/
def width (r : Rect α) : α := r.xMax - r.xMin

/-- The extent from top to bottom. -/
def height (r : Rect α) : α := r.yMax - r.yMin

/-- The point half way between the sides. -/
def centroid (r : Rect α) : Point α :=
  ⟨(r.xMin + r.xMax) / ((2 : Nat) : α), (r.yMin + r.yMax) / ((2 : Nat) : α)⟩

/-- Width times height. -/
def area (r : Rect α) : α := r.width * r.height

/-- The rectangle moved by `(dx, dy)`. -/
def translate (r : Rect α) (dx dy : α) : Rect α :=
  ⟨r.xMin + dx, r.yMin + dy, r.xMax + dx, r.yMax + dy⟩

/-- The rectangle grown by `d` on every side. A negative `d` shrinks it, at most down to its
    centroid. -/
def inflate (r : Rect α) (d : α) : Rect α :=
  let c := r.centroid
  ⟨Scalar.min (r.xMin - d) c.x, Scalar.min (r.yMin - d) c.y,
    Scalar.max (r.xMax + d) c.x, Scalar.max (r.yMax + d) c.y⟩

/-- The rectangle after the plane is stretched from the origin. -/
def scale (r : Rect α) (factor : α) : Rect α :=
  ⟨r.xMin * factor, r.yMin * factor, r.xMax * factor, r.yMax * factor⟩

/-- The common part of two rectangles, if it has an inside: rectangles that only touch have
    none. -/
def intersection (a b : Rect α) : Option (Rect α) :=
  let xMin := Scalar.max a.xMin b.xMin
  let yMin := Scalar.max a.yMin b.yMin
  let xMax := Scalar.min a.xMax b.xMax
  let yMax := Scalar.min a.yMax b.yMax
  if xMin < xMax ∧ yMin < yMax then some ⟨xMin, yMin, xMax, yMax⟩ else none

/-- The least rectangle that contains two rectangles. -/
def bounding (a b : Rect α) : Rect α :=
  ⟨Scalar.min a.xMin b.xMin, Scalar.min a.yMin b.yMin,
    Scalar.max a.xMax b.xMax, Scalar.max a.yMax b.yMax⟩

/-- Whether two rectangles have a point in common; touching counts. -/
def collides (a b : Rect α) : Bool :=
  Scalar.max a.xMin b.xMin ≤ Scalar.min a.xMax b.xMax &&
    Scalar.max a.yMin b.yMin ≤ Scalar.min a.yMax b.yMax

/-- Whether a point lies in the rectangle; the sides belong to it. -/
def collidesPoint (r : Rect α) (p : Point α) : Bool :=
  r.xMin ≤ p.x && p.x ≤ r.xMax && r.yMin ≤ p.y && p.y ≤ r.yMax

/-- How far an interval has to move to lie inside `[low, high]`. One that is too long, or that
    begins too early, is moved to begin at `low`. -/
def axisShift (low high innerLow innerHigh : α) : α :=
  if high - low < innerHigh - innerLow ∨ innerLow < low then low - innerLow
  else if high < innerHigh then high - innerHigh
  else ((0 : Nat) : α)

/-- The shift `(dx, dy)` that moves `inner` into the rectangle. An inner rectangle that is too
    wide (too high) is aligned with the left (upper) side. -/
def shiftInto (r inner : Rect α) : α × α :=
  (axisShift r.xMin r.xMax inner.xMin inner.xMax, axisShift r.yMin r.yMax inner.yMin inner.yMax)

end Plane

section Tolerance

variable {α : Type} [Coordinate α]

/-- Whether `other` lies inside the rectangle, sides included, up to tolerance. -/
def almostContains (r other : Rect α) : Bool :=
  Coordinate.atMost r.xMin other.xMin && Coordinate.atMost r.yMin other.yMin &&
    Coordinate.atMost other.xMax r.xMax && Coordinate.atMost other.yMax r.yMax

/-- Whether two rectangles have a point in common, up to tolerance. -/
def almostCollides (a b : Rect α) : Bool :=
  Coordinate.atMost (Scalar.max a.xMin b.xMin) (Scalar.min a.xMax b.xMax) &&
    Coordinate.atMost (Scalar.max a.yMin b.yMin) (Scalar.min a.yMax b.yMax)

end Tolerance

end Rect

end FoamTray
