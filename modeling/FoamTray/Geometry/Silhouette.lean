import FoamTray.Geometry.Transform

/-! # Silhouettes

    The shape that is cut out of the foam: closed outlines, filled wherever they wind around a
    point a number of times other than zero. A hole is an outline that winds the other way.

    A silhouette keeps its bounding box beside the outlines; `Silhouette.make` and
    `Silhouette.transform` compute it anew.
-/

namespace FoamTray

/-- The smaller and the larger end of a nonempty list of coordinates. -/
def extent {α : Type} [Coordinate α] : List α → α × α
  | [] => (((0 : Nat) : α), ((0 : Nat) : α))
  | v :: rest =>
      rest.foldl
        (fun (low, high) x =>
          (if Coordinate.precedes x low then x else low,
            if Coordinate.precedes high x then x else high))
        (v, v)

/-- The least rectangle around points. -/
def boundsOf {α : Type} [Coordinate α] (points : List (Point α)) : Rect α :=
  let (xMin, xMax) := extent (points.map (·.x))
  let (yMin, yMax) := extent (points.map (·.y))
  ⟨xMin, yMin, xMax, yMax⟩

/-! ## Silhouettes -/

/-- Closed outlines with their bounding box. -/
structure Silhouette (α : Type) where
  /-- The vertices of each outline, in order. -/
  outlines : List (List (Point α))
  /-- The bounding box of all vertices. -/
  bounds : Rect α
  deriving DecidableEq, Repr

namespace Silhouette

section Rectangular

variable {α : Type} [Scalar α]

/-- The silhouette of a rectangle. -/
def ofRect (r : Rect α) : Silhouette α :=
  ⟨[[⟨r.xMin, r.yMin⟩, ⟨r.xMax, r.yMin⟩, ⟨r.xMax, r.yMax⟩, ⟨r.xMin, r.yMax⟩]], r⟩

/-- The width of the bounding box. -/
def width (s : Silhouette α) : α := s.bounds.width

/-- The height of the bounding box. -/
def height (s : Silhouette α) : α := s.bounds.height

end Rectangular

variable {α : Type} [Coordinate α]

/-- The silhouette with the given outlines, if they enclose an area. -/
def make (outlines : List (List (Point α))) : Except (ShapeError α) (Silhouette α) :=
  let bounds := boundsOf outlines.flatten
  if outlines.isEmpty then .error .noOutline
  else if outlines.any (·.length < 3) then .error .shortOutline
  else if !outlines.flatten.all (·.isFinite) then .error .notFinite
  else if ((0 : Nat) : α) < bounds.width ∧ ((0 : Nat) : α) < bounds.height then
    .ok ⟨outlines, bounds⟩
  else .error (.degenerateBounds bounds.xMin bounds.yMin bounds.xMax bounds.yMax)

/-- The silhouette after an affine map. -/
def transform (s : Silhouette α) (t : Transform α) : Silhouette α :=
  let outlines := s.outlines.map (·.map t.apply)
  ⟨outlines, boundsOf outlines.flatten⟩

end Silhouette

end FoamTray
