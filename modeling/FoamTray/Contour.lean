import FoamTray.Catalog
import FoamTray.Geometry.Zoom

/-! # Placed contours

    A contour of the catalog placed on the workspace. It is placed by the upper left corner of its
    bounding box and turned around the centre of it.
-/

namespace FoamTray

/-- A contour on the workspace. -/
structure Contour (α : Type) where
  /-- The number of the placement. -/
  id : Nat
  /-- The catalog item that is placed. -/
  itemId : String
  /-- The upper left corner of the bounding box, in workspace units. -/
  position : Point α
  /-- The orientation. -/
  rotation : Rotation
  /-- A factor on top of the item's own size. -/
  scaleOverride : α
  /-- The position before the last move. -/
  lastPosition : Point α
  /-- Whether the last validation found fault with it. -/
  highlighted : Bool
  /-- The size in millimetres, not turned, with the factor. -/
  footprint : Size α
  deriving DecidableEq, Repr

namespace Contour

variable {α : Type} [Scalar α]

/-- A new placement of an item. -/
def make (id : Nat) (item : CatalogItem α) (position : Point α) (rotation : Rotation)
    (scaleOverride : α) : Contour α where
  id := id
  itemId := item.id
  position := position
  rotation := rotation
  scaleOverride := scaleOverride
  lastPosition := position
  highlighted := false
  footprint := item.footprint scaleOverride

/-- The size on the workspace, turned. -/
def size (c : Contour α) (z : Zoom α) : Size α :=
  let turned : Size α :=
    if c.rotation.isSideways then ⟨c.footprint.height, c.footprint.width⟩ else c.footprint
  ⟨z.toWorkspace turned.width, z.toWorkspace turned.height⟩

/-- The bounding box on the workspace. -/
def bounds (c : Contour α) (z : Zoom α) : Rect α :=
  let size := c.size z
  .ofTopLeft c.position size.width size.height

/-- The contour moved by `(dx, dy)`. -/
def translate (c : Contour α) (dx dy : α) : Contour α :=
  { c with lastPosition := c.position, position := c.position.translate dx dy }

/-- How far the last move went, as the positions show it. -/
def lastDelta (c : Contour α) : α × α :=
  let d := c.position.sub c.lastPosition
  (d.x, d.y)

/-- The contour turned around the centre of its bounding box. -/
def rotateTo (c : Contour α) (rotation : Rotation) (z : Zoom α) : Contour α :=
  let centre := (c.bounds z).centroid
  let turned := { c with rotation := rotation }
  let size := turned.size z
  let two : α := ((2 : Nat) : α)
  { turned with position := ⟨centre.x - size.width / two, centre.y - size.height / two⟩ }

/-- The map that takes a silhouette to its place on the workspace. -/
def placement (c : Contour α) (s : Silhouette α) (z : Zoom α) : Transform α :=
  let drawn := s.bounds.centroid
  let placed := (c.bounds z).centroid
  ((((Transform.identity.translate (-drawn.x) (-drawn.y)).rotate c.rotation).scale
    (c.scaleOverride * z.factor)).translate placed.x placed.y)

/-- The contour after the workspace is stretched. -/
def rescale (c : Contour α) (ratio : α) : Contour α :=
  { c with position := c.position.rescale ratio, lastPosition := c.lastPosition.rescale ratio }

end Contour

end FoamTray
