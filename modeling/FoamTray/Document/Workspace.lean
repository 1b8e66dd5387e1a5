import FoamTray.Numeric.Machine

/-! # Workspace documents

    A saved layout. All positions and sizes are millimetres, seen from the upper left corner of
    the tray.
-/

namespace FoamTray

/-- The version of workspace documents. -/
def schemaVersion : Nat := 1

/-- A saved tray. -/
structure TrayRecord (α : Type) where
  /-- The extent from left to right. -/
  width : α
  /-- The extent from top to bottom. -/
  height : α
  /-- The distance from the origin of the workspace. -/
  offset : α
  deriving DecidableEq, Repr

/-- A saved contour. -/
structure ContourRecord (α : Type) where
  /-- The number of the placement. -/
  placementId : Nat
  /-- The catalog item. -/
  itemId : String
  /-- The article number of the item. -/
  article : String
  /-- The left side of the bounding box. -/
  x : α
  /-- The upper side of the bounding box. -/
  y : α
  /-- The orientation in degrees. -/
  angle : α
  /-- The factor on top of the item's size. -/
  scaleOverride : α
  deriving DecidableEq, Repr

/-- A saved primitive: a rectangle by its upper left corner, a circle by its centre. -/
inductive PrimitiveRecord (α : Type) where
  /-- A rectangle. -/
  | rect (x y width height : α)
  /-- A circle. -/
  | circle (x y radius : α)
  deriving DecidableEq, Repr

/-- A saved label. -/
structure LabelRecord (α : Type) where
  /-- The contour that the label belongs to. -/
  placementId : Nat
  /-- The text. -/
  text : String
  /-- The left side. -/
  x : α
  /-- The upper side. -/
  y : α
  /-- The size of the font. -/
  fontSize : α
  deriving DecidableEq, Repr

/-- A saved layout. -/
structure Workspace (α : Type) where
  /-- The version of the document. -/
  schemaVersion : Nat
  /-- When it was saved, if that is known. -/
  savedAt : Option String
  /-- The tray. -/
  tray : TrayRecord α
  /-- One: positions and sizes are millimetres. -/
  workspaceScale : α
  /-- The colour of the foam. -/
  material : String
  /-- The contours in the order of placing. -/
  contours : List (ContourRecord α)
  /-- The primitives in order. -/
  primitives : List (PrimitiveRecord α)
  /-- The labels in order. -/
  labels : List (LabelRecord α)
  deriving DecidableEq, Repr

namespace PrimitiveRecord

variable {α : Type} [Scalar α]

/-- The sides of the bounding box: left, upper, right, lower. -/
def extent : PrimitiveRecord α → α × α × α × α
  | .rect x y w h => (x, y, x + w, y + h)
  | .circle x y r => (x - r, y - r, x + r, y + r)

end PrimitiveRecord

end FoamTray
