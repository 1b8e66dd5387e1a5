import FoamTray.Document.Workspace
import FoamTray.Layout.Basic

/-! # Saving

    A layout as a workspace document. Positions and sizes are rounded to whole millimetres; the
    offset of the tray and the factors and fonts are kept as they are.
-/

namespace FoamTray.Layout

variable {α : Type} [Coordinate α]

/-- A length of the workspace in whole millimetres. -/
def savedLength (l : Layout α) (length : α) : α := Coordinate.round (l.zoom.toMillimetres length)

/-- A point of the workspace in whole millimetres from the corner of the tray. -/
def savedPoint (l : Layout α) (p : Point α) : Point α :=
  let d := p.sub (l.tray.origin l.zoom)
  ⟨l.savedLength d.x, l.savedLength d.y⟩

/-- A contour as it is saved. -/
def savedContour (l : Layout α) (c : Contour α) (item : CatalogItem α) : ContourRecord α :=
  let p := l.savedPoint c.position
  { placementId := c.id
    itemId := c.itemId
    article := item.article
    x := p.x
    y := p.y
    angle := c.rotation.angle
    scaleOverride := c.scaleOverride }

/-- A primitive as it is saved. -/
def savedPrimitive (l : Layout α) (p : Primitive α) : PrimitiveRecord α :=
  let at_ := l.savedPoint p.position
  match p.shape with
  | .rect w h => .rect at_.x at_.y (l.savedLength w) (l.savedLength h)
  | .circle r => .circle at_.x at_.y (l.savedLength r)

/-- A label as it is saved. -/
def savedLabel (l : Layout α) (label : Label α) : LabelRecord α :=
  let p := l.savedPoint label.position
  ⟨label.owner, label.text, p.x, p.y, label.fontSize⟩

/-- The workspace document of a layout. -/
def save (l : Layout α) : Workspace α where
  schemaVersion := FoamTray.schemaVersion
  savedAt := none
  tray := ⟨Coordinate.round l.tray.width, Coordinate.round l.tray.height, l.tray.offset⟩
  workspaceScale := ((1 : Nat) : α)
  material := l.material
  contours := l.placements.withItems.map fun (c, item) => l.savedContour c item
  primitives := l.primitives.values.map l.savedPrimitive
  labels := l.labels.values.map l.savedLabel

end FoamTray.Layout
