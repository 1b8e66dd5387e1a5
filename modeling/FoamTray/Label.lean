import FoamTray.Geometry.Rect
import FoamTray.Geometry.Zoom
import FoamTray.Settings
import FoamTray.Text.Lines

/-! # Labels

    Text engraved beside a contour. The size of a text is estimated from its longest line and its
    number of lines.
-/

namespace FoamTray

/-- A label on the workspace. -/
structure Label (α : Type) where
  /-- The contour that the label belongs to. -/
  owner : Nat
  /-- The text, of any number of lines. -/
  text : String
  /-- The upper left corner, in workspace units. -/
  position : Point α
  /-- The size of the font in millimetres. -/
  fontSize : α
  deriving DecidableEq, Repr

namespace Label

variable {α : Type} [Scalar α]

/-- The size of the text in millimetres. An empty text is one line high. -/
def size (l : Label α) (s : LabelSettings α) : Size α :=
  let lengths := (Text.lines l.text).map List.length
  let longest := lengths.foldl Nat.max 0
  let count := Nat.max lengths.length 1
  ⟨(longest : α) * l.fontSize * s.advanceRatio, (count : α) * l.fontSize * s.lineHeight⟩

/-- The bounding box on the workspace. -/
def bounds (l : Label α) (s : LabelSettings α) (z : Zoom α) : Rect α :=
  let size := l.size s
  .ofTopLeft l.position (z.toWorkspace size.width) (z.toWorkspace size.height)

/-- The label moved by `(dx, dy)`. -/
def translate (l : Label α) (dx dy : α) : Label α :=
  { l with position := l.position.translate dx dy }

/-- The label after the workspace is stretched; its font is measured in millimetres. -/
def rescale (l : Label α) (ratio : α) : Label α :=
  { l with position := l.position.rescale ratio }

end Label

end FoamTray
