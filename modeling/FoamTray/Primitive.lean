import FoamTray.Geometry.Rect
import FoamTray.Settings

/-! # Primitives

    Rectangular and circular pockets, which need no catalog. A rectangle is placed by its upper
    left corner and a circle by its centre.
-/

namespace FoamTray

/-- The two kinds of primitives. -/
inductive PrimitiveKind where
  /-- A rectangle. -/
  | rect
  /-- A circle. -/
  | circle
  deriving DecidableEq, Repr

/-- The name of a kind in a message. -/
def PrimitiveKind.text : PrimitiveKind → String
  | .rect => "Rect"
  | .circle => "Circle"

/-- A kind with its size. -/
inductive PrimitiveShape (α : Type) where
  /-- A rectangle with its sides. -/
  | rect (width height : α)
  /-- A circle with its radius. -/
  | circle (radius : α)
  deriving DecidableEq, Repr

namespace PrimitiveShape

/-- The kind of a shape. -/
def kind {α : Type} : PrimitiveShape α → PrimitiveKind
  | .rect _ _ => .rect
  | .circle _ => .circle

/-- The shape with every length multiplied. -/
def scaled {α : Type} [Scalar α] (s : PrimitiveShape α) (factor : α) : PrimitiveShape α :=
  match s with
  | .rect w h => .rect (w * factor) (h * factor)
  | .circle r => .circle (r * factor)

/-- A shape in millimetres moved into the limits. -/
def clamped {α : Type} [Scalar α] (s : PrimitiveShape α) (limits : PrimitiveLimits α) :
    PrimitiveShape α :=
  match s with
  | .rect w h =>
      .rect (Scalar.clamp w limits.rectMinWidth limits.rectMaxWidth)
        (Scalar.clamp h limits.rectMinHeight limits.rectMaxHeight)
  | .circle r => .circle (Scalar.clamp r limits.circleMinRadius limits.circleMaxRadius)

/-- Whether two shapes are of one kind and of one size, up to tolerance. -/
def almostEqual {α : Type} [Coordinate α] : PrimitiveShape α → PrimitiveShape α → Bool
  | .rect w h, .rect w' h' => Coordinate.near w w' && Coordinate.near h h'
  | .circle r, .circle r' => Coordinate.near r r'
  | _, _ => false

end PrimitiveShape

/-- A primitive on the workspace, in workspace units. -/
structure Primitive (α : Type) where
  /-- Kind and size. -/
  shape : PrimitiveShape α
  /-- Where it is placed. -/
  position : Point α
  /-- Whether the last validation found fault with it. -/
  highlighted : Bool
  deriving DecidableEq, Repr

namespace Primitive

variable {α : Type} [Scalar α]

/-- The bounding box. -/
def bounds (p : Primitive α) : Rect α :=
  match p.shape with
  | .rect w h => .ofTopLeft p.position w h
  | .circle r =>
      .ofTopLeft (p.position.translate (-r) (-r)) (((2 : Nat) : α) * r) (((2 : Nat) : α) * r)

/-- The primitive moved by `(dx, dy)`. -/
def translate (p : Primitive α) (dx dy : α) : Primitive α :=
  { p with position := p.position.translate dx dy }

/-- The primitive after the workspace is stretched. -/
def rescale (p : Primitive α) (ratio : α) : Primitive α :=
  { p with position := p.position.rescale ratio, shape := p.shape.scaled ratio }

end Primitive

end FoamTray
