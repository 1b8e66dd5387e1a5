import FoamTray.Geometry.Rect
import FoamTray.Geometry.Zoom
import FoamTray.Settings

/-! # The tray

    The sheet of foam that everything is placed on. Its size is kept in millimetres; where it
    lies on the workspace follows from the zoom.
-/

namespace FoamTray

/-- A sheet of foam. Lengths are millimetres. -/
structure Tray (α : Type) where
  /-- The extent from left to right. -/
  width : α
  /-- The extent from top to bottom. -/
  height : α
  /-- The distance of the upper left corner from the origin, along both axes. -/
  offset : α
  deriving DecidableEq, Repr

namespace Tray

variable {α : Type} [Scalar α]

/-- A new tray; sides below the least size are lengthened to it. -/
def make (width height : α) (s : TraySettings α) : Tray α :=
  ⟨Scalar.max width s.minSize, Scalar.max height s.minSize, s.offset⟩

/-- The tray of the default size. -/
def default (s : TraySettings α) : Tray α := make s.defaultWidth s.defaultHeight s

/-- The tray with other sides at the same place. -/
def resize (t : Tray α) (width height : α) (s : TraySettings α) : Tray α :=
  { make width height s with offset := t.offset }

/-- The tray of a named size. -/
def ofPreset? (name : String) (s : TraySettings α) : Option (Tray α) :=
  (s.presets.find? name).map fun size => make size.width size.height s

/-- The upper left corner on the workspace. -/
def origin (t : Tray α) (z : Zoom α) : Point α :=
  let o := z.toWorkspace t.offset
  ⟨o, o⟩

/-- The tray on the workspace. -/
def rect (t : Tray α) (z : Zoom α) : Rect α :=
  .ofTopLeft (t.origin z) (z.toWorkspace t.width) (z.toWorkspace t.height)

/-- The tray on the workspace without a margin of so many millimetres. -/
def safeArea (t : Tray α) (padding : α) (z : Zoom α) : Rect α :=
  (t.rect z).inflate (-z.toWorkspace padding)

/-- The area in square metres. -/
def area (t : Tray α) : α := t.width * t.height / ((1000000 : Nat) : α)

/-- The length of the outside in metres. -/
def perimeter (t : Tray α) : α :=
  ((2 : Nat) : α) * (t.width + t.height) / ((1000 : Nat) : α)

/-- The first name of a size that is exactly the tray's. -/
def matchingPreset? (t : Tray α) (s : TraySettings α) : Option String :=
  (s.presets.entries.find? fun (_, size) => size.width == t.width && size.height == t.height).map
    (·.1)

end Tray

end FoamTray
