import FoamTray.Dictionary
import FoamTray.Numeric.Machine

/-! # Catalog manifests

    The catalog as it is written down. Not everything in a manifest is a usable item;
    `FoamTray.Catalog.Import` tells which are.
-/

namespace FoamTray

/-- The outline of an item as it is written down, in millimetres. -/
inductive ShapeRecord (α : Type) where
  /-- A rectangle. -/
  | rectangle (xMin yMin width height : α)
  /-- One closed outline. -/
  | polygon (vertices : List (α × α))
  /-- Several closed outlines; holes wind the other way. -/
  | polygons (outlines : List (List (α × α)))
  deriving DecidableEq, Repr

/-- The files of an item. -/
structure AssetsRecord where
  /-- The drawing. -/
  drawing : String
  /-- The preview picture. -/
  preview : Option String
  deriving DecidableEq, Repr

/-- An item as it is written down. -/
structure ItemRecord (α : Type) where
  /-- The name under which the item is known to documents. -/
  id : String
  /-- The article number. -/
  article : String
  /-- The name shown to people. -/
  name : String
  /-- The category. -/
  category : Option String
  /-- Whether the item is on offer. -/
  enabled : Bool
  /-- The length of the cut in metres. -/
  cuttingLength : α
  /-- A factor on top of the item's own size; one if it is not given. -/
  scaleOverride : Option α
  /-- The files. -/
  assets : AssetsRecord
  /-- The outline. -/
  shape : Option (ShapeRecord α)
  /-- The width of an item without an outline. -/
  width : Option α
  /-- The height of an item without an outline. -/
  height : Option α
  deriving DecidableEq, Repr

/-- A catalog as it is written down. -/
structure Manifest (α : Type) where
  /-- The items. -/
  items : List (ItemRecord α)
  /-- The names of the categories shown to people. -/
  categories : Dictionary String
  deriving DecidableEq, Repr

/-- The manifest without items. -/
def Manifest.empty {α : Type} : Manifest α := ⟨[], .empty⟩

end FoamTray
