import FoamTray.Geometry.Silhouette
import FoamTray.Settings

/-! # The catalog

    The contours that can be cut out, each with its silhouette or at least its size.
-/

namespace FoamTray

/-- A contour that the catalog offers. Lengths are millimetres. -/
structure CatalogItem (α : Type) where
  /-- The name under which the item is known to documents. -/
  id : String
  /-- The article number. -/
  article : String
  /-- The name shown to people. -/
  name : String
  /-- The category, if it has one. -/
  category : Option String
  /-- Whether the item is on offer. -/
  enabled : Bool
  /-- The length of the cut, in metres. -/
  cuttingLength : α
  /-- A factor on top of the item's own size. -/
  scaleOverride : α
  /-- The name of the drawing. -/
  drawing : String
  /-- The name of the preview picture, if there is one. -/
  preview : Option String
  /-- What is cut out, if it is known. -/
  silhouette : Option (Silhouette α)
  /-- The size before the factor. -/
  size : Size α
  deriving DecidableEq, Repr

namespace CatalogItem

variable {α : Type} [Scalar α]

/-- The size of the item, not turned, with a factor of its own. -/
def footprint (item : CatalogItem α) (scaleOverride : α) : Size α :=
  let size : Size α := match item.silhouette with
    | some s => ⟨s.width, s.height⟩
    | none => item.size
  ⟨size.width * scaleOverride, size.height * scaleOverride⟩

end CatalogItem

/-- All items by their id, and the names of the categories. -/
structure Catalog (α : Type) where
  /-- The items by id. -/
  items : Dictionary (CatalogItem α)
  /-- The names of the categories shown to people. -/
  categories : Dictionary String
  deriving DecidableEq, Repr

namespace Catalog

variable {α : Type}

/-- The catalog without items. -/
def empty : Catalog α := ⟨.empty, .empty⟩

/-- The catalog of the given items; of several with one id the last one counts. -/
def ofItems (items : List (CatalogItem α)) (categories : Dictionary String) : Catalog α :=
  ⟨.ofList (items.map fun item => (item.id, item)), categories⟩

/-- The item with an id. -/
def find? (c : Catalog α) (id : String) : Option (CatalogItem α) := c.items.find? id

/-- The items on offer, by id. -/
def enabled (c : Catalog α) : List (CatalogItem α) := c.items.values.filter (·.enabled)

end Catalog

end FoamTray
