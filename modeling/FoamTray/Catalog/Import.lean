import FoamTray.Catalog
import FoamTray.Document.Manifest

/-! # Importing catalogs

    An item of a manifest is usable if its outline encloses an area (or, without an outline, if
    its size is positive) and its factor is positive. The others are left out of the catalog.
-/

namespace FoamTray

/-! ## Outlines -/

section Outlines

variable {α : Type} [Coordinate α]

/-- Whether two vertices are one. -/
def Point.coincides (p q : Point α) : Bool :=
  Coordinate.coincide p.x q.x && Coordinate.coincide p.y q.y

/-- An outline without a last vertex that repeats the first one exactly. -/
def withoutClosing (points : List (Point α)) : List (Point α) :=
  match points.head?, points.getLast? with
  | some first, some last =>
      if 1 < points.length && first.same last then points.dropLast else points
  | _, _ => points

/-- The vertices that do not coincide with the last one kept before them. -/
def withoutRepeats : List (Point α) → List (Point α)
  | p :: q :: rest =>
      if q.coincides p then withoutRepeats (p :: rest) else p :: withoutRepeats (q :: rest)
  | points => points
termination_by points => points.length

/-- The outline of a polygon: its closing vertex and repeated vertices are dropped. -/
def importOutline (vertices : List (α × α)) : Except (ShapeError α) (List (Point α)) :=
  let points := withoutRepeats (withoutClosing (vertices.map fun (x, y) => ⟨x, y⟩))
  if points.length < 3 then .error .fewDistinctVertices else .ok points

/-- The silhouette of an outline that is written down. -/
def ShapeRecord.silhouette (s : ShapeRecord α) : Except (ShapeError α) (Silhouette α) :=
  match s with
  | .rectangle xMin yMin width height =>
      (Rect.make xMin yMin (xMin + width) (yMin + height)).map Silhouette.ofRect
  | .polygon vertices => do
      let outline ← importOutline vertices
      Silhouette.make [outline]
  | .polygons outlines => do
      let outlines ← outlines.mapM importOutline
      Silhouette.make outlines

end Outlines

/-! ## Items -/

/-- Why an item is not usable. -/
inductive ItemError (α : Type) where
  /-- Its outline is refused. -/
  | shape (e : ShapeError α)
  /-- A side is not positive. -/
  | nonPositiveSize (id : String) (width height : α)
  /-- It has neither an outline nor both sides. -/
  | noGeometry (id : String)
  /-- Its factor is not positive. -/
  | invalidScale (id : String) (factor : α)
  deriving DecidableEq, Repr

/-- The text that explains why an item is not usable. -/
def ItemError.message : ItemError Single → String
  | .shape e => e.message
  | .nonPositiveSize id w h =>
      "item " ++ id ++ " has a non-positive size: " ++ plainText w ++ " x " ++ plainText h
  | .noGeometry id => "item " ++ id ++ " has neither a shape nor a size"
  | .invalidScale id x => "item " ++ id ++ " has an invalid scale override: " ++ plainText x

namespace ItemRecord

variable {α : Type} [Coordinate α]

/-- The silhouette of an item, if it has an outline. -/
def importSilhouette (r : ItemRecord α) : Except (ItemError α) (Option (Silhouette α)) :=
  match r.shape with
  | none => .ok none
  | some shape =>
      match shape.silhouette with
      | .ok s => .ok (some s)
      | .error e => .error (.shape e)

/-- The size of an item: that of its silhouette, else the sides that are written down. -/
def importSize (r : ItemRecord α) (silhouette : Option (Silhouette α)) :
    Except (ItemError α) (Size α) :=
  match silhouette, r.width, r.height with
  | some s, _, _ => .ok ⟨s.width, s.height⟩
  | none, some w, some h =>
      if ((0 : Nat) : α) < w ∧ ((0 : Nat) : α) < h then .ok ⟨w, h⟩
      else .error (.nonPositiveSize r.id w h)
  | none, _, _ => .error (.noGeometry r.id)

/-- The factor of an item. -/
def importScale (r : ItemRecord α) : Except (ItemError α) α :=
  let factor := r.scaleOverride.getD ((1 : Nat) : α)
  if Scalar.isFinite factor && ((0 : Nat) : α) < factor then .ok factor
  else .error (.invalidScale r.id factor)

/-- The item of the catalog, if it is usable. -/
def toItem (r : ItemRecord α) : Except (ItemError α) (CatalogItem α) := do
  let silhouette ← r.importSilhouette
  let size ← r.importSize silhouette
  let scaleOverride ← r.importScale
  return { id := r.id
           article := r.article
           name := r.name
           category := r.category
           enabled := r.enabled
           cuttingLength := r.cuttingLength
           scaleOverride := scaleOverride
           drawing := r.assets.drawing
           preview := r.assets.preview
           silhouette := silhouette
           size := size }

end ItemRecord

/-- The catalog of the usable items of a manifest. -/
def Manifest.catalog {α : Type} [Coordinate α] (m : Manifest α) : Catalog α :=
  .ofItems (m.items.filterMap fun r => r.toItem.toOption) m.categories

end FoamTray
