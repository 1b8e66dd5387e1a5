import FoamTray.Document.Workspace
import FoamTray.Layout.Edit

/-! # Restoring

    A workspace document replaces what a layout holds. A document of another version is refused
    before anything is touched. Otherwise what can be restored is restored, and the rest is
    counted in the summary:

    * a contour whose item the catalog does not have is unknown;
    * a contour whose number an earlier one has, or whose angle is no multiple of a right angle,
      is rejected;
    * a label whose contour was not restored is orphaned.
-/

namespace FoamTray

/-- What a restoration reinstated, and what it left out. -/
structure RestoreSummary where
  /-- The number of contours restored. -/
  contours : Nat
  /-- The number of primitives restored. -/
  primitives : Nat
  /-- The number of labels restored. -/
  labels : Nat
  /-- The items that the catalog does not have, one for each contour of one. -/
  unknownItems : List String
  /-- The numbers of rejected contours. -/
  rejected : List Nat
  /-- The number of labels without a contour. -/
  orphaned : Nat
  deriving DecidableEq, Repr

namespace RestoreSummary

/-- Nothing yet. -/
def empty : RestoreSummary := ⟨0, 0, 0, [], [], 0⟩

/-- Whether nothing was left out. -/
def isComplete (r : RestoreSummary) : Bool :=
  r.unknownItems.isEmpty && r.rejected.isEmpty && r.orphaned == 0

end RestoreSummary

/-- What becomes of a saved contour. -/
inductive ContourFate (α : Type) where
  /-- The catalog does not have the item. -/
  | unknownItem
  /-- An earlier contour has the number. -/
  | repeated
  /-- The angle is no orientation. -/
  | oblique
  /-- It is placed. -/
  | placed (item : CatalogItem α) (rotation : Rotation)

namespace ContourRecord

variable {α : Type} [Coordinate α]

/-- What becomes of a saved contour, after others with the numbers `seen`. -/
def fate (r : ContourRecord α) (catalog : Catalog α) (seen : List Nat) : ContourFate α :=
  match catalog.find? r.itemId with
  | none => .unknownItem
  | some item =>
      if r.placementId ∈ seen then .repeated
      else
        match Rotation.normalize? r.angle with
        | none => .oblique
        | some rotation => .placed item rotation

/-- The factor of a restored contour: that of its item if none was saved. -/
def restoredScale (r : ContourRecord α) (item : CatalogItem α) : α :=
  if ((0 : Nat) : α) < r.scaleOverride then r.scaleOverride else item.scaleOverride

end ContourRecord

namespace Layout

variable {α : Type} [Coordinate α]

/-- Restores contours, after others with the numbers `seen`. A number counts as seen once its
    item is known, whatever becomes of the contour. -/
def restoreContours (l : Layout α) (catalog : Catalog α) (seen : List Nat)
    (summary : RestoreSummary) : List (ContourRecord α) → RestoreSummary × Layout α
  | [] => (summary, l)
  | r :: rest =>
      match r.fate catalog seen with
      | .unknownItem =>
          l.restoreContours catalog seen
            { summary with unknownItems := summary.unknownItems ++ [r.itemId] } rest
      | .repeated =>
          l.restoreContours catalog seen
            { summary with rejected := summary.rejected ++ [r.placementId] } rest
      | .oblique =>
          l.restoreContours catalog (r.placementId :: seen)
            { summary with rejected := summary.rejected ++ [r.placementId] } rest
      | .placed item rotation =>
          let position := (l.tray.origin l.zoom).translate r.x r.y
          let placements := l.placements.insert r.placementId item position rotation
            (r.restoredScale item)
          ({ l with placements := placements }).restoreContours catalog (r.placementId :: seen)
            { summary with contours := summary.contours + 1 } rest

/-- Restores primitives; their sizes are moved into the limits. -/
def restorePrimitives (l : Layout α) (s : Settings α) (records : List (PrimitiveRecord α)) :
    Layout α :=
  records.foldl
    (fun l r =>
      let origin := l.tray.origin l.zoom
      match r with
      | .rect x y w h => l.insertPrimitive (.rect w h) (origin.translate x y) s
      | .circle x y radius => l.insertPrimitive (.circle radius) (origin.translate x y) s)
    l

/-- Restores labels, each moved back to its contour. -/
def restoreLabels (l : Layout α) (s : Settings α) (summary : RestoreSummary) :
    List (LabelRecord α) → Attempt α RestoreSummary
  | [] => (.ok summary, l)
  | r :: rest =>
      match l.placements.find? r.placementId with
      | none => l.restoreLabels s { summary with orphaned := summary.orphaned + 1 } rest
      | some _ =>
          let position := (l.tray.origin l.zoom).translate r.x r.y
          let k := l.labels.nextKey
          let labels := l.labels.insert ⟨r.placementId, r.text, position, r.fontSize⟩
          (({ l with labels := labels }).clampLabel k s).andThen fun _ l =>
            l.restoreLabels s { summary with labels := summary.labels + 1 } rest

/-- Replaces the contents of a layout in millimetres. -/
def replaceWith (l : Layout α) (doc : Workspace α) (catalog : Catalog α) (s : Settings α) :
    Attempt α RestoreSummary :=
  let tray := { Tray.make doc.tray.width doc.tray.height s.tray with offset := doc.tray.offset }
  let l := { l.clear with tray := tray, material := doc.material }
  let (summary, l) := l.restoreContours catalog [] .empty doc.contours
  let l := l.restorePrimitives s doc.primitives
  l.restoreLabels s { summary with primitives := doc.primitives.length } doc.labels

/-- Replaces the contents of a layout by those of a document; the zoom stays. -/
def restore (l : Layout α) (doc : Workspace α) (catalog : Catalog α) (s : Settings α) :
    Attempt α RestoreSummary :=
  if doc.schemaVersion = schemaVersion then
    l.atUnitZoom fun l => l.replaceWith doc catalog s
  else (.error (.schemaMismatch doc.schemaVersion schemaVersion), l)

end Layout

end FoamTray
