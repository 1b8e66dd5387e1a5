import FoamTray.Contour
import FoamTray.Label
import FoamTray.Primitive
import FoamTray.SlotTable
import FoamTray.Tray

/-! # Layouts

    A layout is the arrangement of contours, primitives and labels on a tray. Positions and sizes
    are kept in workspace units at the layout's zoom.

    * `Placements` : the contours in the order of placing, with the catalog item of each.
    * `Layout` : everything that is placed, the tray and the zoom.
    * `LayoutError` : why an edit or a check is refused.
    * `Attempt` : an edit that may fail, with the layout that it leaves behind either way.
-/

namespace FoamTray

/-! ## Contours that are placed -/

/-- The contours of a layout. -/
structure Placements (α : Type) where
  /-- The contours in the order of placing. -/
  contours : List (Contour α)
  /-- The catalog item of each placement, by its number. -/
  items : List (Nat × CatalogItem α)
  /-- The number that the next placement gets. The program counts with 64 bits: as long as no
      placement has the number `2 ^ 64 - 1`, its counter and this one agree. -/
  nextId : Nat
  /-- The contour placed last, while it is there. -/
  active : Option Nat
  deriving DecidableEq, Repr

namespace Placements

variable {α : Type}

/-- No contours, and numbers from zero. -/
def empty : Placements α := ⟨[], [], 0, none⟩

/-- The contour of a number. -/
def find? (p : Placements α) (id : Nat) : Option (Contour α) := p.contours.find? (·.id == id)

/-- The catalog item of a number. -/
def item? (p : Placements α) (id : Nat) : Option (CatalogItem α) :=
  (p.items.find? (·.1 == id)).map (·.2)

/-- The contours with their catalog items, in the order of placing. -/
def withItems (p : Placements α) : List (Contour α × CatalogItem α) :=
  p.contours.filterMap fun c => (p.item? c.id).map (c, ·)

/-- The contours with one of them replaced by a function of itself. -/
def update (p : Placements α) (id : Nat) (f : Contour α → Contour α) : Placements α :=
  { p with contours := p.contours.map fun c => if c.id = id then f c else c }

/-- The contours with a further one. Numbers that were given out are never given out again: the
    next one stays above all of them. With 64 bits there is none above `2 ^ 64 - 1`, and a program
    that counts with them overflows on that number. -/
def insert [Scalar α] (p : Placements α) (id : Nat) (item : CatalogItem α) (position : Point α)
    (rotation : Rotation) (scaleOverride : α) : Placements α where
  contours := p.contours ++ [.make id item position rotation scaleOverride]
  items := p.items.filter (·.1 ≠ id) ++ [(id, item)]
  nextId := Nat.max p.nextId (id + 1)
  active := some id

/-- The contours with an item placed anew: it gets the next number, is not turned and has the
    item's own factor. -/
def place [Scalar α] (p : Placements α) (item : CatalogItem α) (position : Point α) :
    Placements α :=
  p.insert p.nextId item position .deg0 item.scaleOverride

/-- The contours without one of them. -/
def erase (p : Placements α) (id : Nat) : Placements α where
  contours := p.contours.filter (·.id ≠ id)
  items := p.items.filter (·.1 ≠ id)
  nextId := p.nextId
  active := if p.active = some id then none else p.active

/-- No contours; the next number is kept. -/
def clear (p : Placements α) : Placements α := { empty with nextId := p.nextId }

/-- The length of all cuts in metres. -/
def cuttingLength [Scalar α] (p : Placements α) : α :=
  p.items.foldl (fun sum (_, item) => sum + item.cuttingLength) (-((0 : Nat) : α))

@[simp] theorem nextId_clear (p : Placements α) : p.clear.nextId = p.nextId := rfl

@[simp] theorem nextId_erase (p : Placements α) (id : Nat) : (p.erase id).nextId = p.nextId := rfl

@[simp] theorem nextId_update (p : Placements α) (id : Nat) (f : Contour α → Contour α) :
    (p.update id f).nextId = p.nextId := rfl

theorem le_nextId_insert [Scalar α] (p : Placements α) (id : Nat) (item : CatalogItem α)
    (position : Point α) (rotation : Rotation) (scaleOverride : α) :
    p.nextId ≤ (p.insert id item position rotation scaleOverride).nextId :=
  Nat.le_max_left _ _

end Placements

/-! ## Layouts -/

/-- The arrangement on a tray. -/
structure Layout (α : Type) [Scalar α] where
  /-- The tray. -/
  tray : Tray α
  /-- The contours. -/
  placements : Placements α
  /-- The primitives. -/
  primitives : SlotTable (Primitive α)
  /-- The labels. -/
  labels : SlotTable (Label α)
  /-- The zoom that positions and sizes are at. -/
  zoom : Zoom α
  /-- The colour of the foam. -/
  material : String

namespace Layout

variable {α : Type} [Scalar α]

/-- An empty layout on a tray. -/
def make (tray : Tray α) : Layout α where
  tray := tray
  placements := .empty
  primitives := .empty
  labels := .empty
  zoom := .unit
  material := "black"

/-- Whether nothing is cut out. -/
def isEmpty (l : Layout α) : Bool := l.placements.contours.isEmpty && l.primitives.entries.isEmpty

/-- The layout without contours, primitives and labels. Numbers of placements are not given out
    again, keys of primitives and labels are. -/
def clear (l : Layout α) : Layout α :=
  { l with placements := l.placements.clear, primitives := .empty, labels := .empty }

/-- The bounding box of a contour. -/
def contourBounds? (l : Layout α) (id : Nat) : Option (Rect α) :=
  (l.placements.find? id).map (·.bounds l.zoom)

/-- Where the labels of a contour may be: its bounding box grown by the label padding. -/
def labelArea? (l : Layout α) (id : Nat) (s : Settings α) : Option (Rect α) :=
  (l.contourBounds? id).map (·.inflate (l.zoom.toWorkspace s.labelPadding))

/-- The label of a contour in the first slot, with its key. -/
def labelOf? (l : Layout α) (id : Nat) : Option (Key × Label α) :=
  l.labels.entries.find? (·.2.owner == id)

end Layout

/-! ## What can go wrong -/

/-- How many entities break each of the rules. -/
structure LayoutIssues where
  /-- Contours that reach out of the safe area. -/
  outOfBoundsContours : Nat
  /-- Contours too close to another one. -/
  collisionContours : Nat
  /-- Primitives that reach out of the safe area. -/
  outOfBoundsPrimitives : Nat
  deriving DecidableEq, Repr

namespace LayoutIssues

/-- Whether no rule is broken. -/
def isEmpty (i : LayoutIssues) : Bool :=
  i.outOfBoundsContours == 0 && i.collisionContours == 0 && i.outOfBoundsPrimitives == 0

/-- What a person is told, one line for each broken rule. -/
def message (i : LayoutIssues) : String :=
  let bounds := if 0 < i.outOfBoundsContours + i.outOfBoundsPrimitives then
    ["An element is outside the layment bounds"] else []
  let gaps := if 0 < i.collisionContours then ["Tools are too close to each other"] else []
  match bounds ++ gaps with
  | [] => "Layout is valid and ready to be ordered"
  | lines => "\n".intercalate lines

end LayoutIssues

/-- Why an edit, a check or a document is refused. -/
inductive LayoutError (α : Type) where
  /-- The catalog has no such item. -/
  | itemNotFound (id : String)
  /-- No contour has this number. -/
  | unknownContour (id : Nat)
  /-- The key of a primitive is dead. -/
  | unknownPrimitive
  /-- The key of a label is dead. -/
  | unknownLabel
  /-- A workspace unit is not a millimetre. -/
  | zoomNotUnit (factor : α)
  /-- The zoom is outside of the bounds. -/
  | zoomOutOfRange (factor min max : α)
  /-- The document is of another version. -/
  | schemaMismatch (found expected : Nat)
  /-- The layout breaks rules. -/
  | notProducible (issues : LayoutIssues)
  /-- The angle is no multiple of a right angle. -/
  | unsupportedAngle (angle : α)
  /-- No size has this name. -/
  | unknownPreset (name : String)
  /-- A primitive cannot become one of the other kind. -/
  | kindMismatch (current wanted : PrimitiveKind)
  deriving DecidableEq, Repr

/-- A zoom factor as a whole percentage. -/
def percentText (factor : Single) : String :=
  (BinaryValue.ofSingle (factor * ((100 : Nat) : Single))).renderWhole ++ "%"

/-- The text that explains an error. -/
def LayoutError.message : LayoutError Single → String
  | .itemNotFound id => "catalog item `" ++ id ++ "` not found"
  | .unknownContour id => "no contour placed with id #" ++ toString id
  | .unknownPrimitive => "primitive no longer exists"
  | .unknownLabel => "label no longer exists"
  | .zoomNotUnit factor =>
      "cannot validate at workspace scale " ++ percentText factor ++
        ", the layout must be at 100%"
  | .zoomOutOfRange factor min max =>
      "workspace scale " ++ plainText factor ++ " outside of allowed range [" ++ plainText min ++
        ", " ++ plainText max ++ "]"
  | .schemaMismatch found expected =>
      "workspace schema version " ++ toString found ++ " is not supported (expected " ++
        toString expected ++ ")"
  | .notProducible issues => "layout is not producible: " ++ issues.message
  | .unsupportedAngle angle => "unsupported rotation angle: " ++ plainText angle
  | .unknownPreset name => "unknown layment preset `" ++ name ++ "`"
  | .kindMismatch current wanted =>
      "invalid shape: cannot resize a " ++ current.text ++ " primitive into a " ++ wanted.text

/-- The orientation that an angle comes to. -/
def Rotation.ofAngle {α : Type} [Coordinate α] (angle : α) : Except (LayoutError α) Rotation :=
  match normalize? angle with
  | some r => .ok r
  | none => .error (.unsupportedAngle angle)

/-- The outcome of an edit that may fail, and the layout that it leaves behind either way. -/
abbrev Attempt (α : Type) [Scalar α] (β : Type) := Except (LayoutError α) β × Layout α

namespace Attempt

variable {α β γ : Type} [Scalar α]

/-- Goes on with the outcome and the layout if the attempt succeeded. -/
def andThen (a : Attempt α β) (f : β → Layout α → Attempt α γ) : Attempt α γ :=
  match a with
  | (.ok b, l) => f b l
  | (.error e, l) => (.error e, l)

@[simp] theorem andThen_ok (b : β) (l : Layout α) (f : β → Layout α → Attempt α γ) :
    andThen (.ok b, l) f = f b l := rfl

@[simp] theorem andThen_error (e : LayoutError α) (l : Layout α) (f : β → Layout α → Attempt α γ) :
    andThen (.error e, l) f = (.error e, l) := rfl

end Attempt

end FoamTray
