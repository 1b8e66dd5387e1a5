import FoamTray.Layout.Edit

/-! # Commands

    The edits of a person, as values. `Layout.apply` is the only way in which an interactive edit
    reaches a layout.
-/

namespace FoamTray

/-- An entity of a layout. -/
inductive Target where
  /-- A contour, by its number. -/
  | contour (id : Nat)
  /-- A primitive, by its key. -/
  | primitive (key : Key)
  /-- A label, by its key. -/
  | label (key : Key)
  deriving DecidableEq, Repr

/-- What can be done to a kind of entity. -/
structure Capabilities where
  /-- It can be moved. -/
  movable : Bool
  /-- It can be turned. -/
  rotatable : Bool
  /-- It can be resized. -/
  resizable : Bool
  /-- It can be deleted. -/
  deletable : Bool
  /-- Labels can be attached to it. -/
  labelable : Bool
  deriving DecidableEq, Repr

/-- What can be done to an entity. -/
def Target.capabilities : Target → Capabilities
  | .contour _ => ⟨true, true, false, true, true⟩
  | .primitive _ => ⟨true, false, true, true, false⟩
  | .label _ => ⟨true, false, false, true, false⟩

/-- An edit. Positions, moves and wished sizes are in workspace units, sizes of new primitives and
    offsets of new labels in millimetres. -/
inductive Command (α : Type) where
  /-- Place an item of the catalog, in the middle of the tray without a position. -/
  | place (itemId : String) (position : Option (Point α))
  /-- Move an entity. -/
  | move (target : Target) (dx dy : α)
  /-- Turn a contour to an allowed angle. -/
  | rotate (id : Nat) (angle : α)
  /-- Turn a contour to the next allowed orientation. -/
  | rotateStep (id : Nat)
  /-- Turn a contour to the allowed orientation nearest to an angle. -/
  | snap (id : Nat) (angle : α)
  /-- Add a primitive, in the middle of the tray without a position. -/
  | addPrimitive (shape : PrimitiveShape α) (position : Option (Point α))
  /-- Resize a primitive. -/
  | resizePrimitive (key : Key) (size : PrimitiveShape α)
  /-- Delete an entity. -/
  | delete (target : Target)
  /-- Attach a label to a contour. -/
  | attachLabel (owner : Nat) (text : String) (offset : Option (α × α))
  /-- Change the text of a label. -/
  | setLabelText (key : Key) (text : String)
  /-- Change the zoom. -/
  | setZoom (factor : α)
  /-- Give the tray other sides. -/
  | resizeTray (width height : α)
  /-- Give the tray the sides of a named size. -/
  | applyPreset (name : String)

/-- What an accepted command did. -/
structure CommandOutcome where
  /-- Whether the saved workspace would differ. -/
  persist : Bool
  /-- The entity that came in. -/
  created : Option Target
  deriving DecidableEq, Repr

namespace CommandOutcome

/-- Something changed that is saved. -/
def changed : CommandOutcome := ⟨true, none⟩

/-- Nothing changed that is saved. -/
def unchanged : CommandOutcome := ⟨false, none⟩

/-- An entity came in. -/
def ofNew (t : Target) : CommandOutcome := ⟨true, some t⟩

/-- Something changed, or nothing did. -/
def ofApplied (applied : Bool) : CommandOutcome := if applied then changed else unchanged

end CommandOutcome

namespace Layout

variable {α : Type} [Coordinate α]

/-- Moves an entity. -/
def moveTarget (l : Layout α) (t : Target) (dx dy : α) (s : Settings α) : Attempt α Unit :=
  match t with
  | .contour id => l.moveContour id dx dy s
  | .primitive k => l.movePrimitive k dx dy
  | .label k => l.moveLabel k dx dy s

/-- Deletes an entity. -/
def deleteTarget (l : Layout α) (t : Target) : Attempt α Unit :=
  match t with
  | .contour id => l.removeContour id
  | .primitive k => l.removePrimitive k
  | .label k => l.removeLabel k

/-- Applies a command. -/
def apply (l : Layout α) (c : Command α) (catalog : Catalog α) (s : Settings α) :
    Attempt α CommandOutcome :=
  match c with
  | .place itemId position =>
      (l.placeContour catalog itemId position).andThen fun id l => (.ok (.ofNew (.contour id)), l)
  | .move t dx dy => (l.moveTarget t dx dy s).andThen fun _ l => (.ok .changed, l)
  | .rotate id angle =>
      (l.rotateContour id angle s).andThen fun applied l => (.ok (.ofApplied applied), l)
  | .rotateStep id => (l.rotateContourStep id s).andThen fun _ l => (.ok .changed, l)
  | .snap id angle => (l.snapContour id angle s).andThen fun _ l => (.ok .changed, l)
  | .addPrimitive shape position =>
      let (k, l) := l.addPrimitive shape position s
      (.ok (.ofNew (.primitive k)), l)
  | .resizePrimitive k size =>
      (l.resizePrimitive k size s).andThen fun applied l => (.ok (.ofApplied applied), l)
  | .delete t => (l.deleteTarget t).andThen fun _ l => (.ok .changed, l)
  | .attachLabel owner text offset =>
      (l.attachLabel owner text offset s).andThen fun k l => (.ok (.ofNew (.label k)), l)
  | .setLabelText k text => (l.setLabelText k text s).andThen fun _ l => (.ok .changed, l)
  | .setZoom factor => (l.setZoom factor s).andThen fun _ l => (.ok .unchanged, l)
  | .resizeTray width height => (.ok .changed, l.resizeTray width height s)
  | .applyPreset name => (l.applyPreset name s).andThen fun _ l => (.ok .changed, l)

end Layout

end FoamTray
