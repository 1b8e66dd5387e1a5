import FoamTray.Autosave
import FoamTray.Document.Order
import FoamTray.Drawing.Preview
import FoamTray.Layout.Command
import FoamTray.Layout.Restore
import FoamTray.Layout.Save
import FoamTray.Validation.Check

/-! # Editing sessions

    A layout while a person edits it, with the catalog, the settings and the autosave. Edits that
    change what would be saved start the delay of the autosave; zooming, checks and exports do
    not.
-/

namespace FoamTray

/-- A layout while it is edited. -/
structure Session (α : Type) [Scalar α] where
  /-- The layout. -/
  layout : Layout α
  /-- What can be placed. -/
  catalog : Catalog α
  /-- What the session is set up with. -/
  settings : Settings α
  /-- Whether an edit waits to be saved. -/
  autosave : Autosave

namespace Session

variable {α : Type} [Coordinate α]

/-- A new session: an empty tray of the default size at the default zoom. A default zoom outside
    of its bounds is ignored. -/
def make (catalog : Catalog α) (s : Settings α) : Session α where
  layout := ((Layout.make (.default s.tray)).setZoom s.zoom.default s).2
  catalog := catalog
  settings := s
  autosave := .make s.autosaveDelay

/-- Applies a command. -/
def submit (x : Session α) (c : Command α) (now : Nat) :
    Except (LayoutError α) CommandOutcome × Session α :=
  match x.layout.apply c x.catalog x.settings with
  | (.error e, l) => (.error e, { x with layout := l })
  | (.ok outcome, l) =>
      (.ok outcome, { x with
        layout := l
        autosave := if outcome.persist then x.autosave.notify now else x.autosave })

/-- Whether an edit has not been saved yet. -/
def hasUnsavedChanges (x : Session α) : Bool := x.autosave.isPending

/-- The workspace to be saved, once the autosave fires. -/
def pollAutosave (x : Session α) (now : Nat) : Option (Workspace α) × Session α :=
  let (fired, autosave) := x.autosave.poll now
  (if fired then some x.layout.save else none, { x with autosave := autosave })

/-- Saves right away. -/
def save (x : Session α) : Workspace α × Session α :=
  (x.layout.save, { x with autosave := x.autosave.cancel })

/-- Replaces the layout by a saved one. -/
def restore (x : Session α) (doc : Workspace α) :
    Except (LayoutError α) RestoreSummary × Session α :=
  match x.layout.restore doc x.catalog x.settings with
  | (.error e, l) => (.error e, { x with layout := l })
  | (.ok summary, l) => (.ok summary, { x with layout := l, autosave := x.autosave.cancel })

/-- The zoom that so many steps lead to: a whole percentage within the bounds, so that repeated
    steps do not drift. -/
def zoomTarget (x : Session α) (steps : Int) (coarse : Bool) : α :=
  let bounds := x.settings.zoom
  let increment := if coarse then bounds.coarseStep else bounds.step
  let target := x.layout.zoom.factor + (steps : α) * increment
  let hundred := ((100 : Nat) : α)
  Scalar.clamp (Coordinate.round (target * hundred) / hundred) bounds.min bounds.max

/-- Zooms by so many steps. -/
def zoom (x : Session α) (steps : Int) (coarse : Bool) :
    Except (LayoutError α) (Zoom α) × Session α :=
  match x.layout.setZoom (x.zoomTarget steps coarse) x.settings with
  | (.error e, l) => (.error e, { x with layout := l })
  | (.ok _, l) => (.ok l.zoom, { x with layout := l })

/-- Validates the layout and highlights the offenders. -/
def check (x : Session α) (rasterizer : Rasterizer α) :
    Except (LayoutError α) Report × Session α :=
  let (outcome, l) := x.layout.check rasterizer x.settings
  (outcome, { x with layout := l })

/-- Validates the layout and, if it can be produced, builds a document of it. -/
def exportWith {β : Type} (x : Session α) (rasterizer : Rasterizer α) (build : Layout α → β) :
    Except (LayoutError α) β × Session α :=
  let (outcome, l) := x.layout.exportWith rasterizer x.settings build
  (outcome, { x with layout := l })

end Session

/-! ## Orders -/

/-- The order of a layout in millimetres, with a drawing of it. -/
def Layout.order (s : Settings Single) (l : Layout Single) : OrderDocument :=
  l.orderDocument s (some (l.drawing s .standard "order preview"))

/-- Validates a layout and, if it can be produced, orders it. -/
def Layout.export (l : Layout Single) (rasterizer : Rasterizer Single) (s : Settings Single) :
    Attempt Single OrderDocument :=
  l.exportWith rasterizer s (Layout.order s)

/-- Validates the layout of a session and, if it can be produced, orders it. -/
def Session.export (x : Session Single) (rasterizer : Rasterizer Single) :
    Except (LayoutError Single) OrderDocument × Session Single :=
  x.exportWith rasterizer (Layout.order x.settings)

end FoamTray
