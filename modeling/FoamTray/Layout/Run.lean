import FoamTray.Layout.Command
import FoamTray.Layout.Restore
import FoamTray.Validation.Check

/-! # Runs of a layout

    Everything that can happen to a layout, one thing after the other. What an action leaves
    behind counts here, whether it succeeded or was refused.

    * `Layout.Action` : what can happen.
    * `Layout.run` : the layout after a list of actions.
    * `Layout.Reachable` : the layouts that some run from an empty tray leads to.
-/

namespace FoamTray.Layout

/-- What can happen to a layout. -/
inductive Action (α : Type) where
  /-- A person edits it. -/
  | command (c : Command α)
  /-- A saved workspace takes its place. -/
  | restore (doc : Workspace α)
  /-- Everything is removed. -/
  | clear
  /-- It is validated as it is. -/
  | validate
  /-- It is validated at any zoom. -/
  | check
  /-- It is ordered. -/
  | order

variable {α : Type} [Coordinate α]

/-- The layout that an action leaves behind. -/
def act (catalog : Catalog α) (s : Settings α) (rasterizer : Rasterizer α) (l : Layout α) :
    Action α → Layout α
  | .command c => (l.apply c catalog s).2
  | .restore doc => (l.restore doc catalog s).2
  | .clear => l.clear
  | .validate => (l.validate rasterizer s).2
  | .check => (l.check rasterizer s).2
  | .order => (l.exportWith rasterizer s fun _ => ()).2

/-- The layout that actions leave behind, one after the other. -/
def run (catalog : Catalog α) (s : Settings α) (rasterizer : Rasterizer α) (l : Layout α)
    (actions : List (Action α)) : Layout α :=
  actions.foldl (act catalog s rasterizer) l

/-- The layouts that some run from an empty tray leads to. -/
inductive Reachable (catalog : Catalog α) (s : Settings α) (rasterizer : Rasterizer α) :
    Layout α → Prop where
  /-- An empty tray. -/
  | make (tray : Tray α) : Reachable catalog s rasterizer (.make tray)
  /-- What an action leaves behind. -/
  | act {l : Layout α} (a : Action α) (h : Reachable catalog s rasterizer l) :
      Reachable catalog s rasterizer (l.act catalog s rasterizer a)

/-- A run from a reachable layout leads to a reachable one. -/
theorem Reachable.run {catalog : Catalog α} {s : Settings α} {rasterizer : Rasterizer α}
    {l : Layout α} (h : Reachable catalog s rasterizer l) (actions : List (Action α)) :
    Reachable catalog s rasterizer (l.run catalog s rasterizer actions) := by
  induction actions generalizing l with
  | nil => exact h
  | cons a rest ih => exact ih (h.act a)

end FoamTray.Layout
