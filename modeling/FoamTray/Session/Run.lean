import FoamTray.Layout.Run
import FoamTray.Session

/-! # Runs of a session

    Everything that can happen in a session, one thing after the other.

    * `Session.Action` : what can happen.
    * `Session.run` : the session after a list of actions.
    * `Session.Reachable` : the sessions that some run from a new one leads to.
-/

namespace FoamTray.Session

/-- What can happen in a session. -/
inductive Action (α : Type) where
  /-- A person edits the layout. -/
  | submit (c : Command α) (now : Nat)
  /-- The autosave is polled. -/
  | poll (now : Nat)
  /-- The layout is saved. -/
  | save
  /-- A saved workspace takes the place of the layout. -/
  | restore (doc : Workspace α)
  /-- The workspace is zoomed. -/
  | zoom (steps : Int) (coarse : Bool)
  /-- The layout is validated. -/
  | check
  /-- The layout is ordered. -/
  | order

variable {α : Type} [Coordinate α]

/-- The session that an action leaves behind. -/
def act (rasterizer : Rasterizer α) (x : Session α) : Action α → Session α
  | .submit c now => (x.submit c now).2
  | .poll now => (x.pollAutosave now).2
  | .save => x.save.2
  | .restore doc => (x.restore doc).2
  | .zoom steps coarse => (x.zoom steps coarse).2
  | .check => (x.check rasterizer).2
  | .order => (x.exportWith rasterizer fun _ => ()).2

/-- The session that actions leave behind, one after the other. -/
def run (rasterizer : Rasterizer α) (x : Session α) (actions : List (Action α)) : Session α :=
  actions.foldl (act rasterizer) x

/-- The sessions that some run from a new one leads to. -/
inductive Reachable (catalog : Catalog α) (s : Settings α) (rasterizer : Rasterizer α) :
    Session α → Prop where
  /-- A new session. -/
  | make : Reachable catalog s rasterizer (.make catalog s)
  /-- What an action leaves behind. -/
  | act {x : Session α} (a : Action α) (h : Reachable catalog s rasterizer x) :
      Reachable catalog s rasterizer (x.act rasterizer a)

/-- No action exchanges the catalog. -/
@[simp] theorem catalog_act (rasterizer : Rasterizer α) (x : Session α) (a : Action α) :
    (x.act rasterizer a).catalog = x.catalog := by
  cases a with
  | submit c now => unfold act submit; dsimp only; split <;> rfl
  | poll now => rfl
  | save => rfl
  | restore doc => unfold act restore; dsimp only; split <;> rfl
  | zoom steps coarse => unfold act zoom; dsimp only; split <;> rfl
  | check => rfl
  | order => rfl

/-- No action exchanges the settings. -/
@[simp] theorem settings_act (rasterizer : Rasterizer α) (x : Session α) (a : Action α) :
    (x.act rasterizer a).settings = x.settings := by
  cases a with
  | submit c now => unfold act submit; dsimp only; split <;> rfl
  | poll now => rfl
  | save => rfl
  | restore doc => unfold act restore; dsimp only; split <;> rfl
  | zoom steps coarse => unfold act zoom; dsimp only; split <;> rfl
  | check => rfl
  | order => rfl

/-- A session keeps the catalog that it was made with. -/
theorem Reachable.catalog_eq {catalog : Catalog α} {s : Settings α} {rasterizer : Rasterizer α}
    {x : Session α} (h : Reachable catalog s rasterizer x) : x.catalog = catalog := by
  induction h with
  | make => rfl
  | act a _ ih => rw [catalog_act, ih]

/-- A session keeps the settings that it was made with. -/
theorem Reachable.settings_eq {catalog : Catalog α} {s : Settings α} {rasterizer : Rasterizer α}
    {x : Session α} (h : Reachable catalog s rasterizer x) : x.settings = s := by
  induction h with
  | make => rfl
  | act a _ ih => rw [settings_act, ih]

end FoamTray.Session
