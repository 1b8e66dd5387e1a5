import FoamTray.Proofs.Layout.Equivariance
import FoamTray.Proofs.Layout.Orientations

/-! # Turning around the centre

    A turn takes the upper left corner of a contour from the centre of its box, and the centre from
    the corner that the turn before has left. Over the rationals nothing is lost on the way: the
    centre stays where it is, so a contour lies after any number of turns as if only the last one
    had been made.

    * `Contour.centroid_rotateTo` : a turn keeps the centre of the box.
    * `Contour.rotateTo_rotateTo`, `Contour.rotateTo_self` : the last turn decides.
    * `Layout.afterTurns` : the layout after requests to turn, each under settings of its own.
    * `turns_pivot` : what a run of requests makes of the contour.
-/

namespace FoamTray

/-! ## Section 1: One turn -/

namespace Contour

variable (c : Contour Rat) (r r' : Rotation) (z : Zoom Rat)

theorem width_bounds : (c.bounds z).width = (c.size z).width := add_sub_cancel_left _ _

theorem height_bounds : (c.bounds z).height = (c.size z).height := add_sub_cancel_left _ _

/-- The centre is half of the size away from the corner. -/
theorem centroid_bounds : (c.bounds z).centroid =
    ⟨c.position.x + (c.size z).width / 2, c.position.y + (c.size z).height / 2⟩ := by
  simp only [bounds, Rect.ofTopLeft, Rect.centroid, Nat.cast_ofNat, Point.mk.injEq]
  constructor <;> ring

/-- A turn puts the corner where the centre stays. -/
theorem centroid_rotateTo : ((c.rotateTo r z).bounds z).centroid = (c.bounds z).centroid := by
  rw [centroid_bounds (c.rotateTo r z)]
  have hsize : (c.rotateTo r z).size z = ({ c with rotation := r } : Contour Rat).size z := rfl
  rw [hsize]
  simp only [rotateTo, Nat.cast_ofNat, sub_add_cancel]

/-- A further turn makes the one before it undone: it starts from the same centre. -/
theorem rotateTo_rotateTo : (c.rotateTo r z).rotateTo r' z = c.rotateTo r' z := by
  have hcentre := c.centroid_rotateTo r z
  unfold rotateTo at hcentre ⊢
  dsimp only at hcentre ⊢
  rw [hcentre]
  rfl

/-- A turn to the orientation that it has leaves a contour where it is. -/
theorem rotateTo_self : c.rotateTo c.rotation z = c := by
  unfold rotateTo
  dsimp only
  rw [centroid_bounds]
  simp only [Nat.cast_ofNat, add_sub_cancel_right]

/-- The sides of the box change places when the contour lies on its side. -/
theorem sides_rotateTo :
    ((c.rotateTo r z).bounds z).width = z.toWorkspace
      (if r = .deg90 ∨ r = .deg270 then c.footprint.height else c.footprint.width) ∧
    ((c.rotateTo r z).bounds z).height = z.toWorkspace
      (if r = .deg90 ∨ r = .deg270 then c.footprint.width else c.footprint.height) := by
  rw [width_bounds, height_bounds]
  cases r <;> exact ⟨rfl, rfl⟩

end Contour

/-! ## Section 2: Requests to turn -/

namespace Layout

variable {l : Layout Rat} {id : Nat} {c : Contour Rat}

theorem find?_turnContour (hc : l.placements.find? id = some c) (rotation : Rotation)
    (s : Settings Rat) :
    (l.turnContour id rotation s).2.placements.find? id = some (c.rotateTo rotation l.zoom) ∧
      (l.turnContour id rotation s).2.zoom = l.zoom := by
  rw [turnContour_eq hc]
  exact ⟨Placements.find?_update_self (f := (·.rotateTo rotation l.zoom)) (fun _ => rfl) hc, rfl⟩

/-- A request to turn a contour turns it, be it to the orientation that it has: that is also what a
    refused one comes to. -/
theorem find?_apply_turned (hc : l.placements.find? id = some c) {cmd : Command Rat}
    (ht : cmd.turned? = some id) (catalog : Catalog Rat) (s : Settings Rat) :
    ∃ rotation, (l.apply cmd catalog s).2.placements.find? id =
        some (c.rotateTo rotation l.zoom) ∧
      (l.apply cmd catalog s).2.zoom = l.zoom := by
  unfold apply
  cases cmd with
  | rotate id' angle =>
    cases ht
    dsimp only
    rw [Attempt.andThen_snd]
    unfold rotateContour
    rw [hc]
    dsimp only
    split
    · exact ⟨c.rotation, by rw [hc, c.rotateTo_self], rfl⟩
    · rename_i rotation _
      rw [Attempt.andThen_snd (l.turnContour id rotation s) fun _ => true]
      exact ⟨rotation, find?_turnContour hc rotation s⟩
  | rotateStep id' =>
    cases ht
    dsimp only
    rw [Attempt.andThen_snd]
    unfold rotateContourStep
    rw [hc]
    exact ⟨_, find?_turnContour hc _ s⟩
  | snap id' angle =>
    cases ht
    dsimp only
    rw [Attempt.andThen_snd]
    unfold snapContour
    rw [hc]
    exact ⟨_, find?_turnContour hc _ s⟩
  | _ => cases ht

/-! ## Section 3: Runs of requests -/

/-- The layout after requests, one after the other, each under settings of its own. -/
def afterTurns {α : Type} [Coordinate α] (l : Layout α) (catalog : Catalog α)
    (requests : List (Command α × Settings α)) : Layout α :=
  requests.foldl (fun l request => (l.apply request.1 catalog request.2).2) l

/-- All requests together come to one turn from where the contour was at first. -/
theorem find?_afterTurns (catalog : Catalog Rat) (hc : l.placements.find? id = some c)
    (requests : List (Command Rat × Settings Rat))
    (hturn : ∀ request ∈ requests, request.1.turned? = some id) :
    ∃ rotation, (l.afterTurns catalog requests).placements.find? id =
        some (c.rotateTo rotation l.zoom) ∧
      (l.afterTurns catalog requests).zoom = l.zoom := by
  induction requests generalizing l c with
  | nil => exact ⟨c.rotation, by rw [c.rotateTo_self]; exact hc, rfl⟩
  | cons request rest ih =>
    obtain ⟨first, hfirst, hzoom⟩ := find?_apply_turned hc
      (hturn request List.mem_cons_self) catalog request.2
    obtain ⟨last, hlast, hzoom'⟩ := ih hfirst fun r hr => hturn r (List.mem_cons_of_mem _ hr)
    rw [hzoom, Contour.rotateTo_rotateTo] at hlast
    exact ⟨last, hlast, hzoom'.trans hzoom⟩

/-- After any requests to turn a contour, accepted or refused, whatever orientations are allowed at
    each of them: the centre of its box is where it was, the sides of the box have changed places
    if it lies on its side, and with the orientation of before it is where it was. The position
    before the last move is the same. -/
theorem turns_pivot (catalog : Catalog Rat) (hc : l.placements.find? id = some c)
    (requests : List (Command Rat × Settings Rat))
    (hturn : ∀ request ∈ requests, request.1.turned? = some id) :
    ∃ c', (l.afterTurns catalog requests).placements.find? id = some c' ∧
      (l.afterTurns catalog requests).zoom = l.zoom ∧
      (c'.bounds l.zoom).centroid = (c.bounds l.zoom).centroid ∧
      (c'.bounds l.zoom).width = l.zoom.toWorkspace
        (if c'.rotation = .deg90 ∨ c'.rotation = .deg270 then c.footprint.height
          else c.footprint.width) ∧
      (c'.bounds l.zoom).height = l.zoom.toWorkspace
        (if c'.rotation = .deg90 ∨ c'.rotation = .deg270 then c.footprint.width
          else c.footprint.height) ∧
      (c'.rotation = c.rotation → c'.position = c.position) ∧
      c'.lastPosition = c.lastPosition := by
  obtain ⟨rotation, hfind, hzoom⟩ := find?_afterTurns catalog hc requests hturn
  obtain ⟨hwidth, hheight⟩ := c.sides_rotateTo rotation l.zoom
  refine ⟨c.rotateTo rotation l.zoom, hfind, hzoom, c.centroid_rotateTo rotation l.zoom, hwidth,
    hheight, ?_, rfl⟩
  intro hsame
  obtain rfl : rotation = c.rotation := hsame
  rw [c.rotateTo_self]

/-- A wrench that lies at a corner of its tray, at some zoom. -/
def placedWrench : Layout Rat :=
  (make (.default exactSettings.tray)).run exactCatalog exactSettings (fun _ => none)
    [.command (.setZoom (7 / 10)), .command (.place "wrench" (some ⟨30, 45⟩))]

/-- The wrench. -/
def lyingWrench : Contour Rat where
  id := 0
  itemId := "wrench"
  position := ⟨30, 45⟩
  rotation := .deg0
  scaleOverride := 1
  lastPosition := ⟨30, 45⟩
  highlighted := false
  footprint := ⟨30, 10⟩

/-- It is turned by a step, not to an angle that is none of the allowed ones, to the nearest
    orientation under settings that allow only two, and upright; then back. -/
def wrenchTurns : List (Command Rat × Settings Rat) :=
  let limited := { exactSettings with allowedRotations := [.deg180, .deg270] }
  [(.rotateStep 0, exactSettings), (.rotate 0 45, exactSettings), (.snap 0 (1000 / 3), limited),
    (.rotate 0 90, exactSettings)]

/-- The wrench ends upright, around the centre that it had. -/
theorem turns_pivot_placedWrench :
    placedWrench.placements.find? 0 = some lyingWrench ∧
      (∀ request ∈ wrenchTurns, request.1.turned? = some 0) ∧
      ∃ c', (placedWrench.afterTurns exactCatalog wrenchTurns).placements.find? 0 = some c' ∧
        c'.rotation = .deg90 ∧
        (c'.bounds placedWrench.zoom).centroid =
          (lyingWrench.bounds placedWrench.zoom).centroid ∧
        c'.lastPosition = ⟨30, 45⟩ := by
  have hc : placedWrench.placements.find? 0 = some lyingWrench := by decide +kernel
  have hturn : ∀ request ∈ wrenchTurns, request.1.turned? = some 0 := by
    simp [wrenchTurns, Command.turned?]
  obtain ⟨c', hfind, -, hcentre, -, -, -, hlast⟩ := turns_pivot exactCatalog hc wrenchTurns hturn
  have hupright : (((placedWrench.afterTurns exactCatalog wrenchTurns).placements.find? 0).map
      (·.rotation)) = some .deg90 := by decide +kernel
  rw [hfind] at hupright
  exact ⟨hc, hturn, c', hfind, Option.some.inj hupright, hcentre, hlast⟩

end Layout

end FoamTray
