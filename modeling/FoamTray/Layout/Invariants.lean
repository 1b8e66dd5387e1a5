import FoamTray.Layout.Edit

/-! # Invariants

    What edits keep true of a layout, as conditions that can be decided.
-/

namespace FoamTray.Layout

variable {α : Type} [Coordinate α]

/-- Whether no two contours have one number, and the next number is above all of them. -/
def idsUnique (l : Layout α) : Bool :=
  let ids := l.placements.contours.map (·.id)
  ids.eraseDups.length == ids.length && ids.all (· < l.placements.nextId)

/-- Whether every contour has an allowed orientation. -/
def rotationsAllowed (l : Layout α) (s : Settings α) : Bool :=
  l.placements.contours.all (·.rotation ∈ s.allowedRotations)

/-- Whether an interval lies inside another one up to tolerance, or is too long for it and begins
    where it does. -/
def axisFits (low high innerLow innerHigh : α) : Bool :=
  if high - low < innerHigh - innerLow then Coordinate.near innerLow low
  else Coordinate.atMost low innerLow && Coordinate.atMost innerHigh high

/-- Whether every label lies in the area of its contour, or is too large for it and aligned with
    its left or upper side. -/
def labelsWithinOwners (l : Layout α) (s : Settings α) : Bool :=
  l.labels.values.all fun label =>
    match l.labelArea? label.owner s with
    | none => false
    | some area =>
        let box := label.bounds s.labels l.zoom
        axisFits area.xMin area.xMax box.xMin box.xMax &&
          axisFits area.yMin area.yMax box.yMin box.yMax

end FoamTray.Layout
