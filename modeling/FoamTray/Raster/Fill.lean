import FoamTray.Raster.Edge
import FoamTray.Raster.PixelRow

/-! # The inside of outlines

    A point is inside if the outlines wind around it: the turns of the edges on its left, one for
    each that leads down past it and one back for each that leads up, add up to other than zero.

    In a row of pixels the inside is bounded by the stretches of edges with an inside on one hand
    only. Each edge is walked from top to bottom. The turns on its left change where another edge
    begins or ends, and where another edge changes from one hand to the other; between two such
    heights the edge bounds the inside or does not. What is covered of a pixel is found without any
    sampling: a stretch that bounds the inside adds or takes away a trapezoid.
-/

namespace FoamTray

namespace Fill

/-- The stretch of an edge across a row of pixels. -/
structure Side where
  /-- The edge, leading down. -/
  edge : Edge
  /-- The height at which the stretch begins. -/
  top : Float
  /-- The height at which it ends. -/
  bottom : Float
  /-- One if the outline leads down along the edge, less one if it leads up. -/
  turn : Int

/-- The stretch of an edge from height `top` to height `bottom`, if it has any height. -/
def Side.ofEdge? (top bottom : Float) (e : Edge) : Option Side :=
  let (down, turn) := if e.y₀ < e.y₁ then (e, 1) else (e.reversed, -1)
  let top := if top < down.y₀ then down.y₀ else top
  let bottom := if down.y₁ < bottom then down.y₁ else bottom
  if top < bottom then some ⟨down, top, bottom, turn⟩ else none

/-- How places are ordered. They are told apart by grains of 2^-30 of a pixel, so that edges along
    one line are not taken to cross wherever their places are rounded. -/
def compareGrains (x y : Float) : Ordering :=
  let grains (x : Float) : Float := (x * 1073741824).round
  if grains x < grains y then .lt else if grains y < grains x then .gt else .eq

/-- What is on the left of a side. -/
structure Walk where
  /-- The turns on its left where it begins. -/
  turns : Int
  /-- Heights at which they change, and by how much. -/
  changes : List (Float × Int)

/-- The turns on the left of a side change at a height. A change where the side begins counts from
    its beginning on, and one where it ends is of no account. -/
def Walk.change (w : Walk) (s : Side) (y : Float) (t : Int) : Walk :=
  if y ≤ s.top then { w with turns := w.turns + t }
  else if y < s.bottom then { w with changes := (y, t) :: w.changes }
  else w

/-- Takes a second side into account. One that runs along the first counts as on its left if `ties`
    says so. -/
def Walk.pass (s : Side) (ties : Bool) (w : Walk) (t : Side) : Walk :=
  let top := if s.top < t.top then t.top else s.top
  let bottom := if t.bottom < s.bottom then t.bottom else s.bottom
  if top < bottom then
    let above := t.edge.placeAt top - s.edge.placeAt top
    let below := t.edge.placeAt bottom - s.edge.placeAt bottom
    let meeting := top + above / (above - below) * (bottom - top)
    let first := compareGrains (t.edge.placeAt top) (s.edge.placeAt top)
    let last := compareGrains (t.edge.placeAt bottom) (s.edge.placeAt bottom)
    match first.then last, last.then first with
    | .lt, .lt => (w.change s top t.turn).change s bottom (-t.turn)
    | .lt, .gt => (w.change s top t.turn).change s meeting (-t.turn)
    | .gt, .lt => (w.change s meeting t.turn).change s bottom (-t.turn)
    | .eq, .eq => if ties then (w.change s top t.turn).change s bottom (-t.turn) else w
    | _, _ => w
  else w

/-- Adds the stretch of a side between two heights, if it bounds the inside. The turns on its left
    are given. -/
def addStretch (row : PixelRow) (s : Side) (turns : Int) (y y' : Float) : PixelRow :=
  if y < y' then
    let outsideLeft := turns == 0
    let outsideRight := turns + s.turn == 0
    if outsideLeft == outsideRight then row
    else
      row.addSide (if outsideLeft then y' - y else y - y') (s.edge.placeAt y) (s.edge.placeAt y')
  else row

/-- Adds a side from height `y` on, with the turns on its left there, and how they change. -/
def addFrom (row : PixelRow) (s : Side) (turns : Int) (y : Float) : List (Float × Int) → PixelRow
  | [] => addStretch row s turns y s.bottom
  | (y', t) :: rest => addFrom (addStretch row s turns y y') s (turns + t) y' rest

/-- Adds sides one after the other; `earlier` holds those that are added already. Of two sides along
    one line the earlier one is on the left. -/
def addSides (row : PixelRow) (earlier : List Side) : List Side → PixelRow
  | [] => row
  | s :: later =>
      let walk := later.foldl (Walk.pass s false) (earlier.foldl (Walk.pass s true) ⟨0, []⟩)
      let changes := walk.changes.mergeSort fun a b => a.1 ≤ b.1
      addSides (addFrom row s walk.turns s.top changes) (s :: earlier) later

/-- The inside of outlines in the row of pixels that is `y` from the top. -/
def row (es : List Edge) (width y : Nat) : PixelRow :=
  addSides (.empty width) [] (es.filterMap (Side.ofEdge? y.toFloat (y.toFloat + 1)))

end Fill

end FoamTray
