import FoamTray.Proofs.Geometry.Outlines

/-! # Silhouettes on the workspace

    A contour has a box of its own: its place, and the size of its item times its factor, turned.
    Its silhouette is put on the workspace by a map of its own. The two belong together: the box
    of the silhouette on the workspace is the box of the contour, in every orientation and at
    every zoom.

    * `apply_steps` : where the map takes a point.
    * `Contour.Fits` : a contour with the silhouette that it was placed with.
    * `Fits.bounds_placed` : the box of the silhouette on the workspace.
    * `Silhouette.Built` : the silhouettes that there can be.
    * `silhouette_fills_bounds` : a placed silhouette reaches to all four sides of the box of its
      contour, and not beyond.
-/

namespace FoamTray

/-! ## Section 1: Where a placement takes a point -/

namespace Transform

/-- The four steps of a placement, one after the other. -/
theorem apply_steps (dx dy factor x y : Rat) (r : Rotation) (p : Point Rat) :
    ((((identity.translate dx dy).rotate r).scale factor).translate x y).apply p =
      ((turned (p.translate dx dy) r).rescale factor).translate x y := by
  cases r <;>
    simp [identity, translate, rotate, scale, andThen, shift, rotation, stretching, rowMul, apply,
      turned, Point.translate, Point.rescale, Rotation.sin, Rotation.cos] <;>
    constructor <;> ring

end Transform

/-! ## Section 2: Boxes of points that were moved -/

/-- A rectangle after a quarter turn around the origin. -/
def Rect.turned (b : Rect Rat) : Rotation → Rect Rat
  | .deg0 => b
  | .deg90 => ⟨-b.yMax, b.xMin, -b.yMin, b.xMax⟩
  | .deg180 => ⟨-b.xMax, -b.yMax, -b.xMin, -b.yMin⟩
  | .deg270 => ⟨b.yMin, -b.xMax, b.yMax, -b.xMin⟩

section Boxes

variable {points : List (Point Rat)}

/-- The box of points whose coordinates are known. -/
theorem boundsOf_eq (f : Point Rat → Point Rat) {x y : Rat × Rat}
    (hx : extent (points.map fun p => (f p).x) = x)
    (hy : extent (points.map fun p => (f p).y) = y) :
    boundsOf (points.map f) = ⟨x.1, y.1, x.2, y.2⟩ := by
  rw [← hx, ← hy]
  unfold boundsOf
  rw [List.map_map, List.map_map]
  rfl

theorem extent_map_x (points : List (Point Rat)) :
    extent (points.map (·.x)) = ((boundsOf points).xMin, (boundsOf points).xMax) := rfl

theorem extent_map_y (points : List (Point Rat)) :
    extent (points.map (·.y)) = ((boundsOf points).yMin, (boundsOf points).yMax) := rfl

/-- The ends of mapped coordinates, for a map of the coordinate alone. -/
theorem extent_comp_mono {f : Rat → Rat} (hf : Monotone f) (coordinate : Point Rat → Rat)
    (h : points ≠ []) : extent (points.map fun p => f (coordinate p)) =
      (f (extent (points.map coordinate)).1, f (extent (points.map coordinate)).2) := by
  rw [← extent_map_mono hf (by simpa using h), List.map_map]
  rfl

theorem extent_comp_anti {f : Rat → Rat} (hf : Antitone f) (coordinate : Point Rat → Rat)
    (h : points ≠ []) : extent (points.map fun p => f (coordinate p)) =
      (f (extent (points.map coordinate)).2, f (extent (points.map coordinate)).1) := by
  rw [← extent_map_anti hf (by simpa using h), List.map_map]
  rfl

theorem boundsOf_translate (h : points ≠ []) (dx dy : Rat) :
    boundsOf (points.map (·.translate dx dy)) = (boundsOf points).translate dx dy := by
  have hmono : ∀ d : Rat, Monotone (· + d) := fun d _ _ hle => add_le_add_left hle d
  exact boundsOf_eq (·.translate dx dy) (extent_comp_mono (hmono dx) (·.x) h)
    (extent_comp_mono (hmono dy) (·.y) h)

theorem boundsOf_rescale (h : points ≠ []) {factor : Rat} (hfactor : 0 < factor) :
    boundsOf (points.map (·.rescale factor)) = (boundsOf points).scale factor := by
  have hmono : Monotone (· * factor) :=
    fun _ _ hle => mul_le_mul_of_nonneg_right hle hfactor.le
  exact boundsOf_eq (·.rescale factor) (extent_comp_mono hmono (·.x) h)
    (extent_comp_mono hmono (·.y) h)

/-- A quarter turn exchanges the coordinates and turns one of them around. -/
theorem boundsOf_turned (h : points ≠ []) (r : Rotation) :
    boundsOf (points.map (Transform.turned · r)) = (boundsOf points).turned r := by
  have hanti : Antitone (fun x : Rat => -x) := fun _ _ hle => neg_le_neg hle
  cases r with
  | deg0 =>
    show boundsOf (points.map fun p => p) = boundsOf points
    rw [List.map_id']
  | deg90 =>
    exact boundsOf_eq (Transform.turned · .deg90) (extent_comp_anti hanti (·.y) h)
      (extent_map_x points)
  | deg180 =>
    exact boundsOf_eq (Transform.turned · .deg180) (extent_comp_anti hanti (·.x) h)
      (extent_comp_anti hanti (·.y) h)
  | deg270 =>
    exact boundsOf_eq (Transform.turned · .deg270) (extent_map_y points)
      (extent_comp_anti hanti (·.x) h)

end Boxes

/-! ## Section 3: The box of a contour -/

/-- A contour with the silhouette that it was placed with, at a positive factor. -/
structure Contour.Fits (c : Contour Rat) (s : Silhouette Rat) : Prop where
  tight : s.Tight
  factor : 0 < c.scaleOverride
  footprint : c.footprint = ⟨s.width * c.scaleOverride, s.height * c.scaleOverride⟩

/-- The box of the silhouette on the workspace is the box of the contour. -/
theorem Contour.Fits.bounds_placed {c : Contour Rat} {s : Silhouette Rat} (h : c.Fits s)
    (z : Zoom Rat) : (s.transform (c.placement s z)).bounds = c.bounds z := by
  have hne : s.outlines.flatten ≠ [] := h.tight.vertices
  have hfactor : 0 < c.scaleOverride * z.factor := mul_pos h.factor z.zero_lt_factor
  set centre := (c.bounds z).centroid with hcentre
  -- the four steps of the placement, taken by the box
  have hsteps : (s.transform (c.placement s z)).bounds =
      (((s.bounds.translate (-s.bounds.centroid.x) (-s.bounds.centroid.y)).turned
        c.rotation).scale (c.scaleOverride * z.factor)).translate centre.x centre.y := by
    show boundsOf (s.outlines.map (·.map (c.placement s z).apply)).flatten = _
    have happly : (c.placement s z).apply = fun p =>
        ((Transform.turned (p.translate (-s.bounds.centroid.x) (-s.bounds.centroid.y))
          c.rotation).rescale (c.scaleOverride * z.factor)).translate centre.x centre.y := by
      funext p
      exact Transform.apply_steps _ _ _ _ _ _ p
    rw [← List.map_flatten, happly, h.tight.bounds]
    set points := s.outlines.flatten
    rw [← boundsOf_translate hne, ← boundsOf_turned (by simpa using hne),
      ← boundsOf_rescale (by simpa using hne) hfactor, ← boundsOf_translate (by simpa using hne),
      List.map_map, List.map_map, List.map_map]
    rfl
  rw [hsteps, hcentre]
  unfold Contour.bounds Contour.size
  rw [h.footprint]
  cases c.rotation <;>
    simp [Rotation.isSideways, Rect.turned, Rect.translate, Rect.scale, Rect.centroid,
      Rect.ofTopLeft, Silhouette.width, Silhouette.height, Rect.width, Rect.height,
      Zoom.toWorkspace] <;>
    refine ⟨?_, ?_, ?_, ?_⟩ <;> ring

/-! ## Section 4: Silhouettes that fill the box -/

namespace Silhouette

/-- The silhouettes that there can be: made of outlines, of a rectangle, or of another one by an
    affine map. -/
inductive Built : Silhouette Rat → Prop where
  | make {outlines : List (List (Point Rat))} {s : Silhouette Rat} (h : make outlines = .ok s) :
      Built s
  | ofRect (r : Rect Rat) : Built (ofRect r)
  | transform {s : Silhouette Rat} (h : Built s) (t : Transform Rat) : Built (s.transform t)

theorem Built.vertices {s : Silhouette Rat} (h : s.Built) : s.outlines.flatten ≠ [] := by
  induction h with
  | make h => exact (tight_make h).vertices
  | ofRect r => exact List.cons_ne_nil _ _
  | transform h t ih =>
    show (List.map (List.map t.apply) _).flatten ≠ []
    rw [← List.map_flatten]
    simpa using ih

/-- A box that is not degenerate is that of the vertices. A rectangle may be inside out, so this
    has to be asked for. -/
theorem Built.tight {s : Silhouette Rat} (h : s.Built) (hwidth : 0 < s.width)
    (hheight : 0 < s.height) : s.Tight := by
  cases h with
  | make h => exact tight_make h
  | ofRect r =>
    have hx : r.xMin < r.xMax := sub_pos.mp hwidth
    have hy : r.yMin < r.yMax := sub_pos.mp hheight
    have hmake : Rect.make r.xMin r.yMin r.xMax r.yMax = .ok r := if_pos ⟨hx, hy⟩
    exact tight_ofRect hmake
  | transform h t => exact ⟨(h.transform t).vertices, rfl⟩

end Silhouette

/-- A rectangle reaches exactly as far as some points, on each side. -/
structure Rect.Hugs (r : Rect Rat) (points : List (Point Rat)) : Prop where
  left : IsLeast {x | x ∈ points.map (·.x)} r.xMin
  right : IsGreatest {x | x ∈ points.map (·.x)} r.xMax
  upper : IsLeast {y | y ∈ points.map (·.y)} r.yMin
  lower : IsGreatest {y | y ∈ points.map (·.y)} r.yMax

theorem Silhouette.Tight.hugs {s : Silhouette Rat} (h : s.Tight) :
    s.bounds.Hugs s.outlines.flatten := by
  have hx := extent_spec (s.outlines.flatten.map (·.x)) (by simpa using h.vertices)
  have hy := extent_spec (s.outlines.flatten.map (·.y)) (by simpa using h.vertices)
  rw [h.bounds]
  exact ⟨hx.1, hx.2, hy.1, hy.2⟩

/-- A contour of an item whose silhouette has a box that is not degenerate, placed under any
    number, at any place, in any orientation and with any positive factor: at every zoom the
    silhouette on the workspace has the box of the contour, so it reaches to each of its sides and
    not beyond. -/
theorem silhouette_fills_bounds {item : CatalogItem Rat} {drawn : Silhouette Rat}
    (hitem : item.silhouette = some drawn) (hbuilt : drawn.Built) (hwidth : 0 < drawn.width)
    (hheight : 0 < drawn.height) {factor : Rat} (hfactor : 0 < factor) (id : Nat)
    (position : Point Rat) (rotation : Rotation) (z : Zoom Rat) :
    let c := Contour.make id item position rotation factor
    let placed := drawn.transform (c.placement drawn z)
    placed.bounds = c.bounds z ∧ (c.bounds z).Hugs placed.outlines.flatten := by
  intro c placed
  have htight : drawn.Tight := hbuilt.tight hwidth hheight
  have hfootprint : c.footprint = ⟨drawn.width * factor, drawn.height * factor⟩ := by
    show item.footprint factor = _
    unfold CatalogItem.footprint
    rw [hitem]
  have hfits : c.Fits drawn := ⟨htight, hfactor, hfootprint⟩
  have hbounds : placed.bounds = c.bounds z := hfits.bounds_placed z
  refine ⟨hbounds, ?_⟩
  rw [← hbounds]
  exact (htight.transform (c.placement drawn z)).hugs

/-- A bracket, 40 by 20 millimetres. -/
def bracket : Silhouette Rat :=
  ⟨[[⟨0, 0⟩, ⟨40, 0⟩, ⟨40, 10⟩, ⟨10, 10⟩, ⟨10, 20⟩, ⟨0, 20⟩]], ⟨0, 0, 40, 20⟩⟩

/-- An item that has this silhouette. -/
def bracketItem : CatalogItem Rat where
  id := "bracket"
  article := "L-1"
  name := "Bracket"
  category := none
  enabled := true
  cuttingLength := 1 / 10
  scaleOverride := 1
  drawing := "bracket.svg"
  preview := none
  silhouette := some bracket
  size := ⟨40, 20⟩

/-- It lies on its side, half as large again, at zoom two: its box is 60 wide and 120 high, and its
    silhouette is as large. -/
theorem silhouette_fills_bounds_bracket :
    let z : Zoom Rat := ⟨2, by decide +kernel⟩
    let c := Contour.make 1 bracketItem ⟨30, 50⟩ .deg90 (3 / 2)
    c.bounds z = ⟨30, 50, 90, 170⟩ ∧
      (bracket.transform (c.placement bracket z)).bounds = ⟨30, 50, 90, 170⟩ := by
  intro z c
  have hbounds : c.bounds z = ⟨30, 50, 90, 170⟩ := by decide +kernel
  have hmake : Silhouette.make bracket.outlines = .ok bracket := by decide +kernel
  have hitem : bracketItem.silhouette = some bracket := rfl
  have hfactor : (0 : Rat) < 3 / 2 := by decide +kernel
  have hfills := silhouette_fills_bounds hitem (.make hmake) (by decide +kernel)
    (by decide +kernel) hfactor 1 ⟨30, 50⟩ .deg90 z
  exact ⟨hbounds, hfills.1.trans hbounds⟩

end FoamTray
