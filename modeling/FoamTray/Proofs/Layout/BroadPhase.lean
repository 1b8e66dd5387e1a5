import FoamTray.Proofs.Geometry.Placement
import FoamTray.Proofs.Layout.Equivariance
import FoamTray.Proofs.Layout.Structure

/-! # Two contours are compared wherever they may be too close

    Most pairs of contours are far apart, and a look at their grown boxes is enough. The others
    are drawn, but only the common part of the grown boxes is. Neither loses anything: a box is
    grown by the whole clearance and a silhouette by half of it, so a point that both silhouettes
    reach lies well inside both boxes.

    * `inside_inflate` : what is within half a clearance of a box lies inside the grown box.
    * `Layout.Draws` : a contour that can be drawn. In the layouts of a manifest's catalog these
      are all that have a silhouette.
    * `checkPair_of_region` : the comparison of two contours whose grown boxes have a common part.
    * `broad_phase_misses_nothing` : every point that both contours reach is in this part.
-/

namespace FoamTray

/-! ## Section 1: Grown boxes -/

namespace Rect

variable {a b : Rect Rat} {z : Point Rat}

/-- Within a rectangle and not on a side of it. -/
def Inside (r : Rect Rat) (z : Point Rat) : Prop :=
  (r.xMin < z.x ∧ z.x < r.xMax) ∧ r.yMin < z.y ∧ z.y < r.yMax

theorem Inside.collidesPoint (h : a.Inside z) : a.collidesPoint z = true := by
  obtain ⟨⟨hxMin, hxMax⟩, hyMin, hyMax⟩ := h
  exact collidesPoint_iff.mpr ⟨⟨hxMin.le, hxMax.le⟩, hyMin.le, hyMax.le⟩

/-- A rectangle with a point inside has an area. -/
theorem Inside.sides_pos (h : a.Inside z) : 0 < a.width ∧ 0 < a.height := by
  obtain ⟨⟨hxMin, hxMax⟩, hyMin, hyMax⟩ := h
  exact ⟨sub_pos.mpr (hxMin.trans hxMax), sub_pos.mpr (hyMin.trans hyMax)⟩

/-- Half a clearance beside a box is inside of the box that is grown by the clearance. -/
theorem inside_inflate {clearance : Rat} (hclearance : 0 < clearance)
    (h : a.Reaches (clearance / 2) z) : (a.inflate clearance).Inside z := by
  obtain ⟨p, hp, hx, hy⟩ := h
  obtain ⟨⟨hxMin, hxMax⟩, hyMin, hyMax⟩ := collidesPoint_iff.mp hp
  obtain ⟨hxLow, hxHigh⟩ := abs_le.mp hx
  obtain ⟨hyLow, hyHigh⟩ := abs_le.mp hy
  unfold inflate Inside
  dsimp only
  -- the centre, at which a box stops shrinking, does not matter to one that grows
  rw [Scalar.min_eq, Scalar.min_eq, Scalar.max_eq, Scalar.max_eq]
  refine ⟨⟨min_lt_of_left_lt ?_, lt_max_of_lt_left ?_⟩, min_lt_of_left_lt ?_,
    lt_max_of_lt_left ?_⟩ <;> linarith

/-- Rectangles with a common inner point have a common part, and the point lies inside it. -/
theorem intersection_of_inside (ha : a.Inside z) (hb : b.Inside z) :
    a.collides b = true ∧ ∃ region, intersection a b = some region ∧ region.Inside z := by
  obtain ⟨⟨haxMin, haxMax⟩, hayMin, hayMax⟩ := ha
  obtain ⟨⟨hbxMin, hbxMax⟩, hbyMin, hbyMax⟩ := hb
  have hxMin : max a.xMin b.xMin < z.x := max_lt haxMin hbxMin
  have hxMax : z.x < min a.xMax b.xMax := lt_min haxMax hbxMax
  have hyMin : max a.yMin b.yMin < z.y := max_lt hayMin hbyMin
  have hyMax : z.y < min a.yMax b.yMax := lt_min hayMax hbyMax
  unfold collides intersection
  simp only [Scalar.min_eq, Scalar.max_eq, Bool.and_eq_true, decide_eq_true_eq]
  refine ⟨⟨(hxMin.trans hxMax).le, (hyMin.trans hyMax).le⟩, _,
    if_pos ⟨hxMin.trans hxMax, hyMin.trans hyMax⟩, ⟨hxMin, hxMax⟩, hyMin, hyMax⟩

end Rect

/-! ## Section 2: Catalogs of drawn items -/

/-- The items have positive factors, and their silhouettes have tight boxes. -/
def Catalog.Drawable (catalog : Catalog Rat) : Prop :=
  ∀ id item, catalog.find? id = some item →
    0 < item.scaleOverride ∧ ∀ drawn, item.silhouette = some drawn → drawn.Tight

namespace ItemRecord

variable {r : ItemRecord Rat}

/-- An imported item has a positive factor, and its silhouette is that of its outline. -/
theorem drawable_toItem {item : CatalogItem Rat} (h : r.toItem = .ok item) :
    0 < item.scaleOverride ∧ ∀ drawn, item.silhouette = some drawn → drawn.Tight := by
  obtain ⟨hsilhouette, -, hfactor⟩ := toItem_eq_ok h
  refine ⟨(importScale_eq_ok hfactor).2, fun drawn hdrawn => ?_⟩
  rw [hdrawn] at hsilhouette
  rcases importSilhouette_eq_ok hsilhouette with ⟨-, hnone⟩ | ⟨shape, s, -, hs, hsome⟩
  · cases hnone
  · cases hsome
    exact ShapeRecord.tight_silhouette hs

end ItemRecord

theorem Manifest.drawable_catalog (manifest : Manifest Rat) : manifest.catalog.Drawable := by
  intro id item hfound
  obtain ⟨r, -, hitem⟩ := List.mem_filterMap.mp (Catalog.find?_ofItems hfound).1
  cases himport : r.toItem with
  | error e =>
    rw [himport] at hitem
    cases hitem
  | ok imported =>
    rw [himport] at hitem
    rw [← Option.some.inj hitem]
    exact ItemRecord.drawable_toItem himport

/-! ## Section 3: Contours that are compared -/

namespace Layout

variable {l : Layout Rat} {s : Settings Rat} {a b c : Contour Rat}
  {drawn drawnA drawnB : Silhouette Rat} {region : Rect Rat}

/-- A contour of the layout, at a positive factor, with the silhouette of its item. -/
structure Draws (l : Layout Rat) (c : Contour Rat) (drawn : Silhouette Rat) : Prop where
  mem : c ∈ l.placements.contours
  factor : 0 < c.scaleOverride
  item : ∃ item, l.placements.item? c.id = some item ∧ item.silhouette = some drawn
  tight : drawn.Tight

theorem Draws.fits (h : l.Draws c drawn) (hl : l.Consistent) : c.Fits drawn := by
  obtain ⟨item, hitem, -, hfootprint⟩ := hl.placements.shows c h.mem
  obtain ⟨item', hitem', hdrawn⟩ := h.item
  obtain rfl : item = item' := Option.some.inj (hitem.symm.trans hitem')
  refine ⟨h.tight, h.factor, ?_⟩
  rw [hfootprint, CatalogItem.footprint, hdrawn]

/-- Throughout the history of a layout, all contours with a silhouette are drawn. -/
theorem Stocked.draws {catalog : Catalog Rat} (h : l.Stocked catalog) (hkeyed : catalog.Keyed)
    (hdrawable : catalog.Drawable) {item : CatalogItem Rat} (hc : c ∈ l.placements.contours)
    (hitem : l.placements.item? c.id = some item) (hdrawn : item.silhouette = some drawn) :
    l.Draws c drawn := by
  obtain ⟨item', hitem', hfound, hfactor⟩ := h.sourced hkeyed c hc
  obtain rfl : item = item' := Option.some.inj (hitem.symm.trans hitem')
  obtain ⟨hpos, htight⟩ := hdrawable _ _ hfound
  refine ⟨hc, ?_, ⟨item, hitem, hdrawn⟩, htight drawn hdrawn⟩
  rcases hfactor with hown | hsame
  · exact hown
  · rw [hsame]
    exact hpos

/-- Boxes in millimetres are grown by the clearance as it is. -/
theorem commonRegion?_of_collides (hunit : l.zoom = .unit)
    (h : ((a.bounds l.zoom).inflate s.clearance).collides
      ((b.bounds l.zoom).inflate s.clearance) = true) :
    l.commonRegion? a b s = Rect.intersection ((a.bounds l.zoom).inflate s.clearance)
      ((b.bounds l.zoom).inflate s.clearance) := by
  have hclearance : l.zoom.toWorkspace s.clearance = s.clearance := by
    rw [hunit]
    exact mul_one _
  unfold commonRegion?
  dsimp only
  rw [hclearance, if_pos h]

/-- What the rasterizer is asked to draw of a contour, in millimetres. -/
def request (l : Layout Rat) (s : Settings Rat) (c : Contour Rat) (drawn : Silhouette Rat)
    (region : Rect Rat) : RenderRequest Rat :=
  ⟨drawn, c.placement drawn l.zoom, s.clearance / 2, region⟩

theorem Draws.renderRequest? (h : l.Draws c drawn) (hunit : l.zoom = .unit) (s : Settings Rat)
    (region : Rect Rat) :
    l.renderRequest? c region s = some (l.request s c drawn region) := by
  obtain ⟨item, hitem, hdrawn⟩ := h.item
  unfold Layout.renderRequest? request
  rw [hitem, hunit]
  simp [hdrawn, Zoom.toWorkspace, Zoom.unit]

/-- Two contours whose grown boxes have a common part are drawn in it, the second one if the first
    one could be, and this decides about them. -/
theorem checkPair_of_region (ha : l.Draws a drawnA) (hb : l.Draws b drawnB)
    (hunit : l.zoom = .unit) (hregion : l.commonRegion? a b s = some region)
    (rasterizer : Rasterizer Rat) :
    (l.checkPair rasterizer s a b).verdict ≠ .separated ∧
      (l.checkPair rasterizer s a b).requests = l.request s a drawnA region ::
        if (rasterizer (l.request s a drawnA region)).isSome then [l.request s b drawnB region]
        else [] := by
  unfold checkPair
  rw [hregion]
  dsimp only
  rw [ha.renderRequest? hunit, hb.renderRequest? hunit]
  dsimp only
  cases hbitmapA : rasterizer (l.request s a drawnA region) with
  | none => exact ⟨PairVerdict.noConfusion, rfl⟩
  | some bitmapA =>
    dsimp only
    cases hbitmapB : rasterizer (l.request s b drawnB region) with
    | none => exact ⟨PairVerdict.noConfusion, rfl⟩
    | some bitmapB =>
      refine ⟨?_, rfl⟩
      dsimp only
      split <;> exact PairVerdict.noConfusion

/-! ## Section 4: Points that two contours reach -/

/-- The grown box of a contour has everything inside that its silhouette reaches. -/
theorem Draws.inside_inflate (h : l.Draws c drawn) (hl : l.Consistent) {clearance : Rat}
    (hclearance : 0 < clearance) {z : Point Rat}
    (hz : (drawn.transform (c.placement drawn l.zoom)).bounds.Reaches (clearance / 2) z) :
    ((c.bounds l.zoom).inflate clearance).Inside z := by
  rw [(h.fits hl).bounds_placed] at hz
  exact Rect.inside_inflate hclearance hz

/-- What a rasterizer is asked to draw is near to the box of the silhouette. -/
theorem Draws.reaches_of_covers (h : l.Draws c drawn) {reach : Rat} (hreach : 0 ≤ reach)
    {z : Point Rat} (hz : (drawn.transform (c.placement drawn l.zoom)).Covers reach z) :
    (drawn.transform (c.placement drawn l.zoom)).bounds.Reaches reach z :=
  (h.tight.transform _).reaches_of_covers hreach hz

/-- A point within half a clearance of the boxes of both silhouettes lies in the common part of
    the grown boxes of the contours, which has an area. So a point that is covered by both
    silhouettes, each grown by half the clearance, lies in the part that is drawn, and the two
    contours are compared there. -/
theorem broad_phase_misses_nothing (hl : l.Consistent) (hunit : l.zoom = .unit)
    (hclearance : 0 < s.clearance) (ha : l.Draws a drawnA) (hb : l.Draws b drawnB) :
    (∀ z, (drawnA.transform (a.placement drawnA l.zoom)).bounds.Reaches (s.clearance / 2) z →
      (drawnB.transform (b.placement drawnB l.zoom)).bounds.Reaches (s.clearance / 2) z →
      ((a.bounds l.zoom).inflate s.clearance).collides
        ((b.bounds l.zoom).inflate s.clearance) = true ∧
      ∃ region, Rect.intersection ((a.bounds l.zoom).inflate s.clearance)
          ((b.bounds l.zoom).inflate s.clearance) = some region ∧
        (0 < region.width ∧ 0 < region.height) ∧ region.collidesPoint z = true) ∧
    ∀ z, (drawnA.transform (a.placement drawnA l.zoom)).Covers (s.clearance / 2) z →
      (drawnB.transform (b.placement drawnB l.zoom)).Covers (s.clearance / 2) z →
      ∃ region, l.commonRegion? a b s = some region ∧ region.collidesPoint z = true ∧
        ∀ rasterizer, (l.checkPair rasterizer s a b).verdict ≠ .separated ∧
          (l.checkPair rasterizer s a b).requests = l.request s a drawnA region ::
            if (rasterizer (l.request s a drawnA region)).isSome then
              [l.request s b drawnB region]
            else [] := by
  constructor
  · intro z hza hzb
    obtain ⟨hcollides, region, hregion, hinside⟩ :=
      Rect.intersection_of_inside (ha.inside_inflate hl hclearance hza)
        (hb.inside_inflate hl hclearance hzb)
    exact ⟨hcollides, region, hregion, hinside.sides_pos, hinside.collidesPoint⟩
  · intro z hza hzb
    have hhalf : 0 ≤ s.clearance / 2 := (half_pos hclearance).le
    obtain ⟨hcollides, region, hregion, hinside⟩ :=
      Rect.intersection_of_inside
        (ha.inside_inflate hl hclearance (ha.reaches_of_covers hhalf hza))
        (hb.inside_inflate hl hclearance (hb.reaches_of_covers hhalf hzb))
    have hcommon : l.commonRegion? a b s = some region :=
      (commonRegion?_of_collides hunit hcollides).trans hregion
    exact ⟨region, hcommon, hinside.collidesPoint, checkPair_of_region ha hb hunit hcommon⟩

/-- The outline of a wedge. -/
def wedgeShape : Silhouette Rat := ⟨[[⟨0, 0⟩, ⟨40, 0⟩, ⟨0, 20⟩]], ⟨0, 0, 40, 20⟩⟩

/-- A wedge, and one of twice its size. -/
def wedgeManifest : Manifest Rat :=
  ⟨[{ id := "wedge", article := "K-1", name := "Wedge", category := none, enabled := true
      cuttingLength := 0, scaleOverride := none, assets := ⟨"wedge.svg", none⟩
      shape := some (.polygon [(0, 0), (40, 0), (0, 20)]), width := none, height := none },
    { id := "large", article := "K-2", name := "Large wedge", category := none, enabled := true
      cuttingLength := 0, scaleOverride := some 2, assets := ⟨"wedge.svg", none⟩
      shape := some (.polygon [(0, 0), (40, 0), (0, 20)]), width := none, height := none }],
    .empty⟩

/-- A wedge with its tip near to the slope of a large one that stands upright. -/
def nearWedges : Layout Rat :=
  (make (.default exactSettings.tray)).run wedgeManifest.catalog exactSettings (fun _ => none)
    [.command (.place "wedge" (some ⟨30, 30⟩)), .command (.place "large" (some ⟨45, 30⟩)),
      .command (.rotate 1 90)]

/-- The wedge. -/
def pointedWedge : Contour Rat where
  id := 0
  itemId := "wedge"
  position := ⟨30, 30⟩
  rotation := .deg0
  scaleOverride := 1
  lastPosition := ⟨30, 30⟩
  highlighted := false
  footprint := ⟨40, 20⟩

/-- The large one. -/
def uprightWedge : Contour Rat where
  id := 1
  itemId := "large"
  position := ⟨65, 10⟩
  rotation := .deg90
  scaleOverride := 2
  lastPosition := ⟨45, 30⟩
  highlighted := false
  footprint := ⟨80, 40⟩

/-- The wedges are five millimetres apart, and the point halfway between them is drawn. -/
theorem broad_phase_misses_nothing_nearWedges :
    0 < exactSettings.clearance ∧
      nearWedges.placements.contours = [pointedWedge, uprightWedge] ∧
      ∃ region, nearWedges.commonRegion? pointedWedge uprightWedge exactSettings = some region ∧
        region.collidesPoint ⟨145 / 2, 30⟩ = true ∧
        (nearWedges.checkPair (fun _ => none) exactSettings pointedWedge uprightWedge).verdict ≠
          .separated := by
  have hclearance : 0 < exactSettings.clearance := by decide +kernel
  have hcontours : nearWedges.placements.contours = [pointedWedge, uprightWedge] := by
    decide +kernel
  have hunit : nearWedges.zoom = .unit := Zoom.eq_of_factor (by decide +kernel)
  have hstocked : nearWedges.Stocked wedgeManifest.catalog :=
    (Stocked.make (.default exactSettings.tray)).run exactSettings (fun _ => none) _
  have hdraws : ∀ c ∈ nearWedges.placements.contours, nearWedges.Draws c wedgeShape := by
    intro c hc
    have hshape : ∀ c ∈ nearWedges.placements.contours,
        (nearWedges.placements.item? c.id).bind (·.silhouette) = some wedgeShape := by
      decide +kernel
    obtain ⟨item, hitem, hdrawn⟩ := Option.bind_eq_some_iff.mp (hshape c hc)
    exact hstocked.draws (Catalog.keyed_ofItems _ _) wedgeManifest.drawable_catalog hc hitem hdrawn
  have hpointed : (wedgeShape.transform (pointedWedge.placement wedgeShape nearWedges.zoom)).Covers
      (exactSettings.clearance / 2) ⟨145 / 2, 30⟩ := by
    refine ⟨⟨70, 30⟩, .inr ⟨(⟨30, 30⟩, ⟨70, 30⟩), ?_, 1, ?_⟩, ?_⟩ <;> decide +kernel
  have hupright : (wedgeShape.transform (uprightWedge.placement wedgeShape nearWedges.zoom)).Covers
      (exactSettings.clearance / 2) ⟨145 / 2, 30⟩ := by
    refine ⟨⟨75, 30⟩, .inr ⟨(⟨105, 90⟩, ⟨65, 10⟩), ?_, 3 / 4, ?_⟩, ?_⟩ <;> decide +kernel
  obtain ⟨region, hregion, hinside, hcompared⟩ :=
    (broad_phase_misses_nothing hstocked.attainable.consistent hunit hclearance
      (hdraws _ (by simp [hcontours])) (hdraws _ (by simp [hcontours]))).2 _ hpointed hupright
  exact ⟨hclearance, hcontours, region, hregion, hinside, (hcompared _).1⟩

end Layout

end FoamTray
