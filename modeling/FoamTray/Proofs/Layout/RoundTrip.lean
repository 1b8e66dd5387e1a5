import FoamTray.Layout.Save
import FoamTray.Proofs.Layout.Restoration
import FoamTray.Proofs.Layout.Sources

/-! # Saving and restoring

    What comes back of a layout that was saved: all of it, at whole millimetres.

    * `accepted_save`, `isComplete_save` : nothing of a saved layout is left out.
    * `Layout.rounded` : a layout in millimetres with its positions and sizes rounded.
    * `looksLike_save` : what comes back looks like the rounded layout.
-/

namespace FoamTray

/-! ## Section 1: Contours with their items -/

namespace Placements

variable {α : Type} {p : Placements α} {catalog : Catalog α} {e : Contour α × CatalogItem α}

theorem mem_withItems : e ∈ p.withItems ↔ e.1 ∈ p.contours ∧ p.item? e.1.id = some e.2 := by
  unfold withItems
  rw [List.mem_filterMap]
  constructor
  · rintro ⟨c, hc, he⟩
    obtain ⟨item, hi, rfl⟩ := Option.map_eq_some_iff.mp he
    exact ⟨hc, hi⟩
  · rintro ⟨hc, hi⟩
    refine ⟨e.1, hc, ?_⟩
    rw [hi]
    rfl

variable [Scalar α]

/-- Every contour is listed with its item. -/
theorem Consistent.map_fst_withItems (h : p.Consistent) : p.withItems.map (·.1) = p.contours := by
  have hsome : ∀ c ∈ p.contours, ((p.item? c.id).map (c, ·)).map (·.1) = some c := by
    intro c hc
    obtain ⟨item, hi, -⟩ := h.shows c hc
    rw [hi]
    rfl
  unfold withItems
  rw [List.map_filterMap, List.filterMap_congr hsome, List.filterMap_some]

theorem Consistent.map_id_withItems (h : p.Consistent) :
    p.withItems.map (·.1.id) = p.ids := by
  unfold ids
  rw [← h.map_fst_withItems, List.map_map]
  rfl

/-- There are no further items, and they are in the order of the contours. -/
theorem Consistent.items_eq (h : p.Consistent) :
    p.items = p.withItems.map fun e => (e.1.id, e.2) := by
  have hnd : (p.items.map (·.1)).Nodup := h.keys_items ▸ h.nodup_ids
  -- both sides list what is found under the numbers of the contours
  have hleft : p.items.map (fun e => (e.1, some e.2)) = p.ids.map fun id => (id, p.item? id) := by
    rw [← h.keys_items, List.map_map]
    refine List.map_congr_left fun e he => ?_
    rw [Function.comp_apply, item?_of_mem hnd he]
  have hright : p.ids.map (fun id => (id, p.item? id)) =
      (p.withItems.map fun e => (e.1.id, e.2)).map fun e => (e.1, some e.2) := by
    rw [← h.map_id_withItems, List.map_map, List.map_map]
    refine List.map_congr_left fun e he => ?_
    rw [Function.comp_apply, Function.comp_apply, (mem_withItems.mp he).2]
  have hinjective : Function.Injective fun e : Nat × CatalogItem α => (e.1, some e.2) := by
    intro e e' he
    obtain ⟨hid, hitem⟩ := Prod.mk.inj he
    exact Prod.ext hid (Option.some.inj hitem)
  exact List.map_injective_iff.mpr hinjective (hleft.trans hright)

theorem Consistent.shows_withItems (h : p.Consistent) (he : e ∈ p.withItems) : e.1.Shows e.2 := by
  obtain ⟨hc, hi⟩ := mem_withItems.mp he
  obtain ⟨item, hi', hshows⟩ := h.shows e.1 hc
  rw [hi] at hi'
  rw [Option.some.inj hi']
  exact hshows

theorem Sourced.of_mem_withItems (h : p.Sourced catalog) (he : e ∈ p.withItems) :
    catalog.find? e.1.itemId = some e.2 ∧
      (((0 : Nat) : α) < e.1.scaleOverride ∨ e.1.scaleOverride = e.2.scaleOverride) := by
  obtain ⟨hc, hi⟩ := mem_withItems.mp he
  obtain ⟨item, hi', hfound, hfactor⟩ := h e.1 hc
  rw [hi] at hi'
  rw [Option.some.inj hi']
  exact ⟨hfound, hfactor⟩

end Placements

/-! ## Section 2: Nothing is left out -/

/-- Saved contours with known items, whole quarter turns and numbers of their own all come back. -/
theorem ContourRecord.accepted_records {α : Type} [Coordinate α] {catalog : Catalog α}
    (as : List (AcceptedContour α)) (earlier : List (ContourRecord α))
    (hi : ∀ a ∈ as, catalog.find? a.record.itemId = some a.item)
    (hr : ∀ a ∈ as, Rotation.normalize? a.record.angle = some a.rotation)
    (hnd : (as.map (·.record.placementId)).Nodup)
    (hfresh : ∀ a ∈ as, a.record.placementId ∉ takenIds catalog earlier) :
    accepted catalog earlier (as.map (·.record)) = as := by
  induction as generalizing earlier with
  | nil => rfl
  | cons a rest ih =>
    have hia := hi a List.mem_cons_self
    have hra := hr a List.mem_cons_self
    have hfa := hfresh a List.mem_cons_self
    obtain ⟨hnot, hnd'⟩ := List.nodup_cons.mp hnd
    -- none of the three reasons to leave the contour out applies
    have hfate : a.record.fateAfter catalog earlier = .placed a.item a.rotation := by
      unfold fateAfter fate
      rw [hia]
      dsimp only
      rw [if_neg hfa, hra]
    have hrest : ∀ b ∈ rest, b.record.placementId ∉ takenIds catalog (earlier ++ [a.record]) := by
      intro b hb hid
      rw [takenIds_append] at hid
      rcases List.mem_append.mp hid with hold | hnew
      · exact hfresh b (List.mem_cons_of_mem a hb) hold
      · split at hnew
        · rw [List.mem_singleton] at hnew
          exact hnot (List.mem_map.mpr ⟨b, hb, hnew⟩)
        · cases hnew
    rw [List.map_cons, accepted_cons, hfate, ih (earlier ++ [a.record])
      (fun b hb => hi b (List.mem_cons_of_mem a hb)) (fun b hb => hr b (List.mem_cons_of_mem a hb))
      hnd' hrest]
    rfl

namespace Layout

variable {l : Layout Single} {catalog : Catalog Single}

/-- What comes back of the contours of a layout. -/
def savedContours (l : Layout Single) : List (AcceptedContour Single) :=
  l.placements.withItems.map fun e => ⟨l.savedContour e.1 e.2, e.2, e.1.rotation⟩

theorem contours_save (l : Layout Single) : l.save.contours = l.savedContours.map (·.record) := by
  unfold savedContours
  rw [List.map_map]
  rfl

/-- All contours come back. -/
theorem accepted_save (hl : l.Consistent) (hs : l.placements.Sourced catalog) :
    l.save.accepted catalog = l.savedContours := by
  unfold Workspace.accepted
  rw [contours_save]
  refine ContourRecord.accepted_records _ _ ?_ ?_ ?_ fun _ _ h => nomatch h
  · intro a ha
    obtain ⟨e, he, rfl⟩ := List.mem_map.mp ha
    exact (hs.of_mem_withItems he).1
  · intro a ha
    obtain ⟨e, -, rfl⟩ := List.mem_map.mp ha
    exact Rotation.normalize?_angle e.1.rotation
  · have hids : l.savedContours.map (·.record.placementId) = l.placements.ids := by
      unfold savedContours
      rw [List.map_map]
      exact hl.placements.map_id_withItems
    rw [hids]
    exact hl.placements.nodup_ids

theorem acceptedIds_save (hl : l.Consistent) (hs : l.placements.Sourced catalog) :
    l.save.acceptedIds catalog = l.placements.ids := by
  unfold Workspace.acceptedIds
  rw [accepted_save hl hs]
  unfold savedContours
  rw [List.map_map]
  exact hl.placements.map_id_withItems

/-- The contour of a saved label comes back. -/
theorem owner_saved (hl : l.Consistent) (hs : l.placements.Sourced catalog)
    {r : LabelRecord Single} (hr : r ∈ l.save.labels) :
    r.placementId ∈ l.save.acceptedIds catalog := by
  obtain ⟨label, hlabel, rfl⟩ := List.mem_map.mp hr
  obtain ⟨k, hk⟩ := SlotTable.mem_values.mp hlabel
  rw [acceptedIds_save hl hs]
  exact hl.owner_mem k label hk

/-- So all labels come back. -/
theorem ownedLabels_save (hl : l.Consistent) (hs : l.placements.Sourced catalog) :
    l.save.ownedLabels catalog = l.save.labels :=
  List.filter_eq_self.mpr fun _ hr => decide_eq_true (owner_saved hl hs hr)

/-- Nothing of a saved layout is left out. -/
theorem isComplete_save (hl : l.Consistent) (hs : l.placements.Sourced catalog) :
    (l.save.summary catalog).isComplete = true := by
  have hcount := ContourRecord.length_accepted catalog [] l.save.contours
  have haccepted : (ContourRecord.accepted catalog [] l.save.contours).length =
      l.save.contours.length := by
    rw [show ContourRecord.accepted catalog [] l.save.contours = l.savedContours from
      accepted_save hl hs, contours_save, List.length_map]
  -- each saved contour is accepted or reported, and all of them are accepted
  have hunknown : (l.save.summary catalog).unknownItems = [] :=
    List.length_eq_zero_iff.mp (by
      show (ContourRecord.unknownItems catalog [] l.save.contours).length = 0
      omega)
  have hrejected : (l.save.summary catalog).rejected = [] :=
    List.length_eq_zero_iff.mp (by
      show (ContourRecord.rejected catalog [] l.save.contours).length = 0
      omega)
  have horphaned : (l.save.summary catalog).orphaned = 0 := by
    refine List.length_eq_zero_iff.mpr (List.filter_eq_nil_iff.mpr fun r hr => ?_)
    have howner := owner_saved hl hs hr
    simpa using howner
  unfold RestoreSummary.isComplete
  rw [hunknown, hrejected, horphaned]
  rfl

end Layout

/-! ## Section 3: Whole millimetres -/

/-- A shape with every length replaced by a function of itself. -/
def PrimitiveShape.mapLengths {α : Type} (f : α → α) : PrimitiveShape α → PrimitiveShape α
  | .rect w h => .rect (f w) (f h)
  | .circle r => .circle (f r)

namespace Layout

section Rounding

variable {α : Type} [Coordinate α]

/-- A point of the workspace at whole millimetres from the corner of the tray. -/
def roundedPoint (l : Layout α) (p : Point α) : Point α :=
  let d := l.savedPoint p
  (l.tray.origin l.zoom).translate d.x d.y

/-- A layout in millimetres with its positions and sizes rounded. The sizes of primitives and the
    sides of the tray are moved into their limits; labels stay where they are. -/
def rounded (l : Layout α) (s : Settings α) : Layout α :=
  { l with
    tray := { Tray.make (Coordinate.round l.tray.width) (Coordinate.round l.tray.height) s.tray with
      offset := l.tray.offset }
    placements := { l.placements with
      contours := l.placements.contours.map fun c =>
        { c with position := l.roundedPoint c.position } }
    primitives := l.primitives.map fun _ p =>
      { p with
        shape := ((p.shape.mapLengths l.savedLength).clamped s.primitives).scaled l.zoom.factor
        position := l.roundedPoint p.position } }

/-- A layout in which rounding changes no position, no size and no side of the tray. -/
structure Whole (l : Layout α) (s : Settings α) : Prop where
  /-- The tray has whole sides within the limits. -/
  tray : (l.rounded s).tray = l.tray
  /-- The contours are at whole millimetres from its corner. -/
  contours : ∀ c ∈ l.placements.contours, l.roundedPoint c.position = c.position
  /-- So are the primitives. -/
  primitives : ∀ p ∈ l.primitives.values, l.roundedPoint p.position = p.position
  /-- The primitives have whole sizes within the limits. -/
  shapes : ∀ p ∈ l.primitives.values,
    ((p.shape.mapLengths l.savedLength).clamped s.primitives).scaled l.zoom.factor = p.shape

/-- Rounding leaves such a layout alone. -/
theorem Whole.rounded_eq {l : Layout α} {s : Settings α} (h : l.Whole s) : l.rounded s = l := by
  have hcontours : l.placements.contours.map
      (fun c => { c with position := l.roundedPoint c.position }) = l.placements.contours := by
    conv_rhs => rw [← List.map_id l.placements.contours]
    refine List.map_congr_left fun c hc => ?_
    rw [h.contours c hc]
    rfl
  have hprimitives : l.primitives.map (fun _ p => { p with
      shape := ((p.shape.mapLengths l.savedLength).clamped s.primitives).scaled l.zoom.factor
      position := l.roundedPoint p.position }) = l.primitives := by
    refine SlotTable.map_id_of_forall fun k p hp => ?_
    have hmem : p ∈ l.primitives.values := SlotTable.mem_values.mpr ⟨k, hp⟩
    rw [h.primitives p hmem, h.shapes p hmem]
  have htray := h.tray
  unfold rounded at htray ⊢
  dsimp only at htray
  rw [htray, hcontours, hprimitives]

/-- Marks are not saved. -/
theorem save_highlight (l : Layout α) (r : Report) : (l.highlight r).save = l.save := by
  have hitems : (l.highlight r).placements.withItems = l.placements.withItems.map fun e =>
      ({ e.1 with highlighted := e.1.id ∈ r.offendingContours }, e.2) := by
    show (l.placements.contours.map _).filterMap _ = (l.placements.contours.filterMap _).map _
    rw [List.filterMap_map, List.map_filterMap]
    refine List.filterMap_congr fun c _ => ?_
    show (l.placements.item? c.id).map _ = ((l.placements.item? c.id).map _).map _
    rw [Option.map_map]
    rfl
  have hprimitives : (l.highlight r).primitives.values.map (l.highlight r).savedPrimitive =
      l.primitives.values.map l.savedPrimitive := by
    unfold SlotTable.values
    rw [show (l.highlight r).primitives.entries = _ from SlotTable.entries_map _ l.primitives,
      List.map_map, List.map_map, List.map_map]
    rfl
  unfold save
  rw [hitems, hprimitives, List.map_map]
  rfl

end Rounding

variable {l : Layout Single} {catalog : Catalog Single} {s : Settings Single}

/-- A factor that is not positive is taken for a missing one, and was that of the item. -/
theorem restoredScale_saved (l : Layout Single) {e : Contour Single × CatalogItem Single}
    (hfactor : ((0 : Nat) : Single) < e.1.scaleOverride ∨ e.1.scaleOverride = e.2.scaleOverride) :
    (l.savedContour e.1 e.2).restoredScale e.2 = e.1.scaleOverride := by
  unfold ContourRecord.restoredScale
  split
  · rfl
  · rename_i hnot
    rcases hfactor with hpos | heq
    · exact absurd hpos hnot
    · exact heq.symm

/-- A contour comes back at its rounded place, otherwise as it was placed. -/
theorem plain_contour_saved (hz : l.zoom = .unit) {e : Contour Single × CatalogItem Single}
    (hshows : e.1.Shows e.2)
    (hfactor : ((0 : Nat) : Single) < e.1.scaleOverride ∨ e.1.scaleOverride = e.2.scaleOverride) :
    (AcceptedContour.contour ⟨l.savedContour e.1 e.2, e.2, e.1.rotation⟩
      (l.tray.origin .unit)).plain =
      Contour.plain { e.1 with position := l.roundedPoint e.1.position } := by
  unfold AcceptedContour.contour Contour.make Contour.plain roundedPoint
  rw [restoredScale_saved l hfactor, hz]
  dsimp only
  rw [hshows.1, ← hshows.2]
  rfl

/-- A primitive comes back at its rounded place in its rounded size. -/
theorem bounds_primitive_saved (hz : l.zoom = .unit) (s : Settings Single) (p : Primitive Single) :
    ((l.savedPrimitive p).restored (l.tray.origin .unit) .unit s).bounds =
      Primitive.bounds { p with
        shape := ((p.shape.mapLengths l.savedLength).clamped s.primitives).scaled l.zoom.factor
        position := l.roundedPoint p.position } := by
  unfold roundedPoint savedPrimitive
  rw [hz]
  cases p.shape with
  | rect w h => rfl
  | circle r => rfl

/-- What comes back of a saved layout looks like the rounded layout. -/
theorem looksLike_save (hz : l.zoom = .unit) (hl : l.Consistent)
    (hs : l.placements.Sourced catalog) (s : Settings Single) (nextId : Nat) :
    (l.rounded s).LooksLike (l.save.layout catalog s .unit nextId) where
  zoom := hz.symm
  tray := rfl
  contours := by
    rw [Workspace.contours_layout, accepted_save hl hs]
    unfold savedContours rounded
    dsimp only
    rw [List.map_map, List.map_map, List.map_map, ← hl.placements.map_fst_withItems, List.map_map]
    refine List.map_congr_left fun e he => ?_
    exact plain_contour_saved hz (hl.placements.shows_withItems he) (hs.of_mem_withItems he).2
  items := by
    show (Placements.ofContours nextId _).items = l.placements.items
    rw [hl.placements.items_eq, accepted_save hl hs]
    unfold Placements.ofContours savedContours
    dsimp only
    rw [List.map_map, List.map_map]
    rfl
  primitives := by
    show (SlotTable.ofValues _).values.map _ = (l.primitives.map _).values.map _
    rw [SlotTable.values_ofValues, SlotTable.values_map, List.map_map, List.map_map]
    show (l.primitives.values.map _).map _ = _
    rw [List.map_map]
    refine List.map_congr_left fun p _ => ?_
    exact bounds_primitive_saved hz s p

end Layout

end FoamTray
