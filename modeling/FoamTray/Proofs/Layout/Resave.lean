import FoamTray.Proofs.Layout.Lengths

/-! # Saving again

    What is restored lies at whole millimetres from the corner of the tray. There it is saved
    again as it was: rounding keeps whole numbers, and so do the limits of sizes unless the saved
    size is beyond them. Labels are different. A label and its contour are rounded each on its
    own, and a label that ends up outside of the area of its contour is moved when it is restored
    (`shiftedLabel_moves`).

    * `resaved_position`, `resaved_length` : whole positions and sizes within their limits.
    * `contours_resaved`, `primitives_resaved` : nothing that is placed moves.
    * `save_restore_save` : a document that fits is saved again as it is.
-/

namespace FoamTray

/-! ## Section 1: Limits of machine numbers -/

namespace Single

variable {a low high w : Single}

/-- A whole number that is not too large to be placed. -/
structure Whole (x : Single) : Prop where
  finite : x.isFinite = true
  le : |x.toRat| ≤ 2 ^ 18
  rounded : rationalRound x.toRat = x.toRat

/-- A number that is rounded to a whole one. -/
theorem beq_round {v : Single} (hw : w.Whole) (hv : v.isFinite = true) (hbound : |v.toRat| ≤ 2 ^ 20)
    (h : rationalRound v.toRat = w.toRat) : (w == v.round) = true := by
  obtain ⟨hfinite, hvalue⟩ := toRat_round hv (lt_of_le_of_lt hbound (by norm_num))
  rw [beq_iff_toRat hw.finite hfinite, hvalue, h]

theorem whole_round (ha : a.isFinite = true) (hbound : |a.toRat| ≤ 2 ^ 18 - 1) :
    a.round.Whole := by
  obtain ⟨hfinite, hvalue⟩ := toRat_round ha (by linarith)
  obtain ⟨k, hk, hclose⟩ := exists_rationalRound_eq a.toRat
  rw [hk] at hvalue
  refine ⟨hfinite, ?_, ?_⟩
  · rw [hvalue]
    have htriangle := abs_sub_abs_le_abs_sub (k : Rat) a.toRat
    rw [abs_sub_comm] at htriangle
    linarith
  · rw [hvalue]
    exact rationalRound_intCast k

/-- Not below a limit, once that is rounded. -/
structure FromLimit (low w : Single) : Prop where
  finite : low.isFinite = true
  le : |low.toRat| ≤ 2 ^ 20
  above : rationalRound low.toRat ≤ w.toRat

/-- Not above a limit, once that is rounded. -/
structure UpToLimit (w high : Single) : Prop where
  finite : high.isFinite = true
  le : |high.toRat| ≤ 2 ^ 20
  below : w.toRat ≤ rationalRound high.toRat

instance (low w : Single) : Decidable (FromLimit low w) :=
  decidable_of_iff
    (low.isFinite = true ∧ |low.toRat| ≤ 2 ^ 20 ∧ rationalRound low.toRat ≤ w.toRat)
    ⟨fun ⟨h₁, h₂, h₃⟩ => ⟨h₁, h₂, h₃⟩, fun ⟨h₁, h₂, h₃⟩ => ⟨h₁, h₂, h₃⟩⟩

instance (w high : Single) : Decidable (UpToLimit w high) :=
  decidable_of_iff
    (high.isFinite = true ∧ |high.toRat| ≤ 2 ^ 20 ∧ w.toRat ≤ rationalRound high.toRat)
    ⟨fun ⟨h₁, h₂, h₃⟩ => ⟨h₁, h₂, h₃⟩, fun ⟨h₁, h₂, h₃⟩ => ⟨h₁, h₂, h₃⟩⟩

theorem FromLimit.max_eq (h : FromLimit low w) (hw : w.Whole) :
    (Scalar.max w low).isFinite = true ∧ |(Scalar.max w low).toRat| ≤ 2 ^ 20 ∧
      rationalRound (Scalar.max w low).toRat = w.toRat := by
  obtain ⟨hfinite, hvalue⟩ := toRat_max hw.finite h.finite
  have hmono : Monotone rationalRound := fun _ _ => rationalRound_mono
  refine ⟨hfinite, ?_, ?_⟩
  · rw [hvalue]
    have hw' := hw.le
    exact le_trans abs_max_le_max_abs_abs (max_le (by linarith) h.le)
  · rw [hvalue, hmono.map_max, hw.rounded]
    exact max_eq_left h.above

/-- The limits move a whole number to one that is rounded to it. -/
theorem clamp_eq (hlow : FromLimit low w) (hhigh : UpToLimit w high) (hw : w.Whole) :
    (Scalar.clamp w low high).isFinite = true ∧ |(Scalar.clamp w low high).toRat| ≤ 2 ^ 20 ∧
      rationalRound (Scalar.clamp w low high).toRat = w.toRat := by
  obtain ⟨hmax, hle, hround⟩ := hlow.max_eq hw
  obtain ⟨hfinite, hvalue⟩ := toRat_min hmax hhigh.finite
  have hmono : Monotone rationalRound := fun _ _ => rationalRound_mono
  refine ⟨hfinite, ?_, ?_⟩
  · show |(Scalar.min (Scalar.max w low) high).toRat| ≤ _
    rw [hvalue]
    exact le_trans abs_min_le_max_abs_abs (max_le hle hhigh.le)
  · show rationalRound (Scalar.min (Scalar.max w low) high).toRat = _
    rw [hvalue, hmono.map_min, hround]
    exact min_eq_left hhigh.below

/-- At unit zoom a whole position is saved again as it is. -/
theorem resaved_position {corner : Single} (hc : corner.isFinite = true)
    (hcbound : |corner.toRat| ≤ 2 ^ 18) (hw : w.Whole) :
    (w == ((Zoom.unit : Zoom Single).toMillimetres
      (Zoom.unit.toWorkspace corner + w - Zoom.unit.toWorkspace corner)).round) = true := by
  obtain ⟨hfinite, hclose⟩ := Zoom.unit_position hc hw.finite hcbound hw.le
  have hsize := abs_sub_abs_le_abs_sub ((Zoom.unit : Zoom Single).toMillimetres
    (Zoom.unit.toWorkspace corner + w - Zoom.unit.toWorkspace corner)).toRat w.toRat
  have hle := hw.le
  apply beq_round hw hfinite
  · linarith
  · obtain ⟨k, hk, -⟩ := exists_rationalRound_eq w.toRat
    rw [hw.rounded] at hk
    rw [hk] at hclose ⊢
    exact rationalRound_eq hclose

/-- So is a whole size within its limits. -/
theorem resaved_length (hlow : FromLimit low w) (hhigh : UpToLimit w high) (hw : w.Whole) :
    (w == ((Zoom.unit : Zoom Single).toMillimetres
      (Scalar.clamp w low high * (Zoom.unit : Zoom Single).factor)).round) = true := by
  obtain ⟨hfinite, hle, hround⟩ := clamp_eq hlow hhigh hw
  obtain ⟨hfinite', hvalue'⟩ := Zoom.toWorkspace_unit hfinite (le_trans hle (by norm_num))
  obtain ⟨hfinite'', hvalue''⟩ := Zoom.toMillimetres_unit hfinite'
    (by rw [hvalue']; exact le_trans hle (by norm_num))
  have hvalue := hvalue''.trans hvalue'
  apply beq_round hw hfinite''
  · rw [hvalue]
    exact hle
  · rw [hvalue]
    exact hround

end Single

/-! ## Section 2: What comes back -/

/-- Contours that were placed are listed with their items. -/
theorem Placements.withItems_ofContours {α : Type} [Scalar α] {nextId : Nat}
    {new : List (Contour α × CatalogItem α)} (h : (ofContours nextId new).Consistent) :
    (ofContours nextId new).withItems = new := by
  have hcontours : (ofContours nextId new).withItems.map (·.1) = new.map (·.1) :=
    h.map_fst_withItems
  have hitems : (ofContours nextId new).withItems.map (·.2) = new.map (·.2) := by
    have heq := congrArg (List.map (·.2)) h.items_eq
    rw [List.map_map] at heq
    have hleft : (ofContours nextId new).items.map (·.2) = new.map (·.2) := by
      unfold ofContours
      dsimp only
      rw [List.map_map]
      rfl
    rw [← hleft, heq]
    rfl
  have hzip : ∀ es : List (Contour α × CatalogItem α), (es.map (·.1)).zip (es.map (·.2)) = es := by
    intro es
    have hunzip := List.zip_unzip es
    rw [List.unzip_eq_map] at hunzip
    exact hunzip
  rw [← hzip (ofContours nextId new).withItems, hcontours, hitems, hzip]

/-- Where a saved primitive is. -/
def PrimitiveRecord.place {α : Type} : PrimitiveRecord α → Point α
  | .rect x y _ _ => ⟨x, y⟩
  | .circle x y _ => ⟨x, y⟩

/-- Whether the sizes of a saved primitive are within the limits, once these are rounded. -/
def PrimitiveLimits.Allow (limits : PrimitiveLimits Single) : PrimitiveRecord Single → Prop
  | .rect _ _ w h =>
      (Single.FromLimit limits.rectMinWidth w ∧ Single.UpToLimit w limits.rectMaxWidth) ∧
        Single.FromLimit limits.rectMinHeight h ∧ Single.UpToLimit h limits.rectMaxHeight
  | .circle _ _ r =>
      Single.FromLimit limits.circleMinRadius r ∧ Single.UpToLimit r limits.circleMaxRadius

instance (limits : PrimitiveLimits Single) (r : PrimitiveRecord Single) :
    Decidable (limits.Allow r) :=
  match r with
  | .rect _ _ _ _ => inferInstanceAs (Decidable (_ ∧ _))
  | .circle _ _ _ => inferInstanceAs (Decidable (_ ∧ _))

/-- A document whose sizes are within the limits, and whose labels stay where they are when they
    are restored. -/
structure Workspace.Fits (doc : Workspace Single) (catalog : Catalog Single)
    (s : Settings Single) : Prop where
  width : Single.FromLimit s.tray.minSize doc.tray.width
  height : Single.FromLimit s.tray.minSize doc.tray.height
  primitives : ∀ r ∈ doc.primitives, s.primitives.Allow r
  labels : ∀ r ∈ doc.labels,
    let origin := (doc.restoredTray s).origin .unit
    (doc.bare catalog s .unit 0).settled s (r.restored origin) = r.restored origin

namespace Layout

variable {l : Layout Single} {catalog : Catalog Single} {s : Settings Single}

/-- What is saved of a position is a whole number. -/
theorem Within.whole_position (h : l.Within 100000) {x : Single}
    (hx : l.zoom.Spans 100000 x) :
    (l.savedLength (x - l.zoom.toWorkspace l.tray.offset)).Whole := by
  have hx' := hx.2
  have ho := h.offset.2
  obtain ⟨hfinite, herror⟩ := Zoom.measured_position h.zoom hx.1 h.offset.1
    (by linarith) (by linarith)
  apply Single.whole_round hfinite
  have hsize := abs_sub_abs_le_abs_sub (l.zoom.toMillimetres
    (x - l.zoom.toWorkspace l.tray.offset)).toRat (l.zoom.millimetres x - l.tray.offset.toRat)
  have hdistance := abs_sub (l.zoom.millimetres x) l.tray.offset.toRat
  linarith

/-- So is what is saved of a size. -/
theorem whole_length {x : Single} (hx : l.zoom.Spans 100000 x) : (l.savedLength x).Whole := by
  have hx' := hx.2
  obtain ⟨hfinite, herror⟩ := Zoom.measured_length (z := l.zoom) hx.1 (by linarith)
  apply Single.whole_round hfinite
  have hsize := abs_sub_abs_le_abs_sub (l.zoom.toMillimetres x).toRat (l.zoom.millimetres x)
  linarith

/-- What comes back of a point in a layout in millimetres is saved as the same point. -/
theorem Within.savesAlike_restored (h : l.Within 100000) {p : Point Single}
    (hp : p.Both (l.zoom.Spans 100000)) {m : Layout Single} (hz : m.zoom = .unit)
    (ho : m.tray.offset = l.tray.offset) :
    l.SavesAlike m p ((l.tray.origin .unit).translate (l.savedPoint p).x (l.savedPoint p).y) := by
  have hoffset := h.offset.2
  have hcoordinate : ∀ x, l.zoom.Spans 100000 x →
      (l.savedLength (x - l.zoom.toWorkspace l.tray.offset) == m.savedLength
        (Zoom.unit.toWorkspace l.tray.offset +
          l.savedLength (x - l.zoom.toWorkspace l.tray.offset) -
          m.zoom.toWorkspace m.tray.offset)) = true := by
    intro x hx
    have hresaved := Single.resaved_position h.offset.1 (by linarith) (h.whole_position hx)
    rw [hz, ho]
    unfold savedLength at hresaved ⊢
    rw [hz]
    exact hresaved
  exact Bool.and_eq_true_iff.mpr ⟨hcoordinate _ hp.1, hcoordinate _ hp.2⟩

variable (nextId : Nat)

theorem contours_resaved (hl : l.Consistent) (hs : l.placements.Sourced catalog)
    (h : l.Within 100000) (s : Settings Single) :
    l.save.contours.isEqv (l.save.layout catalog s .unit nextId).save.contours
      ContourRecord.same = true := by
  have hplaced := (consistent_document l.save catalog s .unit nextId).placements
  have hnew : (l.save.layout catalog s .unit nextId).placements.withItems =
      l.placements.withItems.map fun e =>
        (AcceptedContour.contour ⟨l.savedContour e.1 e.2, e.2, e.1.rotation⟩
          (l.tray.origin .unit), e.2) := by
    refine (Placements.withItems_ofContours hplaced).trans ?_
    rw [accepted_save hl hs]
    unfold savedContours
    rw [List.map_map]
    rfl
  show (l.placements.withItems.map _).isEqv
    ((l.save.layout catalog s .unit nextId).placements.withItems.map _) _ = _
  rw [hnew, List.map_map]
  apply isEqv_map_map
  intro e he
  have hmem := (Placements.mem_withItems.mp he).1
  have hkept := kept_saved hl hs he (l.tray.origin .unit)
  have hplace : l.SavesAlike (l.save.layout catalog s .unit nextId) e.1.position
      (AcceptedContour.contour ⟨l.savedContour e.1 e.2, e.2, e.1.rotation⟩
        (l.tray.origin .unit)).position :=
    h.savesAlike_restored (h.lengths.contours e.1 hmem) rfl rfl
  exact same_savedContour hplace hkept e.2

theorem primitives_layout (l : Layout Single) (catalog : Catalog Single) (s : Settings Single) :
    (l.save.layout catalog s .unit nextId).primitives.values =
      l.primitives.values.map fun p => (l.savedPrimitive p).restored (l.tray.origin .unit) .unit s := by
  refine (SlotTable.values_ofValues _).trans ?_
  show (l.primitives.values.map _).map _ = _
  rw [List.map_map]
  rfl

/-- Primitives come back where they were saved. -/
theorem savesAlike_primitive (h : l.Within 100000) {p : Primitive Single}
    (hp : p ∈ l.primitives.values) (catalog : Catalog Single) (s : Settings Single) :
    l.SavesAlike (l.save.layout catalog s .unit nextId) p.position
      ((l.savedPrimitive p).restored (l.tray.origin .unit) .unit s).position := by
  have hplace := h.savesAlike_restored (h.lengths.primitives p hp)
    (m := l.save.layout catalog s .unit nextId) rfl rfl
  obtain ⟨shape, position, marked⟩ := p
  cases shape with
  | rect w height => exact hplace
  | circle r => exact hplace

theorem primitives_resaved (h : l.Within 100000) (catalog : Catalog Single)
    (s : Settings Single) :
    (l.save.primitives.map PrimitiveRecord.place).isEqv
      ((l.save.layout catalog s .unit nextId).save.primitives.map PrimitiveRecord.place)
      Point.same = true := by
  have hplace : ∀ (m : Layout Single) (p : Primitive Single),
      (m.savedPrimitive p).place = m.savedPoint p.position := by
    intro m p
    obtain ⟨shape, position, marked⟩ := p
    cases shape <;> rfl
  show ((l.primitives.values.map _).map _).isEqv
    (((l.save.layout catalog s .unit nextId).primitives.values.map _).map _) _ = _
  rw [primitives_layout, List.map_map, List.map_map, List.map_map]
  apply isEqv_map_map
  intro p hp
  simp only [Function.comp_apply, hplace]
  exact savesAlike_primitive nextId h hp catalog s

/-- A shape within the limits is saved again as it is. -/
theorem savesShapeAlike_restored (h : l.Within 100000) {p : Primitive Single}
    (hp : p ∈ l.primitives.values) (hlimits : s.primitives.Allow (l.savedPrimitive p))
    {m : Layout Single} (hz : m.zoom = .unit) (origin : Point Single) :
    l.SavesShapeAlike m p.shape ((l.savedPrimitive p).restored origin .unit s).shape := by
  have hwhole : ∀ x ∈ p.shape.lengths, (l.savedLength x).Whole :=
    fun x hx => whole_length (h.lengths.shapes p hp x hx)
  have hresaved : ∀ x low high, (l.savedLength x).Whole →
      Single.FromLimit low (l.savedLength x) ∧ Single.UpToLimit (l.savedLength x) high →
      (l.savedLength x == m.savedLength
        (Scalar.clamp (l.savedLength x) low high * (Zoom.unit : Zoom Single).factor)) = true := by
    intro x low high hx hlimit
    have heq := Single.resaved_length hlimit.1 hlimit.2 hx
    rw [← hz] at heq ⊢
    exact heq
  obtain ⟨shape, position, marked⟩ := p
  cases shape with
  | rect w height =>
    obtain ⟨hw, hh⟩ := hlimits
    exact ⟨hresaved w _ _ (hwhole w (by simp [PrimitiveShape.lengths])) hw,
      hresaved height _ _ (hwhole height (by simp [PrimitiveShape.lengths])) hh⟩
  | circle r => exact hresaved r _ _ (hwhole r (by simp [PrimitiveShape.lengths])) hlimits

/-- A document that fits is saved again as it is. -/
theorem same_resaved (hl : l.Consistent) (hs : l.placements.Sourced catalog)
    (h : l.Within 100000) (hfits : l.save.Fits catalog s) :
    l.save.same (l.save.layout catalog s .unit nextId).save = true := by
  have hside : ∀ side : Single, side.isFinite = true → |side.toRat| ≤ 100000 →
      Single.FromLimit s.tray.minSize side.round →
      (side.round == (Scalar.max side.round s.tray.minSize).round) = true := by
    intro side hfinite hbound hlimit
    have hwhole := Single.whole_round hfinite (by linarith)
    obtain ⟨hmax, hle, hround⟩ := hlimit.max_eq hwhole
    exact Single.beq_round hwhole hmax hle hround
  have hwidth := hside _ h.width.1 h.width.2 hfits.width
  have hheight := hside _ h.height.1 h.height.2 hfits.height
  have htray : l.save.tray.same (l.save.layout catalog s .unit nextId).save.tray = true := by
    simp only [TrayRecord.same, Bool.and_eq_true_iff]
    exact ⟨⟨hwidth, hheight⟩, decide_eq_true rfl⟩
  have hprimitives : l.save.primitives.isEqv
      (l.save.layout catalog s .unit nextId).save.primitives PrimitiveRecord.same = true := by
    show (l.primitives.values.map _).isEqv
      ((l.save.layout catalog s .unit nextId).primitives.values.map _) _ = _
    rw [primitives_layout, List.map_map]
    apply isEqv_map_map
    intro p hp
    have hplace := savesAlike_primitive nextId h hp catalog s
    have hlimits := hfits.primitives _ (List.mem_map_of_mem hp)
    exact same_savedPrimitive hplace (savesShapeAlike_restored h hp hlimits rfl _)
  -- a label that is not moved is at a whole place, as a contour is
  have hlabels : l.save.labels.isEqv (l.save.layout catalog s .unit nextId).save.labels
      LabelRecord.same = true := by
    have hvalues : (l.save.layout catalog s .unit nextId).labels.values =
        l.labels.values.map fun label => (l.savedLabel label).restored (l.tray.origin .unit) := by
      refine (SlotTable.values_ofValues _).trans ?_
      have hsaved : l.labels.values.map
          (fun label => (l.savedLabel label).restored (l.tray.origin .unit)) =
          l.save.labels.map (·.restored (l.tray.origin .unit)) := by
        show _ = (l.labels.values.map l.savedLabel).map _
        rw [List.map_map]
        rfl
      rw [ownedLabels_save hl hs, hsaved]
      apply List.map_congr_left
      intro r hr
      exact hfits.labels r hr
    show (l.labels.values.map _).isEqv
      ((l.save.layout catalog s .unit nextId).labels.values.map _) _ = _
    rw [hvalues, List.map_map]
    apply isEqv_map_map
    intro label hlabel
    exact same_savedLabel (h.savesAlike_restored (h.lengths.labels label hlabel) rfl rfl) rfl
  exact Workspace.same_of_parts htray (contours_resaved nextId hl hs h s) hprimitives hlabels rfl

/-- A saved layout of the catalog of a manifest, whose lengths are finite and of no more than a
    hundred metres, is restored on any tray without fail, and saved again. Then all contours are
    saved as they were, and all primitives at the places where they were. The whole document is
    the same if it fits: if its sizes are within the limits, and if no label is moved when it is
    restored. -/
theorem save_restore_save {manifest : Manifest Single} {l : Layout Single}
    (h : l.Stocked manifest.catalog) (hwithin : l.Within 100000) (s : Settings Single)
    (tray : Tray Single) :
    ∃ summary m, (make tray).restore l.save manifest.catalog s = (.ok summary, m) ∧
      summary.isComplete = true ∧
      l.save.contours.isEqv m.save.contours ContourRecord.same = true ∧
      (l.save.primitives.map PrimitiveRecord.place).isEqv
        (m.save.primitives.map PrimitiveRecord.place) Point.same = true ∧
      (l.save.Fits manifest.catalog s → l.save.same m.save = true) := by
  have hl := h.attainable.consistent
  have hs := h.sourced (Catalog.keyed_ofItems _ _)
  have hversion : l.save.schemaVersion = schemaVersion := rfl
  -- a new layout is in millimetres, so nothing is stretched
  have hrestore := (make tray).restore_eq hversion manifest.catalog s
  rw [zoom_rescaleTo] at hrestore
  rw [show (l.save.layout manifest.catalog s .unit (make tray).placements.nextId).rescaleTo
    (make tray).zoom = l.save.layout manifest.catalog s .unit (make tray).placements.nextId from
    rescaleTo_self _] at hrestore
  refine ⟨_, _, hrestore, isComplete_save hl hs, ?_, ?_, ?_⟩
  · exact contours_resaved _ hl hs hwithin s
  · exact primitives_resaved _ hwithin manifest.catalog s
  · intro hfits
    exact same_resaved _ hl hs hwithin hfits

/-- The turned wrench, with a pocket a quarter of a millimetre off. -/
def quarterPocket : Layout Single :=
  turnedWrench.run wrenchManifest.catalog .standard (fun _ => none)
    [.command (.addPrimitive (.circle 10.25) (some ⟨200.5, 300.5⟩))]

theorem save_restore_save_quarterPocket :
    ∃ summary m, (make (.default .standard)).restore quarterPocket.save wrenchManifest.catalog
        .standard = (.ok summary, m) ∧
      quarterPocket.save.labels.length = 1 ∧ quarterPocket.save.same m.save = true := by
  have hstocked : quarterPocket.Stocked wrenchManifest.catalog :=
    ((Stocked.make (.default .standard)).run .standard (fun _ => none) _).run .standard _ _
  have hwithin : quarterPocket.Within 100000 := by decide +kernel
  have hfits : quarterPocket.save.Fits wrenchManifest.catalog .standard :=
    ⟨by decide +kernel, by decide +kernel, by decide +kernel, by decide +kernel⟩
  obtain ⟨summary, m, hrestore, -, -, -, hsame⟩ :=
    save_restore_save hstocked hwithin .standard (.default .standard)
  exact ⟨summary, m, hrestore, by decide +kernel, hsame hfits⟩

/-- A wrench whose label was moved down as far as it goes. -/
def shiftedLabel : Layout Single :=
  (make (.default .standard)).run wrenchManifest.catalog .standard (fun _ => none)
    [.command (.place "wrench" (some ⟨40, 30.4⟩)), .command (.attachLabel 0 "10 mm" none),
      .command (.move (.label ⟨1, 1⟩) 0 100)]

/-- The label is saved a millimetre further up after the layout was restored. -/
theorem shiftedLabel_moves :
    let restored := (make (.default .standard)).restore shiftedLabel.save wrenchManifest.catalog
      .standard
    shiftedLabel.save.labels = [⟨0, "10 mm", 41, 21, 5⟩] ∧
      restored.2.save.labels = [⟨0, "10 mm", 41, 20, 5⟩] := by
  decide +kernel

end Layout

end FoamTray
