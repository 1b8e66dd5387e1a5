import FoamTray.Catalog.Import
import FoamTray.Proofs.Layout.Numbering
import FoamTray.Proofs.Layout.RoundTrip
import FoamTray.Session.Run

/-! # What saving keeps

    Saving rounds positions and sizes. Everything else about a layout is in the document as it
    is: which contours there are and how they are turned and scaled, of which kinds the primitives
    are, and what the labels say. Restoring puts exactly this into any other layout, since that
    layout is cleared first, and clearing gives up all keys of primitives and labels.

    * `Stocked` : the layouts of one catalog. The settings and the rasterizer may be others at each
      step, as the structure does not depend on them.
    * `SameStructure` : what is kept.
    * `structure_survives` : it is kept by saving and restoring.
-/

namespace FoamTray

/-! ## Section 1: Layouts of one catalog -/

namespace Layout

variable {α : Type} [Coordinate α] {l : Layout α} {catalog : Catalog α}

/-- The layouts that histories with one catalog lead to. -/
inductive Stocked (catalog : Catalog α) : Layout α → Prop where
  | make (tray : Tray α) : Stocked catalog (.make tray)
  | act {l : Layout α} (s : Settings α) (rasterizer : Rasterizer α) (a : Action α)
      (h : Stocked catalog l) : Stocked catalog (l.act catalog s rasterizer a)

theorem Stocked.attainable (h : Stocked catalog l) : l.Attainable := by
  induction h with
  | make tray => exact .make tray
  | act s rasterizer a _ ih => exact .act catalog s rasterizer a ih

theorem Stocked.sourced (h : Stocked catalog l) (hkeyed : catalog.Keyed) :
    l.placements.Sourced catalog := by
  induction h with
  | make tray => exact fun c hc => absurd hc List.not_mem_nil
  | act s rasterizer a hl ih =>
    exact sourced_act ih hl.attainable.consistent hkeyed s rasterizer a

theorem Stocked.run (h : Stocked catalog l) (s : Settings α) (rasterizer : Rasterizer α)
    (actions : List (Action α)) : Stocked catalog (l.run catalog s rasterizer actions) := by
  induction actions generalizing l with
  | nil => exact h
  | cons a rest ih => exact ih (h.act s rasterizer a)

end Layout

/-- The layout of a session is of the session's catalog. -/
theorem Session.Reachable.stocked {α : Type} [Coordinate α] {catalog : Catalog α} {s : Settings α}
    {rasterizer : Rasterizer α} {x : Session α} (h : Reachable catalog s rasterizer x) :
    x.layout.Stocked catalog := by
  induction h with
  | make =>
    rw [layout_make catalog s rasterizer]
    exact .act s rasterizer _ (.make _)
  | @act x a hx ih =>
    rcases layout_act rasterizer x a with he | ⟨b, he⟩
    · rw [he]
      exact ih
    · rw [he, hx.catalog_eq]
      exact .act x.settings rasterizer b ih

/-! ## Section 2: The counter of a restored layout -/

/-- A counter lifted above numbers one by one ends up above the largest of them. -/
theorem foldl_max_succ (ids : List Nat) (n : Nat) :
    ids.foldl (fun n id => Nat.max n (id + 1)) n = Nat.max n (ids.max?.elim 0 (· + 1)) := by
  -- both are the least number that is neither below `n` nor below the successor of a number
  have hle : ∀ b, ids.foldl (fun n id => Nat.max n (id + 1)) n ≤ b ↔
      n ≤ b ∧ ∀ id ∈ ids, id + 1 ≤ b := by
    intro b
    induction ids generalizing n with
    | nil => simp
    | cons id rest ih =>
      rw [List.foldl_cons, ih, List.forall_mem_cons, ← and_assoc]
      exact and_congr_left fun _ => Nat.max_le
  have hmax : ∀ b, ids.max?.elim 0 (· + 1) ≤ b ↔ ∀ id ∈ ids, id + 1 ≤ b := by
    intro b
    cases hm : ids.max? with
    | none =>
      rw [List.max?_eq_none_iff.mp hm]
      simp
    | some largest =>
      obtain ⟨hmem, habove⟩ := List.max?_eq_some_iff.mp hm
      constructor
      · intro hb id hid
        have hid' := habove id hid
        have hb' : largest + 1 ≤ b := hb
        omega
      · intro hb
        exact hb largest hmem
  refine Nat.le_antisymm ?_ ?_
  · rw [hle]
    exact ⟨Nat.le_max_left _ _, (hmax _).mp (Nat.le_max_right _ _)⟩
  · obtain ⟨hn, hids⟩ := (hle _).mp (Nat.le_refl _)
    exact Nat.max_le.mpr ⟨hn, (hmax _).mpr hids⟩

theorem Placements.nextId_ofContours {α : Type} (nextId : Nat)
    (new : List (Contour α × CatalogItem α)) :
    (ofContours nextId new).nextId =
      Nat.max nextId ((ofContours nextId new).ids.max?.elim 0 (· + 1)) := by
  rw [ids_ofContours, ← foldl_max_succ, List.foldl_map]
  rfl

/-! ## Section 3: Structure -/

/-- What is saved of a contour without rounding. -/
def Contour.kept {α : Type} (c : Contour α) : Nat × String × Rotation × α :=
  (c.id, c.itemId, c.rotation, c.scaleOverride)

/-- What is saved of a label without rounding. -/
def Label.kept {α : Type} (label : Label α) : Nat × String × α :=
  (label.owner, label.text, label.fontSize)

namespace Layout

/-- The same contours, kinds of primitives and labels, in the same order, on the same foam. -/
structure SameStructure {α : Type} [Scalar α] (l m : Layout α) : Prop where
  contours : m.placements.contours.map Contour.kept = l.placements.contours.map Contour.kept
  primitives : m.primitives.values.map (·.shape.kind) = l.primitives.values.map (·.shape.kind)
  labels : m.labels.values.map Label.kept = l.labels.values.map Label.kept
  material : m.material = l.material

/-- Stretching keeps all of it. -/
theorem sameStructure_rescaleTo {α : Type} [Scalar α] (l : Layout α) (z : Zoom α) :
    l.SameStructure (l.rescaleTo z) := by
  unfold rescaleTo
  split
  · exact ⟨rfl, rfl, rfl, rfl⟩
  · refine ⟨?_, ?_, ?_, rfl⟩
    · dsimp only
      rw [List.map_map]
      exact List.map_congr_left fun c _ => rfl
    · dsimp only
      rw [SlotTable.values_map, List.map_map]
      refine List.map_congr_left fun p _ => ?_
      show (p.shape.scaled _).kind = p.shape.kind
      cases p.shape <;> rfl
    · dsimp only
      rw [SlotTable.values_map, List.map_map]
      exact List.map_congr_left fun label _ => rfl

theorem SameStructure.trans {α : Type} [Scalar α] {l m n : Layout α} (h : l.SameStructure m)
    (h' : m.SameStructure n) : l.SameStructure n where
  contours := h'.contours.trans h.contours
  primitives := h'.primitives.trans h.primitives
  labels := h'.labels.trans h.labels
  material := h'.material.trans h.material

/-- Moving a label to its contour changes nothing but its place. -/
theorem kept_settled {α : Type} [Scalar α] (l : Layout α) (s : Settings α) (label : Label α) :
    (l.settled s label).kept = label.kept := by
  unfold settled
  split
  · rw [Label.movedInto_eq]
    rfl
  · rfl

/-- A primitive that was saved comes back as one of its kind. -/
theorem kind_restored {α : Type} [Coordinate α] (l : Layout α) (p : Primitive α) (origin : Point α)
    (z : Zoom α) (s : Settings α) :
    ((l.savedPrimitive p).restored origin z s).shape.kind = p.shape.kind := by
  unfold savedPrimitive
  cases p.shape with
  | rect w h => rfl
  | circle r => rfl

/-- A contour that was saved comes back as the same one. -/
theorem kept_saved {l : Layout Single} {catalog : Catalog Single} (hl : l.Consistent)
    (hs : l.placements.Sourced catalog) {e : Contour Single × CatalogItem Single}
    (he : e ∈ l.placements.withItems) (origin : Point Single) :
    (AcceptedContour.contour ⟨l.savedContour e.1 e.2, e.2, e.1.rotation⟩ origin).kept =
      e.1.kept := by
  have hshows := hl.placements.shows_withItems he
  unfold AcceptedContour.contour Contour.make Contour.kept
  rw [restoredScale_saved l (hs.of_mem_withItems he).2]
  dsimp only
  rw [← hshows.1]
  rfl

/-- The layout in millimetres that a saved layout comes back as has its structure. -/
theorem sameStructure_save {l : Layout Single} {catalog : Catalog Single} (hl : l.Consistent)
    (hs : l.placements.Sourced catalog) (s : Settings Single) (nextId : Nat) :
    l.SameStructure (l.save.layout catalog s .unit nextId) where
  contours := by
    rw [Workspace.contours_layout, accepted_save hl hs, ← hl.placements.map_fst_withItems]
    unfold savedContours
    rw [List.map_map, List.map_map, List.map_map]
    refine List.map_congr_left fun e he => ?_
    exact kept_saved hl hs he _
  primitives := by
    show (SlotTable.ofValues _).values.map _ = _
    rw [SlotTable.values_ofValues, List.map_map]
    show (l.primitives.values.map _).map _ = _
    rw [List.map_map]
    exact List.map_congr_left fun p _ => kind_restored l p _ _ s
  labels := by
    show (SlotTable.ofValues _).values.map _ = _
    rw [SlotTable.values_ofValues, ownedLabels_save hl hs]
    show ((l.labels.values.map _).map _).map _ = _
    rw [List.map_map, List.map_map]
    refine List.map_congr_left fun label _ => ?_
    exact kept_settled _ s _
  material := rfl

/-- The counter of what a saved layout comes back as is above the numbers of its contours. -/
theorem nextId_save {l : Layout Single} {catalog : Catalog Single} (hl : l.Consistent)
    (hs : l.placements.Sourced catalog) (s : Settings Single) (nextId : Nat) :
    (l.save.layout catalog s .unit nextId).placements.nextId =
      Nat.max nextId (l.placements.ids.max?.elim 0 (· + 1)) := by
  have hids := l.save.ids_layout catalog s .unit nextId
  rw [acceptedIds_save hl hs] at hids
  rw [← hids]
  exact Placements.nextId_ofContours nextId _

/-- A saved layout of the catalog of a manifest can be restored into any layout, with any settings,
    and nothing is left out. That layout then has its contours, with their numbers, items,
    orientations and factors; primitives of its kinds; its labels, with their contours, texts and
    fonts; and its foam, all in its order. The counter is where it was, or above the numbers of
    the contours. -/
theorem structure_survives {manifest : Manifest Single} {l : Layout Single}
    (h : l.Stocked manifest.catalog) (m : Layout Single) (s : Settings Single) :
    ∃ summary m', m.restore l.save manifest.catalog s = (.ok summary, m') ∧
      summary.isComplete = true ∧ l.SameStructure m' ∧
      m'.placements.nextId =
        Nat.max m.placements.nextId (l.placements.ids.max?.elim 0 (· + 1)) := by
  have hl := h.attainable.consistent
  have hs := h.sourced (Catalog.keyed_ofItems _ _)
  have hversion : l.save.schemaVersion = schemaVersion := rfl
  have hrestore := m.restore_eq hversion manifest.catalog s
  rw [zoom_rescaleTo] at hrestore
  refine ⟨_, _, hrestore, isComplete_save hl hs, ?_, ?_⟩
  · exact (sameStructure_save hl hs s _).trans (sameStructure_rescaleTo _ m.zoom)
  · rw [nextId_rescaleTo]
    exact nextId_save hl hs s _

/-- The wrench as it is written down. -/
def wrenchManifest : Manifest Single :=
  ⟨[{ id := "wrench", article := "W-10", name := "Wrench", category := none, enabled := true
      cuttingLength := 0, scaleOverride := none, assets := ⟨"wrench.svg", none⟩, shape := none
      width := some 30, height := some 10 }], .empty⟩

/-- A wrench on its side with a label, after another one was deleted. -/
def turnedWrench : Layout Single :=
  (make (.default .standard)).run wrenchManifest.catalog .standard (fun _ => none)
    [.command (.place "wrench" none), .command (.place "wrench" none),
      .command (.delete (.contour 0)), .command (.rotateStep 1), .command (.setZoom 2),
      .command (.attachLabel 1 "10 mm" none)]

/-- The turned wrench takes the place of the labelled one. -/
theorem structure_survives_turnedWrench :
    turnedWrench.placements.contours.map Contour.kept = [(1, "wrench", .deg90, 1)] ∧
      ∃ summary m, labelledWrench.restore turnedWrench.save wrenchManifest.catalog .standard =
        (.ok summary, m) ∧ summary.isComplete = true ∧ turnedWrench.SameStructure m ∧
        m.placements.nextId = 2 := by
  have hstocked : turnedWrench.Stocked wrenchManifest.catalog :=
    (Stocked.make (.default .standard)).run .standard (fun _ => none) _
  have hkept : turnedWrench.placements.contours.map Contour.kept =
      [(1, "wrench", .deg90, 1)] := by decide +kernel
  obtain ⟨summary, m, hrestore, hcomplete, hsame, hnext⟩ :=
    structure_survives hstocked labelledWrench .standard
  refine ⟨hkept, summary, m, hrestore, hcomplete, hsame, ?_⟩
  rw [hnext]
  decide +kernel

end Layout

end FoamTray
