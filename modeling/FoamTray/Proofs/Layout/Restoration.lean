import FoamTray.Proofs.Geometry.Rotation
import FoamTray.Proofs.Layout.Restore
import FoamTray.Proofs.Layout.Zoom

/-! # What a restoration reinstates

    Which entries of a document come back, told from the document and the catalog alone, and what
    is counted for the others.

    * `ContourRecord.ComesBack` : the condition on a saved contour.
    * `outcome_cases` : a saved contour comes back, has an unknown item, or is rejected.
    * `Workspace.RestoredAs` : the layout in millimetres that the document stands for.
    * `restore_reinstates` : restoring a document gives exactly this, or refuses the document.
-/

namespace FoamTray

/-! ## Section 1: Saved contours that come back -/

namespace ContourRecord

/-- Whether the catalog has the item of a saved contour. -/
def Known (r : ContourRecord Single) (catalog : Catalog Single) : Prop :=
  ∃ item, catalog.find? r.itemId = some item

/-- Whether a saved contour comes back after others: its item is known, no earlier contour with a
    known item has its number, and its angle is a finite multiple of a right angle. -/
structure ComesBack (r : ContourRecord Single) (catalog : Catalog Single)
    (earlier : List (ContourRecord Single)) : Prop where
  /-- The catalog has the item. -/
  known : r.Known catalog
  /-- The number is new. -/
  fresh : ∀ e ∈ earlier, e.Known catalog → e.placementId ≠ r.placementId
  /-- The angle is a number. -/
  finite : r.angle.isFinite = true
  /-- The angle is a whole number of quarter turns. -/
  quarters : ∃ k : Int, r.angle.toRat = 90 * k

/-- What a saved contour comes back as, in millimetres: an unmoved and unmarked contour of its
    item at the saved place, in the orientation that differs from the saved angle by full turns. -/
def BackAs (r : ContourRecord Single) (catalog : Catalog Single) (origin : Point Single)
    (c : Contour Single) : Prop :=
  ∃ item rotation, catalog.find? r.itemId = some item ∧
    (∃ k : Int, r.angle.toRat = (rotation : Rotation).degrees + 360 * k) ∧
    c = .make r.placementId item (origin.translate r.x r.y) rotation (r.restoredScale item)

variable {catalog : Catalog Single} {earlier : List (ContourRecord Single)}
  {r : ContourRecord Single}

theorem mem_takenIds {id : Nat} :
    id ∈ takenIds catalog earlier ↔ ∃ e ∈ earlier, e.Known catalog ∧ e.placementId = id := by
  unfold takenIds isKnown Known
  simp only [List.mem_map, List.mem_filter, Option.isSome_iff_exists, and_assoc]

/-- The fates of a saved contour, as the loop tells them, are those that the document tells. -/
theorem outcome_cases (catalog : Catalog Single) (earlier : List (ContourRecord Single))
    (r : ContourRecord Single) :
    (¬ r.Known catalog ∧ r.fateAfter catalog earlier = .unknownItem) ∨
    (r.Known catalog ∧ ¬ r.ComesBack catalog earlier ∧
      (r.fateAfter catalog earlier = .repeated ∨ r.fateAfter catalog earlier = .oblique)) ∨
    (r.ComesBack catalog earlier ∧ ∃ item rotation, catalog.find? r.itemId = some item ∧
      Rotation.normalize? r.angle = some rotation ∧
      r.fateAfter catalog earlier = .placed item rotation) := by
  unfold fateAfter
  rcases r.fate_cases catalog (takenIds catalog earlier) with
    ⟨hf, hi⟩ | ⟨item, hi, ⟨hf, hs⟩ | ⟨hf, hs, hr⟩ | ⟨rotation, hf, hs, hr⟩⟩
  · refine .inl ⟨?_, hf⟩
    rintro ⟨item, hitem⟩
    rw [hi] at hitem
    cases hitem
  · refine .inr (.inl ⟨⟨item, hi⟩, fun hback => ?_, .inl hf⟩)
    obtain ⟨e, he, hknown, hid⟩ := mem_takenIds.mp hs
    exact hback.fresh e he hknown hid
  · refine .inr (.inl ⟨⟨item, hi⟩, fun hback => ?_, .inr hf⟩)
    obtain ⟨rotation, hsome⟩ :=
      (Rotation.exists_normalize?_iff r.angle).mpr ⟨hback.finite, hback.quarters⟩
    rw [hr] at hsome
    cases hsome
  · obtain ⟨hfinite, hquarters⟩ := (Rotation.exists_normalize?_iff r.angle).mp ⟨rotation, hr⟩
    refine .inr (.inr ⟨⟨⟨item, hi⟩, ?_, hfinite, hquarters⟩, item, rotation, hi, hr, hf⟩)
    exact fun e he hknown hid => hs (mem_takenIds.mpr ⟨e, he, hknown, hid⟩)

theorem isSome_accepted?_iff :
    ((r.fateAfter catalog earlier).accepted? r).isSome = true ↔ r.ComesBack catalog earlier := by
  rcases r.outcome_cases catalog earlier with
    ⟨hno, hf⟩ | ⟨-, hno, hf | hf⟩ | ⟨hback, item, rotation, -, -, hf⟩
  · rw [hf]
    exact ⟨fun h => (nomatch h), fun h => absurd h.known hno⟩
  · rw [hf]
    exact ⟨fun h => (nomatch h), fun h => absurd h hno⟩
  · rw [hf]
    exact ⟨fun h => (nomatch h), fun h => absurd h hno⟩
  · rw [hf]
    exact ⟨fun _ => hback, fun _ => rfl⟩

instance (r : ContourRecord Single) (catalog : Catalog Single) : Decidable (r.Known catalog) :=
  decidable_of_iff ((catalog.find? r.itemId).isSome = true) Option.isSome_iff_exists

instance (r : ContourRecord Single) (catalog : Catalog Single)
    (earlier : List (ContourRecord Single)) : Decidable (r.ComesBack catalog earlier) :=
  decidable_of_iff _ isSome_accepted?_iff

/-- An accepted contour stands for a saved one that comes back. -/
theorem backAs_of_accepted {a : AcceptedContour Single}
    (h : (r.fateAfter catalog earlier).accepted? r = some a) (origin : Point Single) :
    r.BackAs catalog origin (a.contour origin) := by
  obtain ⟨hr, hi, -, hrotation⟩ := fateAfter_accepted h
  refine ⟨a.item, a.rotation, hi, ((Rotation.normalize?_eq_some_iff _ _).mp hrotation).2, ?_⟩
  unfold AcceptedContour.contour
  rw [hr]

end ContourRecord

/-! ## Section 2: The three lists of a document -/

/-- A filter and a partial map that keep the same entries go through the list in step. -/
theorem forall₂_filter_filterMap {β γ : Type} {R : β → γ → Prop} {p : β → Prop} [DecidablePred p]
    {f : β → Option γ} (hp : ∀ b, (f b).isSome = true ↔ p b) (hR : ∀ b c, f b = some c → R b c)
    (bs : List β) : List.Forall₂ R (bs.filter (p ·)) (bs.filterMap f) := by
  induction bs with
  | nil => exact .nil
  | cons b rest ih =>
    cases hb : f b with
    | none =>
      have hno : ¬ p b := fun h => by simpa [hb] using (hp b).mpr h
      rw [List.filter_cons_of_neg (by simpa using hno), List.filterMap_cons_none hb]
      exact ih
    | some c =>
      have hyes : p b := (hp b).mp (by rw [hb]; rfl)
      rw [List.filter_cons_of_pos (by simpa using hyes), List.filterMap_cons_some hb]
      exact .cons (hR b c hb) ih

namespace ContourRecord

/-- The contours that are placed are those of the saved ones that come back, in order. -/
theorem forall₂_accepted (catalog : Catalog Single) (origin : Point Single)
    (earlier records : List (ContourRecord Single)) :
    List.Forall₂ (fun e c => e.2.BackAs catalog origin c)
      ((withEarlier earlier records).filter fun e => e.2.ComesBack catalog e.1)
      ((accepted catalog earlier records).map (·.contour origin)) := by
  unfold accepted
  rw [List.map_filterMap]
  refine forall₂_filter_filterMap (fun e => ?_) (fun e c he => ?_) _
  · rw [Option.isSome_map]
    exact isSome_accepted?_iff
  · obtain ⟨a, ha, rfl⟩ := Option.map_eq_some_iff.mp he
    exact backAs_of_accepted ha origin

theorem unknownItems_eq (catalog : Catalog Single) (earlier records : List (ContourRecord Single)) :
    unknownItems catalog earlier records =
      (records.filter fun r => ¬ r.Known catalog).map (·.itemId) := by
  -- induction on the records that are left, with those before them
  induction records generalizing earlier with
  | nil => rfl
  | cons r rest ih =>
    rw [unknownItems_cons, ih]
    rcases r.outcome_cases catalog earlier with
      ⟨hno, hf⟩ | ⟨hknown, -, hf | hf⟩ | ⟨hback, item, rotation, -, -, hf⟩
    · simp [hf, hno, ContourFate.unknownItem?]
    · simp [hf, hknown, ContourFate.unknownItem?]
    · simp [hf, hknown, ContourFate.unknownItem?]
    · simp [hf, hback.known, ContourFate.unknownItem?]

theorem rejected_eq (catalog : Catalog Single) (earlier records : List (ContourRecord Single)) :
    rejected catalog earlier records =
      ((withEarlier earlier records).filter fun e =>
        e.2.Known catalog ∧ ¬ e.2.ComesBack catalog e.1).map (·.2.placementId) := by
  induction records generalizing earlier with
  | nil => rfl
  | cons r rest ih =>
    rw [rejected_cons, ih, withEarlier]
    rcases r.outcome_cases catalog earlier with
      ⟨hno, hf⟩ | ⟨hknown, hno, hf | hf⟩ | ⟨hback, item, rotation, -, -, hf⟩
    · simp [hf, hno, ContourFate.rejected?]
    · simp [hf, hknown, hno, ContourFate.rejected?]
    · simp [hf, hknown, hno, ContourFate.rejected?]
    · simp [hf, hback, ContourFate.rejected?]

/-- Every saved contour comes back or is reported, and only one of them. -/
theorem length_accepted (catalog : Catalog Single) (earlier records : List (ContourRecord Single)) :
    (accepted catalog earlier records).length + (unknownItems catalog earlier records).length +
      (rejected catalog earlier records).length = records.length := by
  induction records generalizing earlier with
  | nil => rfl
  | cons r rest ih =>
    have hrest := ih (earlier ++ [r])
    rw [accepted_cons, unknownItems_cons, rejected_cons, List.length_cons]
    simp only [List.length_append]
    -- one of the three grows by the entry
    rcases r.outcome_cases catalog earlier with
      ⟨-, hf⟩ | ⟨-, -, hf | hf⟩ | ⟨-, item, rotation, -, -, hf⟩
    all_goals
      rw [hf]
      simp only [ContourFate.accepted?, ContourFate.unknownItem?, ContourFate.rejected?,
        Option.toList, List.length_cons, List.length_nil]
      omega

end ContourRecord

/-! ## Section 3: The restored layout -/

namespace Workspace

/-- The layout in millimetres that a document stands for, with what is reported of the rest. -/
structure RestoredAs (doc : Workspace Single) (catalog : Catalog Single) (s : Settings Single)
    (summary : RestoreSummary) (m : Layout Single) : Prop where
  /-- Positions and sizes are millimetres. -/
  zoom : m.zoom = .unit
  /-- The tray has the saved sides, moved into the limits, at the saved distance. -/
  tray : m.tray = doc.restoredTray s
  /-- The foam is the saved one. -/
  material : m.material = doc.material
  /-- The contours that come back are placed, in order, and no others. -/
  contours : List.Forall₂ (fun e c => e.2.BackAs catalog (m.tray.origin .unit) c)
    ((withEarlier [] doc.contours).filter fun e => e.2.ComesBack catalog e.1)
    m.placements.contours
  /-- The items that the catalog does not have are reported, in order. -/
  unknownItems : summary.unknownItems =
    (doc.contours.filter fun r => ¬ r.Known catalog).map (·.itemId)
  /-- The other contours that do not come back are reported, in order. -/
  rejected : summary.rejected =
    ((withEarlier [] doc.contours).filter fun e =>
      e.2.Known catalog ∧ ¬ e.2.ComesBack catalog e.1).map (·.2.placementId)
  /-- All primitives come back, in order, at their places, their sizes moved into the limits. -/
  primitives : m.primitives.values =
    doc.primitives.map (·.restored (m.tray.origin .unit) .unit s)
  /-- The labels of the contours that came back do so too, in order, moved back to them. -/
  labels : m.labels.values =
    (doc.labels.filter (·.placementId ∈ m.placements.ids)).map fun r =>
      m.settled s (r.restored (m.tray.origin .unit))
  /-- The other labels are counted. -/
  orphaned : summary.orphaned = (doc.labels.filter (·.placementId ∉ m.placements.ids)).length
  /-- No contour is lost, and none is told of twice. -/
  all_contours : summary.contours + summary.unknownItems.length + summary.rejected.length =
    doc.contours.length
  /-- No primitive is lost. -/
  all_primitives : summary.primitives = doc.primitives.length
  /-- No label is lost. -/
  all_labels : summary.labels + summary.orphaned = doc.labels.length

variable (doc : Workspace Single) (catalog : Catalog Single) (s : Settings Single)

theorem ids_layout (z : Zoom Single) (nextId : Nat) :
    (doc.layout catalog s z nextId).placements.ids = doc.acceptedIds catalog := by
  show (Placements.ofContours nextId _).ids = _
  simp [Placements.ids_ofContours, acceptedIds, AcceptedContour.contour, Contour.make]

theorem contours_layout (z : Zoom Single) (nextId : Nat) :
    (doc.layout catalog s z nextId).placements.contours =
      (doc.accepted catalog).map (·.contour ((doc.restoredTray s).origin z)) := by
  show (Placements.ofContours nextId _).contours = _
  simp [Placements.ofContours]

theorem restoredAs_layout (nextId : Nat) :
    doc.RestoredAs catalog s (doc.summary catalog) (doc.layout catalog s .unit nextId) := by
  have hids := doc.ids_layout catalog s .unit nextId
  have hcontours := doc.contours_layout catalog s .unit nextId
  refine ⟨rfl, rfl, rfl, ?_, ?_, ?_, ?_, ?_, ?_, ?_, rfl, ?_⟩
  · rw [hcontours]
    exact ContourRecord.forall₂_accepted catalog _ [] doc.contours
  · exact ContourRecord.unknownItems_eq catalog [] doc.contours
  · exact ContourRecord.rejected_eq catalog [] doc.contours
  · exact SlotTable.values_ofValues _
  · rw [hids]
    refine (SlotTable.values_ofValues _).trans (List.map_congr_left fun r _ => ?_)
    exact (Layout.settled_congr rfl rfl s _).symm
  · rw [hids]
    rfl
  · exact ContourRecord.length_accepted catalog [] doc.contours
  -- a label is either owned or orphaned
  · have hlength := List.length_eq_length_filter_add
      (l := doc.labels) (fun r => decide (r.placementId ∈ doc.acceptedIds catalog))
    rw [hlength]
    simp [summary, ownedLabels]

/-- What is counted of a document are the sizes of what it makes. -/
theorem sizes_layout (z : Zoom Single) (nextId : Nat) :
    (doc.layout catalog s z nextId).placements.contours.length = (doc.summary catalog).contours ∧
      (doc.layout catalog s z nextId).primitives.size = (doc.summary catalog).primitives ∧
      (doc.layout catalog s z nextId).labels.size = (doc.summary catalog).labels := by
  refine ⟨?_, ?_, ?_⟩
  · rw [contours_layout, List.length_map]
    rfl
  · exact (SlotTable.size_ofValues _).trans (List.length_map _)
  · exact (SlotTable.size_ofValues _).trans (List.length_map _)

end Workspace

namespace Layout

/-- A document of another version is refused, and the layout stays as it is. Any other document
    is restored as the layout in millimetres that it stands for, stretched to the zoom of the
    layout that it replaces; the counts are the numbers of what is there afterwards. -/
theorem restore_reinstates (l : Layout Single) (doc : Workspace Single) (catalog : Catalog Single)
    (s : Settings Single) :
    (doc.schemaVersion ≠ schemaVersion ∧
      l.restore doc catalog s = (.error (.schemaMismatch doc.schemaVersion schemaVersion), l)) ∨
    (doc.schemaVersion = schemaVersion ∧ ∃ summary m,
      l.restore doc catalog s = (.ok summary, m.rescaleTo l.zoom) ∧
      doc.RestoredAs catalog s summary m ∧
      m.SameContents (m.rescaleTo l.zoom) ∧
      (m.rescaleTo l.zoom).zoom = l.zoom ∧
      (m.rescaleTo l.zoom).placements.contours.length = summary.contours ∧
      (m.rescaleTo l.zoom).primitives.size = summary.primitives ∧
      (m.rescaleTo l.zoom).labels.size = summary.labels) := by
  by_cases hv : doc.schemaVersion = schemaVersion
  · right
    -- what is restored is made in millimetres and then stretched
    let m := doc.layout catalog s .unit l.placements.nextId
    have hrestore := l.restore_eq hv catalog s
    rw [zoom_rescaleTo] at hrestore
    have hframe : m.SameContents (m.rescaleTo l.zoom) := m.rescaleTo_frame l.zoom
    obtain ⟨hcontours, hprimitives, hlabels⟩ :=
      doc.sizes_layout catalog s .unit l.placements.nextId
    have hlength := congrArg List.length hframe.identities
    rw [List.length_map, List.length_map] at hlength
    exact ⟨hv, doc.summary catalog, m, hrestore, doc.restoredAs_layout catalog s _, hframe,
      zoom_rescaleTo m l.zoom, hlength.trans hcontours, hframe.primitives.trans hprimitives,
      hframe.labels.trans hlabels⟩
  · exact .inl ⟨hv, l.restore_of_ne hv catalog s⟩

end Layout

end FoamTray
