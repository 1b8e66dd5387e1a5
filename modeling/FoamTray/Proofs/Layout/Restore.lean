import FoamTray.Layout.Restore
import FoamTray.Proofs.Layout.Edit

/-! # Restoring in closed form

    The three loops of a restoration as three filters over the document.

    * `withEarlier` : what a loop over a document has before it at each entry.
    * `ContourRecord.fateAfter` : what becomes of an entry, told from the entries before it.
    * `Workspace.accepted`, `Workspace.summary`, `Workspace.layout` : the contours that come back,
      what is counted, and the layout that the document makes of an empty tray.
    * `replaceWith_eq`, `restore_eq` : the loops compute exactly these.
-/

namespace FoamTray

/-! ## Section 1: Entries with the entries before them -/

/-- Every entry of a list with the entries before it, after some others. -/
def withEarlier {β : Type} (earlier : List β) : List β → List (List β × β)
  | [] => []
  | b :: rest => (earlier, b) :: withEarlier (earlier ++ [b]) rest

theorem filterMap_withEarlier_cons {β γ : Type} (f : List β × β → Option γ) (earlier : List β)
    (b : β) (rest : List β) :
    (withEarlier earlier (b :: rest)).filterMap f =
      (f (earlier, b)).toList ++ (withEarlier (earlier ++ [b]) rest).filterMap f := by
  rw [withEarlier, List.filterMap_cons]
  cases f (earlier, b) <;> rfl

namespace ContourRecord

variable {α : Type}

/-- Whether the catalog has the item of a saved contour. -/
def isKnown (r : ContourRecord α) (catalog : Catalog α) : Bool := (catalog.find? r.itemId).isSome

/-- The numbers that saved contours with known items take. -/
def takenIds (catalog : Catalog α) (records : List (ContourRecord α)) : List Nat :=
  (records.filter (·.isKnown catalog)).map (·.placementId)

theorem takenIds_append (catalog : Catalog α) (earlier : List (ContourRecord α))
    (r : ContourRecord α) :
    takenIds catalog (earlier ++ [r]) =
      takenIds catalog earlier ++ if r.isKnown catalog then [r.placementId] else [] := by
  unfold takenIds
  rw [List.filter_append, List.map_append]
  congr 1
  by_cases hk : r.isKnown catalog <;> simp [hk]

/-- An unknown item takes no number. -/
theorem takenIds_append_unknown {catalog : Catalog α} {r : ContourRecord α}
    (hi : catalog.find? r.itemId = none) (earlier : List (ContourRecord α)) :
    takenIds catalog (earlier ++ [r]) = takenIds catalog earlier := by
  have hno : ¬ r.isKnown catalog = true := by simp [isKnown, hi]
  rw [takenIds_append, if_neg hno, List.append_nil]

/-- A known one takes its number, whatever becomes of the contour. -/
theorem takenIds_append_known {catalog : Catalog α} {r : ContourRecord α} {item : CatalogItem α}
    (hi : catalog.find? r.itemId = some item) (earlier : List (ContourRecord α)) :
    takenIds catalog (earlier ++ [r]) = takenIds catalog earlier ++ [r.placementId] := by
  have hyes : r.isKnown catalog = true := by simp [isKnown, hi]
  rw [takenIds_append, if_pos hyes]

variable [Coordinate α] {catalog : Catalog α} {r : ContourRecord α}

/-- What becomes of a saved contour after others. -/
def fateAfter (r : ContourRecord α) (catalog : Catalog α) (earlier : List (ContourRecord α)) :
    ContourFate α :=
  r.fate catalog (takenIds catalog earlier)

/-- Of the numbers seen it matters only which ones they are. -/
theorem fate_congr {seen seen' : List Nat} (h : ∀ id, id ∈ seen ↔ id ∈ seen') :
    r.fate catalog seen = r.fate catalog seen' := by
  unfold fate
  cases catalog.find? r.itemId with
  | none => rfl
  | some item => simp only [h r.placementId]

/-- The fates of a saved contour, each with what leads to it. -/
theorem fate_cases (r : ContourRecord α) (catalog : Catalog α) (seen : List Nat) :
    (r.fate catalog seen = .unknownItem ∧ catalog.find? r.itemId = none) ∨
    (∃ item, catalog.find? r.itemId = some item ∧
      ((r.fate catalog seen = .repeated ∧ r.placementId ∈ seen) ∨
      (r.fate catalog seen = .oblique ∧ r.placementId ∉ seen ∧
        Rotation.normalize? r.angle = none) ∨
      (∃ rotation, r.fate catalog seen = .placed item rotation ∧ r.placementId ∉ seen ∧
        Rotation.normalize? r.angle = some rotation))) := by
  unfold fate
  cases hi : catalog.find? r.itemId with
  | none => exact .inl ⟨rfl, rfl⟩
  | some item =>
    refine .inr ⟨item, rfl, ?_⟩
    dsimp only
    by_cases hs : r.placementId ∈ seen
    · exact .inl ⟨if_pos hs, hs⟩
    · rw [if_neg hs]
      cases hr : Rotation.normalize? r.angle with
      | none => exact .inr (.inl ⟨rfl, hs, rfl⟩)
      | some rotation => exact .inr (.inr ⟨rotation, rfl, hs, rfl⟩)

end ContourRecord

/-! ## Section 2: What a document comes to -/

/-- A saved contour that comes back, with its item and its orientation. -/
structure AcceptedContour (α : Type) where
  /-- The saved contour. -/
  record : ContourRecord α
  /-- Its item. -/
  item : CatalogItem α
  /-- The orientation that its angle comes to. -/
  rotation : Rotation

/-- The contour that comes back, seen from the corner of the tray. -/
def AcceptedContour.contour {α : Type} [Coordinate α] (a : AcceptedContour α) (origin : Point α) :
    Contour α :=
  .make a.record.placementId a.item (origin.translate a.record.x a.record.y) a.rotation
    (a.record.restoredScale a.item)

namespace ContourFate

variable {α : Type}

/-- The contour that comes back. -/
def accepted? (r : ContourRecord α) : ContourFate α → Option (AcceptedContour α)
  | .placed item rotation => some ⟨r, item, rotation⟩
  | _ => none

/-- The item that the catalog does not have. -/
def unknownItem? (r : ContourRecord α) : ContourFate α → Option String
  | .unknownItem => some r.itemId
  | _ => none

/-- The number of a contour that is rejected. -/
def rejected? (r : ContourRecord α) : ContourFate α → Option Nat
  | .repeated | .oblique => some r.placementId
  | _ => none

end ContourFate

namespace ContourRecord

variable {α : Type} [Coordinate α]

/-- The saved contours that come back after others, in order. -/
def accepted (catalog : Catalog α) (earlier records : List (ContourRecord α)) :
    List (AcceptedContour α) :=
  (withEarlier earlier records).filterMap fun e => (e.2.fateAfter catalog e.1).accepted? e.2

/-- The items that the catalog does not have, one for each contour of one. -/
def unknownItems (catalog : Catalog α) (earlier records : List (ContourRecord α)) : List String :=
  (withEarlier earlier records).filterMap fun e => (e.2.fateAfter catalog e.1).unknownItem? e.2

/-- The numbers of the contours that are rejected after others. -/
def rejected (catalog : Catalog α) (earlier records : List (ContourRecord α)) : List Nat :=
  (withEarlier earlier records).filterMap fun e => (e.2.fateAfter catalog e.1).rejected? e.2

theorem accepted_cons (catalog : Catalog α) (earlier : List (ContourRecord α))
    (r : ContourRecord α) (rest : List (ContourRecord α)) :
    accepted catalog earlier (r :: rest) =
      ((r.fateAfter catalog earlier).accepted? r).toList ++
        accepted catalog (earlier ++ [r]) rest :=
  filterMap_withEarlier_cons _ earlier r rest

theorem unknownItems_cons (catalog : Catalog α) (earlier : List (ContourRecord α))
    (r : ContourRecord α) (rest : List (ContourRecord α)) :
    unknownItems catalog earlier (r :: rest) =
      ((r.fateAfter catalog earlier).unknownItem? r).toList ++
        unknownItems catalog (earlier ++ [r]) rest :=
  filterMap_withEarlier_cons _ earlier r rest

theorem rejected_cons (catalog : Catalog α) (earlier : List (ContourRecord α))
    (r : ContourRecord α) (rest : List (ContourRecord α)) :
    rejected catalog earlier (r :: rest) =
      ((r.fateAfter catalog earlier).rejected? r).toList ++
        rejected catalog (earlier ++ [r]) rest :=
  filterMap_withEarlier_cons _ earlier r rest

/-- What comes back of a saved contour is that contour, with an item of the catalog, under a
    number that no contour before it takes. -/
theorem fateAfter_accepted {catalog : Catalog α} {earlier : List (ContourRecord α)}
    {r : ContourRecord α} {a : AcceptedContour α}
    (h : (r.fateAfter catalog earlier).accepted? r = some a) :
    a.record = r ∧ catalog.find? r.itemId = some a.item ∧
      r.placementId ∉ takenIds catalog earlier ∧
      Rotation.normalize? r.angle = some a.rotation := by
  unfold fateAfter at h
  rcases r.fate_cases catalog (takenIds catalog earlier) with
    ⟨hf, -⟩ | ⟨item, hi, ⟨hf, -⟩ | ⟨hf, -, -⟩ | ⟨rotation, hf, hs, hr⟩⟩
  · rw [hf] at h
    cases h
  · rw [hf] at h
    cases h
  · rw [hf] at h
    cases h
  · rw [hf] at h
    cases h
    exact ⟨rfl, hi, hs, hr⟩

/-- The contours that come back have distinct numbers, none of them taken before. -/
theorem nodup_accepted (catalog : Catalog α) (earlier records : List (ContourRecord α)) :
    ((accepted catalog earlier records).map (·.record.placementId)).Nodup ∧
      ∀ a ∈ accepted catalog earlier records, a.record.placementId ∉ takenIds catalog earlier := by
  induction records generalizing earlier with
  | nil => exact ⟨List.nodup_nil, fun a ha => absurd ha List.not_mem_nil⟩
  | cons r rest ih =>
    obtain ⟨hnd, hfresh⟩ := ih (earlier ++ [r])
    rw [accepted_cons]
    -- what comes later avoids the numbers taken before it, so also those taken before `r`
    rw [takenIds_append] at hfresh
    have hrest : ∀ a ∈ accepted catalog (earlier ++ [r]) rest,
        a.record.placementId ∉ takenIds catalog earlier :=
      fun a ha hid => hfresh a ha (List.mem_append_left _ hid)
    cases ha : (r.fateAfter catalog earlier).accepted? r with
    | none => exact ⟨hnd, hrest⟩
    | some a =>
      obtain ⟨rfl, hi, hs, -⟩ := fateAfter_accepted ha
      have hknown : a.record.isKnown catalog = true := by simp [isKnown, hi]
      rw [if_pos hknown] at hfresh
      refine ⟨List.nodup_cons.mpr ⟨fun hid => ?_, hnd⟩, fun a' ha' => ?_⟩
      · obtain ⟨b, hb, hid⟩ := List.mem_map.mp hid
        exact hfresh b hb (List.mem_append_right _ (List.mem_singleton.mpr hid))
      · rcases List.mem_cons.mp ha' with rfl | ha'
        · exact hs
        · exact hrest a' ha'

/-- What comes back has an item that the catalog has under the saved name. -/
theorem find?_of_mem_accepted {catalog : Catalog α} {earlier records : List (ContourRecord α)}
    {a : AcceptedContour α} (h : a ∈ accepted catalog earlier records) :
    catalog.find? a.record.itemId = some a.item := by
  obtain ⟨e, -, he⟩ := List.mem_filterMap.mp h
  obtain ⟨hr, hi, -⟩ := fateAfter_accepted he
  rw [hr, hi]

end ContourRecord

/-- A saved primitive as it comes back. -/
def PrimitiveRecord.restored {α : Type} [Scalar α] (r : PrimitiveRecord α) (origin : Point α)
    (z : Zoom α) (s : Settings α) : Primitive α :=
  match r with
  | .rect x y w h =>
      ⟨((PrimitiveShape.rect w h).clamped s.primitives).scaled z.factor,
        origin.translate x y, false⟩
  | .circle x y radius =>
      ⟨((PrimitiveShape.circle radius).clamped s.primitives).scaled z.factor,
        origin.translate x y, false⟩

/-- A saved label at its place, before it is brought back to its contour. -/
def LabelRecord.restored {α : Type} [Scalar α] (r : LabelRecord α) (origin : Point α) : Label α :=
  ⟨r.placementId, r.text, origin.translate r.x r.y, r.fontSize⟩

/-- Contours with their items, as they stand after they were placed one after the other. -/
def Placements.ofContours {α : Type} (nextId : Nat) (new : List (Contour α × CatalogItem α)) :
    Placements α where
  contours := new.map (·.1)
  items := new.map fun e => (e.1.id, e.2)
  nextId := new.foldl (fun n e => Nat.max n (e.1.id + 1)) nextId
  active := new.getLast?.map (·.1.id)

namespace Placements

variable {α : Type}

theorem ids_ofContours (nextId : Nat) (new : List (Contour α × CatalogItem α)) :
    (ofContours nextId new).ids = new.map (·.1.id) := by
  simp [ids, ofContours]

/-- A further contour with a number of its own comes last. -/
theorem insert_ofContours [Scalar α] (nextId : Nat) (new : List (Contour α × CatalogItem α))
    {id : Nat} (hid : id ∉ (ofContours nextId new).ids) (item : CatalogItem α) (position : Point α)
    (rotation : Rotation) (scaleOverride : α) :
    (ofContours nextId new).insert id item position rotation scaleOverride =
      ofContours nextId (new ++ [(.make id item position rotation scaleOverride, item)]) := by
  rw [ids_ofContours] at hid
  have hitems : (new.map fun e => (e.1.id, e.2)).filter (·.1 ≠ id) =
      new.map fun e => (e.1.id, e.2) := by
    refine List.filter_eq_self.mpr fun x hx => ?_
    obtain ⟨e, he, rfl⟩ := List.mem_map.mp hx
    have hne : e.1.id ≠ id := fun h => hid (h ▸ List.mem_map_of_mem he)
    simpa using hne
  unfold insert ofContours
  dsimp only
  rw [hitems]
  simp [Contour.make, List.foldl_append]

end Placements

namespace Workspace

variable {α : Type} [Coordinate α]

/-- The saved contours that come back, in order. -/
def accepted (doc : Workspace α) (catalog : Catalog α) : List (AcceptedContour α) :=
  ContourRecord.accepted catalog [] doc.contours

/-- The numbers of the contours that come back. -/
def acceptedIds (doc : Workspace α) (catalog : Catalog α) : List Nat :=
  (doc.accepted catalog).map (·.record.placementId)

/-- The saved labels whose contours come back, in order. -/
def ownedLabels (doc : Workspace α) (catalog : Catalog α) : List (LabelRecord α) :=
  doc.labels.filter (·.placementId ∈ doc.acceptedIds catalog)

/-- What a restoration of the document counts. -/
def summary (doc : Workspace α) (catalog : Catalog α) : RestoreSummary where
  contours := (doc.accepted catalog).length
  primitives := doc.primitives.length
  labels := (doc.ownedLabels catalog).length
  unknownItems := ContourRecord.unknownItems catalog [] doc.contours
  rejected := ContourRecord.rejected catalog [] doc.contours
  orphaned := (doc.labels.filter (·.placementId ∉ doc.acceptedIds catalog)).length

/-- The tray of the document. -/
def restoredTray (doc : Workspace α) (s : Settings α) : Tray α :=
  { Tray.make doc.tray.width doc.tray.height s.tray with offset := doc.tray.offset }

/-- The contours and primitives of the document on its tray, at a zoom. -/
def bare (doc : Workspace α) (catalog : Catalog α) (s : Settings α) (z : Zoom α) (nextId : Nat) :
    Layout α :=
  let origin := (doc.restoredTray s).origin z
  { tray := doc.restoredTray s
    placements := .ofContours nextId
      ((doc.accepted catalog).map fun a => (a.contour origin, a.item))
    primitives := .ofValues (doc.primitives.map (·.restored origin z s))
    labels := .empty
    zoom := z
    material := doc.material }

/-- What the document makes of an empty tray at a zoom; new contours are numbered from `nextId`,
    or from above those of the document. -/
def layout (doc : Workspace α) (catalog : Catalog α) (s : Settings α) (z : Zoom α) (nextId : Nat) :
    Layout α :=
  let bare := doc.bare catalog s z nextId
  let origin := (doc.restoredTray s).origin z
  { bare with labels := .ofValues ((doc.ownedLabels catalog).map fun r =>
      bare.settled s (r.restored origin)) }

end Workspace

/-! ## Section 3: The loops -/

namespace Layout

variable {α : Type} [Coordinate α] {catalog : Catalog α} {s : Settings α} {l : Layout α}

/-- The loop over the contours. The numbers it has seen are those that the entries before take,
    and what it has placed has such numbers only. -/
theorem restoreContours_eq {nextId : Nat} {earlier : List (ContourRecord α)}
    {new : List (Contour α × CatalogItem α)} {seen : List Nat} {summary : RestoreSummary}
    (hseen : ∀ id, id ∈ seen ↔ id ∈ ContourRecord.takenIds catalog earlier)
    (hnew : ∀ e ∈ new, e.1.id ∈ seen) (hl : l.placements = .ofContours nextId new)
    (records : List (ContourRecord α)) :
    l.restoreContours catalog seen summary records =
      ({ summary with
          contours := summary.contours + (ContourRecord.accepted catalog earlier records).length
          unknownItems := summary.unknownItems ++ ContourRecord.unknownItems catalog earlier records
          rejected := summary.rejected ++ ContourRecord.rejected catalog earlier records },
        { l with placements := .ofContours nextId (new ++
            (ContourRecord.accepted catalog earlier records).map fun a =>
              (a.contour (l.tray.origin l.zoom), a.item)) }) := by
  induction records generalizing l earlier new seen summary with
  | nil =>
    unfold restoreContours ContourRecord.accepted ContourRecord.unknownItems ContourRecord.rejected
    simp [withEarlier, ← hl]
  | cons r rest ih =>
    have hfate : r.fateAfter catalog earlier = r.fate catalog seen :=
      ContourRecord.fate_congr fun id => (hseen id).symm
    rw [ContourRecord.accepted_cons, ContourRecord.unknownItems_cons, ContourRecord.rejected_cons,
      hfate]
    unfold restoreContours
    obtain ⟨hf, hi⟩ | ⟨item, hi, h⟩ := r.fate_cases catalog seen
    -- an unknown item takes no number, so the numbers seen stay those taken
    · have hseen' : ∀ id, id ∈ seen ↔ id ∈ ContourRecord.takenIds catalog (earlier ++ [r]) := by
        intro id
        rw [ContourRecord.takenIds_append_unknown hi, hseen id]
      rw [hf]
      dsimp only
      rw [ih hseen' hnew hl]
      simp [ContourFate.accepted?, ContourFate.unknownItem?, ContourFate.rejected?]
    have hcons : ∀ id, id ∈ r.placementId :: seen ↔
        id ∈ ContourRecord.takenIds catalog (earlier ++ [r]) := by
      intro id
      rw [ContourRecord.takenIds_append_known hi, List.mem_append, List.mem_cons,
        List.mem_singleton, hseen id, or_comm]
    have hnew' : ∀ e ∈ new, e.1.id ∈ r.placementId :: seen :=
      fun e he => List.mem_cons_of_mem _ (hnew e he)
    obtain ⟨hf, hs⟩ | ⟨hf, -, -⟩ | ⟨rotation, hf, hs, -⟩ := h
    -- a repeated number is seen already, so the loop need not note it again
    · have hseen' : ∀ id, id ∈ seen ↔ id ∈ ContourRecord.takenIds catalog (earlier ++ [r]) := by
        intro id
        rw [← hcons id, List.mem_cons]
        constructor
        · exact Or.inr
        · rintro (rfl | hid)
          · exact hs
          · exact hid
      rw [hf]
      dsimp only
      rw [ih hseen' hnew hl]
      simp [ContourFate.accepted?, ContourFate.unknownItem?, ContourFate.rejected?]
    -- an oblique contour takes its number without being placed
    · rw [hf]
      dsimp only
      rw [ih hcons hnew' hl]
      simp [ContourFate.accepted?, ContourFate.unknownItem?, ContourFate.rejected?]
    -- a contour that is placed has a number that no contour on the tray has
    · have hfresh : r.placementId ∉ (Placements.ofContours nextId new).ids := by
        rw [Placements.ids_ofContours]
        intro hid
        obtain ⟨e, he, hid⟩ := List.mem_map.mp hid
        exact hs (hid ▸ hnew e he)
      have hplaced := Placements.insert_ofContours nextId new hfresh item
        ((l.tray.origin l.zoom).translate r.x r.y) rotation (r.restoredScale item)
      rw [← hl] at hplaced
      have hmem : ∀ e ∈ new ++ [(Contour.make r.placementId item
          ((l.tray.origin l.zoom).translate r.x r.y) rotation (r.restoredScale item), item)],
          e.1.id ∈ r.placementId :: seen := by
        intro e he
        obtain he | he := List.mem_append.mp he
        · exact hnew' e he
        · rw [List.mem_singleton.mp he]
          exact List.mem_cons_self
      rw [hf]
      dsimp only
      rw [hplaced, ih (l := { l with placements := .ofContours nextId _ }) hcons hmem rfl]
      simp [ContourFate.accepted?, ContourFate.unknownItem?, ContourFate.rejected?,
        AcceptedContour.contour, Nat.add_assoc, Nat.add_comm 1]

theorem restorePrimitives_cons (l : Layout α) (s : Settings α) (r : PrimitiveRecord α)
    (rest : List (PrimitiveRecord α)) :
    l.restorePrimitives s (r :: rest) =
      ({ l with primitives := l.primitives.insert (r.restored (l.tray.origin l.zoom) l.zoom s) } :
        Layout α).restorePrimitives s rest := by
  cases r <;> rfl

/-- The loop over the primitives. -/
theorem restorePrimitives_eq {done : List (Primitive α)} (hl : l.primitives = .ofValues done)
    (records : List (PrimitiveRecord α)) :
    l.restorePrimitives s records =
      { l with
        primitives := .ofValues
          (done ++ records.map (·.restored (l.tray.origin l.zoom) l.zoom s)) } := by
  induction records generalizing l done with
  | nil =>
    rw [List.map_nil, List.append_nil, ← hl]
    rfl
  | cons r rest ih =>
    rw [restorePrimitives_cons, hl, SlotTable.insert_ofValues,
      ih (l := { l with primitives := .ofValues (done ++ [_]) }) rfl]
    simp

/-- The loop over the labels never fails: a label comes in only after its contour was found. -/
theorem restoreLabels_eq {done : List (Label α)} (hl : l.labels = .ofValues done)
    (summary : RestoreSummary) (records : List (LabelRecord α)) :
    let owned := records.filter (·.placementId ∈ l.placements.ids)
    l.restoreLabels s summary records =
      (.ok { summary with
          labels := summary.labels + owned.length
          orphaned := summary.orphaned +
            (records.filter (·.placementId ∉ l.placements.ids)).length },
        { l with
          labels := .ofValues
            (done ++ owned.map fun r => l.settled s (r.restored (l.tray.origin l.zoom))) }) := by
  induction records generalizing l done summary with
  | nil =>
    simp only [List.filter_nil, List.length_nil, Nat.add_zero, List.map_nil, List.append_nil, ← hl]
    rfl
  | cons r rest ih =>
    unfold restoreLabels
    -- a label without its contour is counted, any other comes in and is clamped
    cases hc : l.placements.find? r.placementId with
    | none =>
      have hid : r.placementId ∉ l.placements.ids := Placements.find?_eq_none_iff.mp hc
      dsimp only
      rw [ih hl]
      simp [hid, Nat.add_assoc, Nat.add_comm 1]
    | some c =>
      have hid : r.placementId ∈ l.placements.ids := Placements.mem_ids_of_find? hc
      have hv : l.labels.Valid := hl ▸ SlotTable.valid_ofValues done
      let label : Label α := r.restored (l.tray.origin l.zoom)
      have hc' : l.placements.find? label.owner = some c := hc
      have hclamp := clampLabel_insert (s := s) hv hc'
      have hsettled : ∀ label', ({ l with labels := l.labels.insert (l.settled s label) } :
          Layout α).settled s label' = l.settled s label' := settled_congr rfl rfl s
      have hl' : l.labels.insert (l.settled s label) = .ofValues (done ++ [l.settled s label]) := by
        rw [hl, SlotTable.insert_ofValues]
      show (Layout.clampLabel { l with labels := l.labels.insert label } l.labels.nextKey s).andThen
        _ = _
      rw [hclamp, Attempt.andThen_ok,
        ih (l := { l with labels := l.labels.insert (l.settled s label) }) hl']
      simp only [hsettled]
      simp [hid, Nat.add_assoc, Nat.add_comm 1, label]

/-! ## Section 4: The whole restoration -/

/-- The contents of a layout in millimetres are replaced without fail. -/
theorem replaceWith_eq (l : Layout α) (doc : Workspace α) (catalog : Catalog α) (s : Settings α) :
    l.replaceWith doc catalog s =
      (.ok (doc.summary catalog), doc.layout catalog s l.zoom l.placements.nextId) := by
  -- the labels look for their contours among those that were placed
  have hids : (doc.bare catalog s l.zoom l.placements.nextId).placements.ids =
      doc.acceptedIds catalog := by
    simp [Workspace.bare, Placements.ids_ofContours, Workspace.acceptedIds,
      AcceptedContour.contour, Contour.make]
  let cleared : Layout α :=
    { l.clear with tray := doc.restoredTray s, material := doc.material }
  have hseen : ∀ id, id ∈ ([] : List Nat) ↔ id ∈ ContourRecord.takenIds catalog [] :=
    fun id => Iff.rfl
  have hnew : ∀ e ∈ ([] : List (Contour α × CatalogItem α)), e.1.id ∈ ([] : List Nat) :=
    fun e he => absurd he List.not_mem_nil
  have hcleared : cleared.placements = .ofContours l.placements.nextId [] := rfl
  have hcontours : cleared.restoreContours catalog [] .empty doc.contours =
      ({ doc.summary catalog with primitives := 0, labels := 0, orphaned := 0 },
        { doc.bare catalog s l.zoom l.placements.nextId with primitives := .empty }) := by
    rw [restoreContours_eq hseen hnew hcleared]
    simp [RestoreSummary.empty, Workspace.summary, Workspace.bare, Workspace.accepted, cleared,
      clear]
  have hprimitives : ({ doc.bare catalog s l.zoom l.placements.nextId with
      primitives := .empty } : Layout α).restorePrimitives s doc.primitives =
        doc.bare catalog s l.zoom l.placements.nextId := by
    rw [restorePrimitives_eq SlotTable.ofValues_nil.symm]
    simp [Workspace.bare]
  have hlabels := restoreLabels_eq (l := doc.bare catalog s l.zoom l.placements.nextId) (s := s)
    SlotTable.ofValues_nil.symm
    { doc.summary catalog with primitives := doc.primitives.length, labels := 0, orphaned := 0 }
    doc.labels
  rw [hids] at hlabels
  show ((cleared.restoreContours catalog [] .empty doc.contours).2.restorePrimitives s
    doc.primitives).restoreLabels s
      { (cleared.restoreContours catalog [] .empty doc.contours).1 with
        primitives := doc.primitives.length } doc.labels = _
  rw [hcontours]
  dsimp only
  rw [hprimitives, hlabels]
  simp [Workspace.summary, Workspace.layout, Workspace.ownedLabels, Workspace.bare]

/-- A document of the right version is restored at unit zoom, and stretched from there. -/
theorem restore_eq (l : Layout α) {doc : Workspace α} (hv : doc.schemaVersion = schemaVersion)
    (catalog : Catalog α) (s : Settings α) :
    l.restore doc catalog s = (.ok (doc.summary catalog),
      (doc.layout catalog s (l.rescaleTo .unit).zoom l.placements.nextId).rescaleTo l.zoom) := by
  have hnext : (l.rescaleTo .unit).placements.nextId = l.placements.nextId := by
    unfold rescaleTo
    split <;> rfl
  unfold restore atUnitZoom
  dsimp only
  rw [if_pos hv, replaceWith_eq, hnext]

/-- A document of another version is refused, and nothing is touched. -/
theorem restore_of_ne (l : Layout α) {doc : Workspace α} (hv : doc.schemaVersion ≠ schemaVersion)
    (catalog : Catalog α) (s : Settings α) :
    l.restore doc catalog s =
      (.error (.schemaMismatch doc.schemaVersion schemaVersion), l) := by
  unfold restore
  rw [if_neg hv]

end Layout

end FoamTray
