import FoamTray.Proofs.Layout.Structure

/-! # Restoring forgets what was there

    Of the layout that a document replaces, two things go into the new one: the zoom, which stays,
    and the counter of placements, which is only ever lifted. The rest is cleared first, with the
    selection, the marks and the freed slots; the tray and the foam are those of the document.

    * `withNextId` : a layout with another counter.
    * `layout_withNextId`, `rescaleTo_withNextId` : the counter goes through a restoration without
      being looked at.
    * `restore_forgets` : two layouts at one zoom become one, up to the counter.
-/

namespace FoamTray

/-! ## Section 1: The counter -/

namespace Layout

variable {α : Type} [Scalar α] {l m : Layout α}

/-- The layout with another counter of placements. -/
def withNextId (l : Layout α) (n : Nat) : Layout α :=
  { l with placements := { l.placements with nextId := n } }

theorem rescaleTo_withNextId (l : Layout α) (n : Nat) (z : Zoom α) :
    (l.withNextId n).rescaleTo z = (l.rescaleTo z).withNextId n := by
  unfold rescaleTo withNextId
  dsimp only
  split <;> rfl

theorem ids_rescaleTo (l : Layout α) (z : Zoom α) :
    (l.rescaleTo z).placements.ids = l.placements.ids := by
  unfold rescaleTo
  split
  · rfl
  · exact List.map_map.trans (List.map_congr_left fun _ _ => rfl)

/-- The zoom that a layout is stretched to is told from the zoom of before. -/
theorem zoom_rescaleTo_congr (h : l.zoom = m.zoom) (z : Zoom α) :
    (l.rescaleTo z).zoom = (m.rescaleTo z).zoom := by
  unfold rescaleTo
  rw [h]
  split
  · exact h
  · rfl

end Layout

namespace Workspace

variable {α : Type} [Coordinate α] (doc : Workspace α) (catalog : Catalog α) (s : Settings α)
  (z : Zoom α)

/-- Documents place their contours under their own numbers: a counter changes nothing but the
    counter. -/
theorem layout_withNextId (n m : Nat) :
    doc.layout catalog s z n =
      (doc.layout catalog s z m).withNextId (doc.layout catalog s z n).placements.nextId := by
  have hsettled : ∀ label, (doc.bare catalog s z n).settled s label =
      (doc.bare catalog s z m).settled s label := fun _ => rfl
  unfold layout Layout.withNextId
  simp only [hsettled]
  rfl

theorem nextId_layout (n : Nat) :
    (doc.layout catalog s z n).placements.nextId =
      Nat.max n ((doc.layout catalog s z n).placements.ids.max?.elim 0 (· + 1)) :=
  Placements.nextId_ofContours n _

end Workspace

/-! ## Section 2: Two layouts at one zoom -/

namespace Layout

variable {α : Type} [Coordinate α]

/-- Of two layouts at one zoom, whatever is on them and whatever happened to them, a document
    makes the same layout, and its restoration is told in the same summary: every contour,
    primitive and label is the same, in the same order and under the same key; so are the free
    slots, the items, the selection, the marks, the tray, the zoom and the foam. Only the counter
    of placements may differ: each stays where it was, or comes after the largest number of the
    document. -/
theorem restore_forgets {l m : Layout α} (hzoom : l.zoom = m.zoom) {doc : Workspace α}
    (hv : doc.schemaVersion = schemaVersion) (catalog : Catalog α) (s : Settings α) :
    ∃ summary l' m', l.restore doc catalog s = (.ok summary, l') ∧
      m.restore doc catalog s = (.ok summary, m') ∧
      l' = m'.withNextId l'.placements.nextId ∧
      l'.placements.nextId =
        Nat.max l.placements.nextId (l'.placements.ids.max?.elim 0 (· + 1)) ∧
      m'.placements.nextId =
        Nat.max m.placements.nextId (m'.placements.ids.max?.elim 0 (· + 1)) := by
  refine ⟨_, _, _, l.restore_eq hv catalog s, m.restore_eq hv catalog s, ?_, ?_, ?_⟩
  -- both are made of the document at one zoom, and then stretched to one zoom
  · rw [nextId_rescaleTo, zoom_rescaleTo_congr hzoom, hzoom, ← rescaleTo_withNextId,
      ← doc.layout_withNextId]
  · rw [nextId_rescaleTo, ids_rescaleTo]
    exact doc.nextId_layout catalog s _ _
  · rw [nextId_rescaleTo, ids_rescaleTo]
    exact doc.nextId_layout catalog s _ _

/-- A tray on which a wrench was deleted, another one is turned, and a label and a pocket took
    slots that had been used before. -/
def reusedTray : Layout Single :=
  (make (.default .standard)).run wrenchCatalog .standard (fun _ => none)
    [.command (.place "wrench" none), .command (.place "wrench" none),
      .command (.attachLabel 0 "10 mm" none), .command (.delete (.contour 0)),
      .command (.attachLabel 1 "right" none), .command (.rotateStep 1),
      .command (.addPrimitive (.circle 20) none), .command (.delete (.primitive ⟨1, 1⟩)),
      .command (.addPrimitive (.rect 30 40) none), .command (.resizeTray 300 200), .check]

/-- Restored there, the labelled wrench is the one that an empty tray gets, but for the number of
    the next placement. -/
theorem restore_forgets_reusedTray :
    reusedTray.labels.keys = [⟨1, 3⟩] ∧ reusedTray.primitives.keys = [⟨1, 3⟩] ∧
      ∃ summary l' m',
        reusedTray.restore labelledWrench.save wrenchCatalog .standard = (.ok summary, l') ∧
        (make (.default .standard)).restore labelledWrench.save wrenchCatalog .standard =
          (.ok summary, m') ∧
        l' = m'.withNextId 2 := by
  refine ⟨by decide +kernel, by decide +kernel, ?_⟩
  have hzoom : reusedTray.zoom = (make (.default .standard)).zoom :=
    Zoom.eq_of_beq (by decide +kernel)
  have hversion : labelledWrench.save.schemaVersion = schemaVersion := rfl
  obtain ⟨summary, l', m', hl, hm, hsame, hnext, -⟩ :=
    restore_forgets hzoom hversion wrenchCatalog .standard
  refine ⟨summary, l', m', hl, hm, ?_⟩
  have htwo : l'.placements.nextId = 2 := by
    have hcomputed : (reusedTray.restore labelledWrench.save wrenchCatalog
        .standard).2.placements.nextId = 2 := by decide +kernel
    rw [hl] at hcomputed
    exact hcomputed
  rw [htwo] at hsame
  exact hsame

end Layout

end FoamTray
