import FoamTray.Proofs.Layout.Consistency

/-! # What a command does

    * `Layout.Change` : the ways in which an accepted command changes a layout.
    * `Attempt.Atomic` : an edit is refused with the layout untouched, or makes one such change.
    * `atomic_apply` : every command on a consistent layout is atomic.

    Contours that are moved or turned, and labels that are attached or edited, are followed by a
    clamp that could fail after the layout was changed. It does not: in a consistent layout the
    contour that it looks for is there.
-/

namespace FoamTray

/-! ## Section 1: Changes -/

/-- What an accepted command makes of a layout. -/
inductive Layout.Change {α : Type} [Coordinate α] (catalog : Catalog α) (s : Settings α)
    (l : Layout α) : Layout α → Prop where
  /-- Nothing. -/
  | unchanged : Change catalog s l l
  /-- Everything is stretched to another zoom. -/
  | rescaled (z : Zoom α) : Change catalog s l (l.rescaleTo z)
  /-- An item of the catalog is placed. -/
  | placed {itemId : String} {item : CatalogItem α} (position : Point α)
      (hi : catalog.find? itemId = some item) :
      Change catalog s l { l with placements := l.placements.place item position }
  /-- A contour is moved or turned, and its labels follow. -/
  | contourEdited {id : Nat} {c : Contour α} {f : Contour α → Contour α} {g : Label α → Label α}
      (hc : l.placements.find? id = some c) (hf : ∀ c, (f c).identity = c.identity)
      (hg : ∀ label, (g label).owner = label.owner) :
      Change catalog s l
        (({ l with placements := l.placements.update id f } : Layout α).resettleLabels id g s)
  /-- A contour is removed with its labels. -/
  | contourErased {id : Nat} {c : Contour α} (hc : l.placements.find? id = some c) :
      Change catalog s l { l with
        placements := l.placements.erase id
        labels := (l.labelKeys id).foldl (fun labels k => labels.erase k) l.labels }
  /-- A primitive comes in. -/
  | primitiveAdded (p : Primitive α) :
      Change catalog s l { l with primitives := l.primitives.insert p }
  /-- A primitive is moved or resized. -/
  | primitiveEdited (k : Key) (p : Primitive α) :
      Change catalog s l { l with primitives := l.primitives.set k p }
  /-- A primitive is removed. -/
  | primitiveErased (k : Key) : Change catalog s l { l with primitives := l.primitives.erase k }
  /-- A label of a contour comes in. -/
  | labelAttached {id : Nat} {c : Contour α} {label : Label α}
      (hc : l.placements.find? id = some c) (ho : label.owner = id) :
      Change catalog s l { l with labels := l.labels.insert label }
  /-- A label is edited. -/
  | labelEdited {k : Key} {old label : Label α} (hk : l.labels.get? k = some old)
      (ho : label.owner = old.owner) : Change catalog s l { l with labels := l.labels.set k label }
  /-- A label is removed. -/
  | labelErased (k : Key) : Change catalog s l { l with labels := l.labels.erase k }
  /-- The tray gets other sides. -/
  | trayResized (tray : Tray α) : Change catalog s l { l with tray := tray }

/-- A change keeps all references. -/
theorem Layout.Consistent.change {α : Type} [Coordinate α] {catalog : Catalog α} {s : Settings α}
    {l l' : Layout α} (h : l.Consistent) (hc : l.Change catalog s l') : l'.Consistent := by
  cases hc with
  | unchanged => exact h
  | rescaled z => exact h.rescaleTo z
  | placed position hi => exact h.place _ position
  | contourEdited hc hf hg => exact h.resettle hf hg _ s
  | contourErased hc =>
    -- all labels of the contour are among those that go with it
    refine h.removeContour fun k label hk ho => ?_
    exact Layout.mem_labelKeys.mpr ⟨label, hk, ho⟩
  | primitiveAdded p => exact h.setPrimitives (h.valid_primitives.insert p)
  | primitiveEdited k p => exact h.setPrimitives (h.valid_primitives.set k p)
  | primitiveErased k => exact h.setPrimitives (h.valid_primitives.erase k)
  | labelAttached hc ho =>
    refine h.insertLabel ?_
    rw [ho]
    exact Placements.mem_ids_of_find? hc
  | labelEdited hk ho =>
    refine h.setLabel _ ?_
    rw [ho]
    exact h.owner_mem _ _ hk
  | labelErased k => exact h.eraseLabel k
  | trayResized tray => exact h.setTray tray

/-! ## Section 2: Atomic edits -/

/-- The edit is refused and the layout is untouched, or it is accepted and makes one change. -/
def Attempt.Atomic {α β : Type} [Coordinate α] (catalog : Catalog α) (s : Settings α)
    (l : Layout α) (a : Attempt α β) : Prop :=
  (∃ e, a = (.error e, l)) ∨ ∃ b l', a = (.ok b, l') ∧ l.Change catalog s l'

namespace Attempt

variable {α β γ : Type} [Coordinate α] {catalog : Catalog α} {s : Settings α} {l : Layout α}
  {a : Attempt α β}

theorem Atomic.error (e : LayoutError α) : Atomic catalog s l ((.error e, l) : Attempt α β) :=
  .inl ⟨e, rfl⟩

theorem Atomic.ok (b : β) {l' : Layout α} (h : l.Change catalog s l') :
    Atomic catalog s l ((.ok b, l') : Attempt α β) :=
  .inr ⟨b, l', rfl, h⟩

/-- An answer that is made from another one changes nothing further. -/
theorem Atomic.map (h : Atomic catalog s l a) {f : β → γ} :
    Atomic catalog s l (a.andThen fun b l => (.ok (f b), l)) := by
  rcases h with ⟨e, rfl⟩ | ⟨b, l', rfl, hc⟩
  · exact .error e
  · exact .ok (f b) hc

/-- A refused edit leaves the layout as it was. -/
theorem Atomic.eq_of_error (h : Atomic catalog s l a) {e : LayoutError α} {l' : Layout α}
    (he : a = (.error e, l')) : l' = l := by
  rcases h with ⟨e', rfl⟩ | ⟨b, l'', rfl, -⟩
  · exact (Prod.mk.inj he).2.symm
  · cases (Prod.mk.inj he).1

/-- What an edit leaves behind, accepted or refused, is one change away. -/
theorem Atomic.change (h : Atomic catalog s l a) : l.Change catalog s a.2 := by
  rcases h with ⟨e, rfl⟩ | ⟨b, l', rfl, hc⟩
  · exact .unchanged
  · exact hc

end Attempt

/-! ## Section 3: Every command is atomic -/

namespace Layout

variable {α : Type} [Coordinate α] {l : Layout α}

theorem atomic_placeContour (l : Layout α) (catalog : Catalog α) (s : Settings α) (itemId : String)
    (position : Option (Point α)) :
    (l.placeContour catalog itemId position).Atomic catalog s l := by
  unfold placeContour
  cases hi : catalog.find? itemId with
  | none => exact .error _
  | some item => exact .ok _ (.placed _ hi)

theorem atomic_moveContour (l : Layout α) (catalog : Catalog α) (s : Settings α) (id : Nat)
    (dx dy : α) : (l.moveContour id dx dy s).Atomic catalog s l := by
  cases hc : l.placements.find? id with
  | none =>
    unfold moveContour
    rw [hc]
    exact .error _
  | some c =>
    rw [moveContour_eq hc]
    exact .ok _ (.contourEdited hc (fun _ => rfl) fun _ => rfl)

theorem atomic_turnContour {id : Nat} {c : Contour α} (hc : l.placements.find? id = some c)
    (catalog : Catalog α) (s : Settings α) (rotation : Rotation) :
    (l.turnContour id rotation s).Atomic catalog s l := by
  rw [turnContour_eq hc]
  exact .ok _ (.contourEdited hc (fun _ => rfl) fun _ => rfl)

theorem atomic_rotateContour (l : Layout α) (catalog : Catalog α) (s : Settings α) (id : Nat)
    (angle : α) : (l.rotateContour id angle s).Atomic catalog s l := by
  unfold rotateContour
  -- an angle that is not allowed is accepted without any change
  cases hc : l.placements.find? id with
  | none => exact .error _
  | some c =>
    dsimp only
    cases (Rotation.ofDegrees? angle).filter (· ∈ s.allowedRotations) with
    | none => exact .ok _ .unchanged
    | some rotation => exact (atomic_turnContour hc catalog s rotation).map

theorem atomic_rotateContourStep (l : Layout α) (catalog : Catalog α) (s : Settings α) (id : Nat) :
    (l.rotateContourStep id s).Atomic catalog s l := by
  unfold rotateContourStep
  cases hc : l.placements.find? id with
  | none => exact .error _
  | some c => exact atomic_turnContour hc catalog s _

theorem atomic_snapContour (l : Layout α) (catalog : Catalog α) (s : Settings α) (id : Nat)
    (angle : α) : (l.snapContour id angle s).Atomic catalog s l := by
  unfold snapContour
  cases hc : l.placements.find? id with
  | none => exact .error _
  | some c => exact atomic_turnContour hc catalog s _

theorem atomic_movePrimitive (l : Layout α) (catalog : Catalog α) (s : Settings α) (k : Key)
    (dx dy : α) : (l.movePrimitive k dx dy).Atomic catalog s l := by
  unfold movePrimitive
  cases l.primitives.get? k with
  | none => exact .error _
  | some p => exact .ok _ (.primitiveEdited k _)

theorem atomic_resizePrimitive (l : Layout α) (catalog : Catalog α) (s : Settings α) (k : Key)
    (wish : PrimitiveShape α) : (l.resizePrimitive k wish s).Atomic catalog s l := by
  unfold resizePrimitive
  cases l.primitives.get? k with
  | none => exact .error _
  | some p =>
    dsimp only
    split
    · exact .error _
    · split
      · exact .ok _ .unchanged
      · exact .ok _ (.primitiveEdited k _)

/-- The label that is attached is clamped to a contour that was just found. -/
theorem atomic_attachLabel (h : l.Consistent) (catalog : Catalog α) (s : Settings α) (owner : Nat)
    (text : String) (offset : Option (α × α)) :
    (l.attachLabel owner text offset s).Atomic catalog s l := by
  cases hc : l.placements.find? owner with
  | none =>
    have hb : l.contourBounds? owner = none := by simp [contourBounds?, hc]
    unfold attachLabel
    rw [hb]
    exact .error _
  | some c =>
    rw [attachLabel_eq h.valid_labels hc]
    exact .ok _ (.labelAttached hc (owner_settled l s _))

/-- A label that is edited is clamped to its owner, which is there. -/
theorem atomic_editLabel (h : l.Consistent) (catalog : Catalog α) (s : Settings α) (k : Key)
    {f : Label α → Label α} (hf : ∀ label, (f label).owner = label.owner) :
    (l.editLabel k f s).Atomic catalog s l := by
  cases hk : l.labels.get? k with
  | none =>
    unfold editLabel
    rw [hk]
    exact .error _
  | some label =>
    -- here the reference that was kept all along is followed
    obtain ⟨c, hc⟩ := h.find?_owner hk
    rw [← hf label] at hc
    rw [editLabel_eq hk hc]
    refine .ok _ (.labelEdited hk ?_)
    rw [owner_settled, hf]

theorem atomic_deleteTarget (l : Layout α) (catalog : Catalog α) (s : Settings α) (t : Target) :
    (l.deleteTarget t).Atomic catalog s l := by
  unfold deleteTarget
  cases t with
  | contour id =>
    dsimp only [removeContour]
    cases hc : l.placements.find? id with
    | none => exact .error _
    | some c => exact .ok _ (.contourErased hc)
  | primitive k =>
    dsimp only [removePrimitive]
    cases l.primitives.get? k with
    | none => exact .error _
    | some p => exact .ok _ (.primitiveErased k)
  | label k =>
    dsimp only [removeLabel]
    cases l.labels.get? k with
    | none => exact .error _
    | some label => exact .ok _ (.labelErased k)

theorem atomic_moveTarget (h : l.Consistent) (catalog : Catalog α) (s : Settings α) (t : Target)
    (dx dy : α) : (l.moveTarget t dx dy s).Atomic catalog s l := by
  cases t with
  | contour id => exact atomic_moveContour l catalog s id dx dy
  | primitive k => exact atomic_movePrimitive l catalog s k dx dy
  | label k => exact atomic_editLabel h catalog s k fun _ => rfl

theorem atomic_setZoom (l : Layout α) (catalog : Catalog α) (s : Settings α) (factor : α) :
    (l.setZoom factor s).Atomic catalog s l := by
  unfold setZoom
  cases Zoom.ofFactor? factor with
  | none => exact .error _
  | some z =>
    dsimp only
    split
    · exact .ok _ (.rescaled z)
    · exact .error _

theorem atomic_applyPreset (l : Layout α) (catalog : Catalog α) (s : Settings α) (name : String) :
    (l.applyPreset name s).Atomic catalog s l := by
  unfold applyPreset
  cases Tray.ofPreset? name s.tray with
  | none => exact .error _
  | some t => exact .ok _ (.trayResized _)

/-- A command on a consistent layout is refused without a trace, or makes one change. -/
theorem atomic_apply (h : l.Consistent) (c : Command α) (catalog : Catalog α) (s : Settings α) :
    (l.apply c catalog s).Atomic catalog s l := by
  -- what a command answers is made from what its edit answers
  unfold apply
  cases c with
  | place itemId position =>
    exact (atomic_placeContour l catalog s itemId position).map
  | move t dx dy => exact (atomic_moveTarget h catalog s t dx dy).map
  | rotate id angle => exact (atomic_rotateContour l catalog s id angle).map
  | rotateStep id => exact (atomic_rotateContourStep l catalog s id).map
  | snap id angle => exact (atomic_snapContour l catalog s id angle).map
  | addPrimitive shape position => exact .ok _ (.primitiveAdded _)
  | resizePrimitive k size => exact (atomic_resizePrimitive l catalog s k size).map
  | delete t => exact (atomic_deleteTarget l catalog s t).map
  | attachLabel owner text offset =>
    exact (atomic_attachLabel h catalog s owner text offset).map
  | setLabelText k text =>
    have hedit : (l.setLabelText k text s).Atomic catalog s l :=
      atomic_editLabel h catalog s k fun _ => rfl
    exact hedit.map
  | setZoom factor => exact (atomic_setZoom l catalog s factor).map
  | resizeTray width height => exact .ok _ (.trayResized _)
  | applyPreset name => exact (atomic_applyPreset l catalog s name).map

end Layout

end FoamTray
