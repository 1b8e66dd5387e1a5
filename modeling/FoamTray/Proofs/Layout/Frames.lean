import FoamTray.Proofs.Layout.History

/-! # Labels and the boxes of their contours

    Where a label may be depends on the box of its contour and on the zoom. A command leaves a
    label alone together with that box, or changes one of them and then brings the label back.

    * `Contour.frame`, `Frame.area` : the box of a contour, and where its labels may be.
    * `Layout.Labelled` : a condition on each label and the box of its contour.
    * `Layout.loose` : the labels that a command changes or brings in, as they are before they are
      brought back.
    * `Layout.Resettles` : every label was left alone, or is a loose one that was brought back.
    * `resettles_apply`, `Labelled.resettles`, `labelled_document` : commands and documents.
-/

namespace FoamTray

/-! ## Section 1: Boxes of contours -/

/-- The box of a contour: its upper left corner on the workspace, and its turned size in
    millimetres. -/
structure Frame (α : Type) where
  /-- The upper left corner, in workspace units. -/
  position : Point α
  /-- The size in millimetres. -/
  size : Size α

/-- The box of a contour. -/
def Contour.frame {α : Type} (c : Contour α) : Frame α where
  position := c.position
  size := if c.rotation.isSideways then ⟨c.footprint.height, c.footprint.width⟩ else c.footprint

section Areas

variable {α : Type} [Scalar α]

/-- Where the labels of a contour may be. -/
def Frame.area (f : Frame α) (z : Zoom α) (padding : α) : Rect α :=
  (Rect.ofTopLeft f.position (z.toWorkspace f.size.width) (z.toWorkspace f.size.height)).inflate
    (z.toWorkspace padding)

/-- The box after the workspace is stretched. -/
def Frame.rescale (f : Frame α) (ratio : α) : Frame α :=
  { f with position := f.position.rescale ratio }

namespace Layout

/-- The box of the contour of a number. -/
def frame? (l : Layout α) (id : Nat) : Option (Frame α) :=
  (l.placements.find? id).map (·.frame)

theorem labelArea?_eq (l : Layout α) (id : Nat) (s : Settings α) :
    l.labelArea? id s = (l.frame? id).map (·.area l.zoom s.labelPadding) := by
  unfold labelArea? contourBounds? frame?
  rw [Option.map_map, Option.map_map]
  rfl

/-- A label is brought back to the box of its contour. -/
theorem settled_eq {l : Layout α} {s : Settings α} {label : Label α} {f : Frame α}
    (hf : l.frame? label.owner = some f) :
    l.settled s label = label.movedInto (f.area l.zoom s.labelPadding) s.labels l.zoom := by
  unfold settled
  rw [labelArea?_eq, hf]
  rfl

/-- Each label has a contour, and a condition holds of the label and the box of the contour. -/
def Labelled (l : Layout α) (P : Frame α → Label α → Prop) : Prop :=
  ∀ label ∈ l.labels.values, ∃ f, l.frame? label.owner = some f ∧ P f label

theorem Labelled.mono {l : Layout α} {P Q : Frame α → Label α → Prop} (h : l.Labelled P)
    (hPQ : ∀ f label, P f label → Q f label) : l.Labelled Q := by
  intro label hlabel
  obtain ⟨f, hf, hP⟩ := h label hlabel
  exact ⟨f, hf, hPQ f label hP⟩

/-- Where there are no labels, every condition holds of all of them. -/
theorem labelled_of_empty {l : Layout α} {P : Frame α → Label α → Prop}
    (h : l.labels.values = []) : l.Labelled P := by
  intro label hlabel
  rw [h] at hlabel
  cases hlabel

/-- A condition that goes over to the stretched box and the stretched label. -/
theorem Labelled.rescaleTo {l : Layout α} {P Q : Frame α → Label α → Prop} (h : l.Labelled P)
    {z : Zoom α} (hne : (z.factor == l.zoom.factor) = false)
    (hPQ : ∀ f label, P f label →
      Q (f.rescale (l.zoom.ratioTo z)) (label.rescale (l.zoom.ratioTo z))) :
    (l.rescaleTo z).Labelled Q := by
  have heq : l.rescaleTo z = { l with
      placements := { l.placements with
        contours := l.placements.contours.map (·.rescale (l.zoom.ratioTo z)) }
      primitives := l.primitives.map fun _ p => p.rescale (l.zoom.ratioTo z)
      labels := l.labels.map fun _ label => label.rescale (l.zoom.ratioTo z)
      zoom := z } := if_neg (by rw [hne]; exact Bool.false_ne_true)
  rw [heq]
  intro label hlabel
  dsimp only at hlabel
  rw [SlotTable.values_map] at hlabel
  obtain ⟨old, hold, rfl⟩ := List.mem_map.mp hlabel
  obtain ⟨f, hf, hP⟩ := h old hold
  obtain ⟨c, hc, rfl⟩ := Option.map_eq_some_iff.mp hf
  refine ⟨c.frame.rescale (l.zoom.ratioTo z), ?_, hPQ _ _ hP⟩
  have hfind := Placements.find?_map (f := (·.rescale (l.zoom.ratioTo z))) (fun _ => rfl)
    l.placements old.owner
  rw [hc] at hfind
  exact congrArg (Option.map Contour.frame) hfind

end Layout

end Areas

/-! ## Section 2: Look-ups of contours -/

namespace Placements

variable {α : Type} {p : Placements α} {id id' : Nat}

/-- A further contour hides none of those before. -/
theorem find?_insert_of_mem [Scalar α] (h : id' ∈ p.ids) (item : CatalogItem α)
    (position : Point α) (rotation : Rotation) (scaleOverride : α) :
    (p.insert id item position rotation scaleOverride).find? id' = p.find? id' := by
  obtain ⟨c, hc⟩ := find?_of_mem_ids h
  unfold find? at hc ⊢
  unfold insert
  rw [List.find?_append, hc]
  rfl

/-- An erased contour takes no other with it. -/
theorem find?_erase_of_ne (h : id' ≠ id) : (p.erase id).find? id' = p.find? id' := by
  unfold find? erase
  dsimp only
  rw [List.find?_filter]
  congr 1
  funext c
  by_cases hc : c.id = id' <;> simp [hc, h]

end Placements

/-! ## Section 3: Loose labels -/

namespace Layout

variable {α : Type} [Coordinate α]

/-- The labels of a contour. -/
def labelsOf (l : Layout α) (id : Nat) : List (Label α) :=
  l.labels.values.filter (·.owner = id)

/-- The labels that a command changes or brings in, or whose contour it changes, as they are before
    they are brought back. -/
def loose (l : Layout α) (s : Settings α) : Command α → List (Label α)
  | .move (.contour id) dx dy =>
      match l.placements.find? id with
      | none => []
      | some c =>
          let d := (c.translate dx dy).lastDelta
          (l.labelsOf id).map (·.translate d.1 d.2)
  | .move (.label k) dx dy => (l.labels.get? k).toList.map (·.translate dx dy)
  | .rotate id _ | .rotateStep id | .snap id _ => l.labelsOf id
  | .attachLabel owner text offset =>
      match l.contourBounds? owner with
      | none => []
      | some bounds => [l.attached owner text bounds offset s]
  | .setLabelText k text => (l.labels.get? k).toList.map ({ · with text := text })
  | _ => []

/-- Every label was left alone, as was the box of its contour, or is a loose label that was
    brought back. -/
structure Resettles (s : Settings α) (loose : List (Label α)) (l l' : Layout α) : Prop where
  /-- The zoom is the same. -/
  zoom : l'.zoom = l.zoom
  /-- Each label is an old or a loose one. -/
  labels : ∀ label ∈ l'.labels.values,
    (label ∈ l.labels.values ∧ l'.frame? label.owner = l.frame? label.owner) ∨
      ∃ free ∈ loose, (∃ f, l'.frame? free.owner = some f) ∧ label = l'.settled s free

section Edits

variable {s : Settings α} {loose : List (Label α)} {l l' : Layout α}

/-- Nothing becomes of the labels if they are among the old ones and no box of a contour that is
    looked for changes. -/
theorem resettles_of_kept (hzoom : l'.zoom = l.zoom)
    (hlabels : ∀ label ∈ l'.labels.values, label ∈ l.labels.values ∧
      l'.placements.find? label.owner = l.placements.find? label.owner) :
    l.Resettles s loose l' := by
  refine ⟨hzoom, ?_⟩
  intro label hlabel
  obtain ⟨hmem, hfind⟩ := hlabels label hlabel
  refine .inl ⟨hmem, ?_⟩
  unfold frame?
  rw [hfind]

theorem Resettles.refl (s : Settings α) (loose : List (Label α)) (l : Layout α) :
    l.Resettles s loose l :=
  resettles_of_kept rfl fun _ h => ⟨h, rfl⟩

/-- An answer that is made from another one moves no label. -/
theorem Resettles.map {β γ : Type} {a : Attempt α β} (h : l.Resettles s loose a.2) (f : β → γ) :
    l.Resettles s loose (a.andThen fun b l => (.ok (f b), l)).2 := by
  rw [Attempt.andThen_snd]
  exact h

/-- Other primitives, another tray or another contour are nothing to the labels. -/
theorem resettles_placeContour (hl : l.Consistent) (s : Settings α) (catalog : Catalog α)
    (itemId : String) (position : Option (Point α)) :
    l.Resettles s loose (l.placeContour catalog itemId position).2 := by
  unfold placeContour
  cases catalog.find? itemId with
  | none => exact .refl s loose l
  | some item =>
    refine resettles_of_kept (by rfl) ?_
    intro label hlabel
    obtain ⟨k, hk⟩ := SlotTable.mem_values.mp hlabel
    exact ⟨hlabel, Placements.find?_insert_of_mem (hl.owner_mem k label hk) _ _ _ _⟩

/-- The labels of an edited contour are brought back, and the others are left alone. -/
theorem resettles_resettleLabels {id : Nat} {c : Contour α} {f : Contour α → Contour α}
    {g : Label α → Label α} (hc : l.placements.find? id = some c) (hf : ∀ c, (f c).id = c.id)
    (hg : ∀ label, (g label).owner = label.owner)
    (hloose : ∀ label ∈ l.labelsOf id, g label ∈ loose) :
    l.Resettles s loose
      (({ l with placements := l.placements.update id f } : Layout α).resettleLabels id g s) := by
  refine ⟨rfl, ?_⟩
  intro label hlabel
  unfold resettleLabels at hlabel
  dsimp only at hlabel
  rw [SlotTable.values_map] at hlabel
  obtain ⟨old, hold, rfl⟩ := List.mem_map.mp hlabel
  by_cases ho : old.owner = id
  · right
    have hd := Placements.find?_update_self hf hc
    refine ⟨g old, hloose old ?_, ⟨(f c).frame, ?_⟩, ?_⟩
    · exact List.mem_filter.mpr ⟨hold, decide_eq_true ho⟩
    · unfold frame? resettleLabels
      rw [hg, ho]
      exact congrArg (Option.map _) hd
    · rw [if_pos ho]
      exact (settled_congr rfl rfl s _).symm
  · left
    rw [if_neg ho]
    refine ⟨hold, ?_⟩
    unfold frame? resettleLabels
    dsimp only
    rw [Placements.find?_update_of_ne hf ho]

theorem resettles_moveContour (s : Settings α) (id : Nat) (dx dy : α) :
    l.Resettles s (l.loose s (.move (.contour id) dx dy)) (l.moveContour id dx dy s).2 := by
  cases hc : l.placements.find? id with
  | none =>
    unfold moveContour
    rw [hc]
    exact .refl s _ l
  | some c =>
    rw [moveContour_eq hc]
    apply resettles_resettleLabels hc
    · exact fun _ => rfl
    · exact fun _ => rfl
    · intro label hlabel
      simp only [loose, hc]
      exact List.mem_map_of_mem hlabel

theorem resettles_turnContour {id : Nat} {c : Contour α} (hc : l.placements.find? id = some c)
    (s : Settings α) (rotation : Rotation) :
    l.Resettles s (l.labelsOf id) (l.turnContour id rotation s).2 := by
  rw [turnContour_eq hc]
  apply resettles_resettleLabels hc
  · exact fun _ => rfl
  · exact fun _ => rfl
  · exact fun _ hlabel => hlabel

theorem resettles_rotateContour (s : Settings α) (id : Nat) (angle : α) :
    l.Resettles s (l.labelsOf id) (l.rotateContour id angle s).2 := by
  unfold rotateContour
  cases hc : l.placements.find? id with
  | none => exact .refl s _ l
  | some c =>
    dsimp only
    cases (Rotation.ofDegrees? angle).filter (· ∈ s.allowedRotations) with
    | none => exact .refl s _ l
    | some rotation => exact (resettles_turnContour hc s rotation).map _

theorem resettles_rotateContourStep (s : Settings α) (id : Nat) :
    l.Resettles s (l.labelsOf id) (l.rotateContourStep id s).2 := by
  unfold rotateContourStep
  cases hc : l.placements.find? id with
  | none => exact .refl s _ l
  | some c => exact resettles_turnContour hc s _

theorem resettles_snapContour (s : Settings α) (id : Nat) (angle : α) :
    l.Resettles s (l.labelsOf id) (l.snapContour id angle s).2 := by
  unfold snapContour
  cases hc : l.placements.find? id with
  | none => exact .refl s _ l
  | some c => exact resettles_turnContour hc s _

/-- A contour goes with all its labels, so none is left that would look for it. -/
theorem resettles_removeContour (s : Settings α) (id : Nat) :
    l.Resettles s loose (l.removeContour id).2 := by
  unfold removeContour
  cases hc : l.placements.find? id with
  | none => exact .refl s _ l
  | some c =>
    refine resettles_of_kept (by rfl) ?_
    intro label hlabel
    obtain ⟨k, hk⟩ := SlotTable.mem_values.mp hlabel
    dsimp only at hk
    rw [SlotTable.get?_foldl_erase] at hk
    split at hk
    · cases hk
    · rename_i hkey
      refine ⟨SlotTable.mem_values.mpr ⟨k, hk⟩, Placements.find?_erase_of_ne ?_⟩
      intro ho
      exact hkey (mem_labelKeys.mpr ⟨label, hk, ho⟩)

/-- A label that comes in is brought back. -/
theorem resettles_attachLabel (hl : l.Consistent) (s : Settings α) (owner : Nat) (text : String)
    (offset : Option (α × α)) :
    l.Resettles s (l.loose s (.attachLabel owner text offset))
      (l.attachLabel owner text offset s).2 := by
  cases hc : l.placements.find? owner with
  | none =>
    have hb : l.contourBounds? owner = none := by simp [contourBounds?, hc]
    unfold attachLabel
    rw [hb]
    exact .refl s _ l
  | some c =>
    have hb : l.contourBounds? owner = some (c.bounds l.zoom) := by simp [contourBounds?, hc]
    rw [attachLabel_eq hl.valid_labels hc]
    refine ⟨rfl, ?_⟩
    intro label hlabel
    obtain ⟨k, hk⟩ := SlotTable.mem_values.mp hlabel
    dsimp only at hk
    rw [hl.valid_labels.get?_insert] at hk
    split at hk
    · right
      refine ⟨l.attached owner text (c.bounds l.zoom) offset s, ?_, ⟨c.frame, ?_⟩, ?_⟩
      · simp only [loose, hb, List.mem_singleton]
      · exact congrArg (Option.map _) hc
      · rw [← Option.some.inj hk]
        exact (settled_congr rfl rfl s _).symm
    · exact .inl ⟨SlotTable.mem_values.mpr ⟨k, hk⟩, rfl⟩

/-- A label that is edited is brought back. -/
theorem resettles_editLabel (hl : l.Consistent) (s : Settings α) (k : Key)
    {f : Label α → Label α} (hf : ∀ label, (f label).owner = label.owner) :
    l.Resettles s ((l.labels.get? k).toList.map f) (l.editLabel k f s).2 := by
  cases hk : l.labels.get? k with
  | none =>
    unfold editLabel
    rw [hk]
    exact .refl s _ l
  | some old =>
    obtain ⟨c, hc⟩ := hl.find?_owner hk
    rw [← hf old] at hc
    rw [editLabel_eq hk hc]
    refine ⟨rfl, ?_⟩
    intro label hlabel
    obtain ⟨k', hk'⟩ := SlotTable.mem_values.mp hlabel
    dsimp only at hk'
    rw [SlotTable.get?_set hk] at hk'
    split at hk'
    · right
      refine ⟨f old, List.mem_singleton.mpr rfl, ⟨c.frame, congrArg (Option.map _) hc⟩, ?_⟩
      rw [← Option.some.inj hk']
      exact (settled_congr rfl rfl s _).symm
    · exact .inl ⟨SlotTable.mem_values.mpr ⟨k', hk'⟩, rfl⟩

theorem resettles_removeLabel (s : Settings α) (k : Key) :
    l.Resettles s loose (l.removeLabel k).2 := by
  unfold removeLabel
  cases hk : l.labels.get? k with
  | none => exact .refl s _ l
  | some old =>
    refine resettles_of_kept (by rfl) ?_
    intro label hlabel
    obtain ⟨k', hk'⟩ := SlotTable.mem_values.mp hlabel
    dsimp only at hk'
    rw [SlotTable.get?_erase] at hk'
    split at hk'
    · cases hk'
    · exact ⟨SlotTable.mem_values.mpr ⟨k', hk'⟩, rfl⟩

theorem resettles_movePrimitive (s : Settings α) (k : Key) (dx dy : α) :
    l.Resettles s loose (l.movePrimitive k dx dy).2 := by
  unfold movePrimitive
  split
  · exact .refl s _ l
  · exact resettles_of_kept rfl fun _ h => ⟨h, rfl⟩

theorem resettles_resizePrimitive (s : Settings α) (k : Key) (wish : PrimitiveShape α) :
    l.Resettles s loose (l.resizePrimitive k wish s).2 := by
  unfold resizePrimitive
  split
  · exact .refl s _ l
  · split
    · exact .refl s _ l
    · dsimp only
      split
      · exact .refl s _ l
      · exact resettles_of_kept rfl fun _ h => ⟨h, rfl⟩

theorem resettles_removePrimitive (s : Settings α) (k : Key) :
    l.Resettles s loose (l.removePrimitive k).2 := by
  unfold removePrimitive
  split
  · exact .refl s _ l
  · exact resettles_of_kept rfl fun _ h => ⟨h, rfl⟩

theorem resettles_applyPreset (s : Settings α) (name : String) :
    l.Resettles s loose (l.applyPreset name s).2 := by
  unfold applyPreset
  split
  · exact .refl s _ l
  · exact resettles_of_kept rfl fun _ h => ⟨h, rfl⟩

/-- What becomes of the labels when a command is applied that does not change the zoom. -/
theorem resettles_apply (hl : l.Consistent) {c : Command α} (hc : ∀ factor, c ≠ .setZoom factor)
    (catalog : Catalog α) (s : Settings α) :
    l.Resettles s (l.loose s c) (l.apply c catalog s).2 := by
  unfold apply
  cases c with
  | place itemId position => exact (resettles_placeContour hl s catalog itemId position).map _
  | move target dx dy =>
    cases target with
    | contour id => exact (resettles_moveContour s id dx dy).map _
    | primitive k => exact (resettles_movePrimitive s k dx dy).map _
    | label k =>
      have hedit : l.Resettles s (l.loose s (.move (.label k) dx dy))
          (l.moveLabel k dx dy s).2 := resettles_editLabel hl s k fun _ => rfl
      exact hedit.map _
  | rotate id angle => exact (resettles_rotateContour s id angle).map _
  | rotateStep id => exact (resettles_rotateContourStep s id).map _
  | snap id angle => exact (resettles_snapContour s id angle).map _
  | addPrimitive shape position => exact resettles_of_kept rfl fun _ h => ⟨h, rfl⟩
  | resizePrimitive k size => exact (resettles_resizePrimitive s k size).map _
  | delete target =>
    cases target with
    | contour id => exact (resettles_removeContour s id).map _
    | primitive k => exact (resettles_removePrimitive s k).map _
    | label k => exact (resettles_removeLabel s k).map _
  | attachLabel owner text offset => exact (resettles_attachLabel hl s owner text offset).map _
  | setLabelText k text =>
    have hedit : l.Resettles s (l.loose s (.setLabelText k text))
        (l.setLabelText k text s).2 := resettles_editLabel hl s k fun _ => rfl
    exact hedit.map _
  | setZoom factor => exact absurd rfl (hc factor)
  | resizeTray width height => exact resettles_of_kept rfl fun _ h => ⟨h, rfl⟩
  | applyPreset name => exact (resettles_applyPreset s name).map _

end Edits

/-! ## Section 4: Conditions that survive -/

section Conditions

variable {s : Settings α} {loose : List (Label α)} {l l' : Layout α}
  {P : Frame α → Label α → Prop}

/-- A condition survives if it holds of the loose labels once they are brought back. -/
theorem Labelled.resettles (h : l.Labelled P) (hl : l.Resettles s loose l')
    (hloose : ∀ label ∈ loose, ∀ f, l'.frame? label.owner = some f →
      P f (label.movedInto (f.area l.zoom s.labelPadding) s.labels l.zoom)) : l'.Labelled P := by
  intro label hlabel
  rcases hl.labels label hlabel with ⟨hmem, hframe⟩ | ⟨free, hfree, ⟨f, hf⟩, rfl⟩
  · obtain ⟨f, hf, hP⟩ := h label hmem
    exact ⟨f, hframe.trans hf, hP⟩
  · rw [owner_settled]
    refine ⟨f, hf, ?_⟩
    rw [settled_eq hf, hl.zoom]
    exact hloose free hfree f hf

/-- Marks change no box. -/
theorem Labelled.highlight (h : l.Labelled P) (r : Report) : (l.highlight r).Labelled P := by
  intro label hlabel
  obtain ⟨f, hf, hP⟩ := h label hlabel
  refine ⟨f, ?_, hP⟩
  obtain ⟨c, hc, rfl⟩ := Option.map_eq_some_iff.mp hf
  let mark : Contour α → Contour α := fun c => { c with highlighted := c.id ∈ r.offendingContours }
  have hfind : (l.highlight r).placements.find? label.owner =
      (l.placements.find? label.owner).map mark :=
    Placements.find?_map (f := mark) (fun _ => rfl) l.placements label.owner
  unfold frame?
  rw [hfind, hc]
  rfl

theorem Labelled.validate (h : l.Labelled P) (rasterizer : Rasterizer α) (s : Settings α) :
    (l.validate rasterizer s).2.Labelled P := by
  rcases l.validate_snd_cases rasterizer s with he | ⟨r, he⟩
  · rw [he]
    exact h
  · rw [he]
    exact h.highlight r

/-- The labels of a document are all brought back to their contours. -/
theorem labelled_document (doc : Workspace α) (catalog : Catalog α) (s : Settings α) (z : Zoom α)
    (nextId : Nat)
    (hloose : ∀ r ∈ doc.labels, ∀ f,
      (doc.layout catalog s z nextId).frame? r.placementId = some f →
        P f ((r.restored ((doc.restoredTray s).origin z)).movedInto (f.area z s.labelPadding)
          s.labels z)) :
    (doc.layout catalog s z nextId).Labelled P := by
  have hconsistent := consistent_document doc catalog s z nextId
  intro label hlabel
  have howner : ∃ f, (doc.layout catalog s z nextId).frame? label.owner = some f := by
    obtain ⟨k, hk⟩ := SlotTable.mem_values.mp hlabel
    obtain ⟨c, hc⟩ := hconsistent.find?_owner hk
    exact ⟨c.frame, congrArg (Option.map _) hc⟩
  obtain ⟨f, hf⟩ := howner
  refine ⟨f, hf, ?_⟩
  have hvalues : (doc.layout catalog s z nextId).labels.values =
      (doc.ownedLabels catalog).map fun r => (doc.bare catalog s z nextId).settled s
        (r.restored ((doc.restoredTray s).origin z)) := SlotTable.values_ofValues _
  rw [hvalues] at hlabel
  obtain ⟨r, hr, rfl⟩ := List.mem_map.mp hlabel
  obtain ⟨hr, -⟩ := List.mem_filter.mp hr
  rw [owner_settled] at hf
  have hsettled : (doc.bare catalog s z nextId).settled s
      (r.restored ((doc.restoredTray s).origin z)) =
      (doc.layout catalog s z nextId).settled s (r.restored ((doc.restoredTray s).origin z)) :=
    settled_congr rfl rfl s _
  rw [hsettled, settled_eq hf]
  exact hloose r hr f hf

end Conditions

end Layout

end FoamTray
