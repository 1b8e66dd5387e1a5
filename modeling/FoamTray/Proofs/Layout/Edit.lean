import FoamTray.Layout.Command
import FoamTray.Proofs.SlotTable

/-! # Edits in closed form

    What each edit makes of a layout, as one equation for each. The clamps that follow an edit of
    a contour or of a label cannot fail once the contour is known to be there, so the equations
    have no error left in them.

    * `Placements.ids` : the numbers of the placed contours.
    * `Layout.settled` : a label brought back to its contour.
    * `clampLabel_eq`, `clampLabelsOf_eq` : the clamps as one replacement and as one map.
    * `moveContour_eq`, `turnContour_eq`, `attachLabel_eq`, `editLabel_eq` : the edits.
-/

namespace FoamTray

/-! ## Section 1: Contours by their numbers -/

namespace Placements

variable {α : Type} {p : Placements α} {id : Nat} {c : Contour α}

/-- The numbers of the placed contours, in the order of placing. -/
def ids (p : Placements α) : List Nat := p.contours.map (·.id)

theorem find?_eq_some (h : p.find? id = some c) : c ∈ p.contours ∧ c.id = id :=
  ⟨List.mem_of_find?_eq_some h, by simpa using List.find?_some h⟩

theorem mem_ids_of_find? (h : p.find? id = some c) : id ∈ p.ids := by
  obtain ⟨hc, rfl⟩ := find?_eq_some h
  exact List.mem_map_of_mem hc

theorem find?_of_mem_ids (h : id ∈ p.ids) : ∃ c, p.find? id = some c := by
  obtain ⟨c, hc, hid⟩ := List.mem_map.mp h
  cases hf : p.find? id with
  | some d => exact ⟨d, rfl⟩
  | none =>
    have hne := List.find?_eq_none.mp hf c hc
    simp [hid] at hne

theorem find?_eq_none_iff : p.find? id = none ↔ id ∉ p.ids := by
  constructor
  · intro h hid
    obtain ⟨c, hc⟩ := find?_of_mem_ids hid
    rw [h] at hc
    cases hc
  · intro h
    cases hf : p.find? id with
    | none => rfl
    | some c => exact absurd (mem_ids_of_find? hf) h

@[simp] theorem ids_insert [Scalar α] (p : Placements α) (id : Nat) (item : CatalogItem α)
    (position : Point α) (rotation : Rotation) (scaleOverride : α) :
    (p.insert id item position rotation scaleOverride).ids = p.ids ++ [id] := by
  simp [ids, insert, Contour.make]

@[simp] theorem ids_erase (p : Placements α) (id : Nat) :
    (p.erase id).ids = p.ids.filter (· ≠ id) := by
  simp [ids, erase, List.filter_map, Function.comp_def]

/-- An edit of each contour that keeps the numbers goes past the look-up. -/
theorem find?_map {f : Contour α → Contour α} (hf : ∀ c, (f c).id = c.id) (p : Placements α)
    (id : Nat) :
    ({ p with contours := p.contours.map f } : Placements α).find? id = (p.find? id).map f := by
  unfold find?
  rw [List.find?_map]
  congr 2
  funext c
  exact congrArg (· == id) (hf c)

section Update

variable {f : Contour α → Contour α}

/-- An update that keeps the numbers of contours keeps their list. -/
theorem ids_update (hf : ∀ c, (f c).id = c.id) (p : Placements α) (id : Nat) :
    (p.update id f).ids = p.ids := by
  simp only [ids, update, List.map_map]
  refine List.map_congr_left fun c _ => ?_
  simp only [Function.comp]
  split <;> simp [hf]

theorem find?_update (hf : ∀ c, (f c).id = c.id) (p : Placements α) (id id' : Nat) :
    (p.update id f).find? id' = (p.find? id').map fun c => if c.id = id then f c else c := by
  refine find?_map (fun c => ?_) p id'
  split
  · exact hf c
  · rfl

/-- An updated contour is found under its number. -/
theorem find?_update_self (hf : ∀ c, (f c).id = c.id) (hc : p.find? id = some c) :
    (p.update id f).find? id = some (f c) := by
  rw [find?_update hf, hc]
  exact congrArg some (if_pos (find?_eq_some hc).2)

/-- An update of one contour is none of another. -/
theorem find?_update_of_ne (hf : ∀ c, (f c).id = c.id) {id' : Nat} (h : id' ≠ id) :
    (p.update id f).find? id' = p.find? id' := by
  rw [find?_update hf]
  cases hc : p.find? id' with
  | none => rfl
  | some d =>
    obtain ⟨-, rfl⟩ := find?_eq_some hc
    exact congrArg some (if_neg h)

end Update

end Placements

/-! ## Section 2: Labels brought back to their contours -/

/-- A label moved by the least distance that brings it into an area. -/
def Label.movedInto {α : Type} [Scalar α] (label : Label α) (area : Rect α) (s : LabelSettings α)
    (z : Zoom α) : Label α :=
  let d := area.shiftInto (label.bounds s z)
  if d.1 == ((0 : Nat) : α) && d.2 == ((0 : Nat) : α) then label else label.translate d.1 d.2

/-- Moving a label leaves all but its position. -/
theorem Label.movedInto_eq {α : Type} [Scalar α] (label : Label α) (area : Rect α)
    (s : LabelSettings α) (z : Zoom α) :
    label.movedInto area s z =
      { label with position := (label.movedInto area s z).position } := by
  unfold Label.movedInto
  dsimp only
  split <;> rfl

namespace Layout

variable {α : Type}

/-- A label brought back to its contour, if that is there. -/
def settled [Scalar α] (l : Layout α) (s : Settings α) (label : Label α) : Label α :=
  match l.labelArea? label.owner s with
  | some area => label.movedInto area s.labels l.zoom
  | none => label

@[simp] theorem owner_settled [Scalar α] (l : Layout α) (s : Settings α) (label : Label α) :
    (l.settled s label).owner = label.owner := by
  unfold settled
  split
  · rw [Label.movedInto_eq]
  · rfl

/-- Where a label settles depends on its contour and the zoom only. -/
theorem settled_congr_owner [Scalar α] {l l' : Layout α} {label : Label α}
    (hp : l'.placements.find? label.owner = l.placements.find? label.owner)
    (hz : l'.zoom = l.zoom) (s : Settings α) : l'.settled s label = l.settled s label := by
  simp only [settled, labelArea?, contourBounds?, hp, hz]

theorem settled_congr [Scalar α] {l l' : Layout α} (hp : l'.placements = l.placements)
    (hz : l'.zoom = l.zoom) (s : Settings α) (label : Label α) :
    l'.settled s label = l.settled s label :=
  settled_congr_owner (by rw [hp]) hz s

variable [Coordinate α] {l : Layout α} {s : Settings α} {k : Key} {label : Label α} {id : Nat}
  {c : Contour α}

/-- The clamp of a label whose contour is there. -/
theorem clampLabel_eq (hk : l.labels.get? k = some label)
    (hc : l.placements.find? label.owner = some c) :
    l.clampLabel k s = (.ok (), { l with labels := l.labels.set k (l.settled s label) }) := by
  have harea : l.labelArea? label.owner s =
      some ((c.bounds l.zoom).inflate (l.zoom.toWorkspace s.labelPadding)) := by
    simp [labelArea?, contourBounds?, hc]
  unfold clampLabel settled Label.movedInto
  rw [hk]
  simp only [harea]
  split
  · rw [SlotTable.set_self hk]
  · rfl

/-- A label that has just come in is clamped as if it had come in where it settles. -/
theorem clampLabel_insert (hv : l.labels.Valid) (hc : l.placements.find? label.owner = some c) :
    ({ l with labels := l.labels.insert label } : Layout α).clampLabel l.labels.nextKey s =
      (.ok (), { l with labels := l.labels.insert (l.settled s label) }) := by
  have hk : (l.labels.insert label).get? l.labels.nextKey = some label := hv.get?_insert_self label
  have hsettled : ({ l with labels := l.labels.insert label } : Layout α).settled s label =
      l.settled s label := settled_congr rfl rfl s label
  rw [clampLabel_eq (l := { l with labels := l.labels.insert label }) hk hc, hsettled,
    hv.set_nextKey_insert]

/-- Clamping several labels of one contour is one map over the labels. -/
theorem clampLabels_eq (hc : l.placements.find? id = some c) (ks : List Key) (hnd : ks.Nodup)
    (hks : ∀ k ∈ ks, ∃ label, l.labels.get? k = some label ∧ label.owner = id) :
    l.clampLabels s ks = (.ok (), { l with
      labels := l.labels.map fun k label => if k ∈ ks then l.settled s label else label }) := by
  induction ks generalizing l with
  | nil =>
    have hid : l.labels.map
        (fun k label => if k ∈ ([] : List Key) then l.settled s label else label) = l.labels :=
      SlotTable.map_id_of_forall fun k label _ => by simp
    rw [hid]
    rfl
  | cons k rest ih =>
    obtain ⟨label, hk, ho⟩ := hks k List.mem_cons_self
    obtain ⟨hnot, hnd'⟩ := List.nodup_cons.mp hnd
    have hc' : l.placements.find? label.owner = some c := by rw [ho]; exact hc
    unfold clampLabels
    rw [clampLabel_eq hk hc', Attempt.andThen_ok]
    -- the other keys still name what they named before the first label was settled
    have hrest : ∀ k' ∈ rest, ∃ label',
        (l.labels.set k (l.settled s label)).get? k' = some label' ∧ label'.owner = id := by
      intro k' hk'
      obtain ⟨label', hg, ho'⟩ := hks k' (List.mem_cons_of_mem k hk')
      have hne : k' ≠ k := fun e => hnot (e ▸ hk')
      exact ⟨label', by rw [SlotTable.get?_set hk, if_neg hne, hg], ho'⟩
    rw [ih (l := { l with labels := l.labels.set k (l.settled s label) }) hc hnd' hrest]
    congr 2
    show (l.labels.set k _).map _ = _
    -- the first label is settled by the replacement and, not being among the rest, only once
    rw [SlotTable.set_eq_map hk, SlotTable.map_map]
    refine SlotTable.map_congr fun k' label' hg => ?_
    by_cases hkk : k' = k
    · subst hkk
      rw [hk] at hg
      have hl : label = label' := Option.some.inj hg
      simp [hnot, hl]
    · have hs : ∀ x : Label α, Layout.settled
          { l with labels := l.labels.map fun k' w => if k' = k then l.settled s label else w } s x
            = l.settled s x := settled_congr rfl rfl s
      simp [hkk, hs]

/-- The keys of the labels of a contour are those under which a label of it is found. -/
theorem mem_labelKeys {owner : Nat} :
    k ∈ l.labelKeys owner ↔ ∃ label, l.labels.get? k = some label ∧ label.owner = owner := by
  simp only [labelKeys, List.mem_map, List.mem_filter, Prod.exists, beq_iff_eq]
  constructor
  · rintro ⟨k', label, ⟨he, ho⟩, rfl⟩
    exact ⟨label, SlotTable.mem_entries.mp he, ho⟩
  · rintro ⟨label, hg, ho⟩
    exact ⟨k, label, ⟨SlotTable.mem_entries.mpr hg, ho⟩, rfl⟩

theorem nodup_labelKeys (l : Layout α) (owner : Nat) : (l.labelKeys owner).Nodup :=
  (SlotTable.nodup_keys l.labels).sublist (List.filter_sublist.map _)

/-- Bringing the labels of a contour back to it never fails, and touches no other label. -/
theorem clampLabelsOf_eq (hc : l.placements.find? id = some c) :
    l.clampLabelsOf id s = (.ok (), { l with
      labels := l.labels.map fun _ label =>
        if label.owner = id then l.settled s label else label }) := by
  unfold clampLabelsOf
  rw [clampLabels_eq hc _ (nodup_labelKeys l id) fun k hk => mem_labelKeys.mp hk]
  congr 2
  refine SlotTable.map_congr fun k label hg => ?_
  have hmem : k ∈ l.labelKeys id ↔ label.owner = id := by
    rw [mem_labelKeys]
    constructor
    · rintro ⟨label', hg', ho⟩
      rw [hg] at hg'
      rw [Option.some.inj hg', ho]
    · intro ho
      exact ⟨label, hg, ho⟩
  simp only [hmem]

/-! ## Section 3: The edits -/

/-- The labels of a contour, changed and then brought back to it. -/
def resettleLabels (l : Layout α) (id : Nat) (f : Label α → Label α) (s : Settings α) : Layout α :=
  { l with labels := l.labels.map fun _ label =>
      if label.owner = id then l.settled s (f label) else label }

/-- A contour that is there is moved, and its labels with it. -/
theorem moveContour_eq (hc : l.placements.find? id = some c) (dx dy : α) :
    l.moveContour id dx dy s = (.ok (),
      ({ l with placements := l.placements.update id (·.translate dx dy) }).resettleLabels id
        (fun label => label.translate (c.translate dx dy).lastDelta.1
          (c.translate dx dy).lastDelta.2) s) := by
  -- the labels are moved in a first pass and brought back in a second one
  have hd := Placements.find?_update_self (f := (·.translate dx dy)) (fun _ => rfl) hc
  unfold moveContour
  rw [hc]
  dsimp only
  rw [clampLabelsOf_eq hd]
  unfold resettleLabels
  congr 2
  dsimp only
  rw [SlotTable.map_map]
  refine SlotTable.map_congr fun k label _ => ?_
  by_cases ho : label.owner = id
  · have ho' : ∀ x y : α, (label.translate x y).owner = id := fun _ _ => ho
    simp only [ho, ho', if_true]
    exact settled_congr rfl rfl s _
  · simp only [ho, if_false]

/-- A contour that is there is turned, and its labels are brought back to it. -/
theorem turnContour_eq (hc : l.placements.find? id = some c) (rotation : Rotation) :
    l.turnContour id rotation s = (.ok (),
      ({ l with placements := l.placements.update id (·.rotateTo rotation l.zoom) }).resettleLabels
        id (fun label => label) s) := by
  have hd := Placements.find?_update_self (f := (·.rotateTo rotation l.zoom)) (fun _ => rfl) hc
  unfold turnContour
  dsimp only
  rw [clampLabelsOf_eq hd]
  rfl

/-- A label as it is attached to a box, before it is brought back: at an offset in millimetres from
    the upper right corner. -/
def attached (l : Layout α) (id : Nat) (text : String) (bounds : Rect α)
    (offset : Option (α × α)) (s : Settings α) : Label α :=
  let (ox, oy) := offset.getD s.labels.defaultOffset
  ⟨id, text, ⟨bounds.xMax + l.zoom.toWorkspace ox, bounds.yMin + l.zoom.toWorkspace oy⟩,
    s.labels.fontSize⟩

/-- A label attached to a contour that is there comes in where it settles. -/
theorem attachLabel_eq (hv : l.labels.Valid) (hc : l.placements.find? id = some c) (text : String)
    (offset : Option (α × α)) :
    l.attachLabel id text offset s = (.ok l.labels.nextKey, { l with
      labels := l.labels.insert
        (l.settled s (l.attached id text (c.bounds l.zoom) offset s)) }) := by
  have hb : l.contourBounds? id = some (c.bounds l.zoom) := by simp [contourBounds?, hc]
  unfold attachLabel attached
  rw [hb]
  dsimp only
  rw [clampLabel_insert hv hc, Attempt.andThen_ok]

/-- A label whose contour is there is changed and then brought back to it. -/
theorem editLabel_eq {f : Label α → Label α} (hk : l.labels.get? k = some label)
    (hc : l.placements.find? (f label).owner = some c) :
    l.editLabel k f s = (.ok (), { l with labels := l.labels.set k (l.settled s (f label)) }) := by
  unfold editLabel
  rw [hk]
  dsimp only
  have hk' : (l.labels.set k (f label)).get? k = some (f label) := SlotTable.get?_set_self hk _
  rw [clampLabel_eq (l := { l with labels := l.labels.set k (f label) }) hk' hc]
  congr 2
  show (l.labels.set k (f label)).set k _ = _
  rw [SlotTable.set_eq_map hk', SlotTable.set_eq_map hk, SlotTable.map_map, SlotTable.set_eq_map hk]
  refine SlotTable.map_congr fun k' label' _ => ?_
  by_cases hkk : k' = k
  · simp only [hkk, if_true]
    exact settled_congr rfl rfl s _
  · simp [hkk]

end Layout

/-- The layout that an answer is made from is the one left behind. -/
theorem Attempt.andThen_snd {α β γ : Type} [Scalar α] (a : Attempt α β) (f : β → γ) :
    (a.andThen fun b l => (.ok (f b), l)).2 = a.2 := by
  obtain ⟨outcome, l⟩ := a
  cases outcome <;> rfl

/-- What is answered when an attempt succeeds. -/
theorem Attempt.of_andThen_ok {α β γ : Type} [Scalar α] {a : Attempt α β} {f : β → γ} {r : γ}
    {after : Layout α} (h : a.andThen (fun b l => (.ok (f b), l)) = (.ok r, after)) :
    ∃ b, a = (.ok b, after) ∧ r = f b := by
  obtain ⟨outcome, l⟩ := a
  cases outcome with
  | error e => cases (Prod.mk.inj h).1
  | ok b =>
    obtain ⟨hr, hl⟩ := Prod.mk.inj h
    exact ⟨b, by rw [← hl], (Except.ok.inj hr).symm⟩

end FoamTray
