import FoamTray.Proofs.Layout.Restore
import FoamTray.Validation.Check

/-! # Consistent layouts

    The contours, their catalog items, the labels, the counter of numbers and the selection refer
    to one another by numbers. A layout is consistent if all these references lead somewhere.

    * `Contour.identity` : what no edit of a placed contour changes.
    * `Placements.Consistent` : distinct numbers below the counter, exactly one catalog item for
      each contour, and a selection that is there.
    * `Layout.Consistent` : the same for the whole layout, with labels that have an owner.

    Each way of changing a layout has one lemma that says it keeps this.
-/

namespace FoamTray

/-! ## Section 1: Contours and their catalog items -/

/-- What no edit of a placed contour changes: its number, its item, its factor and its size. -/
def Contour.identity {α : Type} (c : Contour α) : Nat × String × α × Size α :=
  (c.id, c.itemId, c.scaleOverride, c.footprint)

/-- Whether a contour shows an item at the size that its factor gives. -/
def Contour.Shows {α : Type} [Scalar α] (c : Contour α) (item : CatalogItem α) : Prop :=
  item.id = c.itemId ∧ c.footprint = item.footprint c.scaleOverride

namespace Placements

variable {α : Type} {p p' : Placements α} {id : Nat}

/-- The contours, their items, the counter and the selection fit together. -/
structure Consistent [Scalar α] (p : Placements α) : Prop where
  /-- No two contours have one number. -/
  nodup_ids : p.ids.Nodup
  /-- The next number is above all that are in use. -/
  lt_nextId : ∀ id ∈ p.ids, id < p.nextId
  /-- There is exactly one item for each contour, and no other. -/
  keys_items : p.items.map (·.1) = p.ids
  /-- Each contour shows the item kept for it. -/
  shows : ∀ c ∈ p.contours, ∃ item, p.item? c.id = some item ∧ c.Shows item
  /-- The selected contour is there. -/
  active_mem : ∀ id, p.active = some id → id ∈ p.ids

/-- Items kept under distinct numbers are found under these. -/
theorem item?_of_mem (hnd : (p.items.map (·.1)).Nodup) {item : CatalogItem α}
    (h : (id, item) ∈ p.items) : p.item? id = some item := by
  unfold item?
  cases hf : p.items.find? (·.1 == id) with
  | none =>
    have hne := List.find?_eq_none.mp hf (id, item) h
    simp at hne
  | some e =>
    have hid : e.1 = id := by simpa using List.find?_some hf
    have he : e = (id, item) := List.inj_on_of_nodup_map hnd (List.mem_of_find?_eq_some hf) h hid
    rw [he]
    rfl

/-- A look-up among the items of the other numbers. -/
theorem find?_filter_ne {β : Type} (items : List (Nat × β)) (id id' : Nat) :
    (items.filter (·.1 ≠ id)).find? (·.1 == id') =
      if id' = id then none else items.find? (·.1 == id') := by
  rw [List.find?_filter]
  split
  · rename_i h
    refine List.find?_eq_none.mpr fun e _ => ?_
    simp [h]
  · rename_i h
    congr 1
    funext e
    by_cases he : e.1 = id' <;> simp [he, h]

/-- An inserted item is found under its number, and no other number is touched. -/
theorem item?_insert [Scalar α] (p : Placements α) (id : Nat) (item : CatalogItem α)
    (position : Point α) (rotation : Rotation) (scaleOverride : α) (id' : Nat) :
    (p.insert id item position rotation scaleOverride).item? id' =
      if id' = id then some item else p.item? id' := by
  unfold item? insert
  dsimp only
  rw [List.find?_append, find?_filter_ne]
  by_cases h : id' = id
  · simp [h]
  · have hne : id ≠ id' := fun e => h e.symm
    simp [h, hne]

/-- An erased number has no item, and no other number is touched. -/
theorem item?_erase (p : Placements α) (id id' : Nat) :
    (p.erase id).item? id' = if id' = id then none else p.item? id' := by
  unfold item? erase
  dsimp only
  rw [find?_filter_ne]
  split <;> rfl

/-- The counter ends up above the numbers of all contours that were placed. -/
theorem lt_nextId_ofContours (nextId : Nat) (new : List (Contour α × CatalogItem α)) :
    nextId ≤ (ofContours nextId new).nextId ∧
      ∀ id ∈ (ofContours nextId new).ids, id < (ofContours nextId new).nextId := by
  rw [ids_ofContours]
  show nextId ≤ new.foldl (fun n e => Nat.max n (e.1.id + 1)) nextId ∧
    ∀ id ∈ new.map (·.1.id), id < new.foldl (fun n e => Nat.max n (e.1.id + 1)) nextId
  induction new generalizing nextId with
  | nil => exact ⟨Nat.le_refl _, fun _ h => absurd h List.not_mem_nil⟩
  | cons e rest ih =>
    obtain ⟨hle, hlt⟩ := ih (Nat.max nextId (e.1.id + 1))
    rw [List.foldl_cons]
    refine ⟨Nat.le_trans (Nat.le_max_left _ _) hle, fun id hid => ?_⟩
    rcases List.mem_cons.mp hid with rfl | hrest
    · exact Nat.lt_of_lt_of_le (Nat.le_max_right nextId (e.1.id + 1)) hle
    · exact hlt id hrest

variable [Scalar α]

theorem consistent_empty : (empty : Placements α).Consistent where
  nodup_ids := List.nodup_nil
  lt_nextId _ h := absurd h List.not_mem_nil
  keys_items := rfl
  shows _ h := absurd h List.not_mem_nil
  active_mem _ h := nomatch h

theorem consistent_clear (p : Placements α) : p.clear.Consistent where
  nodup_ids := List.nodup_nil
  lt_nextId _ h := absurd h List.not_mem_nil
  keys_items := rfl
  shows _ h := absurd h List.not_mem_nil
  active_mem _ h := nomatch h

/-- Contours that keep their identities, with the items, the counter and the selection of
    before, are consistent if those of before were. -/
theorem Consistent.congr (h : p.Consistent)
    (hc : p'.contours.map Contour.identity = p.contours.map Contour.identity)
    (hitems : p'.items = p.items) (hnext : p'.nextId = p.nextId) (hactive : p'.active = p.active) :
    p'.Consistent ∧ p'.ids = p.ids := by
  have hids : p'.ids = p.ids := by
    have := congrArg (List.map (·.1)) hc
    simpa [ids, Contour.identity, Function.comp_def] using this
  -- all but the fourth field speak of the numbers only
  refine ⟨⟨?_, ?_, ?_, ?_, ?_⟩, hids⟩
  · rw [hids]
    exact h.nodup_ids
  · rw [hids, hnext]
    exact h.lt_nextId
  · rw [hids, hitems]
    exact h.keys_items
  · intro c' hc'
    have hmem : c'.identity ∈ p.contours.map Contour.identity := hc ▸ List.mem_map_of_mem hc'
    obtain ⟨c, hcp, he⟩ := List.mem_map.mp hmem
    obtain ⟨hid, hitem, hscale, hsize⟩ : c.id = c'.id ∧ c.itemId = c'.itemId ∧
        c.scaleOverride = c'.scaleOverride ∧ c.footprint = c'.footprint := by
      simpa [Contour.identity] using he
    obtain ⟨item, hi, hid', hsize'⟩ := h.shows c hcp
    refine ⟨item, ?_, ?_, ?_⟩
    · rw [← hid, ← hi]
      unfold item?
      rw [hitems]
    · rw [hid', hitem]
    · rw [← hsize, hsize', hscale]
  · rw [hids, hactive]
    exact h.active_mem

/-- An edit of each contour that keeps the identities keeps all references. -/
theorem Consistent.map {f : Contour α → Contour α} (hf : ∀ c, (f c).identity = c.identity)
    (h : p.Consistent) :
    ({ p with contours := p.contours.map f } : Placements α).Consistent ∧
      ({ p with contours := p.contours.map f } : Placements α).ids = p.ids := by
  refine h.congr ?_ rfl rfl rfl
  rw [List.map_map]
  exact List.map_congr_left fun c _ => hf c

theorem Consistent.update {f : Contour α → Contour α} (hf : ∀ c, (f c).identity = c.identity)
    (h : p.Consistent) (id : Nat) : (p.update id f).Consistent := by
  refine (h.map (f := fun c => if c.id = id then f c else c) fun c => ?_).1
  split
  · exact hf c
  · rfl

/-- A contour that comes in under a number of its own. -/
theorem Consistent.insert (h : p.Consistent) (hid : id ∉ p.ids) (item : CatalogItem α)
    (position : Point α) (rotation : Rotation) (scaleOverride : α) :
    (p.insert id item position rotation scaleOverride).Consistent := by
  -- no item lies under the new number, so none is replaced
  have hkeys : p.items.filter (·.1 ≠ id) = p.items := by
    refine List.filter_eq_self.mpr fun e he => ?_
    have hmem : e.1 ∈ p.ids := h.keys_items ▸ List.mem_map_of_mem he
    have hne : e.1 ≠ id := fun heq => hid (heq ▸ hmem)
    simpa using hne
  refine ⟨?_, ?_, ?_, ?_, ?_⟩
  · rw [ids_insert, List.nodup_append]
    refine ⟨h.nodup_ids, List.nodup_singleton id, fun a ha b hb => ?_⟩
    rw [List.mem_singleton.mp hb]
    exact fun heq => hid (heq ▸ ha)
  · intro id' hid'
    have hmax : (p.insert id item position rotation scaleOverride).nextId =
        Nat.max p.nextId (id + 1) := rfl
    rw [hmax]
    rw [ids_insert] at hid'
    -- the counter is raised above the new number and never lowered
    rcases List.mem_append.mp hid' with hold | hnew
    · exact Nat.lt_of_lt_of_le (h.lt_nextId id' hold) (Nat.le_max_left _ _)
    · rw [List.mem_singleton.mp hnew]
      exact Nat.le_max_right _ _
  · rw [ids_insert]
    show ((p.items.filter (·.1 ≠ id)) ++ [(id, item)]).map (·.1) = p.ids ++ [id]
    rw [hkeys, List.map_append, h.keys_items]
    rfl
  · intro c hc
    rcases List.mem_append.mp hc with hold | hnew
    · obtain ⟨item', hi, hs⟩ := h.shows c hold
      have hne : c.id ≠ id := fun heq => hid (heq ▸ List.mem_map_of_mem hold)
      exact ⟨item', by rw [item?_insert, if_neg hne, hi], hs⟩
    · rw [List.mem_singleton.mp hnew]
      exact ⟨item, by rw [item?_insert]; exact if_pos rfl, rfl, rfl⟩
  · intro id' hid'
    have heq : id = id' := Option.some.inj hid'
    rw [ids_insert, heq]
    exact List.mem_append_right _ (List.mem_singleton_self id')

/-- A new placement gets a number that is not in use. -/
theorem Consistent.place (h : p.Consistent) (item : CatalogItem α) (position : Point α) :
    (p.place item position).Consistent :=
  h.insert (fun hid => Nat.lt_irrefl _ (h.lt_nextId _ hid)) item position _ _

/-- A removed contour takes its item and the selection with it. -/
theorem Consistent.erase (h : p.Consistent) (id : Nat) : (p.erase id).Consistent := by
  have hmem : ∀ id', id' ∈ (p.erase id).ids ↔ id' ∈ p.ids ∧ id' ≠ id := by
    intro id'
    rw [ids_erase, List.mem_filter, decide_eq_true_iff]
  refine ⟨?_, ?_, ?_, ?_, ?_⟩
  · rw [ids_erase]
    exact h.nodup_ids.filter _
  · intro id' hid'
    exact h.lt_nextId id' ((hmem id').mp hid').1
  · rw [ids_erase, ← h.keys_items, List.filter_map]
    rfl
  · intro c hc
    obtain ⟨hcp, hne⟩ := List.mem_filter.mp hc
    obtain ⟨item, hi, hs⟩ := h.shows c hcp
    exact ⟨item, by rw [item?_erase, if_neg (of_decide_eq_true hne), hi], hs⟩
  · intro id' hid'
    -- the selection is kept only if it is not the erased contour
    have hactive : (p.erase id).active = if p.active = some id then none else p.active := rfl
    rw [hactive] at hid'
    split at hid'
    · cases hid'
    · rename_i hne
      exact (hmem id').mpr ⟨h.active_mem id' hid', fun heq => hne (heq ▸ hid')⟩

/-- Contours with distinct numbers, each showing its item. -/
theorem consistent_ofContours (nextId : Nat) {new : List (Contour α × CatalogItem α)}
    (hnd : (new.map (·.1.id)).Nodup) (hs : ∀ e ∈ new, e.1.Shows e.2) :
    (ofContours nextId new).Consistent := by
  have hkeys : (ofContours nextId new).items.map (·.1) = new.map (·.1.id) := by
    simp [ofContours]
  refine ⟨?_, (lt_nextId_ofContours nextId new).2, ?_, ?_, ?_⟩
  · rw [ids_ofContours]
    exact hnd
  · rw [hkeys, ids_ofContours]
  · intro c hc
    obtain ⟨e, he, rfl⟩ := List.mem_map.mp hc
    have hmem : (e.1.id, e.2) ∈ (ofContours nextId new).items := List.mem_map.mpr ⟨e, he, rfl⟩
    exact ⟨e.2, item?_of_mem (hkeys ▸ hnd) hmem, hs e he⟩
  · intro id hid
    rw [ids_ofContours]
    obtain ⟨e, he, rfl⟩ := Option.map_eq_some_iff.mp hid
    exact List.mem_map_of_mem (List.mem_of_getLast? he)

end Placements

/-! ## Section 2: Layouts -/

namespace Layout

variable {α : Type}

/-- The contours fit together, every label has an owner, and no slot is lost. -/
structure Consistent [Scalar α] (l : Layout α) : Prop where
  /-- The contours fit together. -/
  placements : l.placements.Consistent
  /-- The owner of each label is there. -/
  owner_mem : ∀ k label, l.labels.get? k = some label → label.owner ∈ l.placements.ids
  /-- The free slots of the labels are known. -/
  valid_labels : l.labels.Valid
  /-- The free slots of the primitives are known. -/
  valid_primitives : l.primitives.Valid

section Edits

variable [Scalar α] {l : Layout α} {k : Key} {label : Label α} {id : Nat}

/-- The owner of a label can be looked up. -/
theorem Consistent.find?_owner (h : l.Consistent) (hk : l.labels.get? k = some label) :
    ∃ c, l.placements.find? label.owner = some c :=
  Placements.find?_of_mem_ids (h.owner_mem k label hk)

theorem consistent_make (tray : Tray α) : (make tray).Consistent where
  placements := Placements.consistent_empty
  owner_mem k label hk := by simp [make] at hk
  valid_labels := SlotTable.valid_empty
  valid_primitives := SlotTable.valid_empty

theorem consistent_clear (l : Layout α) : l.clear.Consistent where
  placements := Placements.consistent_clear l.placements
  owner_mem k label hk := by simp [clear] at hk
  valid_labels := SlotTable.valid_empty
  valid_primitives := SlotTable.valid_empty

/-- An edit of all contours, all labels and all primitives that keeps the identities of contours
    and the owners of labels. -/
theorem Consistent.map {f : Contour α → Contour α} {g : Key → Label α → Label α}
    {e : Key → Primitive α → Primitive α} (hf : ∀ c, (f c).identity = c.identity)
    (hg : ∀ k label, (g k label).owner = label.owner) (h : l.Consistent) (z : Zoom α) :
    ({ l with
      placements := { l.placements with contours := l.placements.contours.map f }
      primitives := l.primitives.map e
      labels := l.labels.map g
      zoom := z } : Layout α).Consistent := by
  obtain ⟨hp, hids⟩ := h.placements.map hf
  refine ⟨hp, fun k label hk => ?_, h.valid_labels.map g, h.valid_primitives.map e⟩
  rw [SlotTable.get?_map] at hk
  obtain ⟨old, hold, rfl⟩ := Option.map_eq_some_iff.mp hk
  rw [hg, hids]
  exact h.owner_mem k old hold

theorem Consistent.rescaleTo (h : l.Consistent) (z : Zoom α) : (l.rescaleTo z).Consistent := by
  unfold Layout.rescaleTo
  split
  · exact h
  · refine h.map ?_ ?_ z
    · intro c
      rfl
    · intro k label
      rfl

theorem Consistent.place (h : l.Consistent) (item : CatalogItem α) (position : Point α) :
    ({ l with placements := l.placements.place item position } : Layout α).Consistent where
  placements := h.placements.place item position
  owner_mem k label hk := by
    have hids : (l.placements.place item position).ids =
        l.placements.ids ++ [l.placements.nextId] :=
      Placements.ids_insert l.placements _ item position _ _
    rw [hids]
    exact List.mem_append_left _ (h.owner_mem k label hk)
  valid_labels := h.valid_labels
  valid_primitives := h.valid_primitives

/-- A contour is removed with all its labels, so no label loses its owner. -/
theorem Consistent.removeContour (h : l.Consistent) {ks : List Key}
    (hks : ∀ k label, l.labels.get? k = some label → label.owner = id → k ∈ ks) :
    ({ l with
      placements := l.placements.erase id
      labels := ks.foldl (fun labels k => labels.erase k) l.labels } : Layout α).Consistent where
  placements := h.placements.erase id
  owner_mem k label hk := by
    dsimp only at hk
    rw [SlotTable.get?_foldl_erase] at hk
    -- a label of the erased contour would be among those that were erased with it
    split at hk
    · cases hk
    · rename_i hnot
      rw [Placements.ids_erase, List.mem_filter, decide_eq_true_iff]
      exact ⟨h.owner_mem k label hk, fun ho => hnot (hks k label hk ho)⟩
  valid_labels := h.valid_labels.foldl_erase ks
  valid_primitives := h.valid_primitives

theorem Consistent.setPrimitives (h : l.Consistent) {t : SlotTable (Primitive α)} (ht : t.Valid) :
    ({ l with primitives := t } : Layout α).Consistent :=
  ⟨h.placements, h.owner_mem, h.valid_labels, ht⟩

theorem Consistent.setTray (h : l.Consistent) (tray : Tray α) :
    ({ l with tray := tray } : Layout α).Consistent :=
  ⟨h.placements, h.owner_mem, h.valid_labels, h.valid_primitives⟩

theorem Consistent.insertLabel (h : l.Consistent) (ho : label.owner ∈ l.placements.ids) :
    ({ l with labels := l.labels.insert label } : Layout α).Consistent where
  placements := h.placements
  owner_mem k label' hk := by
    dsimp only at hk
    rw [h.valid_labels.get?_insert] at hk
    split at hk
    · rw [← Option.some.inj hk]
      exact ho
    · exact h.owner_mem k label' hk
  valid_labels := h.valid_labels.insert label
  valid_primitives := h.valid_primitives

theorem Consistent.setLabel (h : l.Consistent) (k : Key) (ho : label.owner ∈ l.placements.ids) :
    ({ l with labels := l.labels.set k label } : Layout α).Consistent where
  placements := h.placements
  owner_mem k' label' hk := by
    dsimp only at hk
    cases hold : l.labels.get? k with
    | none =>
      have hset : l.labels.set k label = l.labels := by
        unfold SlotTable.set
        rw [hold]
      rw [hset] at hk
      exact h.owner_mem k' label' hk
    | some old =>
      rw [SlotTable.get?_set hold] at hk
      split at hk
      · rw [← Option.some.inj hk]
        exact ho
      · exact h.owner_mem k' label' hk
  valid_labels := h.valid_labels.set k label
  valid_primitives := h.valid_primitives

theorem Consistent.eraseLabel (h : l.Consistent) (k : Key) :
    ({ l with labels := l.labels.erase k } : Layout α).Consistent where
  placements := h.placements
  owner_mem k' label hk := by
    dsimp only at hk
    rw [SlotTable.get?_erase] at hk
    split at hk
    · cases hk
    · exact h.owner_mem k' label hk
  valid_labels := h.valid_labels.erase k
  valid_primitives := h.valid_primitives

end Edits

variable [Coordinate α] {l : Layout α}

/-- A contour is edited, and its labels are edited and brought back to it. -/
theorem Consistent.resettle {f : Contour α → Contour α} {g : Label α → Label α}
    (hf : ∀ c, (f c).identity = c.identity) (hg : ∀ label, (g label).owner = label.owner)
    (h : l.Consistent) (id : Nat) (s : Settings α) :
    (({ l with placements := l.placements.update id f } : Layout α).resettleLabels id g
      s).Consistent where
  placements := h.placements.update hf id
  owner_mem k label hk := by
    have hids : (l.placements.update id f).ids = l.placements.ids :=
      Placements.ids_update (fun c => congrArg (·.1) (hf c)) l.placements id
    unfold resettleLabels at hk ⊢
    dsimp only at hk ⊢
    rw [SlotTable.get?_map] at hk
    obtain ⟨old, hold, rfl⟩ := Option.map_eq_some_iff.mp hk
    rw [hids]
    -- neither the edit nor the way back to the contour changes the owner
    have hkept : ∀ m : Layout α, (if old.owner = id then m.settled s (g old) else old).owner =
        old.owner := by
      intro m
      split
      · rw [owner_settled, hg]
      · rfl
    rw [hkept]
    exact h.owner_mem k old hold
  valid_labels := by
    unfold resettleLabels
    dsimp only
    exact h.valid_labels.map _
  valid_primitives := h.valid_primitives

theorem Consistent.highlight (h : l.Consistent) (r : Report) : (l.highlight r).Consistent := by
  have hmap := h.map (f := fun c => { c with highlighted := c.id ∈ r.offendingContours })
    (g := fun _ label => label)
    (e := fun k p => { p with highlighted := k ∈ r.outOfBoundsPrimitives })
    (fun _ => rfl) (fun _ _ => rfl) l.zoom
  rw [SlotTable.map_id'] at hmap
  exact hmap

/-- What a document comes to is consistent, whatever the document says. -/
theorem consistent_document (doc : Workspace α) (catalog : Catalog α) (s : Settings α) (z : Zoom α)
    (nextId : Nat) : (doc.layout catalog s z nextId).Consistent where
  placements := by
    refine Placements.consistent_ofContours nextId ?_ fun e he => ?_
    · rw [List.map_map]
      exact (ContourRecord.nodup_accepted catalog [] doc.contours).1
    · obtain ⟨a, -, rfl⟩ := List.mem_map.mp he
      exact ⟨rfl, rfl⟩
  owner_mem k label hk := by
    have hids : (doc.layout catalog s z nextId).placements.ids = doc.acceptedIds catalog := by
      simp [Workspace.layout, Workspace.bare, Placements.ids_ofContours, Workspace.acceptedIds,
        AcceptedContour.contour, Contour.make]
    have hmem : label ∈ (doc.layout catalog s z nextId).labels.values :=
      SlotTable.mem_values.mpr ⟨k, hk⟩
    unfold Workspace.layout at hmem
    dsimp only at hmem
    rw [SlotTable.values_ofValues] at hmem
    -- only labels whose contour comes back were restored
    obtain ⟨r, hr, rfl⟩ := List.mem_map.mp hmem
    obtain ⟨-, ho⟩ := List.mem_filter.mp hr
    rw [owner_settled, hids]
    exact of_decide_eq_true ho
  valid_labels := SlotTable.valid_ofValues _
  valid_primitives := SlotTable.valid_ofValues _

end Layout

end FoamTray
