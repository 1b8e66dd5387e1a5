import FoamTray.Proofs.Layout.History

/-! # Where contours come from

    While one catalog is at hand, every contour shows the item that the catalog has under its
    name, at the item's own factor or at a positive one.

    * `Catalog.Keyed` : every item lies under its own name, as in a catalog made of items.
    * `Placements.Sourced` : each contour has to do with the catalog in this way.
    * `Reachable.sourced` : so it is throughout a run.
-/

namespace FoamTray

/-! ## Section 1: Catalogs -/

namespace Catalog

variable {α : Type}

/-- Whether every item lies under its own name. -/
def Keyed (catalog : Catalog α) : Prop :=
  ∀ id item, catalog.find? id = some item → item.id = id

/-- What is found in a catalog of items is one of them, under its own name. -/
theorem find?_ofItems {items : List (CatalogItem α)} {categories : Dictionary String} {id : String}
    {item : CatalogItem α} (h : (ofItems items categories).find? id = some item) :
    item ∈ items ∧ item.id = id := by
  -- induction on the items that are still to come, over what is there already
  suffices hfold : ∀ (rest : List (CatalogItem α)) (d : Dictionary (CatalogItem α)),
      (∀ i ∈ rest, i ∈ items) →
      (∀ id item, d.find? id = some item → item ∈ items ∧ item.id = id) →
      ∀ id item, ((rest.map fun item => (item.id, item)).foldl
        (fun d (name, value) => d.insert name value) d).find? id = some item →
        item ∈ items ∧ item.id = id by
    exact hfold items .empty (fun _ hi => hi) (fun _ _ h => nomatch h) id item h
  intro rest
  induction rest with
  | nil => exact fun d _ hd => hd
  | cons i rest ih =>
    intro d hrest hd
    refine ih (d.insert i.id i) (fun j hj => hrest j (List.mem_cons_of_mem i hj))
      fun id found hfound => ?_
    rw [Dictionary.find?_insert] at hfound
    split at hfound
    · rename_i hid
      rw [← Option.some.inj hfound]
      exact ⟨hrest i List.mem_cons_self, hid⟩
    · exact hd id found hfound

theorem keyed_ofItems (items : List (CatalogItem α)) (categories : Dictionary String) :
    (ofItems items categories).Keyed :=
  fun _ _ h => (find?_ofItems h).2

end Catalog

/-! ## Section 2: Contours of a catalog -/

namespace Placements

variable {α : Type} [Scalar α] {p p' : Placements α} {catalog : Catalog α}

/-- Each contour has the item that the catalog has under its name, and the factor of the item or
    a positive one. -/
def Sourced (p : Placements α) (catalog : Catalog α) : Prop :=
  ∀ c ∈ p.contours, ∃ item, p.item? c.id = some item ∧ catalog.find? c.itemId = some item ∧
    (((0 : Nat) : α) < c.scaleOverride ∨ c.scaleOverride = item.scaleOverride)

/-- Some of the contours of before, each with its identity and its item. -/
theorem Sourced.congr (h : p.Sourced catalog)
    (hc : ∀ c' ∈ p'.contours, ∃ c ∈ p.contours, c'.identity = c.identity)
    (hitems : ∀ c' ∈ p'.contours, p'.item? c'.id = p.item? c'.id) : p'.Sourced catalog := by
  intro c' hc'
  obtain ⟨c, hmem, he⟩ := hc c' hc'
  obtain ⟨hid, hitem, hscale, -⟩ : c'.id = c.id ∧ c'.itemId = c.itemId ∧
      c'.scaleOverride = c.scaleOverride ∧ c'.footprint = c.footprint := by
    simpa [Contour.identity] using he
  obtain ⟨item, hi, hfound, hfactor⟩ := h c hmem
  refine ⟨item, ?_, ?_, ?_⟩
  · rw [hitems c' hc', hid]
    exact hi
  · rw [hitem]
    exact hfound
  · rw [hscale]
    exact hfactor

theorem Sourced.map {f : Contour α → Contour α} (hf : ∀ c, (f c).identity = c.identity)
    (h : p.Sourced catalog) :
    ({ p with contours := p.contours.map f } : Placements α).Sourced catalog := by
  refine h.congr (fun c' hc' => ?_) fun _ _ => rfl
  obtain ⟨c, hc, rfl⟩ := List.mem_map.mp hc'
  exact ⟨c, hc, hf c⟩

theorem Sourced.update {f : Contour α → Contour α} (hf : ∀ c, (f c).identity = c.identity)
    (h : p.Sourced catalog) (id : Nat) : (p.update id f).Sourced catalog := by
  refine h.map (f := fun c => if c.id = id then f c else c) fun c => ?_
  split
  · exact hf c
  · rfl

theorem Sourced.erase (h : p.Sourced catalog) (id : Nat) : (p.erase id).Sourced catalog := by
  have hkept : ∀ c ∈ (p.erase id).contours, c ∈ p.contours ∧ c.id ≠ id := by
    intro c hc
    obtain ⟨hmem, hne⟩ := List.mem_filter.mp hc
    exact ⟨hmem, of_decide_eq_true hne⟩
  refine h.congr (fun c hc => ⟨c, (hkept c hc).1, rfl⟩) fun c hc => ?_
  rw [item?_erase, if_neg (hkept c hc).2]

/-- A placed item has the factor of the item. -/
theorem Sourced.place (h : p.Sourced catalog) (hp : p.Consistent) {itemId : String}
    {item : CatalogItem α} (hi : catalog.find? itemId = some item) (hkeyed : catalog.Keyed)
    (position : Point α) : (p.place item position).Sourced catalog := by
  intro c hc
  unfold Placements.place at hc ⊢
  rw [item?_insert]
  rcases List.mem_append.mp hc with hold | hnew
  · obtain ⟨old, hitem, hfound, hfactor⟩ := h c hold
    have hne : c.id ≠ p.nextId := by
      have hlt := hp.lt_nextId c.id (List.mem_map_of_mem hold)
      omega
    rw [if_neg hne]
    exact ⟨old, hitem, hfound, hfactor⟩
  · rw [List.mem_singleton.mp hnew]
    refine ⟨item, if_pos rfl, ?_, .inr rfl⟩
    show catalog.find? item.id = some item
    rw [hkeyed itemId item hi]
    exact hi

end Placements

namespace Layout

variable {α : Type} [Coordinate α] {l : Layout α} {catalog : Catalog α} {s : Settings α}

/-- What a document comes to is of the catalog that it is restored with. -/
theorem sourced_document (doc : Workspace α) (hkeyed : catalog.Keyed) (s : Settings α) (z : Zoom α)
    (nextId : Nat) : (doc.layout catalog s z nextId).placements.Sourced catalog := by
  have hconsistent := consistent_document doc catalog s z nextId
  intro c hc
  obtain ⟨e, he, rfl⟩ := List.mem_map.mp hc
  obtain ⟨a, ha, rfl⟩ := List.mem_map.mp he
  have hfound := ContourRecord.find?_of_mem_accepted ha
  refine ⟨a.item, ?_, ?_, ?_⟩
  · have hnd := hconsistent.placements.keys_items ▸ hconsistent.placements.nodup_ids
    exact Placements.item?_of_mem hnd (List.mem_map.mpr ⟨_, he, rfl⟩)
  · show catalog.find? a.item.id = some a.item
    rw [hkeyed _ _ hfound]
    exact hfound
  · show ((0 : Nat) : α) < a.record.restoredScale a.item ∨
      a.record.restoredScale a.item = a.item.scaleOverride
    unfold ContourRecord.restoredScale
    split
    · rename_i hpos
      exact .inl hpos
    · exact .inr rfl

theorem sourced_rescaleTo (h : l.placements.Sourced catalog) (z : Zoom α) :
    (l.rescaleTo z).placements.Sourced catalog := by
  unfold rescaleTo
  split
  · exact h
  · exact h.map fun _ => rfl

theorem sourced_validate (h : l.placements.Sourced catalog) (rasterizer : Rasterizer α)
    (s : Settings α) : (l.validate rasterizer s).2.placements.Sourced catalog := by
  rcases l.validate_snd_cases rasterizer s with he | ⟨r, he⟩
  · rw [he]
    exact h
  · rw [he]
    exact h.map fun _ => rfl

theorem sourced_check (h : l.placements.Sourced catalog) (rasterizer : Rasterizer α)
    (s : Settings α) : (l.check rasterizer s).2.placements.Sourced catalog :=
  sourced_rescaleTo (sourced_validate (sourced_rescaleTo h .unit) rasterizer s) l.zoom

theorem sourced_change {l' : Layout α} (h : l.placements.Sourced catalog) (hl : l.Consistent)
    (hkeyed : catalog.Keyed) (hc : l.Change catalog s l') : l'.placements.Sourced catalog := by
  cases hc with
  | rescaled z => exact sourced_rescaleTo h z
  | placed position hi => exact h.place hl.placements hi hkeyed position
  | contourEdited hc hf hg => exact h.update hf _
  | contourErased hc => exact h.erase _
  -- the other changes leave the contours alone
  | unchanged => exact h
  | primitiveAdded p => exact h
  | primitiveEdited k p => exact h
  | primitiveErased k => exact h
  | labelAttached hc ho => exact h
  | labelEdited hk ho => exact h
  | labelErased k => exact h
  | trayResized tray => exact h

/-! ## Section 3: Runs with one catalog -/

/-- No action with the catalog brings in a contour of another one. -/
theorem sourced_act (h : l.placements.Sourced catalog) (hl : l.Consistent) (hkeyed : catalog.Keyed)
    (s : Settings α) (rasterizer : Rasterizer α) (a : Action α) :
    (l.act catalog s rasterizer a).placements.Sourced catalog := by
  unfold Layout.act
  cases a with
  | command c => exact sourced_change h hl hkeyed (atomic_apply hl c catalog s).change
  | restore doc =>
    dsimp only
    by_cases hv : doc.schemaVersion = schemaVersion
    · rw [restore_eq l hv]
      exact sourced_rescaleTo (sourced_document doc hkeyed s _ _) l.zoom
    · rw [restore_of_ne l hv]
      exact h
  | clear => exact fun c hc => absurd hc List.not_mem_nil
  | validate => exact sourced_validate h rasterizer s
  | check => exact sourced_check h rasterizer s
  | order =>
    dsimp only
    rw [exportWith_snd]
    exact sourced_check h rasterizer s

theorem Reachable.attainable {rasterizer : Rasterizer α} (h : Reachable catalog s rasterizer l) :
    l.Attainable := by
  induction h with
  | make tray => exact .make tray
  | act a _ ih => exact .act catalog s rasterizer a ih

/-- Throughout a run every contour is of the catalog. -/
theorem Reachable.sourced {rasterizer : Rasterizer α} (h : Reachable catalog s rasterizer l)
    (hkeyed : catalog.Keyed) : l.placements.Sourced catalog := by
  induction h with
  | make tray => exact fun c hc => absurd hc List.not_mem_nil
  | act a hl ih => exact sourced_act ih hl.attainable.consistent hkeyed s rasterizer a

end Layout

end FoamTray
