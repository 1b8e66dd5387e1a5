import FoamTray.Proofs.Layout.Frames

/-! # What commands leave alone

    A command names what it is about: a contour, a label, a primitive, the tray or the zoom. This
    module says for each command what may be different afterwards. Everything else of the layout
    is the same then: the same values, in the same order and under the same keys.

    * `SlotTable.Gains` : a table with one further value.
    * `Layout.EditsContour`, `EditsLabel`, `EditsPrimitive`, `Stretches` : a layout with one
      contour, one label, one primitive or the zoom changed.
    * `Command.Effect` : what each command may change.
    * `commands_stay_local` : a command that is accepted changes nothing else.
-/

namespace FoamTray

/-! ## Section 1: What may change -/

/-- A further value came in under a key that was dead. The others are listed as before. -/
structure SlotTable.Gains {β : Type} (t t' : SlotTable β) (k : Key) (v : β) : Prop where
  /-- The key named nothing before. -/
  dead : t.get? k = none
  /-- Now it names the value. -/
  live : t'.get? k = some v
  /-- The other values are in the same order under the same keys. -/
  others : t'.entries.filter (·.1 ≠ k) = t.entries

theorem SlotTable.Valid.gains_insert {β : Type} {t : SlotTable β} (h : t.Valid) (v : β) :
    t.Gains (t.insert v) t.nextKey v where
  dead := h.get?_nextKey
  live := h.get?_insert_self v
  others := h.filter_entries_insert v

namespace Layout

variable {α : Type} [Scalar α]

/-- One contour is edited and keeps what identifies it, and its labels are moved. -/
def EditsContour (l : Layout α) (id : Nat) (l' : Layout α) : Prop :=
  id ∈ l.placements.ids ∧ ∃ (edit : Contour α → Contour α) (place : Label α → Point α),
    (∀ c, (edit c).identity = c.identity) ∧
    l' = { l with
      placements := { l.placements with
        contours := l.placements.contours.map fun c => if c.id = id then edit c else c }
      labels := l.labels.map fun _ label =>
        if label.owner = id then { label with position := place label } else label }

/-- One label is edited, and stays with its contour. -/
def EditsLabel (l : Layout α) (k : Key) (l' : Layout α) : Prop :=
  ∃ old new, l.labels.get? k = some old ∧ new.owner = old.owner ∧
    l' = { l with labels := l.labels.map fun k' label => if k' = k then new else label }

/-- One primitive is edited. -/
def EditsPrimitive (l : Layout α) (k : Key) (l' : Layout α) : Prop :=
  ∃ old new, l.primitives.get? k = some old ∧
    l' = { l with primitives := l.primitives.map fun k' p => if k' = k then new else p }

/-- Everything is at another place, and primitives are of another size. -/
def Stretches (l l' : Layout α) : Prop :=
  ∃ (z : Zoom α) (place last : Contour α → Point α) (pocket : Primitive α → Point α)
    (shape : Primitive α → PrimitiveShape α) (text : Label α → Point α),
    l' = { l with
      zoom := z
      placements := { l.placements with
        contours := l.placements.contours.map fun c =>
          { c with position := place c, lastPosition := last c } }
      primitives := l.primitives.map fun _ p => { p with position := pocket p, shape := shape p }
      labels := l.labels.map fun _ label => { label with position := text label } }

end Layout

/-- What a command that is accepted makes of a layout, and which entity it says came in. The values
    that it computes are left open; all that is not mentioned is as it was. -/
def Command.Effect {α : Type} [Scalar α] (l : Layout α) (created : Option Target)
    (l' : Layout α) : Command α → Prop
  -- a contour comes in as the last one, under a number of its own, and is selected
  | .place _ _ => ∃ c item, created = some (.contour c.id) ∧ c.id ∉ l.placements.ids ∧
      l' = { l with placements := {
        contours := l.placements.contours ++ [c]
        items := l.placements.items ++ [(c.id, item)]
        nextId := c.id + 1
        active := some c.id } }
  | .addPrimitive _ _ => ∃ k p primitives, created = some (.primitive k) ∧
      l.primitives.Gains primitives k p ∧ l' = { l with primitives := primitives }
  | .attachLabel owner _ _ => ∃ k label labels, created = some (.label k) ∧
      label.owner = owner ∧ l.labels.Gains labels k label ∧ l' = { l with labels := labels }
  | .move (.contour id) _ _ | .rotate id _ | .rotateStep id | .snap id _ =>
      created = none ∧ l.EditsContour id l'
  | .move (.primitive k) _ _ | .resizePrimitive k _ => created = none ∧ l.EditsPrimitive k l'
  | .move (.label k) _ _ | .setLabelText k _ => created = none ∧ l.EditsLabel k l'
  -- a contour goes with its item and its labels, and is selected no more
  | .delete (.contour id) => created = none ∧ id ∈ l.placements.ids ∧ ∃ labels,
      labels.entries = l.labels.entries.filter (·.2.owner ≠ id) ∧
      l' = { l with
        placements := {
          contours := l.placements.contours.filter (·.id ≠ id)
          items := l.placements.items.filter (·.1 ≠ id)
          nextId := l.placements.nextId
          active := if l.placements.active = some id then none else l.placements.active }
        labels := labels }
  | .delete (.primitive k) => created = none ∧ k ∈ l.primitives.keys ∧ ∃ primitives,
      primitives.entries = l.primitives.entries.filter (·.1 ≠ k) ∧
      l' = { l with primitives := primitives }
  | .delete (.label k) => created = none ∧ k ∈ l.labels.keys ∧ ∃ labels,
      labels.entries = l.labels.entries.filter (·.1 ≠ k) ∧ l' = { l with labels := labels }
  | .setZoom _ => created = none ∧ l.Stretches l'
  | .resizeTray _ _ | .applyPreset _ => created = none ∧ ∃ width height,
      l' = { l with tray := { l.tray with width := width, height := height } }

/-! ## Section 2: Contours -/

namespace Layout

variable {α : Type} [Coordinate α] {l l' : Layout α} {s : Settings α}

theorem settled_position (l : Layout α) (s : Settings α) (label : Label α) :
    l.settled s label = { label with position := (l.settled s label).position } := by
  unfold settled
  split
  · rw [Label.movedInto_eq]
  · rfl

/-- A contour comes in with its item, and the counter goes on by one. -/
theorem placements_place (hl : l.Consistent) (item : CatalogItem α) (position : Point α) :
    l.placements.nextId ∉ l.placements.ids ∧
      l.placements.place item position = {
        contours := l.placements.contours ++
          [.make l.placements.nextId item position .deg0 item.scaleOverride]
        items := l.placements.items ++ [(l.placements.nextId, item)]
        nextId := l.placements.nextId + 1
        active := some l.placements.nextId } := by
  have hnew : l.placements.nextId ∉ l.placements.ids := fun hid =>
    Nat.lt_irrefl _ (hl.placements.lt_nextId _ hid)
  have hitems : l.placements.items.filter (·.1 ≠ l.placements.nextId) = l.placements.items := by
    refine List.filter_eq_self.mpr fun e he => decide_eq_true ?_
    intro hid
    refine hnew ?_
    rw [← hl.placements.keys_items, ← hid]
    exact List.mem_map_of_mem he
  refine ⟨hnew, ?_⟩
  unfold Placements.place Placements.insert
  rw [hitems]
  congr 1
  exact Nat.max_eq_right (Nat.le_succ _)

/-- Nothing is also an edit of each contour that is there. -/
theorem editsContour_self {id : Nat} (hid : id ∈ l.placements.ids) : l.EditsContour id l := by
  refine ⟨hid, fun c => c, fun label => label.position, fun _ => rfl, ?_⟩
  simp only [ite_self, List.map_id', SlotTable.map_id']

/-- Labels that are only moved, and then brought back, are only moved. -/
theorem editsContour_resettle {id : Nat} {f : Contour α → Contour α} {g : Label α → Label α}
    (hid : id ∈ l.placements.ids) (hf : ∀ c, (f c).identity = c.identity)
    (hg : ∀ label, ∃ p, g label = { label with position := p }) (s : Settings α) :
    l.EditsContour id
      (({ l with placements := l.placements.update id f } : Layout α).resettleLabels id g s) := by
  let m : Layout α := { l with placements := l.placements.update id f }
  refine ⟨hid, f, fun label => (m.settled s (g label)).position, hf, ?_⟩
  have hmoved : ∀ label, m.settled s (g label) =
      { label with position := (m.settled s (g label)).position } := by
    intro label
    obtain ⟨p, hp⟩ := hg label
    rw [settled_position m s (g label), hp]
  unfold resettleLabels
  congr 1
  refine SlotTable.map_congr fun k label _ => ?_
  split
  · exact hmoved label
  · rfl

theorem editsContour_moveContour {id : Nat} {dx dy : α} {u : Unit}
    (h : l.moveContour id dx dy s = (.ok u, l')) : l.EditsContour id l' := by
  cases hc : l.placements.find? id with
  | none =>
    unfold moveContour at h
    rw [hc] at h
    cases h
  | some c =>
    rw [moveContour_eq hc] at h
    rw [← (Prod.mk.inj h).2]
    apply editsContour_resettle (Placements.mem_ids_of_find? hc)
    · intro c
      rfl
    · intro label
      exact ⟨_, rfl⟩

theorem editsContour_turnContour {id : Nat} {c : Contour α} {rotation : Rotation} {u : Unit}
    (hc : l.placements.find? id = some c)
    (h : l.turnContour id rotation s = (.ok u, l')) : l.EditsContour id l' := by
  rw [turnContour_eq hc] at h
  rw [← (Prod.mk.inj h).2]
  apply editsContour_resettle (Placements.mem_ids_of_find? hc)
  · intro c
    rfl
  · intro label
    exact ⟨label.position, rfl⟩

/-- A turn that is answered with false has changed nothing. -/
theorem editsContour_rotateContour {id : Nat} {angle : α} {applied : Bool}
    (h : l.rotateContour id angle s = (.ok applied, l')) : l.EditsContour id l' := by
  unfold rotateContour at h
  split at h
  · cases h
  · rename_i c hc
    split at h
    · rw [← (Prod.mk.inj h).2]
      exact editsContour_self (Placements.mem_ids_of_find? hc)
    · obtain ⟨u, hturn, -⟩ := Attempt.of_andThen_ok h
      exact editsContour_turnContour hc hturn

theorem editsContour_rotateContourStep {id : Nat} {u : Unit}
    (h : l.rotateContourStep id s = (.ok u, l')) : l.EditsContour id l' := by
  unfold rotateContourStep at h
  split at h
  · cases h
  · rename_i c hc
    exact editsContour_turnContour hc h

theorem editsContour_snapContour {id : Nat} {angle : α} {u : Unit}
    (h : l.snapContour id angle s = (.ok u, l')) : l.EditsContour id l' := by
  unfold snapContour at h
  split at h
  · cases h
  · rename_i c hc
    exact editsContour_turnContour hc h

/-- The labels that go with a contour are all of it and no others. -/
theorem entries_removeContour (l : Layout α) (id : Nat) :
    ((l.labelKeys id).foldl (fun labels k => labels.erase k) l.labels).entries =
      l.labels.entries.filter (·.2.owner ≠ id) := by
  rw [SlotTable.entries_foldl_erase]
  refine List.filter_congr fun e he => ?_
  have hlive : l.labels.get? e.1 = some e.2 := SlotTable.mem_entries.mp he
  have howner : e.1 ∈ l.labelKeys id ↔ e.2.owner = id := by
    rw [mem_labelKeys, hlive]
    simp
  simp only [howner, ne_eq]

/-! ## Section 3: Primitives and labels -/

theorem editsPrimitive_movePrimitive {k : Key} {dx dy : α} {u : Unit}
    (h : l.movePrimitive k dx dy = (.ok u, l')) : l.EditsPrimitive k l' := by
  unfold movePrimitive at h
  split at h
  · cases h
  · rename_i p hk
    refine ⟨p, p.translate dx dy, hk, ?_⟩
    rw [← (Prod.mk.inj h).2, SlotTable.set_eq_map hk]

/-- A resizing that is answered with false has changed nothing. -/
theorem editsPrimitive_resizePrimitive {k : Key} {wish : PrimitiveShape α} {applied : Bool}
    (h : l.resizePrimitive k wish s = (.ok applied, l')) : l.EditsPrimitive k l' := by
  unfold resizePrimitive at h
  split at h
  · cases h
  · rename_i p hk
    dsimp only at h
    split at h
    · cases h
    · split at h
      · refine ⟨p, p, hk, ?_⟩
        rw [← (Prod.mk.inj h).2, ← SlotTable.set_eq_map hk, SlotTable.set_self hk]
      · refine ⟨p, { p with shape := l.limitedShape wish s }, hk, ?_⟩
        rw [← (Prod.mk.inj h).2, SlotTable.set_eq_map hk]

/-- A label that is edited is brought back to its contour, which is there. -/
theorem editsLabel_editLabel (hl : l.Consistent) {k : Key} {f : Label α → Label α} {u : Unit}
    (h : l.editLabel k f s = (.ok u, l')) (hf : ∀ label, (f label).owner = label.owner) :
    l.EditsLabel k l' := by
  cases hk : l.labels.get? k with
  | none =>
    unfold editLabel at h
    rw [hk] at h
    cases h
  | some label =>
    obtain ⟨c, hc⟩ := hl.find?_owner hk
    rw [← hf label] at hc
    rw [editLabel_eq hk hc] at h
    refine ⟨label, l.settled s (f label), hk, ?_, ?_⟩
    · rw [owner_settled, hf]
    · rw [← (Prod.mk.inj h).2, SlotTable.set_eq_map hk]

/-- Stretching moves everything, and stretches nothing but primitives. -/
theorem stretches_rescaleTo (l : Layout α) (z : Zoom α) : l.Stretches (l.rescaleTo z) := by
  unfold rescaleTo
  split
  · refine ⟨l.zoom, (·.position), (·.lastPosition), (·.position), (·.shape), (·.position), ?_⟩
    simp only [List.map_id', SlotTable.map_id']
  · exact ⟨z, _, _, _, _, _, rfl⟩

/-! ## Section 4: Every command -/

theorem effect_placeContour (hl : l.Consistent) {catalog : Catalog α} {itemId : String}
    {position : Option (Point α)} {id : Nat}
    (h : l.placeContour catalog itemId position = (.ok id, l')) :
    (Command.place itemId position).Effect l (some (.contour id)) l' := by
  unfold placeContour at h
  split at h
  · cases h
  · rename_i item _
    obtain ⟨hid, rfl⟩ := Prod.mk.inj h
    obtain ⟨hnew, heq⟩ := placements_place hl item (position.getD _)
    refine ⟨_, item, ?_, hnew, by rw [heq]; rfl⟩
    rw [← Except.ok.inj hid]
    rfl

theorem effect_deleteTarget {t : Target} {u : Unit} (h : l.deleteTarget t = (.ok u, l')) :
    (Command.delete t : Command α).Effect l none l' := by
  cases t with
  | contour id =>
    unfold deleteTarget removeContour at h
    dsimp only at h
    split at h
    · cases h
    · rename_i c hc
      rw [← (Prod.mk.inj h).2]
      exact ⟨rfl, Placements.mem_ids_of_find? hc, _, entries_removeContour l id, rfl⟩
  | primitive k =>
    unfold deleteTarget removePrimitive at h
    dsimp only at h
    split at h
    · cases h
    · rename_i p hk
      rw [← (Prod.mk.inj h).2]
      exact ⟨rfl, SlotTable.mem_keys.mpr ⟨p, hk⟩, _, l.primitives.entries_erase k, rfl⟩
  | label k =>
    unfold deleteTarget removeLabel at h
    dsimp only at h
    split at h
    · cases h
    · rename_i label hk
      rw [← (Prod.mk.inj h).2]
      exact ⟨rfl, SlotTable.mem_keys.mpr ⟨label, hk⟩, _, l.labels.entries_erase k, rfl⟩

theorem effect_attachLabel (hl : l.Consistent) {owner : Nat} {text : String}
    {offset : Option (α × α)} {k : Key} (h : l.attachLabel owner text offset s = (.ok k, l')) :
    (Command.attachLabel owner text offset).Effect l (some (.label k)) l' := by
  cases hc : l.placements.find? owner with
  | none =>
    have hb : l.contourBounds? owner = none := by simp [contourBounds?, hc]
    unfold attachLabel at h
    rw [hb] at h
    cases h
  | some c =>
    rw [attachLabel_eq hl.valid_labels hc] at h
    obtain ⟨hk, rfl⟩ := Prod.mk.inj h
    rw [← Except.ok.inj hk]
    exact ⟨_, _, _, rfl, owner_settled l s _, hl.valid_labels.gains_insert _, rfl⟩

theorem effect_setZoom {factor : α} {u : Unit} (h : l.setZoom factor s = (.ok u, l')) :
    (Command.setZoom factor).Effect l none l' := by
  refine ⟨rfl, ?_⟩
  unfold setZoom at h
  split at h
  · split at h
    · rw [← (Prod.mk.inj h).2]
      exact stretches_rescaleTo l _
    · cases h
  · cases h

theorem effect_applyPreset {name : String} {u : Unit} (h : l.applyPreset name s = (.ok u, l')) :
    (Command.applyPreset name : Command α).Effect l none l' := by
  unfold applyPreset at h
  split at h
  · cases h
  · rw [← (Prod.mk.inj h).2]
    exact ⟨rfl, _, _, rfl⟩

/-- What an accepted command does to a layout in which all references are intact. -/
theorem effect_apply (hl : l.Consistent) {c : Command α} {catalog : Catalog α}
    {outcome : CommandOutcome} (h : l.apply c catalog s = (.ok outcome, l')) :
    c.Effect l outcome.created l' := by
  -- the answer of an edit becomes that of the command, and a turn or a resizing may say that
  -- nothing was to be changed
  unfold apply at h
  cases c with
  | place itemId position =>
    obtain ⟨id, hplace, rfl⟩ := Attempt.of_andThen_ok h
    exact effect_placeContour hl hplace
  | move t dx dy =>
    obtain ⟨u, hmove, rfl⟩ := Attempt.of_andThen_ok h
    cases t with
    | contour id => exact ⟨rfl, editsContour_moveContour hmove⟩
    | primitive k => exact ⟨rfl, editsPrimitive_movePrimitive hmove⟩
    | label k =>
      exact ⟨rfl, editsLabel_editLabel hl (f := (·.translate dx dy)) hmove fun _ => rfl⟩
  | rotate id angle =>
    obtain ⟨applied, hturn, rfl⟩ := Attempt.of_andThen_ok h
    refine ⟨?_, editsContour_rotateContour hturn⟩
    cases applied <;> rfl
  | rotateStep id =>
    obtain ⟨u, hturn, rfl⟩ := Attempt.of_andThen_ok h
    exact ⟨rfl, editsContour_rotateContourStep hturn⟩
  | snap id angle =>
    obtain ⟨u, hturn, rfl⟩ := Attempt.of_andThen_ok h
    exact ⟨rfl, editsContour_snapContour hturn⟩
  | addPrimitive shape position =>
    obtain ⟨houtcome, rfl⟩ := Prod.mk.inj h
    rw [← Except.ok.inj houtcome]
    exact ⟨_, _, _, rfl, hl.valid_primitives.gains_insert _, rfl⟩
  | resizePrimitive k size =>
    obtain ⟨applied, hresize, rfl⟩ := Attempt.of_andThen_ok h
    refine ⟨?_, editsPrimitive_resizePrimitive hresize⟩
    cases applied <;> rfl
  | delete t =>
    obtain ⟨u, hdelete, rfl⟩ := Attempt.of_andThen_ok h
    exact effect_deleteTarget hdelete
  | attachLabel owner text offset =>
    obtain ⟨k, hattach, rfl⟩ := Attempt.of_andThen_ok h
    exact effect_attachLabel hl hattach
  | setLabelText k text =>
    obtain ⟨u, hedit, rfl⟩ := Attempt.of_andThen_ok h
    unfold setLabelText at hedit
    exact ⟨rfl, editsLabel_editLabel hl hedit fun _ => rfl⟩
  | setZoom factor =>
    obtain ⟨u, hzoom, rfl⟩ := Attempt.of_andThen_ok h
    exact effect_setZoom hzoom
  | resizeTray width height =>
    obtain ⟨houtcome, rfl⟩ := Prod.mk.inj h
    rw [← Except.ok.inj houtcome]
    exact ⟨rfl, _, _, rfl⟩
  | applyPreset name =>
    obtain ⟨u, hpreset, rfl⟩ := Attempt.of_andThen_ok h
    exact effect_applyPreset hpreset

/-- A command that is accepted changes what it is about and nothing else, whatever happened to the
    layout before. In particular no command but the one for it changes the zoom. -/
theorem commands_stay_local (hl : l.Attainable) {c : Command α} {catalog : Catalog α}
    {outcome : CommandOutcome} (h : l.apply c catalog s = (.ok outcome, l')) :
    c.Effect l outcome.created l' ∧ ((∀ factor, c ≠ .setZoom factor) → l'.zoom = l.zoom) := by
  refine ⟨effect_apply hl.consistent h, fun hzoom => ?_⟩
  have hkept := (resettles_apply hl.consistent hzoom catalog s).zoom
  rw [h] at hkept
  exact hkept

/-- A tray with two wrenches, two labels on the first and one between them on the second, and a
    pocket. -/
def pairOfWrenches : Layout Single :=
  (make (.default .standard)).run wrenchCatalog .standard (fun _ => none)
    [.command (.place "wrench" none), .command (.place "wrench" none),
      .command (.attachLabel 0 "10 mm" none), .command (.attachLabel 1 "right" none),
      .command (.attachLabel 0 "left" none), .command (.addPrimitive (.circle 20) none)]

theorem attainable_pairOfWrenches : pairOfWrenches.Attainable :=
  (Attainable.make (.default .standard)).run wrenchCatalog .standard (fun _ => none) _

/-- The first wrench goes with its two labels, and the label of the other one keeps its key. -/
theorem commands_stay_local_pairOfWrenches :
    pairOfWrenches.labels.keys = [⟨1, 1⟩, ⟨2, 1⟩, ⟨3, 1⟩] ∧ ∃ l',
      pairOfWrenches.apply (.delete (.contour 0)) wrenchCatalog .standard = (.ok .changed, l') ∧
      (Command.delete (.contour 0)).Effect pairOfWrenches none l' ∧
      l'.zoom = pairOfWrenches.zoom ∧ l'.labels.keys = [⟨2, 1⟩] := by
  have haccepted : (pairOfWrenches.apply (.delete (.contour 0)) wrenchCatalog .standard).1.toOption
      = some .changed := by decide +kernel
  have hkeys : (pairOfWrenches.apply (.delete (.contour 0)) wrenchCatalog
      .standard).2.labels.keys = [⟨2, 1⟩] := by decide +kernel
  refine ⟨by decide +kernel, ?_⟩
  cases h : pairOfWrenches.apply (.delete (.contour 0)) wrenchCatalog .standard with
  | mk result l' =>
    rw [h] at haccepted hkeys
    cases result with
    | error e => cases haccepted
    | ok outcome =>
      cases haccepted
      obtain ⟨heffect, hzoom⟩ := commands_stay_local attainable_pairOfWrenches h
      exact ⟨l', rfl, heffect, hzoom (by rintro factor ⟨⟩), hkeys⟩

end Layout

end FoamTray
