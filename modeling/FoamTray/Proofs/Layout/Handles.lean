import FoamTray.Proofs.Autosave
import FoamTray.Proofs.Layout.Locality
import FoamTray.Proofs.Layout.Replacement
import Mathlib.Data.List.Induction

/-! # Handles of the past

    A command that brings an entity in answers with a handle: the number of a contour, or the key
    of a primitive or of a label. Later commands are addressed by handles, also after the entity is
    gone. As long as no document is restored, a handle never names a second entity. A restoration
    starts new tables for primitives and labels, and from then on their keys are given out from the
    first one again.

    * `Layout.Has`, `Command.addressed?` : the entities that are there, and the one that a command
      needs.
    * `apply_missing` : a command that needs an entity that is not there is refused.
    * `Layout.GaveOut`, `Layout.Ages` : the handles of the past, and the layouts in which none of
      them has come back.
    * `Action.HandsOut` : the actions that bring in an entity under a handle.
    * `handles_of_the_past` : when a handle is refused, and what brings it back.
-/

namespace FoamTray

/-! ## Section 1: Entities that commands need -/

/-- The error that says that an entity is not there. -/
def Target.missing {α : Type} : Target → LayoutError α
  | .contour id => .unknownContour id
  | .primitive _ => .unknownPrimitive
  | .label _ => .unknownLabel

/-- The entity that a command needs to be there. -/
def Command.addressed? {α : Type} : Command α → Option Target
  | .move t _ _ | .delete t => some t
  | .rotate id _ | .rotateStep id | .snap id _ | .attachLabel id _ _ => some (.contour id)
  | .resizePrimitive k _ => some (.primitive k)
  | .setLabelText k _ => some (.label k)
  | _ => none

namespace Layout

/-- Whether an entity is there. -/
def Has {α : Type} [Scalar α] (l : Layout α) : Target → Prop
  | .contour id => id ∈ l.placements.ids
  | .primitive k => k ∈ l.primitives.keys
  | .label k => k ∈ l.labels.keys

instance {α : Type} [Scalar α] (l : Layout α) (t : Target) : Decidable (l.Has t) :=
  match t with
  | .contour id => inferInstanceAs (Decidable (id ∈ l.placements.ids))
  | .primitive k => inferInstanceAs (Decidable (k ∈ l.primitives.keys))
  | .label k => inferInstanceAs (Decidable (k ∈ l.labels.keys))

variable {α : Type} [Coordinate α] {l l' : Layout α} {catalog : Catalog α} {s : Settings α}
  {t : Target}

theorem get?_eq_none_of_not_mem {β : Type} {table : SlotTable β} {k : Key} (h : k ∉ table.keys) :
    table.get? k = none := by
  cases hk : table.get? k with
  | none => rfl
  | some v => exact absurd (SlotTable.mem_keys.mpr ⟨v, hk⟩) h

/-- A command that needs an entity that is not there is refused, and says which kind it is. -/
theorem apply_missing (hno : ¬ l.Has t) {cmd : Command α} (ht : cmd.addressed? = some t)
    (catalog : Catalog α) (s : Settings α) :
    l.apply cmd catalog s = (.error t.missing, l) := by
  have hcontour : ∀ id, t = .contour id → l.placements.find? id = none := by
    rintro id rfl
    exact Placements.find?_eq_none_iff.mpr hno
  have hprimitive : ∀ k, t = .primitive k → l.primitives.get? k = none := by
    rintro k rfl
    exact get?_eq_none_of_not_mem hno
  have hlabel : ∀ k, t = .label k → l.labels.get? k = none := by
    rintro k rfl
    exact get?_eq_none_of_not_mem hno
  cases cmd with
  | move t' dx dy =>
    cases ht
    cases t with
    | contour id => simp [apply, moveTarget, moveContour, hcontour id rfl, Target.missing]
    | primitive k => simp [apply, moveTarget, movePrimitive, hprimitive k rfl, Target.missing]
    | label k => simp [apply, moveTarget, moveLabel, editLabel, hlabel k rfl, Target.missing]
  | delete t' =>
    cases ht
    cases t with
    | contour id => simp [apply, deleteTarget, removeContour, hcontour id rfl, Target.missing]
    | primitive k => simp [apply, deleteTarget, removePrimitive, hprimitive k rfl, Target.missing]
    | label k => simp [apply, deleteTarget, removeLabel, hlabel k rfl, Target.missing]
  | rotate id angle =>
    cases ht
    simp [apply, rotateContour, hcontour id rfl, Target.missing]
  | rotateStep id =>
    cases ht
    simp [apply, rotateContourStep, hcontour id rfl, Target.missing]
  | snap id angle =>
    cases ht
    simp [apply, snapContour, hcontour id rfl, Target.missing]
  | attachLabel owner text offset =>
    cases ht
    simp [apply, attachLabel, contourBounds?, hcontour owner rfl, Target.missing]
  | resizePrimitive k size =>
    cases ht
    simp [apply, resizePrimitive, hprimitive k rfl, Target.missing]
  | setLabelText k text =>
    cases ht
    simp [apply, setLabelText, editLabel, hlabel k rfl, Target.missing]
  | place name position => cases ht
  | addPrimitive shape position => cases ht
  | setZoom factor => cases ht
  | resizeTray width height => cases ht
  | applyPreset name => cases ht

/-! ## Section 2: Layouts that age -/

/-- Whether a handle was given out at some time. -/
def GaveOut (l : Layout α) : Target → Prop
  | .contour id => id < l.placements.nextId
  | .primitive k => l.primitives.Used k
  | .label k => l.labels.Used k

/-- What is there was given a handle. -/
theorem Consistent.gaveOut (h : l.Consistent) (ht : l.Has t) : l.GaveOut t := by
  cases t with
  | contour id => exact h.placements.lt_nextId id ht
  | primitive k =>
    obtain ⟨p, hp⟩ := SlotTable.mem_keys.mp ht
    exact SlotTable.used_of_get? hp
  | label k =>
    obtain ⟨label, hlabel⟩ := SlotTable.mem_keys.mp ht
    exact SlotTable.used_of_get? hlabel

/-- A layout as it may be later, with the tables of before. -/
structure Ages (l l' : Layout α) : Prop where
  nextId : l.placements.nextId ≤ l'.placements.nextId
  ids : ∀ id ∈ l'.placements.ids, id ∈ l.placements.ids ∨ l.placements.nextId ≤ id
  primitives : l.primitives.Ages l'.primitives
  labels : l.labels.Ages l'.labels

theorem ages_self (l : Layout α) : l.Ages l where
  nextId := Nat.le_refl _
  ids _ hid := .inl hid
  primitives := SlotTable.ages_self _
  labels := SlotTable.ages_self _

theorem Ages.trans {l'' : Layout α} (h : l.Ages l') (h' : l'.Ages l'') : l.Ages l'' where
  nextId := Nat.le_trans h.nextId h'.nextId
  ids id hid := by
    rcases h'.ids id hid with hbetween | habove
    · exact h.ids id hbetween
    · exact .inr (Nat.le_trans h.nextId habove)
  primitives := h.primitives.trans h'.primitives
  labels := h.labels.trans h'.labels

theorem Ages.gaveOut (h : l.Ages l') (ht : l.GaveOut t) : l'.GaveOut t := by
  cases t with
  | contour id => exact Nat.lt_of_lt_of_le ht h.nextId
  | primitive k => exact h.primitives.used ht
  | label k => exact h.labels.used ht

/-- A handle of the past whose entity is gone has not come back. -/
theorem Ages.not_has (h : l.Ages l') (ht : l.GaveOut t) (hno : ¬ l.Has t) : ¬ l'.Has t := by
  intro hhas
  cases t with
  | contour id =>
    rcases h.ids id hhas with hold | habove
    · exact hno hold
    · exact Nat.lt_irrefl _ (Nat.lt_of_lt_of_le ht habove)
  | primitive k =>
    obtain ⟨p, hp⟩ := SlotTable.mem_keys.mp hhas
    rw [h.primitives.get?_eq_none ht (get?_eq_none_of_not_mem hno)] at hp
    cases hp
  | label k =>
    obtain ⟨label, hlabel⟩ := SlotTable.mem_keys.mp hhas
    rw [h.labels.get?_eq_none ht (get?_eq_none_of_not_mem hno)] at hlabel
    cases hlabel

theorem ages_rescaleTo (l : Layout α) (z : Zoom α) : l.Ages (l.rescaleTo z) where
  nextId := Nat.le_of_eq (nextId_rescaleTo l z).symm
  ids id hid := .inl (ids_rescaleTo l z ▸ hid)
  primitives := by
    unfold rescaleTo
    split
    · exact SlotTable.ages_self _
    · exact SlotTable.ages_map _ _
  labels := by
    unfold rescaleTo
    split
    · exact SlotTable.ages_self _
    · exact SlotTable.ages_map _ _

theorem ages_highlight (l : Layout α) (r : Report) : l.Ages (l.highlight r) where
  nextId := Nat.le_refl _
  ids id hid := by
    left
    unfold highlight Placements.ids at hid
    rw [List.map_map] at hid
    exact hid
  primitives := SlotTable.ages_map _ _
  labels := SlotTable.ages_self _

theorem ages_check (l : Layout α) (rasterizer : Rasterizer α) (s : Settings α) :
    l.Ages (l.check rasterizer s).2 := by
  have hvalidated : (l.rescaleTo .unit).Ages ((l.rescaleTo .unit).validate rasterizer s).2 := by
    rcases (l.rescaleTo .unit).validate_snd_cases rasterizer s with he | ⟨r, he⟩ <;> rw [he]
    · exact ages_self _
    · exact ages_highlight _ r
  exact ((ages_rescaleTo l .unit).trans hvalidated).trans (ages_rescaleTo _ l.zoom)

/-- Every change lets a layout age. -/
theorem Consistent.ages_change (h : l.Consistent) (hc : l.Change catalog s l') : l.Ages l' := by
  have hself := ages_self l
  cases hc with
  | unchanged => exact hself
  | rescaled z => exact ages_rescaleTo l z
  | placed position hi =>
    refine { hself with nextId := Placements.le_nextId_insert _ _ _ _ _ _, ids := ?_ }
    intro id hid
    unfold Placements.place at hid
    rw [Placements.ids_insert] at hid
    rcases List.mem_append.mp hid with hold | hnew
    · exact .inl hold
    · exact .inr (Nat.le_of_eq (List.mem_singleton.mp hnew).symm)
  | contourEdited hc hf hg =>
    refine { hself with ids := ?_, labels := SlotTable.ages_map _ _ }
    intro id hid
    left
    have hids := Placements.ids_update (fun c => congrArg (·.1) (hf c)) l.placements
    exact hids _ ▸ hid
  | contourErased hc =>
    refine { hself with ids := ?_, labels := SlotTable.ages_foldl_erase _ _ }
    intro id hid
    rw [Placements.ids_erase] at hid
    exact .inl (List.mem_filter.mp hid).1
  | primitiveAdded p => exact { hself with primitives := h.valid_primitives.ages_insert p }
  | primitiveEdited k p => exact { hself with primitives := SlotTable.ages_set _ k p }
  | primitiveErased k => exact { hself with primitives := SlotTable.ages_erase _ k }
  | labelAttached hc ho => exact { hself with labels := h.valid_labels.ages_insert _ }
  | labelEdited hk ho => exact { hself with labels := SlotTable.ages_set _ _ _ }
  | labelErased k => exact { hself with labels := SlotTable.ages_erase _ k }
  | trayResized tray => exact ⟨hself.nextId, hself.ids, hself.primitives, hself.labels⟩

/-! ## Section 3: What brings entities in -/

/-- Nothing comes in where all numbers and keys were there before. -/
theorem has_of_subset (h : l'.Has t) (hids : l'.placements.ids ⊆ l.placements.ids)
    (hprimitives : l'.primitives.keys ⊆ l.primitives.keys)
    (hlabels : l'.labels.keys ⊆ l.labels.keys) : l.Has t := by
  cases t with
  | contour id => exact hids h
  | primitive k => exact hprimitives h
  | label k => exact hlabels h

theorem keys_subset_of_entries {β : Type} {table table' : SlotTable β} {p : Key × β → Bool}
    (h : table'.entries = table.entries.filter p) : table'.keys ⊆ table.keys := by
  intro k hk
  obtain ⟨e, he, rfl⟩ := List.mem_map.mp hk
  rw [h] at he
  exact List.mem_map_of_mem (List.mem_filter.mp he).1

theorem mem_keys_of_gains {β : Type} {table table' : SlotTable β} {k k' : Key} {v : β}
    (h : table.Gains table' k v) (hk' : k' ∈ table'.keys) : k' ∈ table.keys ∨ k' = k := by
  by_cases heq : k' = k
  · exact .inr heq
  left
  obtain ⟨e, he, rfl⟩ := List.mem_map.mp hk'
  have hold : e ∈ table'.entries.filter (·.1 ≠ k) :=
    List.mem_filter.mpr ⟨he, decide_eq_true heq⟩
  rw [h.others] at hold
  exact List.mem_map_of_mem hold

/-- What is there after a command was there before, or the command says that it came in. -/
theorem has_of_effect {cmd : Command α} {created : Option Target} (heffect : cmd.Effect l created l')
    (h : l'.Has t) : l.Has t ∨ created = some t := by
  have hcontour : ∀ {id : Nat}, l.EditsContour id l' → l.Has t := by
    rintro id ⟨-, edit, place, hedit, rfl⟩
    refine has_of_subset h ?_ ?_ ?_
    · have hids := Placements.ids_update (fun c => congrArg (·.1) (hedit c)) l.placements id
      exact fun id hid => hids ▸ hid
    · exact fun _ hk => hk
    · exact fun _ hk => by simpa using hk
  have hprimitive : ∀ {k : Key}, l.EditsPrimitive k l' → l.Has t := by
    rintro k ⟨old, new, -, rfl⟩
    exact has_of_subset h (fun _ hid => hid) (fun _ hk => by simpa using hk) (fun _ hk => hk)
  have hlabel : ∀ {k : Key}, l.EditsLabel k l' → l.Has t := by
    rintro k ⟨old, new, -, -, rfl⟩
    exact has_of_subset h (fun _ hid => hid) (fun _ hk => hk) (fun _ hk => by simpa using hk)
  cases cmd with
  | place name position =>
    obtain ⟨c, item, hcreated, -, rfl⟩ := heffect
    cases t with
    | contour id =>
      unfold Has Placements.ids at h
      dsimp only at h
      rw [List.map_append] at h
      rcases List.mem_append.mp h with hold | hnew
      · exact .inl hold
      · rw [List.mem_singleton.mp hnew]
        exact .inr hcreated
    | primitive k => exact .inl h
    | label k => exact .inl h
  | addPrimitive shape position =>
    obtain ⟨k', p, primitives, hcreated, hgains, rfl⟩ := heffect
    cases t with
    | contour id => exact .inl h
    | primitive k =>
      rcases mem_keys_of_gains hgains h with hold | rfl
      · exact .inl hold
      · exact .inr hcreated
    | label k => exact .inl h
  | attachLabel owner text offset =>
    obtain ⟨k', label, labels, hcreated, -, hgains, rfl⟩ := heffect
    cases t with
    | contour id => exact .inl h
    | primitive k => exact .inl h
    | label k =>
      rcases mem_keys_of_gains hgains h with hold | rfl
      · exact .inl hold
      · exact .inr hcreated
  | move moved dx dy =>
    cases moved with
    | contour id => exact .inl (hcontour heffect.2)
    | primitive k => exact .inl (hprimitive heffect.2)
    | label k => exact .inl (hlabel heffect.2)
  | rotate id angle => exact .inl (hcontour heffect.2)
  | rotateStep id => exact .inl (hcontour heffect.2)
  | snap id angle => exact .inl (hcontour heffect.2)
  | resizePrimitive k size => exact .inl (hprimitive heffect.2)
  | setLabelText k text => exact .inl (hlabel heffect.2)
  | delete deleted =>
    left
    cases deleted with
    | contour id =>
      obtain ⟨-, -, labels, hentries, rfl⟩ := heffect
      refine has_of_subset h ?_ (fun _ hk => hk) (keys_subset_of_entries hentries)
      intro id' hid'
      obtain ⟨c, hc, rfl⟩ := List.mem_map.mp hid'
      exact List.mem_map_of_mem (List.mem_filter.mp hc).1
    | primitive k =>
      obtain ⟨-, -, primitives, hentries, rfl⟩ := heffect
      exact has_of_subset h (fun _ hid => hid) (keys_subset_of_entries hentries) (fun _ hk => hk)
    | label k =>
      obtain ⟨-, -, labels, hentries, rfl⟩ := heffect
      exact has_of_subset h (fun _ hid => hid) (fun _ hk => hk) (keys_subset_of_entries hentries)
  | setZoom factor =>
    obtain ⟨-, z, place, last, pocket, shape, text, rfl⟩ := heffect
    refine .inl (has_of_subset h ?_ (fun _ hk => by simpa using hk) fun _ hk => by simpa using hk)
    intro id hid
    unfold Placements.ids at hid ⊢
    rw [List.map_map] at hid
    exact hid
  | resizeTray width height =>
    obtain ⟨-, w, h', rfl⟩ := heffect
    exact .inl (has_of_subset h (fun _ hid => hid) (fun _ hk => hk) fun _ hk => hk)
  | applyPreset name =>
    obtain ⟨-, w, h', rfl⟩ := heffect
    exact .inl (has_of_subset h (fun _ hid => hid) (fun _ hk => hk) fun _ hk => hk)

/-- What a command says came in is there. -/
theorem has_of_created {cmd : Command α} {created : Option Target}
    (heffect : cmd.Effect l created l') (ht : created = some t) : l'.Has t := by
  subst ht
  cases cmd with
  | place name position =>
    obtain ⟨c, item, hcreated, -, rfl⟩ := heffect
    cases hcreated
    exact List.mem_map_of_mem (List.mem_append_right _ (List.mem_singleton_self c))
  | addPrimitive shape position =>
    obtain ⟨k', p, primitives, hcreated, hgains, rfl⟩ := heffect
    cases hcreated
    exact SlotTable.mem_keys.mpr ⟨p, hgains.live⟩
  | attachLabel owner text offset =>
    obtain ⟨k', label, labels, hcreated, -, hgains, rfl⟩ := heffect
    cases hcreated
    exact SlotTable.mem_keys.mpr ⟨label, hgains.live⟩
  | move moved dx dy => cases moved <;> cases heffect.1
  | delete deleted => cases deleted <;> cases heffect.1
  | rotate id angle => cases heffect.1
  | rotateStep id => cases heffect.1
  | snap id angle => cases heffect.1
  | resizePrimitive k size => cases heffect.1
  | setLabelText k text => cases heffect.1
  | setZoom factor => cases heffect.1
  | resizeTray width height => cases heffect.1
  | applyPreset name => cases heffect.1

theorem has_rescaleTo (l : Layout α) (z : Zoom α) (t : Target) : (l.rescaleTo z).Has t ↔ l.Has t := by
  cases t with
  | contour id =>
    unfold Has
    dsimp only
    rw [ids_rescaleTo]
  | primitive k =>
    unfold Has rescaleTo
    dsimp only
    split
    · rfl
    · simp
  | label k =>
    unfold Has rescaleTo
    dsimp only
    split
    · rfl
    · simp

theorem has_setZoom (l : Layout α) (factor : α) (s : Settings α) (t : Target) :
    (l.setZoom factor s).2.Has t ↔ l.Has t := by
  unfold setZoom
  split
  · split
    · exact has_rescaleTo l _ t
    · rfl
  · rfl

theorem has_highlight (l : Layout α) (r : Report) (t : Target) : (l.highlight r).Has t ↔ l.Has t := by
  unfold Has highlight Placements.ids
  cases t <;> simp [Function.comp_def]

theorem has_check (l : Layout α) (rasterizer : Rasterizer α) (s : Settings α) (t : Target) :
    (l.check rasterizer s).2.Has t ↔ l.Has t := by
  have hvalidated : ((l.rescaleTo .unit).validate rasterizer s).2.Has t ↔
      (l.rescaleTo .unit).Has t := by
    rcases (l.rescaleTo .unit).validate_snd_cases rasterizer s with he | ⟨r, he⟩ <;> rw [he]
    exact has_highlight _ r t
  show (((l.rescaleTo .unit).validate rasterizer s).2.rescaleTo l.zoom).Has t ↔ _
  rw [has_rescaleTo, hvalidated, has_rescaleTo]

end Layout

/-- Whether a document brings in an entity under a handle. Its contours come with their numbers,
    its primitives and labels get the first keys. -/
def Workspace.Lists {α : Type} [Coordinate α] (doc : Workspace α) (catalog : Catalog α) :
    Target → Prop
  | .contour id => id ∈ doc.acceptedIds catalog
  | .primitive k => k.version = 1 ∧ 0 < k.slot ∧ k.slot ≤ doc.primitives.length
  | .label k => k.version = 1 ∧ 0 < k.slot ∧ k.slot ≤ (doc.ownedLabels catalog).length

/-- After a restoration exactly that is there which the document brings in. -/
theorem Layout.has_restore {α : Type} [Coordinate α] (l : Layout α) {doc : Workspace α}
    (hv : doc.schemaVersion = schemaVersion) (catalog : Catalog α) (s : Settings α) (t : Target) :
    (l.restore doc catalog s).2.Has t ↔ doc.Lists catalog t := by
  rw [restore_eq l hv, has_rescaleTo]
  unfold Has Workspace.Lists Workspace.layout
  cases t with
  | contour id =>
    simp [Workspace.bare, Placements.ids_ofContours, Workspace.acceptedIds,
      AcceptedContour.contour, Contour.make]
  | primitive k => simp [Workspace.bare, SlotTable.mem_keys_ofValues]
  | label k => simp [SlotTable.mem_keys_ofValues]

/-! ## Section 4: Sessions -/

namespace Session

variable {α : Type} [Coordinate α] {x : Session α} {t : Target} {catalog : Catalog α}
  {s : Settings α} {rasterizer : Rasterizer α}

/-- The actions that bring in an entity under a handle. -/
inductive Action.HandsOut (x : Session α) (t : Target) : Action α → Prop where
  /-- A command that answers with it. -/
  | created {cmd : Command α} {now : Nat} {outcome : CommandOutcome}
      (h : (x.submit cmd now).1 = .ok outcome) (ht : outcome.created = some t) :
      HandsOut x t (.submit cmd now)
  /-- The restoration of a document that has such an entity. -/
  | restored {doc : Workspace α} (hv : doc.schemaVersion = schemaVersion)
      (ht : doc.Lists x.catalog t) : HandsOut x t (.restore doc)

theorem apply_of_submit {cmd : Command α} {now : Nat} {outcome : CommandOutcome}
    (h : (x.submit cmd now).1 = .ok outcome) :
    x.layout.apply cmd x.catalog x.settings = (.ok outcome, (x.submit cmd now).2.layout) :=
  submit_ok (y := (x.submit cmd now).2) (Prod.ext h rfl)

/-- A refused command leaves the layout as it was. -/
theorem layout_of_submit_error (hx : x.layout.Consistent) {cmd : Command α} {now : Nat}
    {e : LayoutError α} (h : (x.submit cmd now).1 = .error e) :
    (x.layout.apply cmd x.catalog x.settings).2 = x.layout := by
  unfold submit at h
  cases happly : x.layout.apply cmd x.catalog x.settings with
  | mk result after =>
    rw [happly] at h
    cases result with
    | error e' => exact (Layout.atomic_apply hx cmd x.catalog x.settings).eq_of_error happly
    | ok outcome => cases h

/-- A handle names something right after it was handed out. -/
theorem Action.HandsOut.has {a : Action α} (h : a.HandsOut x t) (hx : x.layout.Consistent)
    (rasterizer : Rasterizer α) : (x.act rasterizer a).layout.Has t := by
  cases h with
  | created h ht => exact Layout.has_of_created (Layout.effect_apply hx (apply_of_submit h)) ht
  | @restored doc hv ht =>
    show (x.restore doc).2.layout.Has t
    rw [layout_restore]
    exact (x.layout.has_restore hv x.catalog x.settings t).mpr ht

/-- What is there after an action was there before, or the action hands it out. -/
theorem has_act (hx : x.layout.Consistent) (a : Action α)
    (h : (x.act rasterizer a).layout.Has t) : x.layout.Has t ∨ a.HandsOut x t := by
  unfold act at h
  cases a with
  | submit cmd now =>
    dsimp only at h
    cases hresult : (x.submit cmd now).1 with
    | ok outcome =>
      rcases Layout.has_of_effect (Layout.effect_apply hx (apply_of_submit hresult)) h with
        hold | hnew
      · exact .inl hold
      · exact .inr (.created hresult hnew)
    | error e =>
      rw [layout_submit, layout_of_submit_error hx hresult] at h
      exact .inl h
  | poll now => exact .inl h
  | save => exact .inl h
  | restore doc =>
    dsimp only at h
    rw [layout_restore] at h
    by_cases hv : doc.schemaVersion = schemaVersion
    · exact .inr (.restored hv ((x.layout.has_restore hv x.catalog x.settings t).mp h))
    · rw [Layout.restore_of_ne x.layout hv] at h
      exact .inl h
  | zoom steps coarse =>
    dsimp only at h
    rw [layout_zoom] at h
    exact .inl ((x.layout.has_setZoom _ x.settings t).mp h)
  | check =>
    exact .inl ((x.layout.has_check rasterizer x.settings t).mp h)
  | order =>
    have hcheck : (x.layout.exportWith rasterizer x.settings fun _ => ()).2.Has t := h
    rw [Layout.exportWith_snd] at hcheck
    exact .inl ((x.layout.has_check rasterizer x.settings t).mp hcheck)

/-- As long as no document is restored, the layout of a session ages. -/
theorem ages_act (hx : x.layout.Consistent) {a : Action α}
    (hno : ∀ doc, a = .restore doc → doc.schemaVersion ≠ schemaVersion) :
    x.layout.Ages (x.act rasterizer a).layout := by
  unfold act
  cases a with
  | submit cmd now =>
    dsimp only
    rw [layout_submit]
    exact hx.ages_change (Layout.atomic_apply hx cmd x.catalog x.settings).change
  | poll now => exact Layout.ages_self _
  | save => exact Layout.ages_self _
  | restore doc =>
    dsimp only
    rw [layout_restore, Layout.restore_of_ne x.layout (hno doc rfl)]
    exact Layout.ages_self _
  | zoom steps coarse =>
    dsimp only
    rw [layout_zoom]
    exact hx.ages_change (Layout.atomic_setZoom x.layout x.catalog x.settings _).change
  | check => exact x.layout.ages_check rasterizer x.settings
  | order =>
    show x.layout.Ages (x.layout.exportWith rasterizer x.settings fun _ => ()).2
    rw [Layout.exportWith_snd]
    exact x.layout.ages_check rasterizer x.settings

theorem ages_run (hx : Reachable catalog s rasterizer x) {actions : List (Action α)}
    (hno : ∀ doc, .restore doc ∈ actions → doc.schemaVersion ≠ schemaVersion) :
    x.layout.Ages (x.run rasterizer actions).layout := by
  induction actions generalizing x with
  | nil => exact Layout.ages_self _
  | cons a rest ih =>
    have hfirst : x.layout.Ages (x.act rasterizer a).layout := by
      apply ages_act hx.attainable.consistent
      rintro doc rfl
      exact hno doc List.mem_cons_self
    have hrest := ih (hx.act a) fun doc hdoc => hno doc (List.mem_cons_of_mem a hdoc)
    exact hfirst.trans hrest

/-- What is there after a run was there before it, or some action of the run handed it out. -/
theorem has_run (hx : Reachable catalog s rasterizer x) (actions : List (Action α))
    (h : (x.run rasterizer actions).layout.Has t) :
    x.layout.Has t ∨ ∃ before a after, actions = before ++ a :: after ∧
      a.HandsOut (x.run rasterizer before) t := by
  induction actions using List.reverseRecOn with
  | nil => exact .inl h
  | append_singleton actions b ih =>
    rw [run_concat] at h
    rcases has_act (hx.run actions).attainable.consistent b h with hbefore | hout
    · rcases ih hbefore with hstart | ⟨before, a, after, rfl, hout⟩
      · exact .inl hstart
      · exact .inr ⟨before, a, after ++ [b], by simp, hout⟩
    · exact .inr ⟨actions, b, [], rfl, hout⟩

theorem submit_missing (hno : ¬ x.layout.Has t) {cmd : Command α} (ht : cmd.addressed? = some t)
    (now : Nat) : x.submit cmd now = (.error t.missing, x) := by
  unfold submit
  rw [Layout.apply_missing hno ht]

/-- A command of a session answers with a handle, and some time later the entity is gone. At any
    moment after that:
    - as long as no document was restored since the command, nothing has the handle;
    - if something has it, then some action since the entity was gone has handed it out again: a
      command that answered with it, or the restoration of a document with such an entity;
    - as long as nothing has it, each command addressed to it is refused as addressed to an entity
      of this kind that is not there, and the session stays as it is. -/
theorem handles_of_the_past (hx : Reachable catalog s rasterizer x) {cmd : Command α} {now : Nat}
    {outcome : CommandOutcome} (h : (x.submit cmd now).1 = .ok outcome)
    (ht : outcome.created = some t) (between after : List (Action α))
    (hgone : ¬ ((x.submit cmd now).2.run rasterizer between).layout.Has t) :
    let gone := (x.submit cmd now).2.run rasterizer between
    let later := gone.run rasterizer after
    ((∀ doc, .restore doc ∈ between ++ after → doc.schemaVersion ≠ schemaVersion) →
      ¬ later.layout.Has t) ∧
    (later.layout.Has t → ∃ before a rest, after = before ++ a :: rest ∧
      a.HandsOut (gone.run rasterizer before) t) ∧
    (¬ later.layout.Has t → ∀ cmd' now', cmd'.addressed? = some t →
      later.submit cmd' now' = (.error t.missing, later)) := by
  intro gone later
  have hy : Reachable catalog s rasterizer (x.submit cmd now).2 := hx.act (.submit cmd now)
  refine ⟨?_, ?_, fun hno cmd' now' haddressed => submit_missing hno haddressed now'⟩
  · intro hno
    have hhas : (x.submit cmd now).2.layout.Has t :=
      Action.HandsOut.has (.created h ht) hx.attainable.consistent rasterizer
    have hgave : (x.submit cmd now).2.layout.GaveOut t := hy.attainable.consistent.gaveOut hhas
    have hbetween : (x.submit cmd now).2.layout.Ages gone.layout :=
      ages_run hy fun doc hdoc => hno doc (List.mem_append_left _ hdoc)
    have hafter : gone.layout.Ages later.layout :=
      ages_run (hy.run between) fun doc hdoc => hno doc (List.mem_append_right _ hdoc)
    exact hafter.not_has (hbetween.gaveOut hgave) hgone
  · intro hback
    exact (has_run (hy.run between) after hback).resolve_left hgone

/-- A document with one round pocket. -/
def pocketDocument : Workspace Single :=
  { (Layout.make (.default .standard)).save with primitives := [.circle 200 150 12] }

/-- A round pocket is added and deleted, and another one is restored: it gets the key of the first
    one, and the command to move the first one moves it. -/
theorem pastHandle_moves_restored :
    let x := make Layout.wrenchCatalog (.standard : Settings Single)
    let circle : Command Single := .addPrimitive (.circle 10) (some ⟨100, 100⟩)
    let t := Target.primitive ⟨1, 1⟩
    let gone := x.run (fun _ => none) [.submit circle 0, .submit (.delete t) 1]
    let later := gone.run (fun _ => none) [.restore pocketDocument]
    let moved := (later.submit (.move t 5 5) 3).2
    ((x.submit circle 0).1.toOption.bind (·.created) = some t ∧ ¬ gone.layout.Has t) ∧
      (later.submit (.move t 5 5) 3).1 = .ok .changed ∧
      later.layout.primitives.values.map (·.position) = [⟨220, 170⟩] ∧
      moved.layout.primitives.values.map (·.position) = [⟨225, 175⟩] := by
  decide +kernel

/-- A label goes with its wrench, and another label takes its slot: the handle of the first one
    stays dead. -/
theorem handles_of_the_past_label :
    let x := (make Layout.wrenchCatalog (.standard : Settings Single)).run (fun _ => none)
      [.submit (.place "wrench" none) 0, .submit (.place "wrench" none) 1]
    let labelled := x.submit (.attachLabel 0 "10 mm" none) 2
    let gone := labelled.2.run (fun _ => none) [.submit (.delete (.contour 0)) 3]
    let later := gone.run (fun _ => none) [.submit (.attachLabel 1 "12 mm" none) 4]
    labelled.1.toOption.bind (·.created) = some (.label ⟨1, 1⟩) ∧
      later.layout.labels.keys = [⟨1, 3⟩] ∧
      later.submit (.setLabelText ⟨1, 1⟩ "13 mm") 5 = (.error .unknownLabel, later) := by
  intro x labelled gone later
  have hx : Reachable Layout.wrenchCatalog (.standard : Settings Single) (fun _ => none) x :=
    Reachable.make.run _
  have hcreated : labelled.1 = .ok (.ofNew (.label ⟨1, 1⟩)) := by decide +kernel
  have hgone : ¬ gone.layout.Has (.label ⟨1, 1⟩) := by decide +kernel
  obtain ⟨hdead, -, hrefused⟩ := handles_of_the_past hx hcreated rfl
    [.submit (.delete (.contour 0)) 3] [.submit (.attachLabel 1 "12 mm" none) 4] hgone
  -- that the slot is taken again is computed, that its first key stays dead is the theorem
  have hkeys : later.layout.labels.keys = [⟨1, 3⟩] := by decide +kernel
  have hrefusal := hrefused (hdead (by simp)) (.setLabelText ⟨1, 1⟩ "13 mm") 5 rfl
  refine ⟨?_, hkeys, hrefusal⟩
  rw [hcreated]
  rfl

end Session

end FoamTray
