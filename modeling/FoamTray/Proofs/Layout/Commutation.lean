import FoamTray.Proofs.Layout.Locality

/-! # Edits that commute

    A contour and its labels are one group, and each primitive is a group of its own. An edit of an
    entity reads the zoom and the group of the entity, and it writes nothing but that group. So
    edits of two groups can be applied in either order.

    * `Group`, `Layout.group?` : the groups, and the one of an entity.
    * `Edit`, `Edit.Within` : a change of entities one by one, and one that stays in a group.
    * `Layout.Agree` : layouts that look alike from a group.
    * `Layout.Determined` : an attempt that ends in one way on all layouts that look alike.
    * `determined_apply` : every command that edits one entity is determined by its group.
    * `edits_commute` : two of them for different groups can change places.
-/

namespace FoamTray

/-! ## Section 1: Groups -/

/-- What is edited together. -/
inductive Group where
  /-- A contour and its labels. -/
  | contour (id : Nat)
  /-- A primitive. -/
  | primitive (k : Key)
  deriving DecidableEq, Repr

/-- The entity that a command moves, turns, resizes or rewords. -/
def Command.edited? {α : Type} : Command α → Option Target
  | .move t _ _ => some t
  | .rotate id _ | .rotateStep id | .snap id _ => some (.contour id)
  | .resizePrimitive k _ => some (.primitive k)
  | .setLabelText k _ => some (.label k)
  | _ => none

/-- The group of an entity. A label belongs to its contour, and one that is not there to none. -/
def Layout.group? {α : Type} [Scalar α] (l : Layout α) : Target → Option Group
  | .contour id => some (.contour id)
  | .primitive k => some (.primitive k)
  | .label k => (l.labels.get? k).map fun label => .contour label.owner

/-- A change that leaves everything in its group, and changes nothing outside one of them. -/
def Stays {β : Type} (g : Option Group) (group : β → Group) (f : β → β) : Prop :=
  ∀ x, group (f x) = group x ∧ (g ≠ some (group x) → f x = x)

section Stays

variable {β : Type} {g g' : Option Group} {group : β → Group} {f f' : β → β}

theorem stays_self (g : Option Group) (group : β → Group) : Stays g group fun x => x :=
  fun _ => ⟨rfl, fun _ => rfl⟩

/-- A change of a group may also be made of a part of it. -/
theorem stays_ite {y : Group} {p : β → Prop} [DecidablePred p] (hp : ∀ x, p x → group x = y)
    (hf : ∀ x, group (f x) = group x) : Stays (some y) group fun x => if p x then f x else x := by
  intro x
  dsimp only
  split
  · rename_i hx
    exact ⟨hf x, fun hne => absurd (congrArg some (hp x hx).symm) hne⟩
  · exact ⟨rfl, fun _ => rfl⟩

/-- Changes in different groups can change places. -/
theorem Stays.comm (h : Stays g group f) (h' : Stays g' group f')
    (hne : ∀ y, g = some y → g' ≠ some y) (x : β) : f' (f x) = f (f' x) := by
  by_cases hx : g = some (group x)
  · have hx' : g' ≠ some (group x) := hne _ hx
    have hfx : g' ≠ some (group (f x)) := by
      rw [(h x).1]
      exact hx'
    rw [(h' x).2 hx', (h' (f x)).2 hfx]
  · have hfx : g ≠ some (group (f' x)) := by
      rw [(h' x).1]
      exact hx
    rw [(h x).2 hx, (h (f' x)).2 hfx]

end Stays

/-! ## Section 2: Changes in a group -/

/-- A change of entities one by one. -/
structure Edit (α : Type) where
  /-- What becomes of a contour. -/
  contour : Contour α → Contour α
  /-- What becomes of a label. -/
  label : Key → Label α → Label α
  /-- What becomes of a primitive. -/
  primitive : Key → Primitive α → Primitive α

namespace Edit

variable {α : Type}

/-- No change. -/
def none : Edit α where
  contour c := c
  label _ label := label
  primitive _ p := p

/-- A change of a contour and of its labels. -/
def ofContour (id : Nat) (f : Contour α → Contour α) (h : Label α → Label α) : Edit α :=
  { Edit.none with
    contour := fun c => if c.id = id then f c else c
    label := fun _ label => if label.owner = id then h label else label }

/-- A change of a label of a contour. -/
def ofLabel (k : Key) (owner : Nat) (h : Label α → Label α) : Edit α :=
  { Edit.none with
    label := fun k' label => if k' = k ∧ label.owner = owner then h label else label }

/-- A change of a primitive. -/
def ofPrimitive (k : Key) (new : Primitive α) : Edit α :=
  { Edit.none with primitive := fun k' p => if k' = k then new else p }

/-- A change that stays in a group. -/
structure Within (e : Edit α) (g : Option Group) : Prop where
  /-- It leaves all contours but that of the group alone. -/
  contours : Stays g (fun c => .contour c.id) e.contour
  /-- It leaves the labels of all other contours alone. -/
  labels : ∀ k, Stays g (fun label => .contour label.owner) (e.label k)
  /-- It leaves all primitives but that of the group alone. -/
  primitives : ∀ k, Stays g (fun _ => .primitive k) (e.primitive k)

theorem within_none (g : Option Group) : (Edit.none : Edit α).Within g :=
  ⟨stays_self g _, fun _ => stays_self g _, fun _ => stays_self g _⟩

theorem within_ofContour {id : Nat} {f : Contour α → Contour α} {h : Label α → Label α}
    (hf : ∀ c, (f c).id = c.id) (hh : ∀ label, (h label).owner = label.owner) :
    (ofContour id f h).Within (some (.contour id)) where
  contours := by
    apply stays_ite
    · intro c hc
      exact congrArg Group.contour hc
    · intro c
      exact congrArg Group.contour (hf c)
  labels k := by
    apply stays_ite
    · intro label ho
      exact congrArg Group.contour ho
    · intro label
      exact congrArg Group.contour (hh label)
  primitives k := stays_self _ _

theorem within_ofLabel {k : Key} {owner : Nat} {h : Label α → Label α}
    (hh : ∀ label, (h label).owner = label.owner) :
    (ofLabel k owner h).Within (some (.contour owner)) where
  contours := stays_self _ _
  labels k' := by
    apply stays_ite (p := fun label : Label α => k' = k ∧ label.owner = owner)
    · intro label ho
      exact congrArg Group.contour ho.2
    · intro label
      exact congrArg Group.contour (hh label)
  primitives k := stays_self _ _

theorem within_ofPrimitive (k : Key) (new : Primitive α) :
    (ofPrimitive k new).Within (some (.primitive k)) where
  contours := stays_self _ _
  labels k := stays_self _ _
  primitives k' := by
    apply stays_ite (f := fun _ => new)
    · intro _ hk
      exact congrArg Group.primitive hk
    · intro _
      rfl

end Edit

namespace Layout

section Edited

variable {α : Type} [Scalar α] {g g' : Option Group} {e e' : Edit α}

/-- The layout with its entities changed. -/
def edited (l : Layout α) (e : Edit α) : Layout α :=
  { l with
    placements := { l.placements with contours := l.placements.contours.map e.contour }
    labels := l.labels.map e.label
    primitives := l.primitives.map e.primitive }

@[simp] theorem edited_none (l : Layout α) : l.edited .none = l := by
  simp only [edited, Edit.none, List.map_id', SlotTable.map_id']

theorem edited_ofContour (l : Layout α) (id : Nat) (f : Contour α → Contour α)
    (h : Label α → Label α) :
    l.edited (.ofContour id f h) = { l with
      placements := l.placements.update id f
      labels := l.labels.map fun _ label => if label.owner = id then h label else label } := by
  simp only [edited, Edit.ofContour, Edit.none, SlotTable.map_id']
  rfl

theorem edited_ofLabel (l : Layout α) (k : Key) (owner : Nat) (h : Label α → Label α) :
    l.edited (.ofLabel k owner h) = { l with
      labels := l.labels.map fun k' label =>
        if k' = k ∧ label.owner = owner then h label else label } := by
  simp only [edited, Edit.ofLabel, Edit.none, List.map_id', SlotTable.map_id']

theorem edited_ofPrimitive (l : Layout α) (k : Key) (new : Primitive α) :
    l.edited (.ofPrimitive k new) = { l with
      primitives := l.primitives.map fun k' p => if k' = k then new else p } := by
  simp only [edited, Edit.ofPrimitive, Edit.none, List.map_id', SlotTable.map_id']

/-- Changes in different groups can change places. -/
theorem edited_comm (h : e.Within g) (h' : e'.Within g') (hne : ∀ y, g = some y → g' ≠ some y)
    (l : Layout α) : (l.edited e).edited e' = (l.edited e').edited e := by
  unfold edited
  simp only [List.map_map, SlotTable.map_map]
  congr 1
  · congr 1
    apply List.map_congr_left
    intro c _
    exact h.contours.comm h'.contours hne c
  · apply SlotTable.map_congr
    intro k p _
    exact (h.primitives k).comm (h'.primitives k) hne p
  · apply SlotTable.map_congr
    intro k label _
    exact (h.labels k).comm (h'.labels k) hne label

end Edited

/-! ## Section 3: What an edit depends on -/

/-- Layouts that look alike from a group: they have one zoom, the same labels at the same contours,
    and the same contour or primitive in the group. -/
structure Agree {α : Type} [Scalar α] (g : Option Group) (l m : Layout α) : Prop where
  /-- The zoom is the same. -/
  zoom : m.zoom = l.zoom
  /-- The labels belong to the same contours. -/
  owners : ∀ k, (m.labels.get? k).map (·.owner) = (l.labels.get? k).map (·.owner)
  /-- The contour of the group is the same. -/
  contour : ∀ id, g = some (.contour id) → m.placements.find? id = l.placements.find? id
  /-- The primitive of the group is the same. -/
  primitive : ∀ k, g = some (.primitive k) → m.primitives.get? k = l.primitives.get? k

/-- An attempt that gives one answer and makes one change on all layouts that look alike from a
    group, and the change stays in the group. -/
def Determined {α β : Type} [Scalar α] (g : Option Group) (l : Layout α)
    (a : Layout α → Attempt α β) : Prop :=
  ∃ result e, Edit.Within e g ∧ ∀ m, Agree g l m → a m = (result, m.edited e)

theorem Agree.refl {α : Type} [Scalar α] (g : Option Group) (l : Layout α) : Agree g l l :=
  ⟨rfl, fun _ => rfl, fun _ _ => rfl, fun _ _ => rfl⟩

/-- A change in another group is not seen. -/
theorem agree_edited {α : Type} [Scalar α] {g g' : Option Group} {e : Edit α} (h : e.Within g')
    (hne : ∀ y, g = some y → g' ≠ some y) (l : Layout α) : Agree g l (l.edited e) where
  zoom := rfl
  owners k := by
    show ((l.labels.map e.label).get? k).map _ = _
    rw [SlotTable.get?_map]
    cases l.labels.get? k with
    | none => rfl
    | some label => exact congrArg some (Group.contour.inj (h.labels k label).1)
  contour id hg := by
    have hid : ∀ c, (e.contour c).id = c.id := by
      intro c
      exact Group.contour.inj (h.contours c).1
    show ({ l.placements with
      contours := l.placements.contours.map e.contour } : Placements α).find? id = _
    rw [Placements.find?_map hid]
    cases hc : l.placements.find? id with
    | none => rfl
    | some c =>
      obtain ⟨-, rfl⟩ := Placements.find?_eq_some hc
      exact congrArg some ((h.contours c).2 (hne _ hg))
  primitive k hg := by
    show (l.primitives.map e.primitive).get? k = _
    rw [SlotTable.get?_map]
    cases l.primitives.get? k with
    | none => rfl
    | some p => exact congrArg some ((h.primitives k p).2 (hne _ hg))

section Edits

variable {α : Type} [Coordinate α] {β γ : Type} {l m : Layout α} {g g' : Option Group}
  {a : Layout α → Attempt α β}

/-- Attempts that are determined by different groups can change places. -/
theorem Determined.comm {b : Layout α → Attempt α γ} (ha : Determined g l a)
    (hb : Determined g' l b) (hne : ∀ y, g = some y → g' ≠ some y) :
    (b (a l).2).2 = (a (b l).2).2 ∧ (a (b l).2).1 = (a l).1 ∧ (b (a l).2).1 = (b l).1 := by
  obtain ⟨ra, e, he, ha⟩ := ha
  obtain ⟨rb, e', he', hb⟩ := hb
  have hne' : ∀ y, g' = some y → g ≠ some y := fun y hy hy' => hne y hy' hy
  rw [ha l (.refl g l), hb l (.refl g' l)]
  dsimp only
  -- neither change is seen from the other group, so each attempt makes the change it makes alone
  rw [ha _ (agree_edited he' hne l), hb _ (agree_edited he hne' l)]
  exact ⟨edited_comm he he' hne l, rfl, rfl⟩

/-- On layouts that look alike, what an attempt does may be told in another way. -/
theorem Determined.congr {b : Layout α → Attempt α β} (h : Determined g l b)
    (hab : ∀ m, Agree g l m → a m = b m) : Determined g l a := by
  obtain ⟨result, e, he, hb⟩ := h
  refine ⟨result, e, he, ?_⟩
  intro m hm
  rw [hab m hm, hb m hm]

theorem Determined.map (h : Determined g l a) (f : β → γ) :
    Determined g l fun m => (a m).andThen fun b m => (.ok (f b), m) := by
  obtain ⟨result, e, he, ha⟩ := h
  refine ⟨result.map f, e, he, ?_⟩
  intro m hm
  dsimp only
  rw [ha m hm]
  cases result <;> rfl

/-- What changes nothing and gives one answer is determined. -/
theorem determined_of_same (result : Except (LayoutError α) β)
    (h : ∀ m, Agree g l m → a m = (result, m)) : Determined g l a := by
  refine ⟨result, .none, Edit.within_none g, ?_⟩
  intro m hm
  rw [h m hm, edited_none]

/-! ## Section 4: Contours -/

/-- What looks up a contour first is determined if what follows is. -/
theorem determined_of_contour {id : Nat} {next : Contour α → Layout α → Attempt α β}
    (hnext : ∀ c, l.placements.find? id = some c → Determined (some (.contour id)) l (next c)) :
    Determined (some (.contour id)) l fun m => match m.placements.find? id with
      | none => (.error (.unknownContour id), m)
      | some c => next c m := by
  cases hc : l.placements.find? id with
  | none =>
    apply determined_of_same (.error (.unknownContour id))
    intro m hm
    rw [hm.contour id rfl, hc]
  | some c =>
    apply (hnext c hc).congr
    intro m hm
    rw [hm.contour id rfl, hc]

/-- The labels of an updated contour settle where they do in every layout that looks alike. -/
theorem Agree.settled_update {id : Nat} {c : Contour α} (hm : Agree (some (.contour id)) l m)
    (hc : l.placements.find? id = some c) {f : Contour α → Contour α}
    (hf : ∀ c, (f c).id = c.id) {label : Label α} (ho : label.owner = id) (s : Settings α) :
    ({ m with placements := m.placements.update id f } : Layout α).settled s label =
      ({ l with placements := l.placements.update id f } : Layout α).settled s label := by
  have hcm : m.placements.find? id = some c := (hm.contour id rfl).trans hc
  apply settled_congr_owner
  · show (m.placements.update id f).find? label.owner = (l.placements.update id f).find? label.owner
    rw [ho, Placements.find?_update_self hf hcm, Placements.find?_update_self hf hc]
  · exact hm.zoom

/-- Changing a contour, changing its labels and bringing them back to it is determined. -/
theorem determined_resettle {id : Nat} {c : Contour α} (hc : l.placements.find? id = some c)
    {f : Contour α → Contour α} {h : Label α → Label α} (hf : ∀ c, (f c).id = c.id)
    (hh : ∀ label, (h label).owner = label.owner) (result : β) (s : Settings α) :
    Determined (some (.contour id)) l fun m => (.ok result,
      ({ m with placements := m.placements.update id f } : Layout α).resettleLabels id h s) := by
  let changed : Layout α := { l with placements := l.placements.update id f }
  have hkept : ∀ label, (changed.settled s (h label)).owner = label.owner := by
    intro label
    rw [owner_settled, hh]
  refine ⟨.ok result, .ofContour id f fun label => changed.settled s (h label),
    Edit.within_ofContour hf hkept, ?_⟩
  intro m hm
  rw [edited_ofContour]
  unfold resettleLabels
  dsimp only
  congr 2
  apply SlotTable.map_congr
  intro k label _
  split
  · rename_i ho
    exact hm.settled_update hc hf ((hh label).trans ho) s
  · rfl

theorem determined_moveContour (l : Layout α) (id : Nat) (dx dy : α) (s : Settings α) :
    Determined (some (.contour id)) l fun m => m.moveContour id dx dy s := by
  unfold moveContour
  apply determined_of_contour
  intro c hc
  apply (determined_resettle hc (f := (·.translate dx dy)) (h := fun label => label.translate
    (c.translate dx dy).lastDelta.1 (c.translate dx dy).lastDelta.2) (fun _ => rfl)
    (fun _ => rfl) () s).congr
  intro m hm
  have hcm : m.placements.find? id = some c := (hm.contour id rfl).trans hc
  have hmove := moveContour_eq (s := s) hcm dx dy
  unfold moveContour at hmove
  rw [hcm] at hmove
  exact hmove

theorem determined_turnContour {id : Nat} {c : Contour α} (hc : l.placements.find? id = some c)
    (rotation : Rotation) (s : Settings α) :
    Determined (some (.contour id)) l fun m => m.turnContour id rotation s := by
  apply (determined_resettle hc (f := (·.rotateTo rotation l.zoom)) (h := fun label => label)
    (fun _ => rfl) (fun _ => rfl) () s).congr
  intro m hm
  rw [turnContour_eq ((hm.contour id rfl).trans hc), hm.zoom]

theorem determined_rotateContour (l : Layout α) (id : Nat) (angle : α) (s : Settings α) :
    Determined (some (.contour id)) l fun m => m.rotateContour id angle s := by
  unfold rotateContour
  apply determined_of_contour
  intro c hc
  cases (Rotation.ofDegrees? angle).filter (· ∈ s.allowedRotations) with
  | none => exact determined_of_same (.ok false) fun m _ => rfl
  | some rotation => exact (determined_turnContour hc rotation s).map fun _ => true

theorem determined_rotateContourStep (l : Layout α) (id : Nat) (s : Settings α) :
    Determined (some (.contour id)) l fun m => m.rotateContourStep id s := by
  unfold rotateContourStep
  apply determined_of_contour
  intro c hc
  exact determined_turnContour hc _ s

theorem determined_snapContour (l : Layout α) (id : Nat) (angle : α) (s : Settings α) :
    Determined (some (.contour id)) l fun m => m.snapContour id angle s := by
  unfold snapContour
  apply determined_of_contour
  intro c hc
  exact determined_turnContour hc _ s

/-! ## Section 5: Primitives and labels -/

/-- What looks up a primitive first is determined if what follows is. -/
theorem determined_of_primitive {k : Key} {next : Primitive α → Layout α → Attempt α β}
    (hnext : ∀ p, l.primitives.get? k = some p → Determined (some (.primitive k)) l (next p)) :
    Determined (some (.primitive k)) l fun m => match m.primitives.get? k with
      | none => (.error .unknownPrimitive, m)
      | some p => next p m := by
  cases hk : l.primitives.get? k with
  | none =>
    apply determined_of_same (.error .unknownPrimitive)
    intro m hm
    rw [hm.primitive k rfl, hk]
  | some p =>
    apply (hnext p hk).congr
    intro m hm
    rw [hm.primitive k rfl, hk]

theorem determined_setPrimitive {k : Key} {old : Primitive α}
    (hk : l.primitives.get? k = some old) (new : Primitive α) (result : β) :
    Determined (some (.primitive k)) l fun m =>
      (.ok result, { m with primitives := m.primitives.set k new }) := by
  refine ⟨.ok result, .ofPrimitive k new, Edit.within_ofPrimitive k new, ?_⟩
  intro m hm
  dsimp only
  rw [edited_ofPrimitive, SlotTable.set_eq_map ((hm.primitive k rfl).trans hk)]

theorem determined_movePrimitive (l : Layout α) (k : Key) (dx dy : α) :
    Determined (some (.primitive k)) l fun m => m.movePrimitive k dx dy := by
  unfold movePrimitive
  apply determined_of_primitive
  intro p hk
  exact determined_setPrimitive hk _ ()

/-- The limits of a size read the zoom, and nothing else of the layout. -/
theorem limitedShape_congr (hz : m.zoom = l.zoom) (wish : PrimitiveShape α) (s : Settings α) :
    m.limitedShape wish s = l.limitedShape wish s := by
  unfold limitedShape
  rw [hz]

theorem determined_resizePrimitive (l : Layout α) (k : Key) (wish : PrimitiveShape α)
    (s : Settings α) :
    Determined (some (.primitive k)) l fun m => m.resizePrimitive k wish s := by
  unfold resizePrimitive
  apply determined_of_primitive
  intro p hk
  by_cases hkind : wish.kind ≠ p.shape.kind
  · exact determined_of_same (.error _) fun m _ => if_pos hkind
  by_cases hsame : (l.limitedShape wish s).almostEqual p.shape = true
  · apply determined_of_same (.ok false)
    intro m hm
    dsimp only
    rw [if_neg hkind, limitedShape_congr hm.zoom, if_pos hsame]
  · apply (determined_setPrimitive hk { p with shape := l.limitedShape wish s } true).congr
    intro m hm
    dsimp only
    rw [if_neg hkind, limitedShape_congr hm.zoom, if_neg hsame]

/-- A label that is there is also there in every layout that looks alike, at the same contour. -/
theorem Agree.label (hm : Agree g l m) {k : Key} {label : Label α}
    (hk : l.labels.get? k = some label) :
    ∃ label', m.labels.get? k = some label' ∧ label'.owner = label.owner := by
  have howner := hm.owners k
  rw [hk] at howner
  exact Option.map_eq_some_iff.mp howner

theorem Agree.label_none (hm : Agree g l m) {k : Key} (hk : l.labels.get? k = none) :
    m.labels.get? k = none := by
  have howner := hm.owners k
  rw [hk] at howner
  exact Option.map_eq_none_iff.mp howner

/-- A label is changed and brought back to its contour, which is in its group. -/
theorem determined_editLabel (hl : l.Consistent) (k : Key) {f : Label α → Label α}
    (hf : ∀ label, (f label).owner = label.owner) (s : Settings α) :
    Determined (l.group? (.label k)) l fun m => m.editLabel k f s := by
  show Determined ((l.labels.get? k).map fun label => .contour label.owner) l _
  cases hk : l.labels.get? k with
  | none =>
    apply determined_of_same (.error .unknownLabel)
    intro m hm
    unfold editLabel
    rw [hm.label_none hk]
  | some label =>
    obtain ⟨c, hc⟩ := hl.find?_owner hk
    have hkept : ∀ label, (l.settled s (f label)).owner = label.owner := by
      intro label
      rw [owner_settled, hf]
    refine ⟨.ok (), .ofLabel k label.owner fun label => l.settled s (f label),
      Edit.within_ofLabel hkept, ?_⟩
    intro m hm
    obtain ⟨label', hk', howner⟩ := hm.label hk
    have hfind : m.placements.find? (f label').owner = l.placements.find? (f label').owner := by
      rw [hf, howner]
      exact hm.contour _ rfl
    have hc' : m.placements.find? (f label').owner = some c := by
      rw [hfind, hf, howner, hc]
    dsimp only
    rw [edited_ofLabel, editLabel_eq hk' hc', settled_congr_owner hfind hm.zoom,
      SlotTable.set_eq_map hk']
    congr 2
    apply SlotTable.map_congr
    intro k₁ label₁ hk₁
    by_cases hkk : k₁ = k
    · subst hkk
      obtain rfl : label' = label₁ := Option.some.inj (hk'.symm.trans hk₁)
      rw [if_pos rfl, if_pos ⟨rfl, howner⟩]
    · rw [if_neg hkk, if_neg fun h => hkk h.1]

/-! ## Section 6: Commands -/

/-- A command that edits one entity is determined by the group of the entity. -/
theorem determined_apply (hl : l.Consistent) {c : Command α} {t : Target} (hc : c.edited? = some t)
    (catalog : Catalog α) (s : Settings α) :
    Determined (l.group? t) l fun m => m.apply c catalog s := by
  cases c with
  | move target dx dy =>
    cases hc
    cases t with
    | contour id => exact (determined_moveContour l id dx dy s).map _
    | primitive k => exact (determined_movePrimitive l k dx dy).map _
    | label k =>
      exact (determined_editLabel hl k (f := (·.translate dx dy)) (fun _ => rfl) s).map _
  | rotate id angle =>
    cases hc
    exact (determined_rotateContour l id angle s).map _
  | rotateStep id =>
    cases hc
    exact (determined_rotateContourStep l id s).map _
  | snap id angle =>
    cases hc
    exact (determined_snapContour l id angle s).map _
  | resizePrimitive k size =>
    cases hc
    exact (determined_resizePrimitive l k size s).map _
  | setLabelText k text =>
    cases hc
    exact (determined_editLabel hl k (f := ({ · with text := text })) (fun _ => rfl) s).map _
  | place _ _ | addPrimitive _ _ | delete _ | attachLabel _ _ _ | setZoom _ | resizeTray _ _
  | applyPreset _ => cases hc

/-- Two commands that edit entities of different groups can change places, whether they are
    accepted or refused: the layout is the same after both, and each is answered as if it were the
    only one. -/
theorem edits_commute (h : l.Attainable) {c d : Command α} {t u : Target}
    (hc : c.edited? = some t) (hd : d.edited? = some u)
    (hne : ∀ y, l.group? t = some y → l.group? u ≠ some y) (catalog : Catalog α)
    (s : Settings α) :
    let first := l.apply c catalog s
    let second := l.apply d catalog s
    (first.2.apply d catalog s).2 = (second.2.apply c catalog s).2 ∧
      (second.2.apply c catalog s).1 = first.1 ∧ (first.2.apply d catalog s).1 = second.1 :=
  (determined_apply h.consistent hc catalog s).comm (determined_apply h.consistent hd catalog s) hne

end Edits

/-- The first wrench can be turned before or after the label of the second one is moved; the label
    does not go where the wrench was. -/
theorem edits_commute_pairOfWrenches :
    let turn : Command Single := .rotateStep 0
    let move : Command Single := .move (.label ⟨2, 1⟩) 25 40
    let turned := pairOfWrenches.apply turn wrenchCatalog .standard
    let moved := pairOfWrenches.apply move wrenchCatalog .standard
    turned.1.toOption = some .changed ∧ moved.1.toOption = some .changed ∧
      (turned.2.apply move wrenchCatalog .standard).2 =
        (moved.2.apply turn wrenchCatalog .standard).2 ∧
      (moved.2.apply turn wrenchCatalog .standard).1 = turned.1 ∧
      (turned.2.apply move wrenchCatalog .standard).1 = moved.1 := by
  intro turn move turned moved
  refine ⟨by decide +kernel, by decide +kernel, ?_⟩
  have howner : pairOfWrenches.group? (.label ⟨2, 1⟩) = some (.contour 1) := by decide +kernel
  refine edits_commute attainable_pairOfWrenches (c := turn) (d := move) rfl rfl ?_ wrenchCatalog
    .standard
  rintro y ⟨⟩
  rw [howner]
  decide

end Layout

end FoamTray
