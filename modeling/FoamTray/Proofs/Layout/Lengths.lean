import FoamTray.Proofs.Geometry.Millimetres
import FoamTray.Proofs.Layout.Structure

/-! # Lengths of a layout

    The positions and sizes that are saved, and what it means that two documents have the same
    ones.

    * `Workspace.same` : documents that differ in the sign of a zero at most, computed.
    * `Layout.Everywhere` : a condition on all positions and all sizes.
    * `Layout.stretched` : a layout with all of them replaced.
    * `same_save` : when a stretched layout is saved as the same document.
-/

namespace FoamTray

/-! ## Section 1: Documents -/

/-- Whether two saved contours are the same, at coordinates that the machine finds equal. -/
def ContourRecord.same (r r' : ContourRecord Single) : Bool :=
  (⟨r.x, r.y⟩ : Point Single).same ⟨r'.x, r'.y⟩ && decide ({ r with x := r'.x, y := r'.y } = r')

/-- Whether two saved primitives have coordinates and sizes that the machine finds equal. -/
def PrimitiveRecord.same : PrimitiveRecord Single → PrimitiveRecord Single → Bool
  | .rect x y w h, .rect x' y' w' h' =>
      (⟨x, y⟩ : Point Single).same ⟨x', y'⟩ && (⟨w, h⟩ : Point Single).same ⟨w', h'⟩
  | .circle x y r, .circle x' y' r' => (⟨x, y⟩ : Point Single).same ⟨x', y'⟩ && r == r'
  | _, _ => false

/-- Whether two saved labels are the same, at coordinates that the machine finds equal. -/
def LabelRecord.same (r r' : LabelRecord Single) : Bool :=
  (⟨r.x, r.y⟩ : Point Single).same ⟨r'.x, r'.y⟩ && decide ({ r with x := r'.x, y := r'.y } = r')

/-- Whether two saved trays are at the same place and of sides that the machine finds equal. -/
def TrayRecord.same (t t' : TrayRecord Single) : Bool :=
  t.width == t'.width && t.height == t'.height && decide (t.offset = t'.offset)

/-- Whether two documents are the same, up to the sign of a zero. -/
def Workspace.same (d d' : Workspace Single) : Bool :=
  d.tray.same d'.tray && d.contours.isEqv d'.contours ContourRecord.same &&
    d.primitives.isEqv d'.primitives PrimitiveRecord.same &&
    d.labels.isEqv d'.labels LabelRecord.same &&
    decide ({ d with
      tray := d'.tray
      contours := d'.contours
      primitives := d'.primitives
      labels := d'.labels } = d')

theorem Workspace.same_of_parts {d d' : Workspace Single} (htray : d.tray.same d'.tray = true)
    (hcontours : d.contours.isEqv d'.contours ContourRecord.same = true)
    (hprimitives : d.primitives.isEqv d'.primitives PrimitiveRecord.same = true)
    (hlabels : d.labels.isEqv d'.labels LabelRecord.same = true)
    (hrest : { d with
      tray := d'.tray
      contours := d'.contours
      primitives := d'.primitives
      labels := d'.labels } = d') : d.same d' = true := by
  unfold same
  rw [htray, hcontours, hprimitives, hlabels, decide_eq_true hrest]
  rfl

/-- Two images of one list are equivalent if they are so member by member. -/
theorem isEqv_map_map {β γ : Type} {f g : β → γ} {r : γ → γ → Bool} {bs : List β}
    (h : ∀ b ∈ bs, r (f b) (g b) = true) : (bs.map f).isEqv (bs.map g) r = true := by
  induction bs with
  | nil => rfl
  | cons b rest ih =>
    have hb := h b List.mem_cons_self
    have hrest := ih fun b hb => h b (List.mem_cons_of_mem _ hb)
    simp [List.isEqv, hb, hrest]

/-! ## Section 2: Positions and sizes -/

/-- The lengths of a shape. -/
def PrimitiveShape.lengths {α : Type} : PrimitiveShape α → List α
  | .rect w h => [w, h]
  | .circle r => [r]

/-- The point with both coordinates replaced by a function of themselves. -/
def Point.map {α : Type} (f : α → α) (p : Point α) : Point α := ⟨f p.x, f p.y⟩

/-- Both coordinates satisfy a condition. -/
def Point.Both {α : Type} (P : α → Prop) (p : Point α) : Prop := P p.x ∧ P p.y

instance {α : Type} (P : α → Prop) [DecidablePred P] (p : Point α) : Decidable (p.Both P) :=
  inferInstanceAs (Decidable (_ ∧ _))

namespace Layout

section Lengths

variable {α : Type} [Scalar α]

/-- The coordinates of all positions satisfy `P`, and all sizes satisfy `Q`. -/
structure Everywhere (l : Layout α) (P Q : α → Prop) : Prop where
  contours : ∀ c ∈ l.placements.contours, c.position.Both P
  primitives : ∀ p ∈ l.primitives.values, p.position.Both P
  shapes : ∀ p ∈ l.primitives.values, ∀ length ∈ p.shape.lengths, Q length
  labels : ∀ label ∈ l.labels.values, label.position.Both P

instance (l : Layout α) (P Q : α → Prop) [DecidablePred P] [DecidablePred Q] :
    Decidable (l.Everywhere P Q) :=
  decidable_of_iff
    ((∀ c ∈ l.placements.contours, c.position.Both P) ∧
      (∀ p ∈ l.primitives.values, p.position.Both P) ∧
      (∀ p ∈ l.primitives.values, ∀ length ∈ p.shape.lengths, Q length) ∧
      ∀ label ∈ l.labels.values, label.position.Both P)
    ⟨fun ⟨h₁, h₂, h₃, h₄⟩ => ⟨h₁, h₂, h₃, h₄⟩, fun ⟨h₁, h₂, h₃, h₄⟩ => ⟨h₁, h₂, h₃, h₄⟩⟩

/-- The layout at another zoom, with every coordinate and every size replaced by a function of
    itself. -/
def stretched (l : Layout α) (f : α → α) (z : Zoom α) : Layout α :=
  { l with
    placements := { l.placements with
      contours := l.placements.contours.map fun c =>
        { c with position := c.position.map f, lastPosition := c.lastPosition.map f } }
    primitives := l.primitives.map fun _ p =>
      { p with position := p.position.map f, shape := p.shape.mapLengths f }
    labels := l.labels.map fun _ label => { label with position := label.position.map f }
    zoom := z }

/-- Stretching to another zoom multiplies all lengths. -/
theorem rescaleTo_eq_stretched (l : Layout α) {z : Zoom α}
    (h : (z.factor == l.zoom.factor) = false) :
    l.rescaleTo z = l.stretched (· * l.zoom.ratioTo z) z := by
  have hshape : ∀ p : Primitive α, p.rescale (l.zoom.ratioTo z) =
      { p with
        position := p.position.map (· * l.zoom.ratioTo z)
        shape := p.shape.mapLengths (· * l.zoom.ratioTo z) } := by
    intro p
    obtain ⟨shape, position, highlighted⟩ := p
    cases shape <;> rfl
  unfold rescaleTo
  rw [if_neg (by rw [h]; exact Bool.false_ne_true)]
  dsimp only
  simp only [hshape]
  rfl

theorem stretched_id (l : Layout α) : l.stretched id l.zoom = l := by
  have hcontours : l.placements.contours.map (fun c =>
      { c with position := c.position.map id, lastPosition := c.lastPosition.map id }) =
      l.placements.contours := List.map_id _
  have hprimitives : l.primitives.map (fun _ p =>
      { p with position := p.position.map id, shape := p.shape.mapLengths id }) =
      l.primitives := by
    apply SlotTable.map_id_of_forall
    intro k p _
    obtain ⟨shape, position, highlighted⟩ := p
    cases shape <;> rfl
  have hlabels : l.labels.map (fun _ label =>
      { label with position := label.position.map id }) = l.labels :=
    SlotTable.map_id_of_forall fun _ _ _ => rfl
  unfold stretched
  rw [hcontours, hprimitives, hlabels]

theorem stretched_stretched (l : Layout α) (f g : α → α) (z z' : Zoom α) :
    (l.stretched f z).stretched g z' = l.stretched (g ∘ f) z' := by
  have hprimitives : (l.stretched f z).primitives.map (fun _ p =>
      { p with position := p.position.map g, shape := p.shape.mapLengths g }) =
      l.primitives.map fun _ p =>
        { p with position := p.position.map (g ∘ f), shape := p.shape.mapLengths (g ∘ f) } := by
    unfold stretched
    rw [SlotTable.map_map]
    apply SlotTable.map_congr
    intro k p _
    obtain ⟨shape, position, highlighted⟩ := p
    cases shape <;> rfl
  unfold stretched at hprimitives ⊢
  dsimp only at hprimitives ⊢
  rw [hprimitives, List.map_map, SlotTable.map_map]
  rfl

end Lengths

variable {l : Layout Single}

/-- A layout at a moderate zoom whose positions and sizes are finite and of no more than so many
    millimetres. -/
structure Within (l : Layout Single) (bound : Rat) : Prop where
  resolved : bound ≤ 2 ^ 20
  zoom : l.zoom.Moderate
  tray : ∀ x ∈ [l.tray.width, l.tray.height, l.tray.offset],
    x.isFinite = true ∧ |x.toRat| ≤ bound
  lengths : l.Everywhere (l.zoom.Spans bound) (l.zoom.Spans bound)

instance (l : Layout Single) (bound : Rat) : Decidable (l.Within bound) :=
  decidable_of_iff
    (bound ≤ 2 ^ 20 ∧ l.zoom.Moderate ∧
      (∀ x ∈ [l.tray.width, l.tray.height, l.tray.offset],
        x.isFinite = true ∧ |x.toRat| ≤ bound) ∧
      l.Everywhere (l.zoom.Spans bound) (l.zoom.Spans bound))
    ⟨fun ⟨h₁, h₂, h₃, h₄⟩ => ⟨h₁, h₂, h₃, h₄⟩, fun ⟨h₁, h₂, h₃, h₄⟩ => ⟨h₁, h₂, h₃, h₄⟩⟩

section Tray

variable {bound : Rat}

theorem Within.width (h : l.Within bound) :
    l.tray.width.isFinite = true ∧ |l.tray.width.toRat| ≤ bound := by
  apply h.tray
  simp

theorem Within.height (h : l.Within bound) :
    l.tray.height.isFinite = true ∧ |l.tray.height.toRat| ≤ bound := by
  apply h.tray
  simp

theorem Within.offset (h : l.Within bound) :
    l.tray.offset.isFinite = true ∧ |l.tray.offset.toRat| ≤ bound := by
  apply h.tray
  simp

end Tray

/-- A layout whose positions, seen from the corner of the tray, and sizes are away from the middle
    between two whole millimetres by more than a margin. -/
def ClearOfHalves (l : Layout Single) (margin : Rat) : Prop :=
  l.Everywhere (fun x => ClearOfHalf margin (l.zoom.millimetres x - l.tray.offset.toRat))
    (fun x => ClearOfHalf margin (l.zoom.millimetres x))

instance (l : Layout Single) (margin : Rat) : Decidable (l.ClearOfHalves margin) :=
  inferInstanceAs (Decidable (l.Everywhere _ _))

/-! ## Section 3: Saving a stretched layout -/

theorem withItems_stretched (l : Layout Single) (f : Single → Single) (z : Zoom Single) :
    (l.stretched f z).placements.withItems = l.placements.withItems.map fun e =>
      ({ e.1 with position := e.1.position.map f, lastPosition := e.1.lastPosition.map f }, e.2) := by
  show (l.placements.contours.map _).filterMap _ = (l.placements.contours.filterMap _).map _
  rw [List.filterMap_map, List.map_filterMap]
  apply List.filterMap_congr
  intro c _
  show (l.placements.item? c.id).map _ = ((l.placements.item? c.id).map _).map _
  rw [Option.map_map]
  rfl

/-- Two layouts save a point as the same one. -/
def SavesAlike (l m : Layout Single) (p q : Point Single) : Prop :=
  (l.savedPoint p).same (m.savedPoint q) = true

theorem same_savedContour {m : Layout Single} {c d : Contour Single}
    (h : l.SavesAlike m c.position d.position) (hkept : d.kept = c.kept)
    (item : CatalogItem Single) :
    (l.savedContour c item).same (m.savedContour d item) = true := by
  obtain ⟨hid, hitem, hrotation, hscale⟩ : d.id = c.id ∧ d.itemId = c.itemId ∧
      d.rotation = c.rotation ∧ d.scaleOverride = c.scaleOverride := by
    simpa [Contour.kept] using hkept
  have hrest : ({ l.savedContour c item with
      x := (m.savedContour d item).x, y := (m.savedContour d item).y } : ContourRecord Single) =
      m.savedContour d item := by
    simp [savedContour, hid, hitem, hrotation, hscale]
  unfold ContourRecord.same
  rw [decide_eq_true hrest, Bool.and_true]
  exact h

theorem same_savedLabel {m : Layout Single} {a b : Label Single}
    (h : l.SavesAlike m a.position b.position) (hkept : b.kept = a.kept) :
    (l.savedLabel a).same (m.savedLabel b) = true := by
  obtain ⟨howner, htext, hfont⟩ : b.owner = a.owner ∧ b.text = a.text ∧
      b.fontSize = a.fontSize := by
    simpa [Label.kept] using hkept
  have hrest : ({ l.savedLabel a with
      x := (m.savedLabel b).x, y := (m.savedLabel b).y } : LabelRecord Single) =
      m.savedLabel b := by
    simp [savedLabel, howner, htext, hfont]
  unfold LabelRecord.same
  rw [decide_eq_true hrest, Bool.and_true]
  exact h

/-- Two layouts save a shape as the same one. -/
def SavesShapeAlike (l m : Layout Single) : PrimitiveShape Single → PrimitiveShape Single → Prop
  | .rect w h, .rect w' h' =>
      (l.savedLength w == m.savedLength w') = true ∧ (l.savedLength h == m.savedLength h') = true
  | .circle r, .circle r' => (l.savedLength r == m.savedLength r') = true
  | _, _ => False

theorem savesShapeAlike_mapLengths {m : Layout Single} {shape : PrimitiveShape Single}
    {f : Single → Single}
    (h : ∀ length ∈ shape.lengths, (l.savedLength length == m.savedLength (f length)) = true) :
    l.SavesShapeAlike m shape (shape.mapLengths f) := by
  cases shape with
  | rect w height =>
    exact ⟨h w (by simp [PrimitiveShape.lengths]), h height (by simp [PrimitiveShape.lengths])⟩
  | circle r => exact h r (by simp [PrimitiveShape.lengths])

theorem same_savedPrimitive {m : Layout Single} {p q : Primitive Single}
    (h : l.SavesAlike m p.position q.position) (hshape : l.SavesShapeAlike m p.shape q.shape) :
    (l.savedPrimitive p).same (m.savedPrimitive q) = true := by
  obtain ⟨shape, position, marked⟩ := p
  obtain ⟨shape', position', marked'⟩ := q
  cases shape with
  | rect w height =>
    cases shape' with
    | rect w' height' => exact Bool.and_eq_true_iff.mpr ⟨h, Bool.and_eq_true_iff.mpr hshape⟩
    | circle r' => exact hshape.elim
  | circle r =>
    cases shape' with
    | rect w' height' => exact hshape.elim
    | circle r' => exact Bool.and_eq_true_iff.mpr ⟨h, hshape⟩

/-- A tray with finite sides is saved as it is. -/
theorem Within.same_tray {bound : Rat} (h : l.Within bound) :
    l.save.tray.same l.save.tray = true := by
  have hround : ∀ x : Single, x.isFinite = true → |x.toRat| ≤ bound →
      (x.round == x.round) = true := by
    intro x hx hbound
    have hlt : |x.toRat| < 2 ^ 23 := by
      have hresolved := h.resolved
      linarith
    obtain ⟨hfinite, -⟩ := Single.toRat_round hx hlt
    exact (Single.beq_iff_toRat hfinite hfinite).mpr rfl
  have hwidth := hround _ h.width.1 h.width.2
  have hheight := hround _ h.height.1 h.height.2
  simp only [TrayRecord.same, decide_true, Bool.and_true]
  exact Bool.and_eq_true_iff.mpr ⟨hwidth, hheight⟩

/-- A stretched layout is saved as the same document if each position and each size is. -/
theorem same_save {f : Single → Single} {z : Zoom Single}
    (h : l.Everywhere
      (fun x => (l.savedLength (x - l.zoom.toWorkspace l.tray.offset) ==
        (l.stretched f z).savedLength (f x - z.toWorkspace l.tray.offset)) = true)
      (fun x => (l.savedLength x == (l.stretched f z).savedLength (f x)) = true))
    (htray : l.save.tray.same l.save.tray = true) :
    l.save.same (l.stretched f z).save = true := by
  have hpoint : ∀ p : Point Single, p.Both (fun x =>
      (l.savedLength (x - l.zoom.toWorkspace l.tray.offset) ==
        (l.stretched f z).savedLength (f x - z.toWorkspace l.tray.offset)) = true) →
      l.SavesAlike (l.stretched f z) p (p.map f) := by
    intro p hp
    exact Bool.and_eq_true_iff.mpr hp
  have hcontours : l.save.contours.isEqv (l.stretched f z).save.contours ContourRecord.same =
      true := by
    show (l.placements.withItems.map _).isEqv ((l.stretched f z).placements.withItems.map _) _ = _
    rw [withItems_stretched, List.map_map]
    apply isEqv_map_map
    intro e he
    have hplace := hpoint _ (h.contours e.1 (Placements.mem_withItems.mp he).1)
    exact same_savedContour (d := { e.1 with
      position := e.1.position.map f, lastPosition := e.1.lastPosition.map f }) hplace rfl e.2
  have hprimitives : l.save.primitives.isEqv (l.stretched f z).save.primitives
      PrimitiveRecord.same = true := by
    show (l.primitives.values.map _).isEqv ((l.stretched f z).primitives.values.map _) _ = _
    rw [show (l.stretched f z).primitives.values = _ from SlotTable.values_map _ l.primitives,
      List.map_map]
    apply isEqv_map_map
    intro p hp
    have hplace := hpoint _ (h.primitives p hp)
    have hshape := savesShapeAlike_mapLengths (h.shapes p hp)
    exact same_savedPrimitive (q := { p with
      position := p.position.map f, shape := p.shape.mapLengths f }) hplace hshape
  have hlabels : l.save.labels.isEqv (l.stretched f z).save.labels LabelRecord.same = true := by
    show (l.labels.values.map _).isEqv ((l.stretched f z).labels.values.map _) _ = _
    rw [show (l.stretched f z).labels.values = _ from SlotTable.values_map _ l.labels,
      List.map_map]
    apply isEqv_map_map
    intro label hlabel
    have hplace := hpoint _ (h.labels label hlabel)
    exact same_savedLabel (b := { label with position := label.position.map f }) hplace rfl
  have htray' : l.save.tray.same (l.stretched f z).save.tray = true := htray
  exact Workspace.same_of_parts htray' hcontours hprimitives hlabels rfl

end Layout

end FoamTray
