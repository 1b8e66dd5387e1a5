import FoamTray.Proofs.Geometry.Stretching
import FoamTray.Proofs.Layout.Validate

/-! # Edits at every zoom

    A command does at one zoom what it does at any other. Over the rationals, stretching a layout
    and applying the stretched command leads to the stretched layout that the command leads to,
    with the same answer. Two commands are left out: the one that changes the zoom, and resizing a
    primitive, which tells sizes apart by a tolerance in workspace units.

    * `Layout.zoomed`, `Layout.rescaleTo_eq` : stretching as one equation, also to the zoom of
      before.
    * `Attempt.zoomed` : an answer together with the stretched layout.
    * `clampLabel_zoomed`, …, `applyPreset_zoomed`, `apply_zoomed` : one equation for each edit.
    * `Layout.play` : a run of edits with changes of the zoom in between.
    * `edits_follow_zoom` : a command at two zooms, and from it a run at many zooms beside the
      same run in millimetres.
-/

namespace FoamTray

/-! ## Section 1: Stretched layouts -/

/-- The contours after the workspace is stretched. -/
def Placements.rescale {α : Type} [Scalar α] (p : Placements α) (ratio : α) : Placements α :=
  { p with contours := p.contours.map (·.rescale ratio) }

namespace Placements

variable (p : Placements Rat) (r : Rat) (id : Nat)

theorem rescale_one : p.rescale 1 = p := by
  have hcontours : p.contours.map (·.rescale 1) = p.contours := by
    simp only [Contour.rescale_one, List.map_id']
  unfold rescale
  rw [hcontours]

theorem find?_rescale : (p.rescale r).find? id = (p.find? id).map (·.rescale r) :=
  find?_map (f := (·.rescale r)) (fun _ => rfl) p id

theorem update_rescale {f g : Contour Rat → Contour Rat}
    (h : ∀ c, g (c.rescale r) = (f c).rescale r) :
    (p.rescale r).update id g = (p.update id f).rescale r := by
  unfold update rescale
  dsimp only
  rw [List.map_map, List.map_map]
  congr 1
  apply List.map_congr_left
  intro c _
  -- stretching keeps the number of a contour
  show (if c.id = id then g (c.rescale r) else c.rescale r) =
    (if c.id = id then f c else c).rescale r
  split
  · exact h c
  · rfl

theorem place_rescale (item : CatalogItem Rat) (position : Point Rat) :
    (p.rescale r).place item (position.rescale r) = (p.place item position).rescale r := by
  unfold place insert rescale
  dsimp only
  rw [List.map_append]
  rfl

theorem erase_rescale : (p.rescale r).erase id = (p.erase id).rescale r := by
  unfold erase rescale
  dsimp only
  rw [List.filter_map]
  rfl

end Placements

namespace Layout

variable (l : Layout Rat) (t u : Zoom Rat) (s : Settings Rat)

/-- The layout with every length on the workspace multiplied by the ratio of the zooms. -/
def zoomed : Layout Rat :=
  { l with
    placements := l.placements.rescale (l.zoom.ratioTo t)
    primitives := l.primitives.map fun _ p => p.rescale (l.zoom.ratioTo t)
    labels := l.labels.map fun _ label => label.rescale (l.zoom.ratioTo t)
    zoom := t }

/-- Stretching multiplies all lengths, also to the zoom of before. -/
theorem rescaleTo_eq : l.rescaleTo t = l.zoomed t := by
  unfold rescaleTo
  split
  -- at the zoom of before nothing is done, and multiplying by one would do nothing either
  · rename_i h
    obtain rfl : t = l.zoom := Zoom.eq_of_factor (eq_of_beq h)
    have hprimitives : l.primitives.map (fun _ p => p.rescale 1) = l.primitives :=
      SlotTable.map_id_of_forall fun _ p _ => p.rescale_one
    have hlabels : l.labels.map (fun _ label => label.rescale 1) = l.labels :=
      SlotTable.map_id_of_forall fun _ label _ => label.rescale_one
    unfold zoomed
    rw [Zoom.ratioTo_self, Placements.rescale_one, hprimitives, hlabels]
  · rfl

@[simp] theorem zoom_zoomed : (l.zoomed t).zoom = t := rfl

@[simp] theorem tray_zoomed : (l.zoomed t).tray = l.tray := rfl

@[simp] theorem placements_zoomed :
    (l.zoomed t).placements = l.placements.rescale (l.zoom.ratioTo t) := rfl

@[simp] theorem primitives_zoomed :
    (l.zoomed t).primitives = l.primitives.map fun _ p => p.rescale (l.zoom.ratioTo t) := rfl

@[simp] theorem labels_zoomed :
    (l.zoomed t).labels = l.labels.map fun _ label => label.rescale (l.zoom.ratioTo t) := rfl

/-- Zooming in two steps is zooming in one. -/
theorem zoomed_zoomed : (l.zoomed t).zoomed u = l.zoomed u := by
  have hcontour : ∀ c : Contour Rat, (c.rescale (l.zoom.ratioTo t)).rescale (t.ratioTo u) =
      c.rescale (l.zoom.ratioTo u) := by
    intro c
    simp only [Contour.rescale, Point.rescale_rescale, Zoom.ratioTo_mul_ratioTo]
  have hprimitive : ∀ p : Primitive Rat, (p.rescale (l.zoom.ratioTo t)).rescale (t.ratioTo u) =
      p.rescale (l.zoom.ratioTo u) := by
    intro p
    simp only [Primitive.rescale, Point.rescale_rescale, PrimitiveShape.scaled_scaled,
      Zoom.ratioTo_mul_ratioTo]
  have hlabel : ∀ label : Label Rat,
      (label.rescale (l.zoom.ratioTo t)).rescale (t.ratioTo u) =
        label.rescale (l.zoom.ratioTo u) := by
    intro label
    simp only [Label.rescale, Point.rescale_rescale, Zoom.ratioTo_mul_ratioTo]
  simp only [zoomed, Placements.rescale, List.map_map, SlotTable.map_map, Function.comp_def,
    hcontour, hprimitive, hlabel]

theorem contourBounds?_zoomed (id : Nat) :
    (l.zoomed t).contourBounds? id =
      (l.contourBounds? id).map (·.scale (l.zoom.ratioTo t)) := by
  unfold contourBounds?
  rw [placements_zoomed, Placements.find?_rescale, zoom_zoomed, Option.map_map,
    Option.map_map]
  congr 1
  funext c
  exact c.bounds_rescale l.zoom t

/-- The padding is given in millimetres, and is converted at the zoom of the layout. -/
theorem labelArea?_zoomed (id : Nat) :
    (l.zoomed t).labelArea? id s =
      (l.labelArea? id s).map (·.scale (l.zoom.ratioTo t)) := by
  unfold labelArea?
  rw [contourBounds?_zoomed, zoom_zoomed, Option.map_map, Option.map_map]
  congr 1
  funext bounds
  show (bounds.scale _).inflate (t.toWorkspace _) = (bounds.inflate _).scale _
  rw [← l.zoom.toWorkspace_mul_ratioTo t, Rect.inflate_scale (l.zoom.ratioTo_pos t)]

end Layout

/-! ## Section 2: Edits -/

/-- The same answer, with the layout that is left behind stretched to a zoom. -/
def Attempt.zoomed {β : Type} (a : Attempt Rat β) (t : Zoom Rat) : Attempt Rat β :=
  (a.1, a.2.zoomed t)

theorem Attempt.andThen_zoomed {β γ : Type} (a : Attempt Rat β) {t : Zoom Rat}
    {f : β → Layout Rat → Attempt Rat γ}
    (h : ∀ b l, f b (l.zoomed t) = Attempt.zoomed (f b l) t) :
    Attempt.andThen (Attempt.zoomed a t) f = Attempt.zoomed (Attempt.andThen a f) t := by
  obtain ⟨outcome, l⟩ := a
  cases outcome with
  | ok b => exact h b l
  | error e => rfl

namespace Layout

variable (l : Layout Rat) (t : Zoom Rat) (s : Settings Rat) (catalog : Catalog Rat)

section Labels

/-- A label is brought back by the stretched shift, whatever becomes of its contour. -/
theorem clampLabel_zoomed (k : Key) :
    (l.zoomed t).clampLabel k s = Attempt.zoomed (l.clampLabel k s) t := by
  have hr := l.zoom.ratioTo_pos t
  unfold clampLabel
  rw [labels_zoomed, SlotTable.get?_map]
  cases l.labels.get? k with
  | none => rfl
  | some label =>
    simp only [Option.map_some, Label.owner_rescale, labelArea?_zoomed]
    cases l.labelArea? label.owner s with
    | none => rfl
    | some area =>
      simp only [Option.map_some, zoom_zoomed, Label.bounds_rescale, Rect.shiftInto_scale hr]
      -- the shift is nothing at both zooms or at none
      have hzero : ∀ x : Rat, (x * l.zoom.ratioTo t == ((0 : Nat) : Rat)) =
          (x == ((0 : Nat) : Rat)) := by
        intro x
        rw [Bool.eq_iff_iff]
        simp [hr.ne']
      rw [hzero, hzero]
      split
      · rfl
      · rw [Label.translate_rescale, ← SlotTable.map_set]
        rfl

theorem clampLabels_zoomed (ks : List Key) :
    (l.zoomed t).clampLabels s ks = Attempt.zoomed (l.clampLabels s ks) t := by
  induction ks generalizing l with
  | nil => rfl
  | cons k rest ih =>
    unfold clampLabels
    rw [clampLabel_zoomed]
    exact Attempt.andThen_zoomed _ fun _ l => ih l

theorem labelKeys_zoomed (owner : Nat) : (l.zoomed t).labelKeys owner = l.labelKeys owner := by
  unfold labelKeys
  rw [labels_zoomed, SlotTable.entries_map, List.filter_map, List.map_map]
  rfl

theorem clampLabelsOf_zoomed (owner : Nat) :
    (l.zoomed t).clampLabelsOf owner s = Attempt.zoomed (l.clampLabelsOf owner s) t := by
  unfold clampLabelsOf
  rw [labelKeys_zoomed, clampLabels_zoomed]

/-- The offset of a new label is given in millimetres. -/
theorem attachLabel_zoomed (owner : Nat) (text : String) (offset : Option (Rat × Rat)) :
    (l.zoomed t).attachLabel owner text offset s =
      Attempt.zoomed (l.attachLabel owner text offset s) t := by
  unfold attachLabel
  rw [contourBounds?_zoomed]
  cases l.contourBounds? owner with
  | none => rfl
  | some bounds =>
    dsimp only [Option.map_some]
    set x := (offset.getD s.labels.defaultOffset).1
    set y := (offset.getD s.labels.defaultOffset).2
    set position : Point Rat :=
      ⟨bounds.xMax + l.zoom.toWorkspace x, bounds.yMin + l.zoom.toWorkspace y⟩ with hposition
    have hstretched : (⟨(bounds.scale (l.zoom.ratioTo t)).xMax + t.toWorkspace x,
        (bounds.scale (l.zoom.ratioTo t)).yMin + t.toWorkspace y⟩ : Point Rat) =
        position.rescale (l.zoom.ratioTo t) := by
      simp only [hposition, Rect.scale, Point.rescale, add_mul, Zoom.toWorkspace_mul_ratioTo]
    have hlabels : (l.zoomed t).labels.insert
        ⟨owner, text, position.rescale (l.zoom.ratioTo t), s.labels.fontSize⟩ =
        (l.labels.insert ⟨owner, text, position, s.labels.fontSize⟩).map fun _ label =>
          label.rescale (l.zoom.ratioTo t) := by
      rw [SlotTable.map_insert]
      rfl
    rw [zoom_zoomed, hstretched, hlabels, labels_zoomed, SlotTable.nextKey_map]
    have hclamp := clampLabel_zoomed ({ l with
      labels := l.labels.insert ⟨owner, text, position, s.labels.fontSize⟩ } : Layout Rat) t s
      l.labels.nextKey
    refine (congrArg (Attempt.andThen · _) hclamp).trans ?_
    exact Attempt.andThen_zoomed _ fun _ _ => rfl

theorem editLabel_zoomed (k : Key) {f g : Label Rat → Label Rat}
    (h : ∀ label, g (label.rescale (l.zoom.ratioTo t)) =
      (f label).rescale (l.zoom.ratioTo t)) :
    (l.zoomed t).editLabel k g s = Attempt.zoomed (l.editLabel k f s) t := by
  unfold editLabel
  rw [labels_zoomed, SlotTable.get?_map]
  cases l.labels.get? k with
  | none => rfl
  | some label =>
    dsimp only [Option.map_some]
    rw [h, ← SlotTable.map_set]
    exact clampLabel_zoomed ({ l with labels := l.labels.set k (f label) } : Layout Rat) t s k

theorem moveLabel_zoomed (k : Key) (dx dy : Rat) :
    (l.zoomed t).moveLabel k (dx * l.zoom.ratioTo t) (dy * l.zoom.ratioTo t) s =
      Attempt.zoomed (l.moveLabel k dx dy s) t :=
  l.editLabel_zoomed t s k fun label => label.translate_rescale _ dx dy

theorem setLabelText_zoomed (k : Key) (text : String) :
    (l.zoomed t).setLabelText k text s = Attempt.zoomed (l.setLabelText k text s) t :=
  l.editLabel_zoomed t s k fun _ => rfl

theorem removeLabel_zoomed (k : Key) :
    (l.zoomed t).removeLabel k = Attempt.zoomed (l.removeLabel k) t := by
  unfold removeLabel
  rw [labels_zoomed, SlotTable.get?_map]
  cases l.labels.get? k with
  | none => rfl
  | some label =>
    dsimp only [Option.map_some]
    rw [← SlotTable.map_erase]
    rfl

end Labels

section Contours

/-- A contour comes in at a stretched position, or in the middle of the tray. -/
theorem placeContour_zoomed (itemId : String) (position : Option (Point Rat)) :
    (l.zoomed t).placeContour catalog itemId (position.map (·.rescale (l.zoom.ratioTo t))) =
      Attempt.zoomed (l.placeContour catalog itemId position) t := by
  unfold placeContour
  cases catalog.find? itemId with
  | none => rfl
  | some item =>
    dsimp only
    set size := item.footprint item.scaleOverride
    rw [tray_zoomed, zoom_zoomed, l.tray.middle_zoom l.zoom t, Option.getD_map, placements_zoomed,
      Placements.place_rescale]
    rfl

/-- A contour is moved by as much as its positions show, and its labels by the same. -/
theorem moveContour_zoomed (id : Nat) (dx dy : Rat) :
    (l.zoomed t).moveContour id (dx * l.zoom.ratioTo t) (dy * l.zoom.ratioTo t) s =
      Attempt.zoomed (l.moveContour id dx dy s) t := by
  unfold moveContour
  rw [placements_zoomed, Placements.find?_rescale]
  cases l.placements.find? id with
  | none => rfl
  | some c =>
    dsimp only [Option.map_some]
    set d := (c.translate dx dy).lastDelta with hd
    have hdelta : ((c.rescale (l.zoom.ratioTo t)).translate (dx * l.zoom.ratioTo t)
        (dy * l.zoom.ratioTo t)).lastDelta = (d.1 * l.zoom.ratioTo t, d.2 * l.zoom.ratioTo t) := by
      rw [Contour.translate_rescale, Contour.lastDelta_rescale]
    have hlabels : ((l.zoomed t).labels.map fun _ label =>
        if label.owner = id then
          label.translate (d.1 * l.zoom.ratioTo t) (d.2 * l.zoom.ratioTo t)
        else label) =
        (l.labels.map fun _ label =>
          if label.owner = id then label.translate d.1 d.2 else label).map fun _ label =>
            label.rescale (l.zoom.ratioTo t) := by
      rw [labels_zoomed, SlotTable.map_map, SlotTable.map_map]
      apply SlotTable.map_congr
      intro k label _
      rw [Label.owner_rescale]
      split
      · exact label.translate_rescale _ _ _
      · rfl
    rw [hdelta, hlabels, Placements.update_rescale (f := (·.translate dx dy)) (h := fun c =>
      c.translate_rescale _ dx dy)]
    exact clampLabelsOf_zoomed
      ({ l with
        placements := l.placements.update id (·.translate dx dy)
        labels := l.labels.map fun _ label =>
          if label.owner = id then label.translate d.1 d.2 else label } : Layout Rat) t s id

theorem turnContour_zoomed (id : Nat) (rotation : Rotation) :
    (l.zoomed t).turnContour id rotation s =
      Attempt.zoomed (l.turnContour id rotation s) t := by
  unfold turnContour
  rw [placements_zoomed, zoom_zoomed,
    Placements.update_rescale (f := (·.rotateTo rotation l.zoom)) (h := fun c =>
      c.rotateTo_rescale l.zoom t rotation)]
  exact clampLabelsOf_zoomed
    ({ l with placements := l.placements.update id (·.rotateTo rotation l.zoom) } : Layout Rat)
    t s id

theorem rotateContour_zoomed (id : Nat) (angle : Rat) :
    (l.zoomed t).rotateContour id angle s =
      Attempt.zoomed (l.rotateContour id angle s) t := by
  unfold rotateContour
  rw [placements_zoomed, Placements.find?_rescale]
  cases l.placements.find? id with
  | none => rfl
  | some c =>
    dsimp only [Option.map_some]
    cases (Rotation.ofDegrees? angle).filter (· ∈ s.allowedRotations) with
    | none => rfl
    | some rotation =>
      dsimp only
      rw [turnContour_zoomed]
      exact Attempt.andThen_zoomed _ fun _ _ => rfl

theorem rotateContourStep_zoomed (id : Nat) :
    (l.zoomed t).rotateContourStep id s = Attempt.zoomed (l.rotateContourStep id s) t := by
  unfold rotateContourStep
  rw [placements_zoomed, Placements.find?_rescale]
  cases l.placements.find? id with
  | none => rfl
  | some c => exact l.turnContour_zoomed t s id _

theorem snapContour_zoomed (id : Nat) (angle : Rat) :
    (l.zoomed t).snapContour id angle s = Attempt.zoomed (l.snapContour id angle s) t := by
  unfold snapContour
  rw [placements_zoomed, Placements.find?_rescale]
  cases l.placements.find? id with
  | none => rfl
  | some c => exact l.turnContour_zoomed t s id _

theorem removeContour_zoomed (id : Nat) :
    (l.zoomed t).removeContour id = Attempt.zoomed (l.removeContour id) t := by
  unfold removeContour
  rw [labelKeys_zoomed, placements_zoomed, Placements.find?_rescale]
  cases l.placements.find? id with
  | none => rfl
  | some c =>
    dsimp only [Option.map_some]
    rw [Placements.erase_rescale, labels_zoomed, ← SlotTable.map_foldl_erase]
    rfl

end Contours

section Primitives

/-- A primitive comes in with its size in millimetres, at a stretched position or in the middle of
    the tray. -/
theorem addPrimitive_zoomed (shape : PrimitiveShape Rat) (position : Option (Point Rat)) :
    (l.zoomed t).addPrimitive shape (position.map (·.rescale (l.zoom.ratioTo t))) s =
      ((l.addPrimitive shape position s).1, (l.addPrimitive shape position s).2.zoomed t) := by
  have hinsert : ∀ position : Point Rat,
      (l.zoomed t).insertPrimitive shape (position.rescale (l.zoom.ratioTo t)) s =
        (l.insertPrimitive shape position s).zoomed t := by
    intro position
    unfold insertPrimitive
    dsimp only
    rw [primitives_zoomed, zoom_zoomed, ← PrimitiveShape.scaled_ratioTo l.zoom t]
    unfold zoomed
    dsimp only
    rw [SlotTable.map_insert]
    rfl
  unfold addPrimitive
  rw [primitives_zoomed, SlotTable.nextKey_map, tray_zoomed, zoom_zoomed]
  cases position with
  | some position => exact congrArg (Prod.mk _) (hinsert position)
  | none =>
    cases shape.clamped s.primitives with
    | rect w h =>
      dsimp only [Option.map_none, Option.getD_none]
      rw [l.tray.middle_zoom l.zoom t, hinsert]
    | circle radius =>
      dsimp only [Option.map_none, Option.getD_none]
      rw [l.tray.centroid_rect l.zoom t, hinsert]

theorem movePrimitive_zoomed (k : Key) (dx dy : Rat) :
    (l.zoomed t).movePrimitive k (dx * l.zoom.ratioTo t) (dy * l.zoom.ratioTo t) =
      Attempt.zoomed (l.movePrimitive k dx dy) t := by
  unfold movePrimitive
  rw [primitives_zoomed, SlotTable.get?_map]
  cases l.primitives.get? k with
  | none => rfl
  | some p =>
    dsimp only [Option.map_some]
    rw [Primitive.translate_rescale, ← SlotTable.map_set]
    rfl

theorem removePrimitive_zoomed (k : Key) :
    (l.zoomed t).removePrimitive k = Attempt.zoomed (l.removePrimitive k) t := by
  unfold removePrimitive
  rw [primitives_zoomed, SlotTable.get?_map]
  cases l.primitives.get? k with
  | none => rfl
  | some p =>
    dsimp only [Option.map_some]
    rw [← SlotTable.map_erase]
    rfl

end Primitives

end Layout

/-! ## Section 3: Commands -/

namespace Command

/-- A command with its positions, moves and wished sizes stretched. Sizes and offsets in
    millimetres, angles and texts are those of before. -/
def rescale {α : Type} [Scalar α] (c : Command α) (ratio : α) : Command α :=
  match c with
  | .place itemId position => .place itemId (position.map (·.rescale ratio))
  | .move target dx dy => .move target (dx * ratio) (dy * ratio)
  | .addPrimitive shape position => .addPrimitive shape (position.map (·.rescale ratio))
  | .resizePrimitive key size => .resizePrimitive key (size.scaled ratio)
  | .rotate id angle => .rotate id angle
  | .rotateStep id => .rotateStep id
  | .snap id angle => .snap id angle
  | .delete target => .delete target
  | .attachLabel owner text offset => .attachLabel owner text offset
  | .setLabelText key text => .setLabelText key text
  | .setZoom factor => .setZoom factor
  | .resizeTray width height => .resizeTray width height
  | .applyPreset name => .applyPreset name

/-- The command does the same at every zoom: it neither changes the zoom nor tells lengths apart
    by a tolerance in workspace units. -/
def FollowsZoom {α : Type} : Command α → Prop
  | .setZoom _ => False
  | .resizePrimitive _ _ => False
  | _ => True

theorem rescale_one (c : Command Rat) : c.rescale 1 = c := by
  have hposition : ∀ position : Option (Point Rat), position.map (·.rescale 1) = position := by
    intro position
    simp only [Point.rescale_one, Option.map_id']
  cases c <;> simp [rescale, hposition, PrimitiveShape.scaled_one]

end Command

namespace Layout

variable (l : Layout Rat) (t : Zoom Rat) (s : Settings Rat) (catalog : Catalog Rat)

theorem moveTarget_zoomed (target : Target) (dx dy : Rat) :
    (l.zoomed t).moveTarget target (dx * l.zoom.ratioTo t) (dy * l.zoom.ratioTo t) s =
      Attempt.zoomed (l.moveTarget target dx dy s) t := by
  cases target with
  | contour id => exact l.moveContour_zoomed t s id dx dy
  | primitive k => exact l.movePrimitive_zoomed t k dx dy
  | label k => exact l.moveLabel_zoomed t s k dx dy

theorem deleteTarget_zoomed (target : Target) :
    (l.zoomed t).deleteTarget target = Attempt.zoomed (l.deleteTarget target) t := by
  cases target with
  | contour id => exact l.removeContour_zoomed t id
  | primitive k => exact l.removePrimitive_zoomed t k
  | label k => exact l.removeLabel_zoomed t k

/-- The size of the tray is kept in millimetres. -/
theorem resizeTray_zoomed (width height : Rat) :
    (l.zoomed t).resizeTray width height s = (l.resizeTray width height s).zoomed t := rfl

theorem applyPreset_zoomed (name : String) :
    (l.zoomed t).applyPreset name s = Attempt.zoomed (l.applyPreset name s) t := by
  unfold applyPreset
  cases Tray.ofPreset? name s.tray with
  | none => rfl
  | some tray => rfl

/-- The stretched command on the stretched layout does what the command does on the layout. -/
theorem apply_zoomed {c : Command Rat} (h : c.FollowsZoom) :
    (l.zoomed t).apply (c.rescale (l.zoom.ratioTo t)) catalog s =
      Attempt.zoomed (l.apply c catalog s) t := by
  -- what a command answers is made from what its edit answers
  have hmap : ∀ {β : Type} {a b : Attempt Rat β} (f : β → CommandOutcome),
      a = Attempt.zoomed b t →
        Attempt.andThen a (fun b l => (.ok (f b), l)) =
          Attempt.zoomed (Attempt.andThen b fun b l => (.ok (f b), l)) t := by
    intro β a b f hab
    rw [hab]
    exact Attempt.andThen_zoomed _ fun _ _ => rfl
  unfold apply Command.rescale
  cases c with
  | place itemId position => exact hmap _ (l.placeContour_zoomed t catalog itemId position)
  | move target dx dy => exact hmap _ (l.moveTarget_zoomed t s target dx dy)
  | rotate id angle => exact hmap _ (l.rotateContour_zoomed t s id angle)
  | rotateStep id => exact hmap _ (l.rotateContourStep_zoomed t s id)
  | snap id angle => exact hmap _ (l.snapContour_zoomed t s id angle)
  | addPrimitive shape position =>
    dsimp only
    rw [addPrimitive_zoomed]
    rfl
  | resizePrimitive k size => exact h.elim
  | delete target => exact hmap _ (l.deleteTarget_zoomed t target)
  | attachLabel owner text offset => exact hmap _ (l.attachLabel_zoomed t s owner text offset)
  | setLabelText k text => exact hmap _ (l.setLabelText_zoomed t s k text)
  | setZoom factor => exact h.elim
  | resizeTray width height => exact congrArg (Prod.mk _) (l.resizeTray_zoomed t s width height)
  | applyPreset name => exact hmap _ (l.applyPreset_zoomed t s name)

theorem zoomed_self : l.zoomed l.zoom = l := by
  rw [← rescaleTo_eq]
  exact if_pos (beq_self_eq_true _)

/-- Such a command leaves the zoom as it is: that is the case of two equal zooms. -/
theorem zoom_apply {c : Command Rat} (h : c.FollowsZoom) :
    (l.apply c catalog s).2.zoom = l.zoom := by
  have hsame := l.apply_zoomed l.zoom s catalog h
  rw [zoomed_self, Zoom.ratioTo_self, Command.rescale_one] at hsame
  rw [hsame]
  rfl

/-! ## Section 4: Runs at many zooms -/

/-- A step of a run in which the zoom is changed now and then. -/
inductive Step where
  /-- An edit, with its lengths in millimetres. -/
  | edit (c : Command Rat)
  /-- The zoom is changed, or the change is refused. -/
  | zoom (factor : Rat)

/-- The edits of a run. -/
def edits (steps : List Step) : List (Command Rat) :=
  steps.filterMap fun
    | .edit c => some c
    | .zoom _ => none

/-- The answers to commands one after the other, and the layout that they leave behind. -/
def applyAll (l : Layout Rat) (catalog : Catalog Rat) (s : Settings Rat) :
    List (Command Rat) → List (Except (LayoutError Rat) CommandOutcome) × Layout Rat
  | [] => ([], l)
  | c :: rest =>
      let (answer, l) := l.apply c catalog s
      let (answers, l) := l.applyAll catalog s rest
      (answer :: answers, l)

/-- The answers to the edits of a run, each of them stretched to the zoom that it is made at, and
    the layout that the run leaves behind. -/
def play (l : Layout Rat) (catalog : Catalog Rat) (s : Settings Rat) :
    List Step → List (Except (LayoutError Rat) CommandOutcome) × Layout Rat
  | [] => ([], l)
  | .edit c :: rest =>
      let (answer, l) := l.apply (c.rescale (Zoom.unit.ratioTo l.zoom)) catalog s
      let (answers, l) := l.play catalog s rest
      (answer :: answers, l)
  | .zoom factor :: rest => (l.apply (.setZoom factor) catalog s).2.play catalog s rest

/-- A change of the zoom, accepted or refused, leaves the layout in millimetres as it is. -/
theorem zoomed_setZoom (factor : Rat) :
    (l.apply (.setZoom factor) catalog s).2.zoomed t = l.zoomed t := by
  have hzoom : (l.apply (.setZoom factor) catalog s).2 = (l.setZoom factor s).2 :=
    Attempt.andThen_snd _ _
  rw [hzoom]
  unfold setZoom
  cases Zoom.ofFactor? factor with
  | none => rfl
  | some z =>
    dsimp only
    split
    · dsimp only
      rw [rescaleTo_eq, zoomed_zoomed]
    · rfl

/-- Beside a run at many zooms the edits are made in millimetres. The layouts of the two runs are
    the same one at different zooms, and every answer is the same. -/
theorem play_eq (steps : List Step) (h : ∀ c ∈ edits steps, c.FollowsZoom) :
    (l.play catalog s steps).1 = ((l.zoomed .unit).applyAll catalog s (edits steps)).1 ∧
      (l.play catalog s steps).2.zoomed .unit =
        ((l.zoomed .unit).applyAll catalog s (edits steps)).2 := by
  induction steps generalizing l with
  | nil => exact ⟨rfl, rfl⟩
  | cons step rest ih =>
    cases step with
    | zoom factor =>
      have hrest := ih (l.apply (.setZoom factor) catalog s).2 h
      rw [zoomed_setZoom] at hrest
      exact hrest
    | edit c =>
      have hc : c.FollowsZoom := h c List.mem_cons_self
      set m := l.zoomed .unit with hm
      -- the layout in millimetres, zoomed back, is the one that the edit is made on
      have hback : m.zoomed l.zoom = l := by rw [hm, zoomed_zoomed, zoomed_self]
      have hedit : l.apply (c.rescale (Zoom.unit.ratioTo l.zoom)) catalog s =
          Attempt.zoomed (m.apply c catalog s) l.zoom := by
        have happly := m.apply_zoomed l.zoom s catalog hc
        rw [hback] at happly
        exact happly
      have hunit : (m.apply c catalog s).2.zoomed .unit = (m.apply c catalog s).2 := by
        have hzoom : (m.apply c catalog s).2.zoom = .unit := m.zoom_apply s catalog hc
        rw [← hzoom, zoomed_self]
      have hrest := ih ((m.apply c catalog s).2.zoomed l.zoom) fun c' hc' =>
        h c' (List.mem_cons_of_mem _ hc')
      rw [zoomed_zoomed, hunit] at hrest
      obtain ⟨hanswers, hlayout⟩ := hrest
      unfold play
      rw [hedit]
      exact ⟨congrArg (List.cons _) hanswers, hlayout⟩

/-! ## Section 5: The geometry in millimetres -/

end Layout

/-- The sides of a rectangle on the workspace as millimetres. -/
def Rect.toMillimetres (r : Rect Rat) (z : Zoom Rat) : Rect Rat :=
  ⟨z.toMillimetres r.xMin, z.toMillimetres r.yMin, z.toMillimetres r.xMax, z.toMillimetres r.yMax⟩

theorem Rect.toMillimetres_scale (r : Rect Rat) (z t : Zoom Rat) :
    (r.scale (z.ratioTo t)).toMillimetres t = r.toMillimetres z := by
  simp only [toMillimetres, scale, Zoom.toMillimetres_mul_ratioTo]

/-- Where everything is, in millimetres. -/
structure Geometry where
  /-- The tray. -/
  tray : Rect Rat
  /-- The contours by their numbers, with their orientations. -/
  contours : List (Nat × Rotation × Rect Rat)
  /-- The primitives by their keys. -/
  primitives : List (Key × PrimitiveKind × Rect Rat)
  /-- The labels by their keys. -/
  labels : List (Key × Rect Rat)

/-- The boxes of a layout, measured at its zoom. -/
def Layout.geometry (l : Layout Rat) (s : Settings Rat) : Geometry where
  tray := (l.tray.rect l.zoom).toMillimetres l.zoom
  contours := l.placements.contours.map fun c =>
    (c.id, c.rotation, (c.bounds l.zoom).toMillimetres l.zoom)
  primitives := l.primitives.entries.map fun (k, p) =>
    (k, p.shape.kind, p.bounds.toMillimetres l.zoom)
  labels := l.labels.entries.map fun (k, label) =>
    (k, (label.bounds s.labels l.zoom).toMillimetres l.zoom)

/-- Zooming moves nothing. -/
theorem Layout.geometry_zoomed (l : Layout Rat) (t : Zoom Rat) (s : Settings Rat) :
    (l.zoomed t).geometry s = l.geometry s := by
  unfold geometry
  simp only [tray_zoomed, zoom_zoomed, placements_zoomed, primitives_zoomed, labels_zoomed,
    Placements.rescale, SlotTable.entries_map, List.map_map, Function.comp_def,
    ← l.tray.rect_scale l.zoom t, Contour.bounds_rescale, Primitive.bounds_rescale,
    Contour.id_rescale, Contour.rotation_rescale, Primitive.kind_rescale, Label.bounds_rescale,
    Rect.toMillimetres_scale]

namespace Layout

/-- A command that neither changes the zoom nor resizes a primitive does the same at every zoom:
    on the stretched layout the stretched command gives the same answer, accepted or refused, and
    leaves the stretched layout behind. So a run of such commands with changes of the zoom at any
    points gives the answers of the same run in millimetres, and leaves the same layout in
    millimetres and every box in the same place. -/
theorem edits_follow_zoom (catalog : Catalog Rat) (s : Settings Rat) :
    (∀ (l : Layout Rat) (t : Zoom Rat) (c : Command Rat), c.FollowsZoom →
      (l.rescaleTo t).apply (c.rescale (l.zoom.ratioTo t)) catalog s =
        ((l.apply c catalog s).1, (l.apply c catalog s).2.rescaleTo t)) ∧
    ∀ (l : Layout Rat) (steps : List Step), (∀ c ∈ edits steps, c.FollowsZoom) →
      (l.play catalog s steps).1 = (l.millimetres.applyAll catalog s (edits steps)).1 ∧
      (l.play catalog s steps).2.millimetres =
        (l.millimetres.applyAll catalog s (edits steps)).2 ∧
      (l.play catalog s steps).2.geometry s =
        (l.millimetres.applyAll catalog s (edits steps)).2.geometry s := by
  constructor
  · intro l t c hc
    rw [rescaleTo_eq, rescaleTo_eq]
    exact l.apply_zoomed t s catalog hc
  · intro l steps hsteps
    obtain ⟨hanswers, hlayout⟩ := l.play_eq s catalog steps hsteps
    unfold millimetres
    rw [rescaleTo_eq, rescaleTo_eq, ← hlayout, geometry_zoomed]
    exact ⟨hanswers, rfl, rfl⟩

/-- The defaults, as rationals. -/
def exactSettings : Settings Rat where
  tray := ⟨565, 375, 100, 20, 8, .ofList [("SMALL", ⟨190, 375⟩)]⟩
  zoom := ⟨1, 1 / 2, 10, 1 / 10, 1 / 5⟩
  clearance := 6
  labels := ⟨5, (6, 0), none, 3 / 5, 29 / 25⟩
  primitives := ⟨8, 800, 8, 400, 4, 200⟩
  allowedRotations := Rotation.all
  raster := .standard
  pricing := ⟨6 / 5, 2500, 15, 3 / 2, 3, 6⟩
  autosaveDelay := 400

/-- A catalog of one wrench. -/
def exactCatalog : Catalog Rat :=
  .ofItems [{
    id := "wrench", article := "W-10", name := "Wrench", category := none, enabled := true
    cuttingLength := 0, scaleOverride := 1, drawing := "wrench.svg", preview := none
    silhouette := none, size := ⟨30, 10⟩ }] .empty

/-- A wrench is placed and gets a label at one zoom, and is turned at another. -/
def zoomingSteps : List Step :=
  [.zoom (5 / 2), .edit (.place "wrench" none), .edit (.attachLabel 0 "10 mm" none),
    .zoom (1 / 3), .zoom (7 / 10), .edit (.rotateStep 0), .edit (.move (.label ⟨1, 1⟩) 0 80)]

theorem followsZoom_zoomingSteps : ∀ c ∈ edits zoomingSteps, c.FollowsZoom := by
  simp [edits, zoomingSteps, Command.FollowsZoom]

/-- One of the changes of the zoom is refused, and the others leave everything where the edits in
    millimetres put it. A wrench that was never placed cannot be turned at any zoom. -/
theorem edits_follow_zoom_zoomingSteps :
    ((make (.default exactSettings.tray)).play exactCatalog exactSettings zoomingSteps).2.zoom.factor =
      7 / 10 ∧
    ((make (.default exactSettings.tray)).play exactCatalog exactSettings zoomingSteps).2.geometry
        exactSettings =
      ((make (.default exactSettings.tray)).millimetres.applyAll exactCatalog exactSettings
        (edits zoomingSteps)).2.geometry exactSettings ∧
    ∀ t, (((make (.default exactSettings.tray)).rescaleTo t).apply (.rotateStep 0) exactCatalog
      exactSettings).1 = .error (.unknownContour 0) := by
  refine ⟨by decide +kernel, ?_, fun t => ?_⟩
  · exact ((edits_follow_zoom exactCatalog exactSettings).2 _ _ followsZoom_zoomingSteps).2.2
  · exact congrArg Prod.fst ((edits_follow_zoom exactCatalog exactSettings).1
      (make (.default exactSettings.tray)) t (.rotateStep 0) trivial)

end Layout

end FoamTray
