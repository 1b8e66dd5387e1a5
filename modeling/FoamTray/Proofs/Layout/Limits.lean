import FoamTray.Proofs.Layout.Equivariance
import FoamTray.Proofs.Layout.Locality
import FoamTray.Proofs.Layout.RoundTrip
import FoamTray.Proofs.Settings
import FoamTray.Session.Run

/-! # Limits

    Settings limit the zoom, the sides of the tray and the sizes of primitives. The limits are
    millimetres, while primitives are kept in workspace units and come in at several doors: as new
    ones, resized at some zoom, and from documents that were written with other limits.

    * `PrimitiveShape.Within` : a shape in millimetres within the limits.
    * `Layout.Sized`, `Layout.Limited` : what the settings ask of a layout, without the zoom and
      with it. A check works at unit zoom, which may be out of bounds, so only the first is kept
      all the way.
    * `sized_apply`, `limited_act` : one command, one action.
    * `limits_hold` : the limits hold in all sessions, and zooming is never refused.
-/

namespace FoamTray

/-! ## Section 1: Values that are moved into bounds -/

theorem Scalar.clamp_mem {low high : Rat} (h : low ≤ high) (value : Rat) :
    low ≤ clamp value low high ∧ clamp value low high ≤ high := by
  unfold clamp
  rw [min_eq, max_eq]
  constructor
  · exact le_min (le_max_right value low) h
  · exact min_le_right _ _

namespace PrimitiveShape

/-- A shape in millimetres within the limits. -/
def Within (limits : PrimitiveLimits Rat) : PrimitiveShape Rat → Prop
  | .rect w h => (limits.rectMinWidth ≤ w ∧ w ≤ limits.rectMaxWidth) ∧
      limits.rectMinHeight ≤ h ∧ h ≤ limits.rectMaxHeight
  | .circle r => limits.circleMinRadius ≤ r ∧ r ≤ limits.circleMaxRadius

theorem within_clamped {s : Settings Rat} (hs : s.Sound) (shape : PrimitiveShape Rat) :
    (shape.clamped s.primitives).Within s.primitives := by
  cases shape with
  | rect w h => exact ⟨Scalar.clamp_mem hs.rectWidth.2 w, Scalar.clamp_mem hs.rectHeight.2 h⟩
  | circle r => exact Scalar.clamp_mem hs.circleRadius.2 r

/-- A shape in millimetres that is put on the workspace is measured as it was. -/
theorem toMillimetres_scaled (shape : PrimitiveShape Rat) (z : Zoom Rat) :
    (shape.scaled z.factor).mapLengths z.toMillimetres = shape := by
  have hback : ∀ length : Rat, z.toMillimetres (length * z.factor) = length :=
    fun length => mul_div_cancel_right₀ length z.zero_lt_factor.ne'
  cases shape <;> simp only [scaled, mapLengths, hback]

/-- A shape that is stretched with the workspace is measured as before. -/
theorem toMillimetres_stretched (shape : PrimitiveShape Rat) (z t : Zoom Rat) :
    (shape.scaled (z.ratioTo t)).mapLengths t.toMillimetres =
      shape.mapLengths z.toMillimetres := by
  cases shape <;> simp only [scaled, mapLengths, Zoom.toMillimetres_mul_ratioTo]

end PrimitiveShape

/-! ## Section 2: Trays and primitives -/

/-- Whether a command is about primitives, the tray or the zoom. -/
def Command.measures {α : Type} : Command α → Bool
  | .addPrimitive _ _ | .resizePrimitive _ _ | .move (.primitive _) _ _ | .delete (.primitive _)
  | .setZoom _ | .resizeTray _ _ | .applyPreset _ => true
  | _ => false

namespace Layout

variable {l l' : Layout Rat} {s : Settings Rat} {catalog : Catalog Rat}

/-- The sides of the tray and the sizes of the primitives are within the limits. -/
structure Sized (s : Settings Rat) (l : Layout Rat) : Prop where
  tray : s.tray.minSize ≤ l.tray.width ∧ s.tray.minSize ≤ l.tray.height
  primitives : ∀ p ∈ l.primitives.values,
    (p.shape.mapLengths l.zoom.toMillimetres).Within s.primitives

theorem minSize_le_make (width height : Rat) (s : TraySettings Rat) :
    s.minSize ≤ (Tray.make width height s).width ∧
      s.minSize ≤ (Tray.make width height s).height := by
  unfold Tray.make
  dsimp only
  rw [Scalar.max_eq, Scalar.max_eq]
  exact ⟨le_max_right _ _, le_max_right _ _⟩

/-- Primitives that have the shape of an old one, or a clamped one in millimetres put on the
    workspace, are within the limits. -/
theorem Sized.of_primitives (h : l.Sized s) (hs : s.Sound) (hzoom : l'.zoom = l.zoom)
    (htray : l'.tray = l.tray)
    (hprimitives : ∀ p' ∈ l'.primitives.values, (∃ p ∈ l.primitives.values, p'.shape = p.shape) ∨
      ∃ wish : PrimitiveShape Rat, p'.shape = (wish.clamped s.primitives).scaled l.zoom.factor) :
    l'.Sized s where
  tray := htray ▸ h.tray
  primitives := by
    intro p' hp'
    rw [hzoom]
    rcases hprimitives p' hp' with ⟨p, hp, hshape⟩ | ⟨wish, hshape⟩
    · rw [hshape]
      exact h.primitives p hp
    · rw [hshape, PrimitiveShape.toMillimetres_scaled]
      exact PrimitiveShape.within_clamped hs wish

theorem Sized.congr (h : l.Sized s) (hzoom : l'.zoom = l.zoom) (htray : l'.tray = l.tray)
    (hprimitives : l'.primitives = l.primitives) : l'.Sized s where
  tray := htray ▸ h.tray
  primitives := by
    rw [hzoom, hprimitives]
    exact h.primitives

/-- Stretching changes no size in millimetres. -/
theorem Sized.rescaleTo (h : l.Sized s) (z : Zoom Rat) : (l.rescaleTo z).Sized s := by
  rw [rescaleTo_eq]
  refine ⟨h.tray, ?_⟩
  intro p' hp'
  rw [primitives_zoomed, SlotTable.values_map] at hp'
  obtain ⟨p, hp, rfl⟩ := List.mem_map.mp hp'
  show ((p.shape.scaled _).mapLengths z.toMillimetres).Within s.primitives
  rw [PrimitiveShape.toMillimetres_stretched]
  exact h.primitives p hp

theorem Sized.highlight (h : l.Sized s) (r : Report) : (l.highlight r).Sized s := by
  refine ⟨h.tray, ?_⟩
  intro p' hp'
  obtain ⟨k, hk⟩ := SlotTable.mem_values.mp hp'
  unfold Layout.highlight at hk
  dsimp only at hk
  rw [SlotTable.get?_map] at hk
  obtain ⟨p, hp, rfl⟩ := Option.map_eq_some_iff.mp hk
  exact h.primitives p (SlotTable.mem_values.mpr ⟨k, hp⟩)

theorem Sized.check (h : l.Sized s) (rasterizer : Rasterizer Rat) :
    (l.check rasterizer s).2.Sized s := by
  show (((l.rescaleTo .unit).validate rasterizer s).2.rescaleTo l.zoom).Sized s
  apply Sized.rescaleTo
  rcases (l.rescaleTo .unit).validate_snd_cases rasterizer s with he | ⟨r, he⟩ <;> rw [he]
  · exact h.rescaleTo .unit
  · exact (h.rescaleTo .unit).highlight r

/-- A document is moved into the limits, wherever it comes from. -/
theorem Sized.restore (h : l.Sized s) (hs : s.Sound) (doc : Workspace Rat)
    (catalog : Catalog Rat) : (l.restore doc catalog s).2.Sized s := by
  by_cases hv : doc.schemaVersion = schemaVersion
  · rw [restore_eq l hv]
    apply Sized.rescaleTo
    refine ⟨minSize_le_make _ _ s.tray, ?_⟩
    intro p hp
    unfold Workspace.layout Workspace.bare at hp
    dsimp only at hp
    rw [SlotTable.values_ofValues] at hp
    obtain ⟨record, -, rfl⟩ := List.mem_map.mp hp
    show (PrimitiveShape.mapLengths (l.rescaleTo .unit).zoom.toMillimetres _).Within _
    cases record <;>
      · dsimp only [PrimitiveRecord.restored]
        rw [PrimitiveShape.toMillimetres_scaled]
        exact PrimitiveShape.within_clamped hs _
  · rw [restore_of_ne l hv]
    exact h

/-! ## Section 3: Commands -/

theorem sized_movePrimitive (h : l.Sized s) (hs : s.Sound) (k : Key) (dx dy : Rat) :
    (l.movePrimitive k dx dy).2.Sized s := by
  unfold movePrimitive
  cases hk : l.primitives.get? k with
  | none => exact h
  | some p =>
    refine h.of_primitives hs rfl rfl fun p' hp' => .inl ?_
    rcases SlotTable.mem_values_of_get? (SlotTable.get?_set hk _) hp' with hmoved | hold
    · rw [← Option.some.inj hmoved]
      exact ⟨p, SlotTable.mem_values.mpr ⟨k, hk⟩, rfl⟩
    · exact ⟨p', hold, rfl⟩

/-- A wish in workspace units is moved into the limits in millimetres. -/
theorem sized_resizePrimitive (h : l.Sized s) (hs : s.Sound) (k : Key)
    (wish : PrimitiveShape Rat) : (l.resizePrimitive k wish s).2.Sized s := by
  unfold resizePrimitive
  cases hk : l.primitives.get? k with
  | none => exact h
  | some p =>
    dsimp only
    split
    · exact h
    · split
      · exact h
      · refine h.of_primitives hs rfl rfl fun p' hp' => ?_
        rcases SlotTable.mem_values_of_get? (SlotTable.get?_set hk _) hp' with hresized | hold
        · rw [← Option.some.inj hresized]
          exact .inr ⟨_, rfl⟩
        · exact .inl ⟨p', hold, rfl⟩

theorem sized_addPrimitive (h : l.Sized s) (hs : s.Sound) (hl : l.Consistent)
    (shape : PrimitiveShape Rat) (position : Option (Point Rat)) :
    (l.addPrimitive shape position s).2.Sized s := by
  refine h.of_primitives hs rfl rfl fun p' hp' => ?_
  rcases SlotTable.mem_values_of_get? (hl.valid_primitives.get?_insert _) hp' with hadded | hold
  · rw [← Option.some.inj hadded]
    exact .inr ⟨_, rfl⟩
  · exact .inl ⟨p', hold, rfl⟩

theorem sized_removePrimitive (h : l.Sized s) (hs : s.Sound) (k : Key) :
    (l.removePrimitive k).2.Sized s := by
  unfold removePrimitive
  cases hk : l.primitives.get? k with
  | none => exact h
  | some p =>
    refine h.of_primitives hs rfl rfl fun p' hp' => .inl ?_
    rcases SlotTable.mem_values_of_get? (l.primitives.get?_erase k) hp' with hnone | hold
    · cases hnone
    · exact ⟨p', hold, rfl⟩

theorem Sized.resizeTray (h : l.Sized s) (width height : Rat) :
    (l.resizeTray width height s).Sized s :=
  ⟨minSize_le_make width height s.tray, h.primitives⟩

theorem sized_applyPreset (h : l.Sized s) (name : String) : (l.applyPreset name s).2.Sized s := by
  unfold applyPreset
  cases Tray.ofPreset? name s.tray with
  | none => exact h
  | some tray => exact h.resizeTray tray.width tray.height

theorem sized_setZoom (h : l.Sized s) (factor : Rat) : (l.setZoom factor s).2.Sized s := by
  unfold setZoom
  cases Zoom.ofFactor? factor with
  | none => exact h
  | some z =>
    dsimp only
    split
    · exact h.rescaleTo z
    · exact h

/-- Commands about contours and labels leave the tray, the zoom and all primitives alone. -/
theorem Sized.effect (h : l.Sized s) {cmd : Command Rat} {created : Option Target}
    (heffect : cmd.Effect l created l') (hcmd : cmd.measures = false) : l'.Sized s := by
  cases cmd with
  | place name position =>
    obtain ⟨c, item, -, -, rfl⟩ := heffect
    exact h.congr rfl rfl rfl
  | move t dx dy =>
    cases t with
    | contour id =>
      obtain ⟨-, -, edit, place, -, rfl⟩ := heffect
      exact h.congr rfl rfl rfl
    | primitive k => cases hcmd
    | label k =>
      obtain ⟨-, old, new, -, -, rfl⟩ := heffect
      exact h.congr rfl rfl rfl
  | delete t =>
    cases t with
    | contour id =>
      obtain ⟨-, -, labels, -, rfl⟩ := heffect
      exact h.congr rfl rfl rfl
    | primitive k => cases hcmd
    | label k =>
      obtain ⟨-, -, labels, -, rfl⟩ := heffect
      exact h.congr rfl rfl rfl
  | rotate id angle =>
    obtain ⟨-, -, edit, place, -, rfl⟩ := heffect
    exact h.congr rfl rfl rfl
  | rotateStep id =>
    obtain ⟨-, -, edit, place, -, rfl⟩ := heffect
    exact h.congr rfl rfl rfl
  | snap id angle =>
    obtain ⟨-, -, edit, place, -, rfl⟩ := heffect
    exact h.congr rfl rfl rfl
  | attachLabel owner text offset =>
    obtain ⟨k, label, labels, -, -, -, rfl⟩ := heffect
    exact h.congr rfl rfl rfl
  | setLabelText k text =>
    obtain ⟨-, old, new, -, -, rfl⟩ := heffect
    exact h.congr rfl rfl rfl
  | addPrimitive shape position => cases hcmd
  | resizePrimitive k size => cases hcmd
  | setZoom factor => cases hcmd
  | resizeTray width height => cases hcmd
  | applyPreset name => cases hcmd

/-- No command leads out of the limits. -/
theorem sized_apply (h : l.Sized s) (hs : s.Sound) (hl : l.Consistent) (cmd : Command Rat)
    (catalog : Catalog Rat) : (l.apply cmd catalog s).2.Sized s := by
  cases hcmd : cmd.measures with
  | true =>
    unfold apply
    cases cmd with
    | addPrimitive shape position => exact sized_addPrimitive h hs hl shape position
    | resizePrimitive k size =>
      rw [Attempt.andThen_snd]
      exact sized_resizePrimitive h hs k size
    | setZoom factor =>
      rw [Attempt.andThen_snd]
      exact sized_setZoom h factor
    | resizeTray width height => exact h.resizeTray width height
    | applyPreset name =>
      rw [Attempt.andThen_snd]
      exact sized_applyPreset h name
    | move t dx dy =>
      rw [Attempt.andThen_snd]
      cases t with
      | primitive k => exact sized_movePrimitive h hs k dx dy
      | contour id => cases hcmd
      | label k => cases hcmd
    | delete t =>
      rw [Attempt.andThen_snd]
      cases t with
      | primitive k => exact sized_removePrimitive h hs k
      | contour id => cases hcmd
      | label k => cases hcmd
    | _ => cases hcmd
  | false =>
    cases happly : l.apply cmd catalog s with
    | mk result after =>
      cases result with
      | error e =>
        have heq : after = l := (atomic_apply hl cmd catalog s).eq_of_error happly
        rw [heq]
        exact h
      | ok outcome => exact h.effect (effect_apply hl happly) hcmd

/-! ## Section 4: The zoom -/

/-- A factor within the bounds can be set. -/
theorem setZoom_of_mem (l : Layout Rat) (hs : s.Sound) {factor : Rat}
    (hfactor : s.zoom.min ≤ factor ∧ factor ≤ s.zoom.max) :
    ∃ z : Zoom Rat, z.factor = factor ∧ l.setZoom factor s = (.ok (), l.rescaleTo z) := by
  have hpos : (Scalar.isFinite factor && decide (((0 : Nat) : Rat) < factor)) = true :=
    decide_eq_true (lt_of_lt_of_le hs.zoom.1.1 hfactor.1)
  refine ⟨⟨factor, hpos⟩, rfl, ?_⟩
  unfold setZoom Zoom.ofFactor?
  rw [dif_pos hpos]
  dsimp only
  rw [if_pos hfactor]

/-- All limits hold: those of the sizes and those of the zoom. -/
structure Limited (s : Settings Rat) (l : Layout Rat) : Prop extends Sized s l where
  zoom : s.zoom.min ≤ l.zoom.factor ∧ l.zoom.factor ≤ s.zoom.max

/-- A change of the zoom is made within the bounds, or refused. -/
theorem Limited.setZoom (h : l.Limited s) (factor : Rat) : (l.setZoom factor s).2.Limited s := by
  refine ⟨sized_setZoom h.toSized factor, ?_⟩
  unfold Layout.setZoom
  cases hz : Zoom.ofFactor? factor with
  | none => exact h.zoom
  | some z =>
    have hfactor : z.factor = factor := by
      unfold Zoom.ofFactor? at hz
      split at hz
      · rw [← Option.some.inj hz]
      · cases hz
    dsimp only
    split
    · rename_i hbounds
      rw [rescaleTo_eq, zoom_zoomed, hfactor]
      exact hbounds
    · exact h.zoom

theorem Limited.apply (h : l.Limited s) (hs : s.Sound) (hl : l.Consistent) (cmd : Command Rat)
    (catalog : Catalog Rat) : (l.apply cmd catalog s).2.Limited s := by
  by_cases hzoom : ∃ factor, cmd = .setZoom factor
  · obtain ⟨factor, rfl⟩ := hzoom
    unfold Layout.apply
    rw [Attempt.andThen_snd]
    exact h.setZoom factor
  · refine ⟨sized_apply h.toSized hs hl cmd catalog, ?_⟩
    rw [(resettles_apply hl (fun factor he => hzoom ⟨factor, he⟩) catalog s).zoom]
    exact h.zoom

theorem Limited.check (h : l.Limited s) (rasterizer : Rasterizer Rat) :
    (l.check rasterizer s).2.Limited s := by
  refine ⟨h.toSized.check rasterizer, ?_⟩
  show s.zoom.min ≤ (((l.rescaleTo .unit).validate rasterizer s).2.rescaleTo l.zoom).zoom.factor ∧
    (((l.rescaleTo .unit).validate rasterizer s).2.rescaleTo l.zoom).zoom.factor ≤ s.zoom.max
  rw [rescaleTo_eq _ l.zoom, zoom_zoomed]
  exact h.zoom

theorem Limited.restore (h : l.Limited s) (hs : s.Sound) (doc : Workspace Rat)
    (catalog : Catalog Rat) : (l.restore doc catalog s).2.Limited s := by
  refine ⟨h.toSized.restore hs doc catalog, ?_⟩
  by_cases hv : doc.schemaVersion = schemaVersion
  · rw [restore_eq l hv, rescaleTo_eq _ l.zoom, zoom_zoomed]
    exact h.zoom
  · rw [restore_of_ne l hv]
    exact h.zoom

end Layout

/-! ## Section 5: Sessions -/

namespace Session

variable {catalog : Catalog Rat} {s : Settings Rat} {rasterizer : Rasterizer Rat} {x : Session Rat}

/-- A new session has an empty tray of at least the least size, at the default zoom. -/
theorem limited_make (hs : s.Sound) (catalog : Catalog Rat) :
    (make catalog s).layout.Limited s := by
  have hsized : (Layout.make (.default s.tray)).Sized s :=
    ⟨Layout.minSize_le_make _ _ s.tray, fun p hp => absurd hp List.not_mem_nil⟩
  obtain ⟨z, hz, hset⟩ := (Layout.make (.default s.tray)).setZoom_of_mem hs
    ⟨hs.zoom.1.2, hs.zoom.2⟩
  have hlayout : (make catalog s).layout = (Layout.make (.default s.tray)).rescaleTo z :=
    congrArg Prod.snd hset
  rw [hlayout]
  refine ⟨hsized.rescaleTo z, ?_⟩
  rw [Layout.rescaleTo_eq, Layout.zoom_zoomed, hz]
  exact ⟨hs.zoom.1.2, hs.zoom.2⟩

/-- No action leads out of the limits. -/
theorem limited_act (hs : x.settings.Sound) (hl : x.layout.Consistent)
    (h : x.layout.Limited x.settings) (rasterizer : Rasterizer Rat) (a : Action Rat) :
    (x.act rasterizer a).layout.Limited x.settings := by
  cases a with
  | submit c now =>
    unfold act
    dsimp only
    rw [layout_submit]
    exact h.apply hs hl c x.catalog
  | poll now => exact h
  | save => exact h
  | restore doc =>
    unfold act
    dsimp only
    rw [layout_restore]
    exact h.restore hs doc x.catalog
  | zoom steps coarse =>
    unfold act
    dsimp only
    rw [layout_zoom]
    exact h.setZoom _
  | check => exact h.check rasterizer
  | order =>
    show (x.layout.exportWith rasterizer x.settings fun _ => ()).2.Limited x.settings
    rw [Layout.exportWith_snd]
    exact h.check rasterizer

theorem limited_reachable (hs : s.Sound) (h : Reachable catalog s rasterizer x) :
    x.layout.Limited s := by
  induction h with
  | make => exact limited_make hs catalog
  | @act x a hx ih =>
    have hstep := limited_act (by rw [hx.settings_eq]; exact hs) hx.attainable.consistent
      (by rw [hx.settings_eq]; exact ih) rasterizer a
    rw [hx.settings_eq] at hstep
    exact hstep

/-- In every session with accepted settings, whatever was edited, restored, checked and ordered at
    whatever zoom: the zoom is within its bounds, the sides of the tray are at least the least
    size, and every primitive measured in millimetres is within the limits of its kind. So zooming
    is never refused, by however many steps, and leads to the target. -/
theorem limits_hold (hs : s.Accepted) (h : Reachable catalog s rasterizer x) :
    (s.zoom.min ≤ x.layout.zoom.factor ∧ x.layout.zoom.factor ≤ s.zoom.max) ∧
    (s.tray.minSize ≤ x.layout.tray.width ∧ s.tray.minSize ≤ x.layout.tray.height) ∧
    (∀ p ∈ x.layout.primitives.values,
      (p.shape.mapLengths x.layout.zoom.toMillimetres).Within s.primitives) ∧
    ∀ steps coarse, ∃ z, (x.zoom steps coarse).1 = .ok z ∧
      z.factor = x.zoomTarget steps coarse := by
  have hsound := Settings.accepted_iff.mp hs
  have hlimited := limited_reachable hsound h
  refine ⟨hlimited.zoom, hlimited.tray, hlimited.primitives, ?_⟩
  intro steps coarse
  have hbounds : s.zoom.min ≤ s.zoom.max := le_trans hsound.zoom.1.2 hsound.zoom.2
  have htarget : s.zoom.min ≤ x.zoomTarget steps coarse ∧
      x.zoomTarget steps coarse ≤ s.zoom.max := by
    unfold zoomTarget
    rw [h.settings_eq]
    exact Scalar.clamp_mem hbounds _
  obtain ⟨z, hz, hset⟩ := x.layout.setZoom_of_mem hsound htarget
  refine ⟨z, ?_, hz⟩
  unfold zoom
  rw [h.settings_eq, hset]
  show Except.ok (x.layout.rescaleTo z).zoom = Except.ok z
  rw [Layout.rescaleTo_eq, Layout.zoom_zoomed]

/-- A pocket that is too small, the tray made too narrow, and the zoom turned down to the end and
    up again, with a check in between. -/
def narrowTray : Session Rat :=
  (make Layout.exactCatalog Layout.exactSettings).run (fun _ => none)
    [.zoom 3 true, .submit (.addPrimitive (.circle 1) none) 0,
      .submit (.resizeTray 20 900) 1, .zoom (-400) true, .check, .zoom 1 false]

theorem limits_hold_narrowTray :
    Layout.exactSettings.Accepted ∧ narrowTray.layout.zoom.factor = 3 / 5 ∧
      narrowTray.layout.tray.width = 100 ∧
      narrowTray.layout.primitives.values.map
        (·.shape.mapLengths narrowTray.layout.zoom.toMillimetres) = [.circle 4] ∧
      (∀ p ∈ narrowTray.layout.primitives.values,
        (p.shape.mapLengths narrowTray.layout.zoom.toMillimetres).Within
          Layout.exactSettings.primitives) ∧
      ∃ z, (narrowTray.zoom 1000 true).1 = .ok z := by
  have haccepted : Layout.exactSettings.Accepted := by
    unfold Settings.Accepted
    decide +kernel
  have hreachable : Reachable Layout.exactCatalog Layout.exactSettings (fun _ => none)
      narrowTray := Reachable.make.run _
  obtain ⟨-, -, hprimitives, hzoom⟩ := limits_hold haccepted hreachable
  obtain ⟨z, hz, -⟩ := hzoom 1000 true
  exact ⟨haccepted, by decide +kernel, by decide +kernel, by decide +kernel, hprimitives, z, hz⟩

end Session

end FoamTray
