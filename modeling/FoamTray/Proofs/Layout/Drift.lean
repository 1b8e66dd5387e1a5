import FoamTray.Proofs.Layout.History
import FoamTray.Proofs.Layout.Lengths

/-! # Drift

    Zooming multiplies all positions and sizes by a rounded ratio, so what they stand for drifts,
    by no more than a share of `2 ^ -22` at a time. Saving rounds to whole millimetres, and hides
    the drift unless a length is close to the middle between two of them. There it does not: a
    pocket half a millimetre off is saved at another place after a single change of the zoom
    (`halfPocket_moves`).

    * `drift` : how far lengths are moved by so many changes of the zoom.
    * `Layout.DriftsTo` : what so many changes of the zoom make of a layout, with any marks.
    * `DriftsTo.zoomed`, `DriftsTo.marked` : one step.
    * `apply_idle` : commands that do not ask for a save change the zoom or nothing.
    * `idle_run_keeps_saved` : over a run of steps that do not ask for a save, a layout whose
      lengths are clear of the halves by the drift is saved as the same document.
-/

namespace FoamTray

/-! ## Section 1: Marks -/

namespace Layout

section Marks

variable {α : Type} [Coordinate α]

/-- The layout without marks. -/
def unmarked (l : Layout α) : Layout α := l.highlight ⟨[], [], [], []⟩

/-- New marks replace old ones. -/
theorem unmarked_highlight (l : Layout α) (r : Report) : (l.highlight r).unmarked = l.unmarked := by
  unfold unmarked highlight
  dsimp only
  rw [List.map_map, SlotTable.map_map]
  rfl

theorem unmarked_stretched (l : Layout α) (f : α → α) (z : Zoom α) :
    (l.stretched f z).unmarked = l.unmarked.stretched f z := by
  unfold unmarked highlight stretched
  dsimp only
  rw [List.map_map, List.map_map, SlotTable.map_map, SlotTable.map_map]
  rfl

theorem save_unmarked (l : Layout α) : l.unmarked.save = l.save := save_highlight l _

end Marks

end Layout

/-! ## Section 2: Changes of the zoom -/

/-- How far so many changes of the zoom move lengths of no more than `bound` millimetres. -/
def drift (n : Nat) (bound : Rat) : Rat := n * ((bound + 1) / 2 ^ 22)

theorem drift_succ (n : Nat) (bound : Rat) :
    drift (n + 1) bound = drift n bound + (bound + 1) / 2 ^ 22 := by
  unfold drift
  push_cast
  ring

/-- Measuring a layout is worth two changes of the zoom. -/
theorem drift_add_two (n : Nat) (bound : Rat) :
    drift (n + 2) bound = drift n bound + (bound + 1) / 2 ^ 21 := by
  unfold drift
  push_cast
  ring

theorem drift_nonneg (n : Nat) {bound : Rat} (h : 0 ≤ bound) : 0 ≤ drift n bound := by
  unfold drift
  positivity

namespace Layout

variable {l m : Layout Single} {n : Nat} {bound : Rat}

/-- What up to `n` changes of the zoom make of a layout: unless they are very many, all lengths
    are where they were, up to the drift. -/
def DriftsTo (n : Nat) (bound : Rat) (l m : Layout Single) : Prop :=
  m.zoom.Moderate ∧ ∃ f : Single → Single, m.unmarked = (l.stretched f m.zoom).unmarked ∧
    ∀ x, drift (n + 2) bound < 1 / 2 → l.zoom.Spans bound x →
      (f x).isFinite = true ∧
        |m.zoom.millimetres (f x) - l.zoom.millimetres x| ≤ drift n bound

theorem DriftsTo.refl (bound : Rat) (h : l.zoom.Moderate) : l.DriftsTo 0 bound l := by
  refine ⟨h, id, by rw [stretched_id], ?_⟩
  intro x _ hx
  refine ⟨hx.1, ?_⟩
  simp [drift]

/-- A layout that drifted little has drifted no more. -/
theorem DriftsTo.succ (h : l.DriftsTo n bound m) : l.DriftsTo (n + 1) bound m := by
  obtain ⟨hm, f, hf, hdrift⟩ := h
  refine ⟨hm, f, hf, ?_⟩
  intro x hsmall hx
  have hbound := le_trans (abs_nonneg _) hx.2
  have hmore := drift_succ n bound
  have hmore' := drift_succ (n + 2) bound
  have hsmall' : drift (n + 2 + 1) bound < 1 / 2 := hsmall
  obtain ⟨hfinite, herror⟩ := hdrift x (by linarith) hx
  refine ⟨hfinite, ?_⟩
  linarith

/-- Marks do not move anything. -/
theorem DriftsTo.marked (h : l.DriftsTo n bound m) (r : Report) :
    l.DriftsTo n bound (m.highlight r) := by
  obtain ⟨hm, f, hf, hdrift⟩ := h
  refine ⟨hm, f, ?_, hdrift⟩
  rw [unmarked_highlight]
  exact hf

/-- A change of the zoom adds its share. -/
theorem DriftsTo.zoomed (h : l.DriftsTo n bound m) {z : Zoom Single} (hz : z.Moderate) :
    l.DriftsTo (n + 1) bound (m.rescaleTo z) := by
  by_cases heq : (z.factor == m.zoom.factor) = true
  -- the zoom of before is no change
  · have hsame : m.rescaleTo z = m := if_pos heq
    rw [hsame]
    exact h.succ
  · rw [Bool.not_eq_true] at heq
    rw [rescaleTo_eq_stretched m heq]
    obtain ⟨hm, f, hf, hdrift⟩ := h
    refine ⟨hz, (· * m.zoom.ratioTo z) ∘ f, ?_, ?_⟩
    · rw [unmarked_stretched, hf, ← unmarked_stretched, stretched_stretched]
      rfl
    · intro x hsmall hx
      have hbound := le_trans (abs_nonneg _) hx.2
      have hmore := drift_succ n bound
      have hsmall' : drift (n + 1 + 2) bound < 1 / 2 := hsmall
      have htwo := drift_add_two (n + 1) bound
      have htwo' := drift_add_two n bound
      obtain ⟨hfinite, herror⟩ := hdrift x (by linarith) hx
      -- the length is still about as long as it was
      have hsize := abs_sub_abs_le_abs_sub (m.zoom.millimetres (f x)) (l.zoom.millimetres x)
      have hx' := hx.2
      have hlong : |m.zoom.millimetres (f x)| ≤ bound + 1 / 2 := by linarith
      have hnonneg := drift_nonneg n hbound
      obtain ⟨hfinite', herror'⟩ := Zoom.millimetres_stretched hm hz hfinite (by linarith)
      refine ⟨hfinite', ?_⟩
      have htriangle := abs_sub_le (z.millimetres (f x * m.zoom.ratioTo z))
        (m.zoom.millimetres (f x)) (l.zoom.millimetres x)
      show |z.millimetres (f x * m.zoom.ratioTo z) - l.zoom.millimetres x| ≤ _
      linarith

/-- A check stretches a layout to millimetres and back. -/
theorem DriftsTo.check (h : l.DriftsTo n bound m) (rasterizer : Rasterizer Single)
    (s : Settings Single) : l.DriftsTo (n + 2) bound (m.check rasterizer s).2 := by
  have hm := h.1
  have hmillimetres := h.zoomed Zoom.moderate_unit
  have hvalidated : l.DriftsTo (n + 1) bound
      ((m.rescaleTo .unit).validate rasterizer s).2 := by
    rcases (m.rescaleTo .unit).validate_snd_cases rasterizer s with he | ⟨r, he⟩
    · rw [he]
      exact hmillimetres
    · rw [he]
      exact hmillimetres.marked r
  exact hvalidated.zoomed hm

/-- A layout that drifted is saved as the same document if its lengths are clear of the halves by
    more than the drift and the error of measuring. -/
theorem DriftsTo.same_save (h : l.DriftsTo n bound m) (hl : l.Within bound)
    (hclear : l.ClearOfHalves (drift (n + 2) bound)) : l.save.same m.save = true := by
  obtain ⟨hm, f, hf, hdrift⟩ := h
  have hsaved : m.save = (l.stretched f m.zoom).save := by
    rw [← save_unmarked m, hf, save_unmarked]
  -- a position and a size are saved as the whole number next to their exact value, before and after
  have hposition : ∀ x, l.zoom.Spans bound x →
      ClearOfHalf (drift (n + 2) bound) (l.zoom.millimetres x - l.tray.offset.toRat) →
      (l.savedLength (x - l.zoom.toWorkspace l.tray.offset) ==
        (l.stretched f m.zoom).savedLength (f x - m.zoom.toWorkspace l.tray.offset)) = true := by
    intro x hx hx'
    obtain ⟨hfinite, herror⟩ := hdrift x hx'.margin_lt hx
    rw [drift_add_two] at hx'
    obtain ⟨h₁, h₁'⟩ := Zoom.rounded_position (z := l.zoom) hl.zoom hx.1 hl.offset.1 hl.offset.2
      hx.2 (by rw [sub_self, abs_zero]; exact le_trans (abs_nonneg _) herror) hx'
    obtain ⟨h₂, h₂'⟩ := Zoom.rounded_position hm hfinite hl.offset.1 hl.offset.2 hx.2 herror hx'
    exact (Single.beq_iff_toRat h₁ h₂).mpr (h₁'.trans h₂'.symm)
  have hlength : ∀ x, l.zoom.Spans bound x →
      ClearOfHalf (drift (n + 2) bound) (l.zoom.millimetres x) →
      (l.savedLength x == (l.stretched f m.zoom).savedLength (f x)) = true := by
    intro x hx hx'
    obtain ⟨hfinite, herror⟩ := hdrift x hx'.margin_lt hx
    rw [drift_add_two] at hx'
    obtain ⟨h₁, h₁'⟩ := Zoom.rounded_length (z := l.zoom) hx.1
      hx.2 (by rw [sub_self, abs_zero]; exact le_trans (abs_nonneg _) herror) hx'
    obtain ⟨h₂, h₂'⟩ := Zoom.rounded_length hfinite hx.2 herror hx'
    exact (Single.beq_iff_toRat h₁ h₂).mpr (h₁'.trans h₂'.symm)
  have hpoint : ∀ p : Point Single, p.Both (l.zoom.Spans bound) → p.Both (fun x =>
      ClearOfHalf (drift (n + 2) bound) (l.zoom.millimetres x - l.tray.offset.toRat)) →
      p.Both fun x =>
      (l.savedLength (x - l.zoom.toWorkspace l.tray.offset) ==
        (l.stretched f m.zoom).savedLength (f x - m.zoom.toWorkspace l.tray.offset)) = true :=
    fun p hp hp' => ⟨hposition _ hp.1 hp'.1, hposition _ hp.2 hp'.2⟩
  rw [hsaved]
  refine Layout.same_save ⟨?_, ?_, ?_, ?_⟩ hl.same_tray
  · intro c hc
    exact hpoint _ (hl.lengths.contours c hc) (hclear.contours c hc)
  · intro p hp
    exact hpoint _ (hl.lengths.primitives p hp) (hclear.primitives p hp)
  · intro p hp x hx
    exact hlength x (hl.lengths.shapes p hp x hx) (hclear.shapes p hp x hx)
  · intro label hlabel
    exact hpoint _ (hl.lengths.labels label hlabel) (hclear.labels label hlabel)

end Layout

/-! ## Section 3: Commands that do not ask for a save -/

namespace Layout

variable {l after : Layout Single} {catalog : Catalog Single} {s : Settings Single}

/-- A turn that is not made changes nothing. -/
theorem rotateContour_false {id : Nat} {angle : Single}
    (h : l.rotateContour id angle s = (.ok false, after)) : after = l := by
  unfold rotateContour at h
  split at h
  · cases (Prod.mk.inj h).1
  · split at h
    · exact (Prod.mk.inj h).2.symm
    · obtain ⟨b, -, hb⟩ := Attempt.of_andThen_ok h
      cases hb

/-- Nor does a resizing that is not made. -/
theorem resizePrimitive_false {k : Key} {size : PrimitiveShape Single}
    (h : l.resizePrimitive k size s = (.ok false, after)) : after = l := by
  unfold resizePrimitive at h
  split at h
  · cases (Prod.mk.inj h).1
  · split at h
    · cases (Prod.mk.inj h).1
    · dsimp only at h
      split at h
      · exact (Prod.mk.inj h).2.symm
      · cases (Prod.mk.inj h).1

/-- An accepted change of the zoom stretches the layout to a zoom within the bounds. -/
theorem setZoom_ok {factor : Single} (h : l.setZoom factor s = (.ok (), after)) :
    ∃ z : Zoom Single, (s.zoom.min ≤ z.factor ∧ z.factor ≤ s.zoom.max) ∧
      after = l.rescaleTo z := by
  unfold setZoom at h
  split at h
  · rename_i z hz
    split at h
    · rename_i hbounds
      have hfactor : z.factor = factor := by
        unfold Zoom.ofFactor? at hz
        split at hz
        · rw [← Option.some.inj hz]
        · cases hz
      rw [← hfactor] at hbounds
      exact ⟨z, hbounds, (Prod.mk.inj h).2.symm⟩
    · cases (Prod.mk.inj h).1
  · cases (Prod.mk.inj h).1

/-- A command that does not ask for a save changes the zoom, within its bounds, or nothing. -/
theorem apply_idle (hl : l.Consistent) {c : Command Single}
    (hidle : ∀ outcome m, l.apply c catalog s = (.ok outcome, m) → outcome.persist = false) :
    (l.apply c catalog s).2 = l ∨
      ∃ factor, c = .setZoom factor ∧ ∃ z : Zoom Single,
        (s.zoom.min ≤ z.factor ∧ z.factor ≤ s.zoom.max) ∧
        (l.apply c catalog s).2 = l.rescaleTo z := by
  cases happly : l.apply c catalog s with
  | mk result after =>
    cases result with
    | error e => exact .inl ((atomic_apply hl c catalog s).eq_of_error happly)
    | ok outcome =>
      have hpersist := hidle outcome after happly
      unfold apply at happly
      cases c with
      -- a turn or a resizing that is made asks for a save
      | rotate id angle =>
        obtain ⟨applied, ha, rfl⟩ := Attempt.of_andThen_ok happly
        cases applied with
        | true => cases hpersist
        | false => exact .inl (rotateContour_false ha)
      | resizePrimitive k size =>
        obtain ⟨applied, ha, rfl⟩ := Attempt.of_andThen_ok happly
        cases applied with
        | true => cases hpersist
        | false => exact .inl (resizePrimitive_false ha)
      | setZoom factor =>
        obtain ⟨_, ha, -⟩ := Attempt.of_andThen_ok happly
        exact .inr ⟨factor, rfl, setZoom_ok ha⟩
      -- all others do if they are accepted
      | place itemId position =>
        obtain ⟨id, -, rfl⟩ := Attempt.of_andThen_ok happly
        cases hpersist
      | move t dx dy =>
        obtain ⟨-, -, rfl⟩ := Attempt.of_andThen_ok happly
        cases hpersist
      | rotateStep id =>
        obtain ⟨-, -, rfl⟩ := Attempt.of_andThen_ok happly
        cases hpersist
      | snap id angle =>
        obtain ⟨-, -, rfl⟩ := Attempt.of_andThen_ok happly
        cases hpersist
      | addPrimitive shape position =>
        rw [← Except.ok.inj (Prod.mk.inj happly).1] at hpersist
        cases hpersist
      | delete t =>
        obtain ⟨-, -, rfl⟩ := Attempt.of_andThen_ok happly
        cases hpersist
      | attachLabel owner text offset =>
        obtain ⟨k, -, rfl⟩ := Attempt.of_andThen_ok happly
        cases hpersist
      | setLabelText k text =>
        obtain ⟨-, -, rfl⟩ := Attempt.of_andThen_ok happly
        cases hpersist
      | resizeTray width height =>
        rw [← Except.ok.inj (Prod.mk.inj happly).1] at hpersist
        cases hpersist
      | applyPreset name =>
        obtain ⟨-, -, rfl⟩ := Attempt.of_andThen_ok happly
        cases hpersist

end Layout

/-! ## Section 4: Sessions -/

/-- Zoom bounds that are neither very small nor very large. -/
structure ZoomSettings.Moderate (s : ZoomSettings Single) : Prop where
  finite_min : s.min.isFinite = true
  finite_max : s.max.isFinite = true
  low : 1 / 2 ^ 40 ≤ s.min.toRat
  high : s.max.toRat ≤ 2 ^ 40

theorem ZoomSettings.Moderate.zoom {s : ZoomSettings Single} (h : s.Moderate) {z : Zoom Single}
    (hz : s.min ≤ z.factor ∧ z.factor ≤ s.max) : z.Moderate :=
  Zoom.moderate_of_le h.finite_min h.finite_max h.low h.high hz

namespace Session

/-- An action that does not ask for a save: a command that is refused or changes nothing that is
    saved, a document that is refused, and everything that is no edit. -/
def Idle (x : Session Single) : Action Single → Prop
  | .submit c now => ∀ outcome y, x.submit c now = (.ok outcome, y) → outcome.persist = false
  | .restore doc => doc.schemaVersion ≠ schemaVersion
  | .poll _ | .save | .zoom _ _ | .check | .order => True

/-- None of several actions, one after the other, asks for a save. -/
def IdleRun (rasterizer : Rasterizer Single) : Session Single → List (Action Single) → Prop
  | _, [] => True
  | x, a :: rest => x.Idle a ∧ IdleRun rasterizer (x.act rasterizer a) rest

variable {x : Session Single} {l : Layout Single} {n : Nat} {bound : Rat}

/-- A command that does not ask for a save is one that the layout does not save. -/
theorem Idle.apply {c : Command Single} {now : Nat} (h : x.Idle (.submit c now)) :
    ∀ outcome m, x.layout.apply c x.catalog x.settings = (.ok outcome, m) →
      outcome.persist = false := by
  intro outcome m happly
  have hsubmit : ∃ y, x.submit c now = (.ok outcome, y) := by
    unfold submit
    rw [happly]
    exact ⟨_, rfl⟩
  obtain ⟨y, hy⟩ := hsubmit
  exact h outcome y hy

/-- A zooming command stretches the layout, or is refused. -/
theorem layout_zoom_cases (x : Session Single) (steps : Int) (coarse : Bool) :
    (x.zoom steps coarse).2.layout = x.layout ∨ ∃ z : Zoom Single,
      (x.settings.zoom.min ≤ z.factor ∧ z.factor ≤ x.settings.zoom.max) ∧
      (x.zoom steps coarse).2.layout = x.layout.rescaleTo z := by
  rw [layout_zoom]
  cases h : x.layout.setZoom (x.zoomTarget steps coarse) x.settings with
  | mk result after =>
    cases result with
    | error e => exact .inl ((Layout.atomic_setZoom x.layout x.catalog x.settings _).eq_of_error h)
    | ok u => exact .inr (Layout.setZoom_ok h)

/-- An action that does not ask for a save changes the zoom twice at most. -/
theorem Idle.driftsTo {a : Action Single} (hidle : x.Idle a) (hc : x.layout.Consistent)
    (hs : x.settings.zoom.Moderate) (rasterizer : Rasterizer Single)
    (h : l.DriftsTo n bound x.layout) :
    l.DriftsTo (n + 2) bound (x.act rasterizer a).layout := by
  cases a with
  | submit c now =>
    show l.DriftsTo _ _ (x.submit c now).2.layout
    rw [layout_submit]
    rcases Layout.apply_idle hc hidle.apply with he | ⟨-, -, z, hz, he⟩
    · rw [he]
      exact h.succ.succ
    · rw [he]
      exact (h.zoomed (hs.zoom hz)).succ
  | poll now => exact h.succ.succ
  | save => exact h.succ.succ
  | restore doc =>
    have hsame : (x.restore doc).2.layout = x.layout := by
      rw [layout_restore, Layout.restore_of_ne x.layout hidle]
    show l.DriftsTo _ _ (x.restore doc).2.layout
    rw [hsame]
    exact h.succ.succ
  | zoom steps coarse =>
    show l.DriftsTo _ _ (x.zoom steps coarse).2.layout
    rcases x.layout_zoom_cases steps coarse with he | ⟨z, hz, he⟩
    · rw [he]
      exact h.succ.succ
    · rw [he]
      exact (h.zoomed (hs.zoom hz)).succ
  | check => exact h.check rasterizer x.settings
  | order =>
    show l.DriftsTo _ _ (x.layout.exportWith rasterizer x.settings fun _ => ()).2
    rw [Layout.exportWith_snd]
    exact h.check rasterizer x.settings

/-- A run of such actions changes it twice as often as it is long. -/
theorem IdleRun.driftsTo {rasterizer : Rasterizer Single} {catalog : Catalog Single}
    {s : Settings Single} {actions : List (Action Single)}
    (hx : Reachable catalog s rasterizer x) (hidle : IdleRun rasterizer x actions)
    (hs : s.zoom.Moderate) (h : l.DriftsTo n bound x.layout) :
    l.DriftsTo (n + 2 * actions.length) bound (x.run rasterizer actions).layout := by
  induction actions generalizing x n with
  | nil => exact h
  | cons a rest ih =>
    obtain ⟨ha, hrest⟩ := hidle
    have hs' := hs
    rw [← hx.settings_eq] at hs'
    have hstep := ha.driftsTo hx.attainable.consistent hs' rasterizer h
    have hrun := ih (hx.act a) hrest hstep
    rw [List.length_cons, show n + 2 * (rest.length + 1) = n + 2 + 2 * rest.length by omega]
    exact hrun

/-- What does not ask for a save changes nothing that is saved. A command other than one for the
    zoom leaves the layout as it is. Over any run of `k` such steps, the document stays the same
    if every position and size is away from the middle between two whole millimetres by more than
    `drift (2 * k + 2) bound`, that is `(k + 1) * (bound + 1) / 2 ^ 21`. -/
theorem idle_run_keeps_saved {catalog : Catalog Single} {s : Settings Single}
    {rasterizer : Rasterizer Single} (hx : Reachable catalog s rasterizer x) :
    (∀ c now, x.Idle (.submit c now) → (∀ factor, c ≠ .setZoom factor) →
      (x.submit c now).2.layout = x.layout) ∧
    ∀ (actions : List (Action Single)) (bound : Rat), s.zoom.Moderate →
      IdleRun rasterizer x actions → x.layout.Within bound →
      x.layout.ClearOfHalves (drift (2 * actions.length + 2) bound) →
        x.layout.save.same (x.run rasterizer actions).layout.save = true := by
  constructor
  · intro c now hidle hc
    rw [layout_submit]
    rcases Layout.apply_idle hx.attainable.consistent hidle.apply with he | ⟨factor, hfactor, -⟩
    · exact he
    · exact absurd hfactor (hc factor)
  · intro actions bound hs hidle hwithin hclear
    have hdrift := hidle.driftsTo hx hs (.refl bound hwithin.zoom)
    rw [Nat.zero_add] at hdrift
    exact hdrift.same_save hwithin hclear

/-- A wrench with a label and a pocket, all a quarter of a millimetre off. -/
def quarterWrench : Session Single :=
  (make Layout.wrenchCatalog .standard).run (fun _ => none)
    [.submit (.place "wrench" (some ⟨100.25, 50.25⟩)) 0, .submit (.attachLabel 0 "10 mm" none) 1,
      .submit (.addPrimitive (.circle 10) (some ⟨300.25, 100⟩)) 2]

theorem idle_run_keeps_saved_quarterWrench :
    let actions := [.submit (.setZoom 1.1) 3, .zoom 2 true, .check, .submit (.setZoom 1) 4]
    quarterWrench.layout.save.same (quarterWrench.run (fun _ => none) actions).layout.save =
      true := by
  intro actions
  have hx : Reachable Layout.wrenchCatalog .standard (fun _ => none) quarterWrench :=
    Reachable.make.run _
  have hs : Settings.standard.zoom.Moderate :=
    ⟨by decide +kernel, by decide +kernel, by decide +kernel, by decide +kernel⟩
  have hwithin : quarterWrench.layout.Within 1000 := by decide +kernel
  have hclear : quarterWrench.layout.ClearOfHalves (drift 10 1000) := by decide +kernel
  -- the two commands are for the zoom, and these never ask for a save
  have hzoom : ∀ (y : Session Single) (factor : Single) (now : Nat),
      y.Idle (.submit (.setZoom factor) now) := by
    intro y factor now outcome y' h
    obtain ⟨-, -, rfl⟩ := Attempt.of_andThen_ok (submit_ok h)
    rfl
  have hidle : IdleRun (fun _ => none) quarterWrench actions :=
    ⟨hzoom _ _ _, trivial, trivial, hzoom _ _ _, trivial⟩
  exact (idle_run_keeps_saved hx).2 actions 1000 hs hidle hwithin hclear

/-- A round pocket half a millimetre off. -/
def halfPocket : Session Single :=
  (make Layout.wrenchCatalog .standard).run (fun _ => none)
    [.submit (.addPrimitive (.circle 10) (some ⟨40.5, 100⟩)) 0]

/-- One change of the zoom, which asks for no save, moves the pocket in the document. -/
theorem halfPocket_moves :
    let zoomed := halfPocket.submit (.setZoom 1.1) 1
    zoomed.1.toOption.map (·.persist) = some false ∧
      halfPocket.layout.save.primitives = [.circle 21 80 10] ∧
      zoomed.2.layout.save.primitives = [.circle 20 80 10] := by
  decide +kernel

end Session

end FoamTray
