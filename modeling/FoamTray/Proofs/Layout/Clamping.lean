import FoamTray.Layout.Run
import FoamTray.Proofs.Geometry.Fitting
import FoamTray.Proofs.Layout.Equivariance

/-! # Labels are moved no further than they have to

    A label that is brought back lies inside the area of its contour, or begins where the area
    does along an axis that it is too long for. Many shifts would do that. Over the rationals the
    one that is made is the shortest, so a label that was at rest is not moved at all.

    * `Rests` : an interval that lies inside another one, or begins with it if it is too long.
    * `LeastShift`, `leastShift_axisShift` : the shortest of the shifts that bring one to rest.
    * `clampLabel_least` : what becomes of a label that is brought back, and of all other ones.
-/

namespace FoamTray

/-! ## Section 1: Along an axis -/

/-- An interval lies inside another one, or begins with it if it is too long for that. -/
def Rests (low high a b : Rat) : Prop :=
  if b - a ≤ high - low then low ≤ a ∧ b ≤ high else a = low

/-- The shift `d` brings an interval to rest, and no shorter one does. -/
structure LeastShift (low high a b d : Rat) : Prop where
  /-- The interval comes to rest. -/
  rests : Rests low high (a + d) (b + d)
  /-- Every other shift that does this is as long. -/
  least : ∀ e, Rests low high (a + e) (b + e) → |d| ≤ |e|

section Intervals

variable {low high a b d : Rat}

/-- An interval is at rest if it fits without an error. -/
theorem rests_iff : Rests low high a b ↔ AxisFit 0 low high a b := by
  unfold Rests
  constructor
  · intro h
    split at h
    · exact ⟨by linarith [h.1], .inl (by linarith [h.2])⟩
    · exact ⟨by linarith, .inr (by linarith)⟩
  · rintro ⟨hbegins, hends⟩
    split
    · refine ⟨by linarith, ?_⟩
      rcases hends with h | h <;> linarith
    · rename_i hlong
      rw [not_le] at hlong
      rcases hends with h | h <;> linarith

/-- An interval at rest needs no shift. -/
theorem LeastShift.eq_zero (h : LeastShift low high a b d) (hrests : Rests low high a b) :
    d = 0 := by
  have hle : |d| ≤ |0| := h.least 0 (by rwa [add_zero, add_zero])
  rwa [abs_zero, abs_nonpos_iff] at hle

/-- The shift that is made is the shortest. -/
theorem leastShift_axisShift (low high a b : Rat) :
    LeastShift low high a b (Rect.axisShift low high a b) where
  rests := rests_iff.mpr (axisFit_axisShift low high a b)
  least := by
    intro e he
    obtain ⟨hbegins, hends⟩ := rests_iff.mp he
    rw [sub_zero] at hbegins
    rw [add_zero, add_zero] at hends
    unfold Rect.axisShift
    split
    · rename_i h
      rcases h with hlong | hearly
      -- only one place is left for an interval that is too long
      · have hplace : low - a = e := by
          rcases hends with h' | h' <;> linarith
        rw [hplace]
      · rw [abs_of_nonneg (by linarith), abs_of_nonneg (by linarith)]
        linarith
    · rename_i h
      rw [not_or, not_lt, not_lt] at h
      split
      · have hend : b + e ≤ high := by
          rcases hends with h' | h' <;> linarith [h.1]
        rw [abs_of_nonpos (by linarith), abs_of_nonpos (by linarith)]
        linarith
      · rw [Nat.cast_zero, abs_zero]
        exact abs_nonneg e

end Intervals

/-! ## Section 2: Labels -/

namespace Layout

variable {l : Layout Rat} {s : Settings Rat} {k : Key} {label : Label Rat} {c : Contour Rat}

/-- The shift that is made along each axis. -/
theorem settled_eq_translate (hc : l.placements.find? label.owner = some c) :
    let area := (c.bounds l.zoom).inflate (l.zoom.toWorkspace s.labelPadding)
    let box := label.bounds s.labels l.zoom
    l.settled s label = label.translate (Rect.axisShift area.xMin area.xMax box.xMin box.xMax)
      (Rect.axisShift area.yMin area.yMax box.yMin box.yMax) := by
  intro area box
  have harea : l.labelArea? label.owner s = some area := by
    simp [labelArea?, contourBounds?, hc, area]
  unfold settled
  rw [harea]
  exact label.movedInto_eq_translate area s.labels l.zoom

/-- A label that was brought back has nowhere further to go. -/
theorem settled_settled (hc : l.placements.find? label.owner = some c) :
    l.settled s (l.settled s label) = l.settled s label := by
  rw [settled_eq_translate hc]
  generalize hbox : label.bounds s.labels l.zoom = box
  generalize harea : (c.bounds l.zoom).inflate (l.zoom.toWorkspace s.labelPadding) = area
  have hx := leastShift_axisShift area.xMin area.xMax box.xMin box.xMax
  have hy := leastShift_axisShift area.yMin area.yMax box.yMin box.yMax
  generalize Rect.axisShift area.xMin area.xMax box.xMin box.xMax = dx at hx ⊢
  generalize Rect.axisShift area.yMin area.yMax box.yMin box.yMax = dy at hy ⊢
  have howner : l.placements.find? (label.translate dx dy).owner = some c := hc
  rw [settled_eq_translate howner, label.bounds_translate, hbox, harea]
  -- the box is at rest now, so both shifts are none
  have hx' := (leastShift_axisShift area.xMin area.xMax _ _).eq_zero hx.rests
  have hy' := (leastShift_axisShift area.yMin area.yMax _ _).eq_zero hy.rests
  unfold Rect.translate
  dsimp only
  rw [hx', hy', Label.translate_zero]

/-- Bringing a label back a second time changes nothing. -/
theorem clampLabel_again (hk : l.labels.get? k = some label)
    (hc : l.placements.find? label.owner = some c) :
    (l.clampLabel k s).2.clampLabel k s = l.clampLabel k s := by
  rw [clampLabel_eq hk hc]
  have hk' := SlotTable.get?_set_self hk (l.settled s label)
  have hc' : l.placements.find? (l.settled s label).owner = some c := by
    rw [owner_settled]
    exact hc
  have hagain : ({ l with labels := l.labels.set k (l.settled s label) }).settled s
      (l.settled s label) = l.settled s (l.settled s label) :=
    settled_congr rfl rfl s (l.settled s label)
  rw [clampLabel_eq (l := { l with labels := l.labels.set k (l.settled s label) }) hk' hc',
    hagain, settled_settled hc, SlotTable.set_self hk']

/-- A label whose contour is there is brought back by the shortest shift along each axis, which is
    none along an axis that it was at rest on. A second time nothing is changed. The text, the font
    and the contour of the label are the same as before, and so is everything else on the
    layout. -/
theorem clampLabel_least (s : Settings Rat) (hk : l.labels.get? k = some label)
    (hc : l.placements.find? label.owner = some c) :
    let area := (c.bounds l.zoom).inflate (l.zoom.toWorkspace s.labelPadding)
    let box := label.bounds s.labels l.zoom
    ∃ dx dy label' l', l.clampLabel k s = (.ok (), l') ∧
      l'.labels.get? k = some label' ∧
      label' = { label with position := label.position.translate dx dy } ∧
      label'.bounds s.labels l.zoom = box.translate dx dy ∧
      LeastShift area.xMin area.xMax box.xMin box.xMax dx ∧
      LeastShift area.yMin area.yMax box.yMin box.yMax dy ∧
      (Rests area.xMin area.xMax box.xMin box.xMax → dx = 0) ∧
      (Rests area.yMin area.yMax box.yMin box.yMax → dy = 0) ∧
      l'.clampLabel k s = (.ok (), l') ∧
      (∀ k', k' ≠ k → l'.labels.get? k' = l.labels.get? k') ∧
      l' = { l with labels := l'.labels } := by
  intro area box
  have hx := leastShift_axisShift area.xMin area.xMax box.xMin box.xMax
  have hy := leastShift_axisShift area.yMin area.yMax box.yMin box.yMax
  have hmoved := settled_eq_translate (s := s) hc
  have hclamp := clampLabel_eq (s := s) hk hc
  have hagain := clampLabel_again (s := s) hk hc
  rw [hclamp] at hagain
  refine ⟨_, _, l.settled s label, { l with labels := l.labels.set k (l.settled s label) }, hclamp,
    SlotTable.get?_set_self hk _, hmoved, ?_, hx, hy, hx.eq_zero, hy.eq_zero, hagain, ?_, rfl⟩
  · rw [hmoved]
    exact label.bounds_translate s.labels l.zoom _ _
  · intro k' hne
    show (l.labels.set k _).get? k' = _
    rw [SlotTable.get?_set hk, if_neg hne]

/-- The contour of a wrench. -/
def strayOwner : Contour Rat where
  id := 0
  itemId := "wrench"
  position := ⟨50, 60⟩
  rotation := .deg0
  scaleOverride := 1
  lastPosition := ⟨50, 60⟩
  highlighted := false
  footprint := ⟨30, 10⟩

/-- A label that is longer than the area around the wrench, and lies below it. -/
def strayLabel : Label Rat := ⟨0, "combination wrench", ⟨70, 90⟩, 5⟩

/-- The wrench with the label. -/
def strayLayout : Layout Rat :=
  let placed := (make (.default exactSettings.tray)).run exactCatalog exactSettings (fun _ => none)
    [.command (.place "wrench" (some ⟨50, 60⟩))]
  { placed with labels := placed.labels.insert strayLabel }

/-- The label is brought back to where the area begins from left to right, and ends from top to
    bottom; there no shorter shift would do. -/
theorem clampLabel_least_strayLayout :
    strayLayout.labels.get? ⟨1, 1⟩ = some strayLabel ∧
      strayLayout.placements.find? 0 = some strayOwner ∧
      (strayLayout.clampLabel ⟨1, 1⟩ exactSettings).2.labels.get? ⟨1, 1⟩ =
        some { strayLabel with position := ⟨44, 76 - 29 / 5⟩ } ∧
      ∀ e, Rests 54 76 (90 + e) (90 + 29 / 5 + e) → 14 + 29 / 5 ≤ |e| := by
  have hk : strayLayout.labels.get? ⟨1, 1⟩ = some strayLabel := by decide +kernel
  have hc : strayLayout.placements.find? strayLabel.owner = some strayOwner := by decide +kernel
  have hmoved : (strayLayout.clampLabel ⟨1, 1⟩ exactSettings).2.labels.get? ⟨1, 1⟩ =
      some { strayLabel with position := ⟨44, 76 - 29 / 5⟩ } := by decide +kernel
  refine ⟨hk, hc, hmoved, ?_⟩
  obtain ⟨dx, dy, label', l', hclamp, hfound, hlabel, -, -, hleast, -⟩ :=
    clampLabel_least exactSettings hk hc
  rw [hclamp, hfound, hlabel] at hmoved
  have hy : 90 + dy = 76 - 29 / 5 :=
    congrArg (fun label : Label Rat => label.position.y) (Option.some.inj hmoved)
  have hdy : dy = -(14 + 29 / 5) := by linarith
  have hbox : strayLabel.bounds exactSettings.labels strayLayout.zoom =
      ⟨70, 90, 124, 90 + 29 / 5⟩ := by decide +kernel
  have harea : (strayOwner.bounds strayLayout.zoom).inflate
      (strayLayout.zoom.toWorkspace exactSettings.labelPadding) = ⟨44, 54, 86, 76⟩ := by
    decide +kernel
  rw [hbox, harea, hdy] at hleast
  intro e he
  have hle := hleast.least e he
  rwa [abs_neg, abs_of_nonneg (by norm_num)] at hle

end Layout

end FoamTray
