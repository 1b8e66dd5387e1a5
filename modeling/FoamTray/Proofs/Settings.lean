import FoamTray.Settings

/-! # What is asked of settings

    The check of settings looks for one fault after the other. Here it is told what it asks for as
    a whole.

    * `Settings.Sound` : all bounds are in order.
    * `accepted_iff` : settings are accepted exactly if they are sound.
-/

namespace FoamTray.Settings

variable {α : Type} [Scalar α] {s : Settings α}

/-- A lower bound that is positive, and an upper one that is not below it. -/
def Ordered (low high : α) : Prop := ((0 : Nat) : α) < low ∧ low ≤ high

/-- Settings with all bounds in order. -/
structure Sound (s : Settings α) : Prop where
  minSize : ((0 : Nat) : α) < s.tray.minSize
  margins : ((0 : Nat) : α) ≤ s.tray.offset ∧ ((0 : Nat) : α) ≤ s.tray.padding
  /-- The default zoom is one of those between the bounds. -/
  zoom : Ordered s.zoom.min s.zoom.default ∧ s.zoom.default ≤ s.zoom.max
  zoomSteps : ((0 : Nat) : α) < s.zoom.step ∧ ((0 : Nat) : α) < s.zoom.coarseStep
  clearance : Scalar.isFinite s.clearance = true ∧ ((0 : Nat) : α) ≤ s.clearance
  rotations : s.allowedRotations ≠ []
  labelMeasures : ((0 : Nat) : α) < s.labels.fontSize ∧ ((0 : Nat) : α) < s.labels.advanceRatio ∧
    ((0 : Nat) : α) < s.labels.lineHeight
  labelPadding : ∀ padding, s.labels.boundsPadding = some padding → ((0 : Nat) : α) ≤ padding
  rectWidth : Ordered s.primitives.rectMinWidth s.primitives.rectMaxWidth
  rectHeight : Ordered s.primitives.rectMinHeight s.primitives.rectMaxHeight
  circleRadius : Ordered s.primitives.circleMinRadius s.primitives.circleMaxRadius
  toolDiameter : ((0 : Nat) : α) < s.pricing.toolDiameter

omit [Scalar α] in
/-- Only a demand that is not met adds a fault. -/
theorem demand_eq_nil_iff {p : Prop} [Decidable p] {e : SettingsError α} :
    (if p then [] else [e]) = [] ↔ p := by
  by_cases hp : p <;> simp [hp]

/-- Settings are accepted exactly if they are sound. -/
theorem accepted_iff : s.Accepted ↔ s.Sound := by
  unfold Accepted fault?
  rw [List.head?_eq_none_iff]
  unfold faults
  simp only [List.append_eq_nil_iff, demand_eq_nil_iff, Bool.and_eq_true, decide_eq_true_eq,
    Bool.not_eq_true', List.isEmpty_eq_false_iff, Option.all_eq_true, and_assoc]
  constructor
  · rintro ⟨hsize, hoffset, hpadding, hmin, hdefault, hmax, hstep, hcoarse, hfinite, hclearance,
      hrotations, hfont, hadvance, hline, hlabel, hw, hw', hh, hh', hr, hr', htool⟩
    exact ⟨hsize, ⟨hoffset, hpadding⟩, ⟨⟨hmin, hdefault⟩, hmax⟩, ⟨hstep, hcoarse⟩,
      ⟨hfinite, hclearance⟩, hrotations, ⟨hfont, hadvance, hline⟩, hlabel, ⟨hw, hw'⟩, ⟨hh, hh'⟩,
      ⟨hr, hr'⟩, htool⟩
  · intro h
    exact ⟨h.minSize, h.margins.1, h.margins.2, h.zoom.1.1, h.zoom.1.2, h.zoom.2, h.zoomSteps.1,
      h.zoomSteps.2, h.clearance.1, h.clearance.2, h.rotations, h.labelMeasures.1,
      h.labelMeasures.2.1, h.labelMeasures.2.2, h.labelPadding, h.rectWidth.1, h.rectWidth.2,
      h.rectHeight.1, h.rectHeight.2, h.circleRadius.1, h.circleRadius.2, h.toolDiameter⟩

/-- The defaults are accepted. -/
example : (standard : Settings Single).Accepted := by unfold Accepted; decide +kernel

end FoamTray.Settings
