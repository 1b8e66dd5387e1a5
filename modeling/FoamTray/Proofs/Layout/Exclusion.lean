import FoamTray.Proofs.Layout.Findings

/-! # Contours that are left out of comparisons

    A contour without a silhouette, or one that is not drawn in the common part of two grown
    boxes, is left out of the comparison with the other contour. A comparison ends at the first
    such contour, and only this one is listed: where both contours are left out, the one placed
    later may be missing from the list.

    * `Layout.LeftOut` : a contour is left out of a comparison.
    * `verdict_eq_unchecked_iff` : the one that a comparison reports.
    * `unchecked_iff` : which contours a validation lists, and which of those left out are missing.
    * `rodTray_unlisted` : two contours that are left out, of which one is listed.
-/

namespace FoamTray.Layout

variable {l : Layout Single} {rasterizer : Rasterizer Single} {s : Settings Single}
  {a b c : Contour Single}

/-! ## Section 1: One comparison -/

/-- The grown boxes of two contours have a common part, and a contour is not drawn in it. -/
def LeftOut (l : Layout Single) (rasterizer : Rasterizer Single) (s : Settings Single)
    (a b c : Contour Single) : Prop :=
  ∃ region, Rect.intersection (l.grownBounds s a) (l.grownBounds s b) = some region ∧
    l.Undrawn rasterizer s region c

/-- A contour that is drawn in the common part is not left out. -/
theorem not_leftOut {region : Rect Single} {bitmap : Bitmap}
    (h : Rect.intersection (l.grownBounds s a) (l.grownBounds s b) = some region)
    (hc : l.DrawnAs rasterizer s region c bitmap) : ¬ l.LeftOut rasterizer s a b c := by
  rintro ⟨region', h', hundrawn⟩
  obtain rfl : region = region' := Option.some.inj (h.symm.trans h')
  exact hundrawn bitmap hc

/-- Whether a contour is left out can be found out by drawing it. -/
theorem any_isNone_iff :
    ((Rect.intersection (l.grownBounds s a) (l.grownBounds s b)).any fun region =>
      ((l.renderRequest? c region s).bind rasterizer).isNone) = true ↔
      l.LeftOut rasterizer s a b c := by
  rw [Option.any_eq_true]
  refine exists_congr fun region => and_congr_right fun _ => ?_
  constructor
  · exact fun hnone => undrawn_of_bind_eq_none (Option.isNone_iff_eq_none.mp hnone)
  · intro hundrawn
    rw [Option.isNone_iff_eq_none, Option.eq_none_iff_forall_ne_some]
    exact fun bitmap hdrawn => hundrawn bitmap (bind_renderRequest?_eq_some.mp hdrawn)

instance : Decidable (l.LeftOut rasterizer s a b c) := decidable_of_iff _ any_isNone_iff

/-- A comparison ends at the first contour if that is left out. -/
theorem verdict_of_leftOut (h : l.LeftOut rasterizer s a b a) :
    (l.checkPair rasterizer s a b).verdict = .unchecked a.id := by
  obtain ⟨region, hregion, hundrawn⟩ := h
  unfold checkPair
  rw [commonRegion?_eq, hregion]
  dsimp only
  cases hrequest : l.renderRequest? a region s with
  | none => rfl
  | some request =>
    dsimp only
    cases hbitmap : rasterizer request with
    | none => rfl
    | some bitmap =>
      refine absurd ?_ (hundrawn bitmap)
      rw [← bind_renderRequest?_eq_some, hrequest]
      exact hbitmap

/-- A comparison reports the first one of two contours if that is left out, and the second one only
    if it alone is. -/
theorem verdict_eq_unchecked_iff {i : Nat} :
    (l.checkPair rasterizer s a b).verdict = .unchecked i ↔
      a.id = i ∧ l.LeftOut rasterizer s a b a ∨
      b.id = i ∧ l.LeftOut rasterizer s a b b ∧ ¬ l.LeftOut rasterizer s a b a := by
  by_cases hfirst : l.LeftOut rasterizer s a b a
  · rw [verdict_of_leftOut hfirst, PairVerdict.unchecked.injEq]
    simp only [hfirst, and_true, not_true_eq_false, and_false, or_false]
  · have hcompared := compared_checkPair l rasterizer s a b
    generalize (l.checkPair rasterizer s a b).verdict = verdict at hcompared
    simp only [hfirst, and_false, not_false_eq_true, and_true, false_or]
    cases hcompared with
    | separated h =>
      refine iff_of_false nofun ?_
      rintro ⟨-, region, h', -⟩
      rw [h] at h'
      cases h'
    | firstUndrawn h ha => exact absurd ⟨_, h, ha⟩ hfirst
    | secondUndrawn h hb =>
      rw [PairVerdict.unchecked.injEq]
      exact (and_iff_left ⟨_, h, hb⟩).symm
    | colliding h ha hb hink => exact iff_of_false nofun fun hi => not_leftOut h hb hi.2
    | apart h ha hb hink => exact iff_of_false nofun fun hi => not_leftOut h hb hi.2

/-! ## Section 2: The list -/

/-- A contour is left out of a comparison of two of the given ones. -/
def LeftOutAmong (l : Layout Single) (rasterizer : Rasterizer Single) (s : Settings Single)
    (contours : List (Contour Single)) (i : Nat) : Prop :=
  ∃ a b, [a, b].Sublist contours ∧
    (a.id = i ∧ l.LeftOut rasterizer s a b a ∨ b.id = i ∧ l.LeftOut rasterizer s a b b)

/-- No comparison of two of the given contours leaves out both of them. -/
def LeavesOutOne (l : Layout Single) (rasterizer : Rasterizer Single) (s : Settings Single)
    (contours : List (Contour Single)) : Prop :=
  ∀ a b, [a, b].Sublist contours → l.LeftOut rasterizer s a b a → ¬ l.LeftOut rasterizer s a b b

theorem mem_unchecked_iff {i : Nat} :
    i ∈ (l.report rasterizer s).uncheckedContours ↔
      ∃ a b, [a, b].Sublist l.placements.contours ∧
        (a.id = i ∧ l.LeftOut rasterizer s a b a ∨
          b.id = i ∧ l.LeftOut rasterizer s a b b ∧ ¬ l.LeftOut rasterizer s a b a) := by
  rw [mem_uncheckedContours]
  simp only [verdict_eq_unchecked_iff]

/-- What is listed is left out, and nothing else is where no comparison leaves out both. -/
theorem mem_unchecked_iff_of_leavesOutOne
    (h : l.LeavesOutOne rasterizer s l.placements.contours) {i : Nat} :
    i ∈ (l.report rasterizer s).uncheckedContours ↔
      l.LeftOutAmong rasterizer s l.placements.contours i := by
  rw [mem_unchecked_iff]
  constructor
  · rintro ⟨a, b, hab, hfirst | ⟨hid, hb, -⟩⟩
    · exact ⟨a, b, hab, .inl hfirst⟩
    · exact ⟨a, b, hab, .inr ⟨hid, hb⟩⟩
  · rintro ⟨a, b, hab, hfirst | ⟨hid, hb⟩⟩
    · exact ⟨a, b, hab, .inl hfirst⟩
    · exact ⟨a, b, hab, .inr ⟨hid, hb, fun ha => h a b hab ha hb⟩⟩

/-! ## Section 3: The order of placing -/

/-- The common part of two grown boxes is the same from both sides. (The machine keeps the second
    one of two equal ends, so a zero can change its sign.) -/
def Mutual (l : Layout Single) (s : Settings Single) : Prop :=
  ∀ a ∈ l.placements.contours, ∀ b ∈ l.placements.contours,
    Rect.intersection (l.grownBounds s a) (l.grownBounds s b) =
      Rect.intersection (l.grownBounds s b) (l.grownBounds s a)

theorem LeftOut.swap (hmutual : l.Mutual s) (ha : a ∈ l.placements.contours)
    (hb : b ∈ l.placements.contours) (h : l.LeftOut rasterizer s a b c) :
    l.LeftOut rasterizer s b a c := by
  obtain ⟨region, hregion, hundrawn⟩ := h
  exact ⟨region, (hmutual b hb a ha).trans hregion, hundrawn⟩

variable {contours contours' : List (Contour Single)}

theorem LeftOutAmong.perm (hmutual : l.Mutual s) (hmem : ∀ c ∈ contours, c ∈ l.placements.contours)
    (hperm : contours.Perm contours') {i : Nat} (h : l.LeftOutAmong rasterizer s contours i) :
    l.LeftOutAmong rasterizer s contours' i := by
  obtain ⟨a, b, hab, hleft⟩ := h
  obtain ⟨ha, hb⟩ := mem_of_sublist_pair hab
  have hswap : ∀ c, l.LeftOut rasterizer s a b c → l.LeftOut rasterizer s b a c :=
    fun c => .swap hmutual (hmem a ha) (hmem b hb)
  rcases sublist_pair_of_perm hperm hab with hsub | hsub
  · exact ⟨a, b, hsub, hleft⟩
  · refine ⟨b, a, hsub, ?_⟩
    rcases hleft with ⟨hid, h⟩ | ⟨hid, h⟩
    · exact .inr ⟨hid, hswap a h⟩
    · exact .inl ⟨hid, hswap b h⟩

theorem LeavesOutOne.perm (hmutual : l.Mutual s) (hmem : ∀ c ∈ contours, c ∈ l.placements.contours)
    (hperm : contours.Perm contours') (h : l.LeavesOutOne rasterizer s contours') :
    l.LeavesOutOne rasterizer s contours := by
  intro a b hab hfirst hsecond
  obtain ⟨ha, hb⟩ := mem_of_sublist_pair hab
  have hswap : ∀ c, l.LeftOut rasterizer s a b c → l.LeftOut rasterizer s b a c :=
    fun c => .swap hmutual (hmem a ha) (hmem b hb)
  rcases sublist_pair_of_perm hperm hab with hsub | hsub
  · exact h a b hsub hfirst hsecond
  · exact h b a hsub (hswap b hsecond) (hswap a hfirst)

/-- The layout with its contours in another order. -/
def reordered (l : Layout Single) (contours : List (Contour Single)) : Layout Single :=
  { l with placements := { l.placements with contours := contours } }

/-- The order does not matter where no comparison leaves out both contours. -/
theorem mem_unchecked_reordered (hmutual : l.Mutual s)
    (hone : l.LeavesOutOne rasterizer s l.placements.contours)
    (hperm : contours.Perm l.placements.contours) {i : Nat} :
    i ∈ ((l.reordered contours).report rasterizer s).uncheckedContours ↔
      i ∈ (l.report rasterizer s).uncheckedContours := by
  have hmem : ∀ c ∈ contours, c ∈ l.placements.contours := fun c hc => hperm.subset hc
  -- which contours a comparison leaves out does not depend on the list
  have hreordered := mem_unchecked_iff_of_leavesOutOne (l := l.reordered contours) (i := i)
    (show l.LeavesOutOne rasterizer s contours from hone.perm hmutual hmem hperm)
  rw [hreordered, mem_unchecked_iff_of_leavesOutOne hone]
  show l.LeftOutAmong rasterizer s contours i ↔ _
  exact ⟨.perm hmutual hmem hperm, .perm hmutual (fun _ hc => hc) hperm.symm⟩

/-- A validation in millimetres lists a contour if it is the first one of a comparison that it is
    left out of, or the only one. So one that is left out and not listed always comes after a listed
    one that is left out as well. Where no comparison leaves out both contours the list is complete,
    in whatever order they were placed. -/
theorem unchecked_iff {l : Layout Single} (hz : l.zoom.isUnit = true)
    (rasterizer : Rasterizer Single) (s : Settings Single) :
    ∃ r after, l.validate rasterizer s = (.ok r, after) ∧ r.uncheckedContours.Nodup ∧
      (∀ i, i ∈ r.uncheckedContours ↔ ∃ a b, [a, b].Sublist l.placements.contours ∧
        (a.id = i ∧ l.LeftOut rasterizer s a b a ∨
          b.id = i ∧ l.LeftOut rasterizer s a b b ∧ ¬ l.LeftOut rasterizer s a b a)) ∧
      (∀ a b, [a, b].Sublist l.placements.contours →
        (l.LeftOut rasterizer s a b a → a.id ∈ r.uncheckedContours) ∧
        (l.LeftOut rasterizer s a b b → b.id ∉ r.uncheckedContours →
          l.LeftOut rasterizer s a b a)) ∧
      (l.LeavesOutOne rasterizer s l.placements.contours →
        (∀ i, i ∈ r.uncheckedContours ↔ l.LeftOutAmong rasterizer s l.placements.contours i) ∧
        (l.Mutual s → ∀ contours, contours.Perm l.placements.contours →
          ∃ r' after', (l.reordered contours).validate rasterizer s = (.ok r', after') ∧
            ∀ i, i ∈ r'.uncheckedContours ↔ i ∈ r.uncheckedContours)) := by
  refine ⟨_, _, validate_eq hz rasterizer s, nodup_eraseDups _, fun i => mem_unchecked_iff,
    fun a b hab => ⟨fun ha => ?_, fun hb hmissing => ?_⟩, fun hone =>
      ⟨fun i => mem_unchecked_iff_of_leavesOutOne hone, fun hmutual contours hperm => ?_⟩⟩
  · exact mem_unchecked_iff.mpr ⟨a, b, hab, .inl ⟨rfl, ha⟩⟩
  · by_contra ha
    exact hmissing (mem_unchecked_iff.mpr ⟨a, b, hab, .inr ⟨rfl, hb, ha⟩⟩)
  · exact ⟨_, _, validate_eq (l := l.reordered contours) hz rasterizer s,
      fun i => mem_unchecked_reordered hmutual hone hperm⟩

/-- Of the plates and the rod in the crowded tray nothing but the rod is listed, also if it is placed
    first. -/
theorem unchecked_iff_crowdedTray :
    crowdedTray.zoom.isUnit = true ∧
    ∃ r after, crowdedTray.validate .flood .standard = (.ok r, after) ∧
      r.uncheckedContours = [2] ∧
      (∀ i, i ∈ r.uncheckedContours ↔
        crowdedTray.LeftOutAmong .flood .standard crowdedTray.placements.contours i) ∧
      ∃ r' after', (crowdedTray.reordered crowdedTray.placements.contours.reverse).validate .flood
        .standard = (.ok r', after') ∧ ∀ i, i ∈ r'.uncheckedContours ↔ i ∈ r.uncheckedContours := by
  have hz : crowdedTray.zoom.isUnit = true := by decide +kernel
  have hone : crowdedTray.LeavesOutOne .flood .standard crowdedTray.placements.contours := by
    have hpairs : ∀ p ∈ pairsOf crowdedTray.placements.contours,
        crowdedTray.LeftOut .flood .standard p.1 p.2 p.1 →
          ¬ crowdedTray.LeftOut .flood .standard p.1 p.2 p.2 := by decide +kernel
    exact fun a b hab => hpairs (a, b) (mem_pairsOf.mpr hab)
  have hmutual : crowdedTray.Mutual .standard := by
    unfold Mutual
    decide +kernel
  have hlist : (crowdedTray.validate .flood .standard).1.toOption.map (·.uncheckedContours) =
      some [2] := by decide +kernel
  obtain ⟨r, after, hvalidate, -, -, -, hcomplete⟩ := unchecked_iff hz .flood .standard
  obtain ⟨hall, horder⟩ := hcomplete hone
  rw [hvalidate] at hlist
  exact ⟨hz, r, after, hvalidate, Option.some.inj hlist, hall,
    horder hmutual _ (List.reverse_perm _)⟩

/-- A tray with two rods close to one another. -/
def rodTray : Layout Single :=
  (make (.default .standard)).run plateCatalog .standard .flood
    [.command (.place "rod" (some ⟨60, 60⟩)), .command (.place "rod" (some ⟨70, 60⟩))]

/-- Neither of them has a silhouette, and the one placed later is not listed. -/
theorem rodTray_unlisted :
    rodTray.zoom.isUnit = true ∧
    ∃ r after a b, rodTray.validate .flood .standard = (.ok r, after) ∧
      [a, b].Sublist rodTray.placements.contours ∧ (a.id = 0 ∧ b.id = 1) ∧
      rodTray.LeftOut .flood .standard a b a ∧ rodTray.LeftOut .flood .standard a b b ∧
      r.uncheckedContours = [0] := by
  have hz : rodTray.zoom.isUnit = true := by decide +kernel
  have hlist : (rodTray.validate .flood .standard).1.toOption.map (·.uncheckedContours) =
      some [0] := by decide +kernel
  obtain ⟨p, hp, hids, hfirst, hsecond⟩ : ∃ p ∈ pairsOf rodTray.placements.contours,
      (p.1.id = 0 ∧ p.2.id = 1) ∧ rodTray.LeftOut .flood .standard p.1 p.2 p.1 ∧
        rodTray.LeftOut .flood .standard p.1 p.2 p.2 := by decide +kernel
  refine ⟨hz, _, _, p.1, p.2, validate_eq hz .flood .standard, mem_pairsOf.mp hp, hids, hfirst,
    hsecond, ?_⟩
  rw [validate_eq hz] at hlist
  exact Option.some.inj hlist

end FoamTray.Layout
