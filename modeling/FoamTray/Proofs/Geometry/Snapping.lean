import FoamTray.Proofs.Geometry.Rotation
import FoamTray.Proofs.Numeric.Exact
import Mathlib.Algebra.Order.Group.MinMax
import Mathlib.Data.Prod.Lex

/-! # Snapping

    An angle that comes from outside is taken to the nearest allowed orientation. The choice runs
    once through the list and keeps the better one of two, by distance first and by angle second;
    this is a linear order, so neither the order of the list nor repetitions matter.

    * `foldl_mem`, `foldl_le` : a choice that is made over and over ends at the least element.
    * `reduced_spec` : the reduced angle differs from the angle by full turns, up to rounding.
    * `circularDistance_spec` : the distance around the circle, up to rounding.
    * `Snapped` : what it means to be the nearest allowed orientation.
    * `snap_nearest` : snapping ends there, whatever the list looks like.
-/

namespace FoamTray.Rotation

/-! ## Section 1: Choices made over and over -/

section Choice

variable {β κ : Type} {f : β → β → β}

/-- A choice between the best one so far and the next one, made over and over, ends at one of
    them. -/
theorem foldl_mem (hf : ∀ a b, f a b = a ∨ f a b = b) (b : β) (rest : List β) :
    rest.foldl f b ∈ b :: rest := by
  induction rest generalizing b with
  | nil => exact List.mem_singleton_self b
  | cons c rest ih =>
    have hmem := ih (f b c)
    rw [List.foldl_cons]
    rcases hf b c with h | h <;> rw [h] at hmem ⊢
    · rcases List.mem_cons.mp hmem with hb | hrest
      · rw [hb]
        exact List.mem_cons_self
      · exact List.mem_cons_of_mem _ (List.mem_cons_of_mem _ hrest)
    · exact List.mem_cons_of_mem _ hmem

/-- If it is the lesser one of two that is chosen, the choice ends at the least one. -/
theorem foldl_le [LinearOrder κ] (key : β → κ) (Sound : β → Prop)
    (hf : ∀ a b, Sound a → Sound b → f a b = if key a < key b then a else b) (b : β)
    (rest : List β) (hsound : ∀ c ∈ b :: rest, Sound c) :
    ∀ c ∈ b :: rest, key (rest.foldl f b) ≤ key c := by
  induction rest generalizing b with
  | nil =>
    intro c hc
    rw [List.mem_singleton.mp hc]
    exact le_refl _
  | cons d rest ih =>
    obtain ⟨hb, hd, hrest⟩ : Sound b ∧ Sound d ∧ ∀ c ∈ rest, Sound c := by
      rwa [List.forall_mem_cons, List.forall_mem_cons] at hsound
    -- the better one of the first two stands for both of them
    have hbest : Sound (f b d) ∧ key (f b d) ≤ key b ∧ key (f b d) ≤ key d := by
      rw [hf b d hb hd]
      split
      · rename_i hlt
        exact ⟨hb, le_refl _, hlt.le⟩
      · rename_i hge
        exact ⟨hd, not_lt.mp hge, le_refl _⟩
    obtain ⟨hfirst, hothers⟩ := List.forall_mem_cons.mp
      (ih (f b d) (List.forall_mem_cons.mpr ⟨hbest.1, hrest⟩))
    rw [List.foldl_cons, List.forall_mem_cons, List.forall_mem_cons]
    exact ⟨hfirst.trans hbest.2.1, hfirst.trans hbest.2.2, hothers⟩

end Choice

/-! ## Section 2: The lowest orientation -/

variable {allowed : List Rotation} {r s : Rotation}

theorem eq_of_degrees (h : r.degrees = s.degrees) : r = s := by
  cases r <;> cases s <;> first | rfl | cases h

theorem lowest_mem (h : allowed ≠ []) : lowest allowed ∈ allowed := by
  cases allowed with
  | nil => exact absurd rfl h
  | cons r rest =>
    apply foldl_mem
    intro a b
    by_cases hlt : b.degrees < a.degrees <;> simp [hlt]

theorem lowest_le (hr : r ∈ allowed) : (lowest allowed).degrees ≤ r.degrees := by
  cases allowed with
  | nil => cases hr
  | cons first rest =>
    refine foldl_le degrees (fun _ => True) ?_ first rest (fun _ _ => trivial) r hr
    intro a b _ _
    split
    · rename_i hlt
      rw [if_neg hlt.not_gt]
    · rename_i hge
      split
      · rfl
      · rename_i hge'
        exact eq_of_degrees (le_antisymm (not_lt.mp hge) (not_lt.mp hge'))

/-- Snapping ends at an allowed orientation, whatever the angle. -/
theorem snap_mem {α : Type} [Coordinate α] (angle : α) (h : allowed ≠ []) :
    snap angle allowed ∈ allowed := by
  unfold snap
  by_cases hfinite : Scalar.isFinite angle = true
  · rw [if_pos hfinite]
    cases allowed with
    | nil => exact absurd rfl h
    | cons r rest =>
      -- the winner is one of the orientations that were paired with their distances
      have hwinner := foldl_mem (f := nearer (α := α))
        (fun a b => by unfold nearer; split <;> simp)
        (r, circularDistance (Coordinate.remEuclid angle ((360 : Nat) : α)) r)
        (rest.map fun r => (r, circularDistance (Coordinate.remEuclid angle ((360 : Nat) : α)) r))
      have hmap := List.mem_map_of_mem (f := Prod.fst) hwinner
      simpa [List.map_map, Function.comp_def] using hmap
  · rw [if_neg hfinite]
    exact lowest_mem h

/-! ## Section 3: Distances around the circle -/

section Distances

variable {x a : Single}

theorem toRat_fullTurn : ((360 : Nat) : Single).toRat = 360 := by
  rw [Single.toRat_of_ofSingle ofSingle_fullTurn]
  norm_num

theorem isFinite_fullTurn : ((360 : Nat) : Single).isFinite = true :=
  Single.isFinite_of_ofSingle ofSingle_fullTurn

theorem toRat_angle (r : Rotation) :
    (r.angle : Single).isFinite = true ∧ (r.angle : Single).toRat = r.degrees := by
  cases r <;> exact ⟨by decide +kernel, by decide +kernel⟩

/-- The angle in the circle that stands for an angle. -/
def reduced (angle : Single) : Single := Coordinate.remEuclid angle ((360 : Nat) : Single)

/-- The reduced angle lies in the circle, both ends included, and differs from the angle by full
    turns, up to the rounding of one sum. -/
theorem reduced_spec (hx : x.isFinite = true) :
    (reduced x).isFinite = true ∧ 0 ≤ (reduced x).toRat ∧ (reduced x).toRat ≤ 360 ∧
      ∃ k : Int, |(reduced x).toRat - (x.toRat - k * 360)| ≤ 1 / 2 ^ 15 := by
  have hturn := toRat_fullTurn
  obtain ⟨hfinite, hbound, k, hk⟩ := Single.toRat_remainder hx isFinite_fullTurn
    (by rw [hturn]; norm_num)
  rw [hturn] at hbound hk
  obtain ⟨hlow, hhigh⟩ := abs_lt.mp hbound
  have hreduced : reduced x =
      if x.remainder ((360 : Nat) : Single) < ((0 : Nat) : Single) then
        x.remainder ((360 : Nat) : Single) + ((360 : Nat) : Single).abs
      else x.remainder ((360 : Nat) : Single) := rfl
  have habs : ((360 : Nat) : Single).abs = ((360 : Nat) : Single) := rfl
  rw [hreduced, habs]
  simp only [Single.lt_iff hfinite Single.isFinite_zero, Single.toRat_zero]
  generalize x.remainder ((360 : Nat) : Single) = rest at hfinite hlow hhigh hk
  split
  · rename_i hneg
    have hsum : |rest.toRat + 360| ≤ 360 := by
      rw [abs_of_nonneg (by linarith)]
      linarith
    have hround := Single.add_roundsTo hfinite isFinite_fullTurn (by
      rw [hturn]
      exact hsum.trans (by norm_num))
    have hnonneg := hround.ge Single.isFinite_zero (by rw [hturn, Single.toRat_zero]; linarith)
    have hle := hround.le isFinite_fullTurn (by rw [hturn]; linarith)
    have herror := hround.abs_sub_le
    rw [hturn] at herror hle
    rw [Single.toRat_zero] at hnonneg
    refine ⟨hround.finite, hnonneg, hle, k - 1, ?_⟩
    have hexact : x.toRat - (k - 1 : Int) * 360 = rest.toRat + 360 := by
      rw [hk]
      push_cast
      ring
    rw [hexact]
    linarith
  · rename_i hnonneg
    refine ⟨hfinite, not_lt.mp hnonneg, hhigh.le, k, ?_⟩
    rw [hk, sub_self, abs_zero]
    norm_num

/-- The way around the circle for a difference of angles of at most a full turn. -/
def around (t : Rat) : Rat := min |t| (360 - |t|)

/-- Full turns do not make it shorter. -/
theorem around_le {t : Rat} (ht : |t| ≤ 360) (k : Int) : around t ≤ |t + k * 360| := by
  obtain ⟨hlow, hhigh⟩ := abs_le.mp ht
  rcases lt_trichotomy k 0 with hneg | rfl | hpos
  · have hk : (k : Rat) ≤ -1 := by exact_mod_cast Int.le_sub_one_of_lt hneg
    refine (min_le_right _ _).trans ?_
    linarith [neg_abs_le (t + k * 360), le_abs_self t]
  · rw [Int.cast_zero, zero_mul, add_zero]
    exact min_le_left _ _
  · have hk : (1 : Rat) ≤ k := by exact_mod_cast hpos
    refine (min_le_right _ _).trans ?_
    linarith [le_abs_self (t + k * 360), neg_abs_le t]

/-- It is the difference itself, or that after one full turn. -/
theorem exists_around_eq {t : Rat} (ht : |t| ≤ 360) : ∃ k : Int, around t = |t + k * 360| := by
  obtain ⟨hlow, hhigh⟩ := abs_le.mp ht
  unfold around
  rcases min_choice |t| (360 - |t|) with h | h
  · exact ⟨0, by rw [h, Int.cast_zero, zero_mul, add_zero]⟩
  · rw [h]
    rcases le_total 0 t with hsign | hsign
    · refine ⟨-1, ?_⟩
      rw [abs_of_nonneg hsign, abs_of_nonpos (by push_cast; linarith)]
      push_cast
      ring
    · refine ⟨1, ?_⟩
      rw [abs_of_nonpos hsign, abs_of_nonneg (by push_cast; linarith)]
      push_cast
      ring

/-- The distance around the circle, up to the rounding of two differences. -/
theorem circularDistance_spec (ha : a.isFinite = true) (hlow : 0 ≤ a.toRat) (hhigh : a.toRat ≤ 360)
    (r : Rotation) :
    |a.toRat - r.degrees| ≤ 360 ∧ (circularDistance a r).isFinite = true ∧
      |(circularDistance a r).toRat - around (a.toRat - r.degrees)| ≤ 1 / 2 ^ 14 := by
  obtain ⟨hr, hvalue⟩ := toRat_angle r
  have hdistance : |a.toRat - r.degrees| ≤ 360 := by
    have hdegrees : (r.degrees : Rat) ≤ 360 := by
      cases r <;> norm_num [degrees]
    have hdegrees' : (0 : Rat) ≤ r.degrees := Nat.cast_nonneg _
    rw [abs_le]
    constructor <;> linarith
  refine ⟨hdistance, ?_⟩
  have hsub := Single.sub_roundsTo hr ha (by
    rw [hvalue, abs_sub_comm]
    exact hdistance.trans (by norm_num))
  rw [hvalue] at hsub
  have hfinite := hsub.finite
  rw [← Single.isFinite_abs] at hfinite
  -- without its sign the difference is as precise as with it
  have hclose := (abs_abs_sub_abs_le _ _).trans hsub.abs_sub_le
  rw [← Single.toRat_abs, abs_sub_comm (r.degrees : Rat)] at hclose
  have hmin : circularDistance a r = Scalar.min ((r.angle : Single) - a).abs
    (((360 : Nat) : Single) - ((r.angle : Single) - a).abs) := rfl
  rw [hmin]
  unfold around
  generalize ((r.angle : Single) - a).abs = d at hfinite hclose ⊢
  generalize ht : |a.toRat - r.degrees| = t at hdistance hclose ⊢
  have hnonneg : 0 ≤ t := ht ▸ abs_nonneg _
  have hclose : |d.toRat - t| ≤ 1 / 2 ^ 15 := by
    refine hclose.trans ?_
    linarith
  obtain ⟨hclose_low, hclose_high⟩ := abs_le.mp hclose
  have hremaining : |360 - d.toRat| ≤ 361 := by
    rw [abs_le]
    constructor <;> linarith
  have hrest := Single.sub_roundsTo (y := d) isFinite_fullTurn hfinite (by
    rw [toRat_fullTurn]
    exact hremaining.trans (by norm_num))
  have herror := hrest.abs_sub_le
  rw [toRat_fullTurn] at herror
  obtain ⟨herror_low, herror_high⟩ := abs_le.mp herror
  obtain ⟨hminimum, hvalue⟩ := Single.toRat_min hfinite hrest.finite
  refine ⟨hminimum, ?_⟩
  rw [hvalue]
  refine (abs_min_sub_min_le_max _ _ _ _).trans (max_le ?_ ?_)
  · exact hclose.trans (by norm_num)
  · rw [abs_le]
    constructor <;> linarith

/-- The distance of an orientation from an angle, as the machine finds it. -/
def distance (angle : Single) (r : Rotation) : Single := circularDistance (reduced angle) r

/-- It is the distance to the nearest one of all angles at which the orientation comes up, up to
    rounding. -/
theorem distance_spec (hx : x.isFinite = true) (r : Rotation) :
    (distance x r).isFinite = true ∧
      (∃ k : Int, |x.toRat - (r.degrees + k * 360)| - 1 / 2 ^ 13 ≤ (distance x r).toRat) ∧
      ∀ k : Int, (distance x r).toRat ≤ |x.toRat - (r.degrees + k * 360)| + 1 / 2 ^ 13 := by
  obtain ⟨ha, hlow, hhigh, turns, hturns⟩ := reduced_spec hx
  obtain ⟨hbound, hfinite, hclose⟩ := circularDistance_spec ha hlow hhigh r
  rw [← distance] at hfinite hclose
  obtain ⟨hclose_low, hclose_high⟩ := abs_le.mp hclose
  -- the reduced angle stands for the angle
  have hstands : ∀ k : Int, abs (|x.toRat - (r.degrees + (turns - k : Int) * 360)| -
      |(reduced x).toRat - r.degrees + k * 360|) ≤ 1 / 2 ^ 15 := by
    intro k
    refine (abs_abs_sub_abs_le _ _).trans ?_
    rw [abs_sub_comm] at hturns
    refine (le_of_eq ?_).trans hturns
    push_cast
    ring_nf
  refine ⟨hfinite, ?_, ?_⟩
  · obtain ⟨k, hk⟩ := exists_around_eq hbound
    obtain ⟨-, hhigh⟩ := abs_le.mp (hstands k)
    refine ⟨turns - k, ?_⟩
    linarith
  · intro k
    have hle := around_le hbound (turns - k)
    obtain ⟨hlow, -⟩ := abs_le.mp (hstands (turns - k))
    rw [sub_sub_cancel] at hlow
    linarith

end Distances

/-! ## Section 4: The nearest orientation -/

/-- What snapping looks for: an allowed orientation such that no other one is nearer to the angle,
    nor as near and lower. -/
structure Snapped (angle : Single) (allowed : List Rotation) (r : Rotation) : Prop where
  /-- It is allowed. -/
  mem : r ∈ allowed
  /-- No allowed one is nearer. -/
  distance_le : ∀ s ∈ allowed, distance angle r ≤ distance angle s
  /-- No lower one is as near. -/
  lowest : ∀ s ∈ allowed, (distance angle s == distance angle r) = true → r.degrees ≤ s.degrees

/-- The choice is made among the orientations with their distances. -/
def candidate (angle : Single) (r : Rotation) : Rotation × Single := (r, distance angle r)

/-- What the choice goes by: the distance, then the angle. -/
def key (p : Rotation × Single) : Rat ×ₗ Nat := toLex (p.2.toRat, p.1.degrees)

/-- One choice takes the lesser one of two. -/
theorem nearer_eq {p q : Rotation × Single} (hp : p.2.isFinite = true) (hq : q.2.isFinite = true) :
    nearer p q = if key p < key q then p else q := by
  unfold nearer key
  simp only [Single.lt_iff hp hq, Single.beq_iff_toRat hp hq, Prod.Lex.toLex_lt_toLex]

variable {angle : Single}

/-- The choices end at a candidate, with its own distance. -/
theorem candidate_snap (hx : angle.isFinite = true) (r : Rotation) (rest : List Rotation) :
    candidate angle (snap angle (r :: rest)) =
      (rest.map (candidate angle)).foldl nearer (candidate angle r) := by
  have hchoice : ∀ p q : Rotation × Single, nearer p q = p ∨ nearer p q = q := by
    intro p q
    unfold nearer
    split
    · exact .inl rfl
    · exact .inr rfl
  have hsnap : snap angle (r :: rest) =
      ((rest.map (candidate angle)).foldl nearer (candidate angle r)).1 := by
    unfold snap
    exact if_pos hx
  have hwinner := foldl_mem hchoice (candidate angle r) (rest.map (candidate angle))
  rw [← List.map_cons] at hwinner
  obtain ⟨s, -, hs⟩ := List.mem_map.mp hwinner
  rw [hsnap, ← hs]
  rfl

/-- All choices together take the least candidate. -/
theorem key_snap_le (hx : angle.isFinite = true) (hr : r ∈ allowed) :
    key (candidate angle (snap angle allowed)) ≤ key (candidate angle r) := by
  cases allowed with
  | nil => cases hr
  | cons first rest =>
    rw [candidate_snap hx]
    refine foldl_le key (fun p => p.2.isFinite = true) (fun p q => nearer_eq) _ _ ?_ _ ?_
    · rw [← List.map_cons]
      intro p hp
      obtain ⟨s, -, rfl⟩ := List.mem_map.mp hp
      exact (distance_spec hx s).1
    · rw [← List.map_cons]
      exact List.mem_map_of_mem hr

theorem snapped_snap (hx : angle.isFinite = true) (hne : allowed ≠ []) :
    Snapped angle allowed (snap angle allowed) := by
  refine ⟨snap_mem angle hne, ?_, ?_⟩
  all_goals
    intro s hs
    have hle := key_snap_le hx hs
    unfold key candidate at hle
    rw [Prod.Lex.toLex_le_toLex] at hle
  · rw [Single.le_iff (distance_spec hx _).1 (distance_spec hx s).1]
    rcases hle with hlt | ⟨heq, -⟩
    · exact hlt.le
    · exact heq.le
  · intro htie
    rw [Single.beq_iff_toRat (distance_spec hx s).1 (distance_spec hx _).1] at htie
    rcases hle with hlt | ⟨-, hdegrees⟩
    · exact absurd htie hlt.ne'
    · exact hdegrees

/-- There is only one such orientation. -/
theorem Snapped.unique (hx : angle.isFinite = true) (hr : Snapped angle allowed r)
    (hs : Snapped angle allowed s) : r = s := by
  have hfinite := (distance_spec hx r).1
  have hfinite' := (distance_spec hx s).1
  have hle := hr.distance_le s hs.mem
  have hge := hs.distance_le r hr.mem
  rw [Single.le_iff hfinite hfinite'] at hle
  rw [Single.le_iff hfinite' hfinite] at hge
  have htie := le_antisymm hle hge
  apply eq_of_degrees
  apply le_antisymm
  · exact hr.lowest s hs.mem ((Single.beq_iff_toRat hfinite' hfinite).mpr htie.symm)
  · exact hs.lowest r hr.mem ((Single.beq_iff_toRat hfinite hfinite').mpr htie)

/-- What is not an angle is taken to the lowest allowed orientation. -/
theorem snap_of_not_finite (hx : angle.isFinite = false) : snap angle allowed = lowest allowed := by
  unfold snap
  rw [show Scalar.isFinite angle = false from hx, if_neg Bool.false_ne_true]

/-- Only the members of the list matter. -/
theorem snap_congr {allowed' : List Rotation} (hne : allowed ≠ [])
    (hmem : ∀ r, r ∈ allowed' ↔ r ∈ allowed) : snap angle allowed' = snap angle allowed := by
  have hne' : allowed' ≠ [] := by
    rintro rfl
    exact List.not_mem_nil ((hmem _).mpr (lowest_mem hne))
  cases hx : angle.isFinite with
  | true =>
    obtain ⟨hmem', hdistance, hlowest⟩ := snapped_snap hx hne'
    refine Snapped.unique hx ⟨(hmem _).mp hmem', ?_, ?_⟩ (snapped_snap hx hne)
    · exact fun s hs => hdistance s ((hmem s).mpr hs)
    · exact fun s hs => hlowest s ((hmem s).mpr hs)
  | false =>
    rw [snap_of_not_finite hx, snap_of_not_finite hx]
    apply eq_of_degrees
    apply le_antisymm
    · exact lowest_le ((hmem _).mpr (lowest_mem hne))
    · exact lowest_le ((hmem _).mp (lowest_mem hne'))

/-- Snapping takes an angle to the allowed orientation that is nearest to it, to the lowest one of
    several, and what is not an angle to the lowest of all. The distances that are compared are
    those to the nearest angle at which an orientation comes up, to within `1 / 2 ^ 13` of a
    degree. Neither the order of the list nor repetitions in it matter. -/
theorem snap_nearest (angle : Single) (hne : allowed ≠ []) :
    (angle.isFinite = true →
      (∀ r, snap angle allowed = r ↔ Snapped angle allowed r) ∧
        ∀ r, (distance angle r).isFinite = true ∧
          (∃ k : Int, |angle.toRat - (r.degrees + k * 360)| - 1 / 2 ^ 13 ≤
            (distance angle r).toRat) ∧
          ∀ k : Int, (distance angle r).toRat ≤
            |angle.toRat - (r.degrees + k * 360)| + 1 / 2 ^ 13) ∧
      (angle.isFinite = false → snap angle allowed ∈ allowed ∧
        ∀ r ∈ allowed, (snap angle allowed).degrees ≤ r.degrees) ∧
      ∀ allowed', (∀ r, r ∈ allowed' ↔ r ∈ allowed) →
        snap angle allowed' = snap angle allowed := by
  refine ⟨fun hx => ⟨fun r => ?_, distance_spec hx⟩, fun hx => ?_, fun _ => snap_congr hne⟩
  · constructor
    · rintro rfl
      exact snapped_snap hx hne
    · exact fun hr => (snapped_snap hx hne).unique hx hr
  · refine ⟨snap_mem angle hne, fun r hr => ?_⟩
    rw [snap_of_not_finite hx]
    exact lowest_le hr

/-- The least negative angle is reduced to a full turn, from which a quarter turn is as near as
    three quarters, and lower. -/
theorem snap_nearest_fullTurn :
    [deg270, deg90, deg270] ≠ [] ∧ reduced ⟨0x80000001⟩ = ((360 : Nat) : Single) ∧
      Snapped ⟨0x80000001⟩ [deg270, deg90, deg270] deg90 :=
  ⟨nofun, by decide +kernel,
    (((snap_nearest ⟨0x80000001⟩ (nofun : [deg270, deg90, deg270] ≠ [])).1 (by decide)).1 deg90).mp
      (by decide +kernel)⟩

end FoamTray.Rotation
