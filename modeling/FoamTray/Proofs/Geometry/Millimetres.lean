import FoamTray.Geometry.Zoom
import FoamTray.Proofs.Numeric.Exact

/-! # Millimetres

    What a length on the workspace stands for is a rational number of millimetres. The machine
    measures it with a few rounded operations, and every change of the zoom rounds it again.

    * `Zoom.Moderate` : zooms at which neither the largest nor the least numbers matter.
    * `measured_length`, `measured_position` : how far off a measured length is.
    * `millimetres_stretched` : what a change of the zoom adds to that.
    * `ClearOfHalf` : values of which this does not change the nearest whole number.
    * `unit_position` : at unit zoom whole millimetres are told apart.
-/

namespace FoamTray

/-- A share of a rounded value is off by a share of the value, or of the least number. -/
theorem Single.RoundsTo.abs_div_sub_le {x : Single} {q s : Rat} (h : Single.RoundsTo x q)
    (hs : 1 / 2 ^ 40 ≤ s) : |x.toRat / s - q / s| ≤ |q / s| / 2 ^ 24 + 1 / 2 ^ 110 := by
  have hpos : 0 < s := lt_of_lt_of_le (by positivity) hs
  have hleast : (1 : Rat) / 2 ^ 150 / s ≤ 1 / 2 ^ 110 := by
    rw [div_le_iff₀ hpos]
    linarith
  rw [← sub_div, abs_div, abs_div, abs_of_pos hpos]
  calc |x.toRat - q| / s ≤ (|q| / 2 ^ 24 + 1 / 2 ^ 150) / s :=
        div_le_div_of_nonneg_right h.abs_sub_le hpos.le
    _ = |q| / s / 2 ^ 24 + 1 / 2 ^ 150 / s := by ring
    _ ≤ |q| / s / 2 ^ 24 + 1 / 2 ^ 110 := by linarith

namespace Zoom

/-! ## Section 1: Zooms -/

theorem finite_factor (z : Zoom Single) : z.factor.isFinite = true :=
  (Bool.and_eq_true_iff.mp z.valid).1

theorem factor_pos (z : Zoom Single) : 0 < z.factor.toRat := by
  have hpos : ((0 : Nat) : Single) < z.factor :=
    of_decide_eq_true (Bool.and_eq_true_iff.mp z.valid).2
  rw [Single.lt_iff Single.isFinite_zero z.finite_factor, Single.toRat_zero] at hpos
  exact hpos

/-- The millimetres that a length of the workspace stands for. -/
def millimetres (z : Zoom Single) (x : Single) : Rat := x.toRat / z.factor.toRat

/-- A zoom that is neither very large nor very small. -/
structure Moderate (z : Zoom Single) : Prop where
  low : 1 / 2 ^ 40 ≤ z.factor.toRat
  high : z.factor.toRat ≤ 2 ^ 40

instance (z : Zoom Single) : Decidable z.Moderate :=
  decidable_of_iff (1 / 2 ^ 40 ≤ z.factor.toRat ∧ z.factor.toRat ≤ 2 ^ 40)
    ⟨fun ⟨h₁, h₂⟩ => ⟨h₁, h₂⟩, fun ⟨h₁, h₂⟩ => ⟨h₁, h₂⟩⟩

theorem toRat_factor_unit : (unit : Zoom Single).factor.toRat = 1 := by
  have hone : BinaryValue.ofSingle (unit : Zoom Single).factor = .finite false (2 ^ 23) (-23) := rfl
  unfold Single.toRat
  rw [hone]
  norm_num [BinaryValue.toRat]

theorem moderate_unit : (unit : Zoom Single).Moderate := by
  constructor <;> rw [toRat_factor_unit] <;> norm_num

/-- A zoom between moderate bounds is moderate. -/
theorem moderate_of_le {z : Zoom Single} {low high : Single} (hlow : low.isFinite = true)
    (hhigh : high.isFinite = true) (hlow' : 1 / 2 ^ 40 ≤ low.toRat) (hhigh' : high.toRat ≤ 2 ^ 40)
    (h : low ≤ z.factor ∧ z.factor ≤ high) : z.Moderate := by
  obtain ⟨h₁, h₂⟩ := h
  rw [Single.le_iff hlow z.finite_factor] at h₁
  rw [Single.le_iff z.finite_factor hhigh] at h₂
  exact ⟨le_trans hlow' h₁, le_trans h₂ hhigh'⟩

variable {z : Zoom Single} {x p : Single}

theorem millimetres_mul (z : Zoom Single) (x : Single) :
    z.millimetres x * z.factor.toRat = x.toRat :=
  div_mul_cancel₀ _ z.factor_pos.ne'

/-- A length of a moderate zoom is not too long for the machine. -/
theorem Moderate.abs_toRat_le (hz : z.Moderate) {bound : Rat} (h : |z.millimetres x| ≤ bound) :
    |x.toRat| ≤ bound * 2 ^ 40 := by
  rw [← z.millimetres_mul x, abs_mul, abs_of_pos z.factor_pos]
  exact mul_le_mul h hz.high z.factor_pos.le (le_trans (abs_nonneg _) h)

/-! ## Section 2: Measuring -/

/-- A length as the machine measures it. -/
theorem measured_length (hx : x.isFinite = true) (hbound : |z.millimetres x| ≤ 2 ^ 20) :
    (z.toMillimetres x).isFinite = true ∧
      |(z.toMillimetres x).toRat - z.millimetres x| ≤
        |z.millimetres x| / 2 ^ 22 + 1 / 2 ^ 100 := by
  have hround : Single.RoundsTo (z.toMillimetres x) (z.millimetres x) :=
    Single.div_roundsTo hx z.finite_factor z.factor_pos.ne' (le_trans hbound (by norm_num))
  refine ⟨hround.finite, le_trans hround.abs_sub_le ?_⟩
  have hnonneg := abs_nonneg (z.millimetres x)
  linarith

/-- A position as the machine measures it from a corner: the corner, the difference and the
    quotient are rounded. -/
theorem measured_position (hz : z.Moderate) {corner : Single} (hp : p.isFinite = true)
    (hc : corner.isFinite = true) (hpbound : |z.millimetres p| ≤ 2 ^ 20)
    (hcbound : |corner.toRat| ≤ 2 ^ 20) :
    (z.toMillimetres (p - z.toWorkspace corner)).isFinite = true ∧
      |(z.toMillimetres (p - z.toWorkspace corner)).toRat - (z.millimetres p - corner.toRat)| ≤
        (|z.millimetres p| + |corner.toRat|) / 2 ^ 22 + 1 / 2 ^ 100 := by
  have hs := z.factor_pos
  -- the corner on the workspace
  have ho : Single.RoundsTo (z.toWorkspace corner) (corner.toRat * z.factor.toRat) := by
    refine Single.mul_roundsTo hc z.finite_factor ?_
    rw [abs_mul, abs_of_pos hs]
    calc |corner.toRat| * z.factor.toRat ≤ 2 ^ 20 * 2 ^ 40 :=
          mul_le_mul hcbound hz.high hs.le (by positivity)
      _ ≤ 2 ^ 127 := by norm_num
  have hoerror := ho.abs_div_sub_le hz.low
  rw [mul_div_cancel_right₀ _ hs.ne'] at hoerror
  obtain ⟨o, ho'⟩ : ∃ o, o = z.toWorkspace corner := ⟨_, rfl⟩
  rw [← ho'] at ho hoerror ⊢
  have hosize : |z.millimetres o| ≤ |corner.toRat| + |z.millimetres o - corner.toRat| := by
    rw [add_comm, ← sub_le_iff_le_add]
    exact abs_sub_abs_le_abs_sub _ _
  have hoerror' : |z.millimetres o - corner.toRat| ≤ |corner.toRat| / 2 ^ 24 + 1 / 2 ^ 110 :=
    hoerror
  -- the difference
  have hd : Single.RoundsTo (p - o) (p.toRat - o.toRat) := by
    refine Single.sub_roundsTo hp ho.finite ?_
    have hp' := hz.abs_toRat_le hpbound
    have ho'' : |o.toRat| ≤ 2 ^ 21 * 2 ^ 40 := by
      refine hz.abs_toRat_le ?_
      linarith
    have htriangle := abs_sub p.toRat o.toRat
    linarith
  have hderror := hd.abs_div_sub_le hz.low
  rw [sub_div] at hderror
  obtain ⟨d, hd'⟩ : ∃ d, d = p - o := ⟨_, rfl⟩
  rw [← hd'] at hd hderror ⊢
  have hderror' : |z.millimetres d - (z.millimetres p - z.millimetres o)| ≤
      |z.millimetres p - z.millimetres o| / 2 ^ 24 + 1 / 2 ^ 110 := hderror
  have hdsize : |z.millimetres p - z.millimetres o| ≤ |z.millimetres p| + |z.millimetres o| :=
    abs_sub _ _
  have hdsize' : |z.millimetres d| ≤ |z.millimetres p - z.millimetres o| +
      |z.millimetres d - (z.millimetres p - z.millimetres o)| := by
    rw [add_comm, ← sub_le_iff_le_add]
    exact abs_sub_abs_le_abs_sub _ _
  -- the quotient
  have hq : Single.RoundsTo (z.toMillimetres d) (z.millimetres d) := by
    refine Single.div_roundsTo hd.finite z.finite_factor hs.ne' ?_
    show |z.millimetres d| ≤ 2 ^ 127
    linarith
  have hqerror := hq.abs_sub_le
  refine ⟨hq.finite, ?_⟩
  -- the three errors add up
  have hsplit : (z.toMillimetres d).toRat - (z.millimetres p - corner.toRat) =
      ((z.toMillimetres d).toRat - z.millimetres d) +
        (z.millimetres d - (z.millimetres p - z.millimetres o)) -
        (z.millimetres o - corner.toRat) := by ring
  have htriangle := abs_sub ((z.toMillimetres d).toRat - z.millimetres d +
    (z.millimetres d - (z.millimetres p - z.millimetres o))) (z.millimetres o - corner.toRat)
  have htriangle' := abs_add_le ((z.toMillimetres d).toRat - z.millimetres d)
    (z.millimetres d - (z.millimetres p - z.millimetres o))
  have hp0 := abs_nonneg (z.millimetres p)
  have hc0 := abs_nonneg corner.toRat
  rw [hsplit]
  linarith

/-! ## Section 3: Stretching -/

/-- The machine's ratio of two zooms, as a multiple of the exact one. -/
theorem ratioTo_error {t : Zoom Single} (hz : z.Moderate) (ht : t.Moderate) :
    (z.ratioTo t).isFinite = true ∧
      |(z.ratioTo t).toRat * (z.factor.toRat / t.factor.toRat) - 1| ≤ 1 / 2 ^ 24 + 1 / 2 ^ 70 := by
  have hs := z.factor_pos
  have ht' := t.factor_pos
  have hlarge : ∀ {a b : Zoom Single}, a.Moderate → b.Moderate →
      |a.factor.toRat / b.factor.toRat| ≤ 2 ^ 80 := by
    intro a b ha hb
    rw [abs_of_pos (div_pos a.factor_pos b.factor_pos), div_le_iff₀ b.factor_pos]
    have hb' := hb.low
    have ha' := ha.high
    linarith
  have hr : Single.RoundsTo (z.ratioTo t) (t.factor.toRat / z.factor.toRat) :=
    Single.div_roundsTo t.finite_factor z.finite_factor hs.ne'
      (le_trans (hlarge ht hz) (by norm_num))
  refine ⟨hr.finite, ?_⟩
  have hpos : 0 < z.factor.toRat / t.factor.toRat := div_pos hs ht'
  have hinverse : t.factor.toRat / z.factor.toRat * (z.factor.toRat / t.factor.toRat) = 1 := by
    field_simp
  have hsplit : (z.ratioTo t).toRat * (z.factor.toRat / t.factor.toRat) - 1 =
      ((z.ratioTo t).toRat - t.factor.toRat / z.factor.toRat) *
        (z.factor.toRat / t.factor.toRat) := by
    rw [sub_mul, hinverse]
  have hbound := hlarge hz ht
  rw [abs_of_pos hpos] at hbound
  rw [hsplit, abs_mul, abs_of_pos hpos]
  have herror := hr.abs_sub_le
  rw [abs_of_pos (div_pos ht' hs)] at herror
  calc |(z.ratioTo t).toRat - t.factor.toRat / z.factor.toRat| *
        (z.factor.toRat / t.factor.toRat)
      ≤ (t.factor.toRat / z.factor.toRat / 2 ^ 24 + 1 / 2 ^ 150) *
        (z.factor.toRat / t.factor.toRat) := mul_le_mul_of_nonneg_right herror hpos.le
    _ = 1 / 2 ^ 24 + z.factor.toRat / t.factor.toRat / 2 ^ 150 := by
        rw [add_mul, div_mul_eq_mul_div, hinverse]
        ring
    _ ≤ 1 / 2 ^ 24 + 1 / 2 ^ 70 := by linarith

/-- A change of the zoom moves what a length stands for by two roundings. -/
theorem millimetres_stretched {t : Zoom Single} (hz : z.Moderate) (ht : t.Moderate)
    (hx : x.isFinite = true) (hbound : |z.millimetres x| ≤ 2 ^ 20) :
    (x * z.ratioTo t).isFinite = true ∧
      |t.millimetres (x * z.ratioTo t) - z.millimetres x| ≤
        |z.millimetres x| / 2 ^ 23 + 1 / 2 ^ 24 := by
  obtain ⟨hr, hshare⟩ := ratioTo_error hz ht
  obtain ⟨r, hr'⟩ : ∃ r, r = z.ratioTo t := ⟨_, rfl⟩
  rw [← hr'] at hr hshare ⊢
  obtain ⟨g, hg⟩ : ∃ g, g = r.toRat * (z.factor.toRat / t.factor.toRat) - 1 := ⟨_, rfl⟩
  rw [← hg] at hshare
  -- the exact product, seen at the new zoom
  have hproduct : x.toRat * r.toRat / t.factor.toRat =
      z.millimetres x + z.millimetres x * g := by
    have hr'' : r.toRat * (z.factor.toRat / t.factor.toRat) = 1 + g := by
      rw [hg]
      ring
    calc x.toRat * r.toRat / t.factor.toRat
        = z.millimetres x * (r.toRat * (z.factor.toRat / t.factor.toRat)) := by
          rw [← z.millimetres_mul x]
          ring
      _ = z.millimetres x + z.millimetres x * g := by
          rw [hr'']
          ring
  have hmoved : |z.millimetres x * g| ≤ |z.millimetres x| * (1 / 2 ^ 24 + 1 / 2 ^ 70) := by
    rw [abs_mul]
    exact mul_le_mul_of_nonneg_left hshare (abs_nonneg _)
  have hsize : |z.millimetres x + z.millimetres x * g| ≤
      |z.millimetres x| + |z.millimetres x * g| := abs_add_le _ _
  have hy : Single.RoundsTo (x * r) (x.toRat * r.toRat) := by
    refine Single.mul_roundsTo hx hr ?_
    rw [← div_mul_cancel₀ (x.toRat * r.toRat) t.factor_pos.ne', hproduct, abs_mul,
      abs_of_pos t.factor_pos]
    calc |z.millimetres x + z.millimetres x * g| * t.factor.toRat ≤ 2 ^ 21 * 2 ^ 40 :=
          mul_le_mul (by linarith) ht.high t.factor_pos.le (by positivity)
      _ ≤ 2 ^ 127 := by norm_num
  have herror := hy.abs_div_sub_le ht.low
  rw [hproduct] at herror
  refine ⟨hy.finite, ?_⟩
  have htriangle := abs_add_le
    (t.millimetres (x * r) - (z.millimetres x + z.millimetres x * g)) (z.millimetres x * g)
  have hsplit : t.millimetres (x * r) - (z.millimetres x + z.millimetres x * g) +
      z.millimetres x * g = t.millimetres (x * r) - z.millimetres x := by ring
  have herror' : |t.millimetres (x * r) - (z.millimetres x + z.millimetres x * g)| ≤
      |z.millimetres x + z.millimetres x * g| / 2 ^ 24 + 1 / 2 ^ 110 := herror
  have hnonneg := abs_nonneg (z.millimetres x)
  rw [hsplit] at htriangle
  linarith

end Zoom

/-! ## Section 4: Whole millimetres -/

/-- A value that is away from the middle between two whole numbers by more than a margin. -/
def ClearOfHalf (margin q : Rat) : Prop := |q - rationalRound q| < 1 / 2 - margin

instance (margin q : Rat) : Decidable (ClearOfHalf margin q) :=
  inferInstanceAs (Decidable (_ < _))

theorem ClearOfHalf.margin_lt {margin q : Rat} (h : ClearOfHalf margin q) : margin < 1 / 2 := by
  have hlt : |q - rationalRound q| < 1 / 2 - margin := h
  have hnonneg := abs_nonneg (q - rationalRound q)
  linarith

/-- What is measured up to the margin is rounded as the exact value is. -/
theorem ClearOfHalf.round_eq {margin q : Rat} {c : Single} (h : ClearOfHalf margin q)
    (hc : c.isFinite = true) (hclose : |c.toRat - q| ≤ margin) (hq : |q| ≤ 2 ^ 22) :
    c.round.isFinite = true ∧ c.round.toRat = rationalRound q := by
  have hmargin := h.margin_lt
  have hsize := abs_sub_abs_le_abs_sub c.toRat q
  obtain ⟨hfinite, hround⟩ := Single.toRat_round hc (by linarith)
  refine ⟨hfinite, hround.trans ?_⟩
  obtain ⟨k, hk, -⟩ := exists_rationalRound_eq q
  unfold ClearOfHalf at h
  rw [hk] at h ⊢
  apply rationalRound_eq
  have htriangle := abs_sub_le c.toRat q k
  linarith

namespace Zoom

/-- A finite length of no more than so many millimetres. -/
def Spans (z : Zoom Single) (bound : Rat) (x : Single) : Prop :=
  x.isFinite = true ∧ |z.millimetres x| ≤ bound

instance (z : Zoom Single) (bound : Rat) (x : Single) : Decidable (z.Spans bound x) :=
  inferInstanceAs (Decidable (_ ∧ _))

variable {z : Zoom Single} {x p : Single} {bound drift q : Rat}

/-- A length that drifted is rounded as it was, if it was clear of the halves. -/
theorem rounded_length (hx : x.isFinite = true) (hq : |q| ≤ bound)
    (hdrift : |z.millimetres x - q| ≤ drift)
    (hclear : ClearOfHalf (drift + (bound + 1) / 2 ^ 21) q) :
    (z.toMillimetres x).round.isFinite = true ∧
      (z.toMillimetres x).round.toRat = rationalRound q := by
  have hmargin := hclear.margin_lt
  have hnonneg := abs_nonneg (z.millimetres x - q)
  have hpos := abs_nonneg q
  have hsize := abs_sub_abs_le_abs_sub (z.millimetres x) q
  obtain ⟨hfinite, herror⟩ := measured_length hx (z := z) (by linarith)
  refine hclear.round_eq hfinite ?_ (by linarith)
  have htriangle := abs_sub_le (z.toMillimetres x).toRat (z.millimetres x) q
  linarith

/-- So is a position. -/
theorem rounded_position (hz : z.Moderate) {corner : Single} (hp : p.isFinite = true)
    (hc : corner.isFinite = true) (hcbound : |corner.toRat| ≤ bound) (hq : |q| ≤ bound)
    (hdrift : |z.millimetres p - q| ≤ drift)
    (hclear : ClearOfHalf (drift + (bound + 1) / 2 ^ 21) (q - corner.toRat)) :
    (z.toMillimetres (p - z.toWorkspace corner)).round.isFinite = true ∧
      (z.toMillimetres (p - z.toWorkspace corner)).round.toRat =
        rationalRound (q - corner.toRat) := by
  have hmargin := hclear.margin_lt
  have hnonneg := abs_nonneg (z.millimetres p - q)
  have hpos := abs_nonneg q
  have hsize := abs_sub_abs_le_abs_sub (z.millimetres p) q
  have hdistance := abs_sub q corner.toRat
  obtain ⟨hfinite, herror⟩ := measured_position hz hp hc (by linarith) (by linarith)
  refine hclear.round_eq hfinite ?_ (by linarith)
  have htriangle := abs_sub_le (z.toMillimetres (p - z.toWorkspace corner)).toRat
    (z.millimetres p - corner.toRat) (q - corner.toRat)
  rw [sub_sub_sub_cancel_right] at htriangle
  linarith

/-! ## Section 5: Unit zoom -/

theorem millimetres_unit (x : Single) : (unit : Zoom Single).millimetres x = x.toRat := by
  unfold millimetres
  rw [toRat_factor_unit, div_one]

/-- At unit zoom a length in millimetres is one of the workspace. -/
theorem toWorkspace_unit (hx : x.isFinite = true) (hbound : |x.toRat| ≤ 2 ^ 127) :
    ((unit : Zoom Single).toWorkspace x).isFinite = true ∧
      ((unit : Zoom Single).toWorkspace x).toRat = x.toRat := by
  have hproduct := Single.mul_roundsTo hx (unit : Zoom Single).finite_factor
  rw [toRat_factor_unit, mul_one] at hproduct
  exact ⟨(hproduct hbound).finite, (hproduct hbound).eq_toRat hx⟩

/-- At unit zoom a size is measured as it is. -/
theorem toMillimetres_unit (hx : x.isFinite = true) (hbound : |x.toRat| ≤ 2 ^ 127) :
    ((unit : Zoom Single).toMillimetres x).isFinite = true ∧
      ((unit : Zoom Single).toMillimetres x).toRat = x.toRat := by
  have hquotient := Single.div_roundsTo hx unit.finite_factor unit.factor_pos.ne'
  rw [toRat_factor_unit, div_one] at hquotient
  exact ⟨(hquotient hbound).finite, (hquotient hbound).eq_toRat hx⟩

/-- At unit zoom a distance from a corner is measured to less than half a millimetre. -/
theorem unit_position {corner : Single} (hc : corner.isFinite = true) (hx : x.isFinite = true)
    (hcbound : |corner.toRat| ≤ 2 ^ 18) (hxbound : |x.toRat| ≤ 2 ^ 18) :
    let c := (unit : Zoom Single).toMillimetres
      (unit.toWorkspace corner + x - unit.toWorkspace corner)
    c.isFinite = true ∧ |c.toRat - x.toRat| < 1 / 2 := by
  intro c
  obtain ⟨ho, hvalue⟩ := toWorkspace_unit hc (le_trans hcbound (by norm_num))
  have htriangle := abs_add_le corner.toRat x.toRat
  have hp : Single.RoundsTo (unit.toWorkspace corner + x) (corner.toRat + x.toRat) := by
    rw [← hvalue]
    apply Single.add_roundsTo ho hx
    rw [hvalue]
    linarith
  have hperror := hp.abs_sub_le
  have hpsize := abs_sub_abs_le_abs_sub (unit.toWorkspace corner + x).toRat
    (corner.toRat + x.toRat)
  obtain ⟨hfinite, herror⟩ := measured_position moderate_unit hp.finite hc
    (by rw [millimetres_unit]; linarith) (by linarith)
  refine ⟨hfinite, ?_⟩
  rw [millimetres_unit] at herror
  have hsum := abs_add_le (c.toRat - ((unit.toWorkspace corner + x).toRat - corner.toRat))
    ((unit.toWorkspace corner + x).toRat - (corner.toRat + x.toRat))
  rw [show c.toRat - ((unit.toWorkspace corner + x).toRat - corner.toRat) +
    ((unit.toWorkspace corner + x).toRat - (corner.toRat + x.toRat)) = c.toRat - x.toRat by ring]
    at hsum
  have herror' : |c.toRat - ((unit.toWorkspace corner + x).toRat - corner.toRat)| ≤
      (|(unit.toWorkspace corner + x).toRat| + |corner.toRat|) / 2 ^ 22 + 1 / 2 ^ 100 := herror
  linarith

end Zoom

end FoamTray
