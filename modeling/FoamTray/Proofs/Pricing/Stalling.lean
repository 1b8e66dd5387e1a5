import FoamTray.Pricing.Toolpath
import FoamTray.Proofs.Numeric.Double
import FoamTray.Proofs.Numeric.Exact
import FoamTray.Proofs.Settings
import Mathlib.Algebra.Order.Archimedean.Basic
import Mathlib.Data.Int.Log
import Mathlib.Logic.Function.Iterate

/-! # Toolpaths that do not end

    With machine numbers a turn can be too small to change anything. Half the diameter of a tool
    moves every positive number below a certain power of two, and is lost in that power. So the
    lower sides of a rectangle and the radius in a circle climb to the power and stay there, and
    the loop ends exactly if that is far enough for it.

    * `rect?_eq_none_iff`, `circle?_eq_none_iff` : the fuel is used up if there is always a next
      turn.
    * `StallsAt` : where a step is lost.
    * `StallsAt.climb`, `StallsAt.climb_reaches` : what is moved up gets there, and no farther.
    * `toolpaths_end_iff` : the pockets whose toolpath ends.
-/

namespace FoamTray.Toolpath

/-! ## Section 1: Loops -/

section Loops

variable {α : Type} [Scalar α]

/-- Whether a rectangle has an inside left along one of its sides, after so many turns. -/
def HasInside (tool side : α) (n : Nat) : Prop :=
  let step := tool / ((2 : Nat) : α)
  let start := step + ((1 : Nat) : α)
  (· + step)^[n] start < (· - step)^[n] (side - start)

/-- Whether a circle has another turn, after so many. -/
def HasTurn (tool radius : α) (n : Nat) : Prop :=
  let step := tool / ((2 : Nat) : α)
  (· + step)^[n] step ≤ radius - ((3 : Nat) : α) ∧ (· + step)^[n] step ≤ radius - step

/-- The turns of a rectangle use up the fuel if each of them has an inside. -/
theorem rectTurns_eq_none_iff (step : α) (fuel : Nat) (xMin yMin xMax yMax total : α) :
    rectTurns step fuel xMin yMin xMax yMax total = none ↔
      ∀ n < fuel, (· + step)^[n] xMin < (· - step)^[n] xMax ∧
        (· + step)^[n] yMin < (· - step)^[n] yMax := by
  induction fuel generalizing xMin yMin xMax yMax total with
  | zero => exact iff_of_true rfl fun n hn => absurd hn (Nat.not_lt_zero n)
  | succ fuel ih =>
    rw [Nat.forall_lt_succ_left]
    unfold rectTurns
    split
    · rename_i hinside
      rw [ih]
      exact (and_iff_right hinside).symm
    · rename_i hno
      exact iff_of_false nofun fun h => hno h.1

theorem circleTurns_eq_none_iff (pi step roughLimit finish : α) (fuel : Nat) (radius total : α) :
    circleTurns pi step roughLimit finish fuel radius total = none ↔
      ∀ n < fuel, (· + step)^[n] radius ≤ roughLimit ∧ (· + step)^[n] radius ≤ finish := by
  induction fuel generalizing radius total with
  | zero => exact iff_of_true rfl fun n hn => absurd hn (Nat.not_lt_zero n)
  | succ fuel ih =>
    rw [Nat.forall_lt_succ_left]
    unfold circleTurns
    split
    · rename_i hturn
      rw [ih]
      exact (and_iff_right hturn).symm
    · rename_i hno
      exact iff_of_false nofun fun h => hno h.1

theorem rect?_eq_none_iff (fuel : Nat) (width height tool : α) :
    rect? fuel width height tool = none ↔
      ¬ (width ≤ ((0 : Nat) : α) ∨ height ≤ ((0 : Nat) : α) ∨
        ¬ ((0 : Nat) : α) < tool / ((2 : Nat) : α)) ∧
      ∀ n < fuel, HasInside tool width n ∧ HasInside tool height n := by
  unfold rect?
  dsimp only
  split
  · rename_i hguard
    exact iff_of_false nofun fun h => h.1 hguard
  · rename_i hguard
    rw [and_iff_right hguard, Option.bind_eq_bind, Option.bind_eq_none_iff]
    refine Iff.trans ?_ (rectTurns_eq_none_iff _ fuel _ _ _ _ ((0 : Nat) : α))
    simp [Option.eq_none_iff_forall_ne_some]

theorem circle?_eq_none_iff (pi : α) (fuel : Nat) (radius tool : α) :
    circle? pi fuel radius tool = none ↔
      ¬ (radius ≤ ((0 : Nat) : α) ∨ radius - tool / ((2 : Nat) : α) ≤ ((0 : Nat) : α) ∨
        ¬ ((0 : Nat) : α) < tool / ((2 : Nat) : α)) ∧
      ∀ n < fuel, HasTurn tool radius n := by
  unfold circle?
  dsimp only
  split
  · rename_i hguard
    exact iff_of_false nofun fun h => h.1 hguard
  · rename_i hguard
    rw [and_iff_right hguard, Option.bind_eq_bind, Option.bind_eq_none_iff]
    refine Iff.trans ?_ (circleTurns_eq_none_iff pi _ _ _ fuel _ ((0 : Nat) : α))
    simp [Option.eq_none_iff_forall_ne_some]

end Loops

/-! ## Section 2: Where a step is lost -/

/-- A step that moves every positive number below a power of two, but not the power itself: it is
    more than half a unit of the numbers below, and no more than half a unit of the power. -/
structure StallsAt (step : Float) (k : Int) : Prop where
  finite : Double.IsFinite step
  low : (2 : Rat) ^ (k - 54) < Double.toRat step
  high : Double.toRat step ≤ 2 ^ (k - 53)
  /-- The power is far from the least number and from the greatest one. -/
  exponent : -1021 ≤ k ∧ k ≤ 200

theorem half_two_pow (k : Int) : (2 : Rat) ^ k / 2 = 2 ^ (k - 1) := by
  rw [div_eq_mul_inv, ← zpow_sub_one₀ two_ne_zero]

/-- The number two units above a power of two. -/
theorem canonical_above {K : Int} (hK : -1021 ≤ K) :
    Canonical .double (2 ^ 52 + 2) (K - 52) ∧
      ((2 ^ 52 + 2 : Nat) : Rat) * 2 ^ (K - 52) = 2 ^ K + 2 ^ (K - 51) := by
  refine ⟨⟨by decide, ?_, .inr (by decide)⟩, ?_⟩
  · rw [BinaryFormat.minExponent_double]
    omega
  · rw [show K - 51 = K - 52 + 1 by ring, zpow_add_one₀ two_ne_zero, zpow_sub₀ two_ne_zero]
    norm_num
    ring

namespace StallsAt

open Double (IsFinite toRat)

variable {step x : Float} {k K : Int}

theorem pos (hs : StallsAt step k) : 0 < toRat step :=
  lt_trans (zpow_pos two_pos _) hs.low

theorem high_of_le (hs : StallsAt step k) (hK : k ≤ K) : toRat step ≤ 2 ^ (K - 53) :=
  le_trans hs.high (zpow_le_zpow_right₀ one_le_two (by omega))

/-- Half a unit of a power is less than the power. -/
theorem high_lt (hs : StallsAt step k) (hK : k ≤ K) : toRat step < 2 ^ K :=
  lt_of_le_of_lt (hs.high_of_le hK) (zpow_lt_zpow_right₀ one_lt_two (by omega))

theorem add_roundsTo (hs : StallsAt step k) (hK : k ≤ K) (hK' : K ≤ 200) (hx : IsFinite x)
    (h0 : 0 ≤ toRat x) (hx' : toRat x ≤ 2 ^ K) :
    Double.RoundsTo (x + step) (toRat x + toRat step) := by
  have hpos := hs.pos
  have hlow := hs.exponent.1
  have hlt := hs.high_lt hK
  refine Double.add_roundsTo hx hs.finite ?_
  rw [abs_of_nonneg (by linarith)]
  calc toRat x + toRat step ≤ 2 ^ K * 2 := by linarith
    _ = 2 ^ (K + 1) := (zpow_add_one₀ two_ne_zero K).symm
    _ ≤ 2 ^ (1023 : Int) := zpow_le_zpow_right₀ one_le_two (by omega)

/-- Nothing is moved down by adding the step, nor beyond the power. -/
theorem add_step (hs : StallsAt step k) (hK : k ≤ K) (hK' : K ≤ 200) (hx : IsFinite x)
    (h0 : 0 ≤ toRat x) (hx' : toRat x ≤ 2 ^ K) :
    IsFinite (x + step) ∧ toRat x ≤ toRat (x + step) ∧ toRat (x + step) ≤ 2 ^ K := by
  have hpos := hs.pos
  have hlow := hs.exponent.1
  have hhigh := hs.high_of_le hK
  have hround := hs.add_roundsTo hK hK' hx h0 hx'
  exact ⟨hround.finite, hround.ge hx (by linarith), hround.le_two_pow (by omega) (by linarith)⟩

/-- Below the power a positive number is moved. -/
theorem lt_add_step (hs : StallsAt step k) (hx : IsFinite x) (h0 : 0 < toRat x)
    (hx' : toRat x < 2 ^ k) : toRat x < toRat (x + step) := by
  have hlow := hs.exponent.1
  have hround := hs.add_roundsTo le_rfl hs.exponent.2 hx h0.le hx'.le
  obtain ⟨m, e, hvalue, hcanonical⟩ := Double.exists_of_pos hx h0
  -- a unit of the number is twice the step at most
  have he : e ≤ k - 53 := by
    by_contra hgt
    have hm := hcanonical.normal.resolve_left (by rw [BinaryFormat.minExponent_double]; omega)
    have hm' : (2 : Rat) ^ (52 : Int) ≤ m := by exact_mod_cast hm
    have hlarge : (2 : Rat) ^ k ≤ m * 2 ^ e := by
      calc (2 : Rat) ^ k ≤ 2 ^ (52 : Int) * 2 ^ e := by
            rw [← zpow_add₀ two_ne_zero]
            exact zpow_le_zpow_right₀ one_le_two (by omega)
        _ ≤ m * 2 ^ e := mul_le_mul_of_nonneg_right hm' (zpow_pos two_pos e).le
    linarith
  have hunit : (2 : Rat) ^ e / 2 ≤ 2 ^ (k - 54) := by
    rw [half_two_pow]
    exact zpow_le_zpow_right₀ one_le_two (by omega)
  rw [hvalue] at hround ⊢
  exact Nearest.gt_of_half hround hcanonical (by linarith [hs.low])

/-- What is moved up by the step stays where it is or gets greater, and never exceeds the power. -/
theorem climb (hs : StallsAt step k) (hK : k ≤ K) (hK' : K ≤ 200) (hx : IsFinite x)
    (h0 : 0 ≤ toRat x) (hx' : toRat x ≤ 2 ^ K) (n : Nat) :
    IsFinite ((· + step)^[n] x) ∧ toRat x ≤ toRat ((· + step)^[n] x) ∧
      toRat ((· + step)^[n] x) ≤ 2 ^ K := by
  induction n with
  | zero => exact ⟨hx, le_rfl, hx'⟩
  | succ n ih =>
    obtain ⟨hfinite, hle, hle'⟩ := ih
    rw [Function.iterate_succ_apply']
    obtain ⟨hnext, hge, hle''⟩ := hs.add_step hK hK' hfinite (h0.trans hle) hle'
    exact ⟨hnext, hle.trans hge, hle''⟩

/-- It gets as far as the power where the step is lost. -/
theorem climb_reaches (hs : StallsAt step k) (hx : IsFinite x) (h0 : 0 < toRat x)
    (hx' : toRat x ≤ 2 ^ k) : ∃ n, toRat ((· + step)^[n] x) = 2 ^ k := by
  have hclimb := hs.climb le_rfl hs.exponent.2 hx h0.le hx'
  have hpos := Double.least_pos
  by_contra hnever
  rw [not_exists] at hnever
  -- otherwise each step would add the least positive number at least
  have hgrows : ∀ n : Nat, n * Double.least ≤ toRat ((· + step)^[n] x) := by
    intro n
    induction n with
    | zero =>
      rw [Nat.cast_zero, zero_mul]
      exact h0.le
    | succ n ih =>
      obtain ⟨hfinite, hle, hle'⟩ := hclimb n
      have hmoved := hs.lt_add_step hfinite (lt_of_lt_of_le h0 hle) (lt_of_le_of_ne hle' (hnever n))
      have hnext := (hclimb (n + 1)).1
      rw [Function.iterate_succ_apply'] at hnext ⊢
      have hleast := Double.add_least_le hfinite hnext hmoved
      push_cast
      linarith
  obtain ⟨n, hn⟩ := exists_nat_gt (2 ^ k / Double.least)
  rw [div_lt_iff₀ hpos] at hn
  linarith [hgrows n, (hclimb n).2.2]

theorem sub_roundsTo (hs : StallsAt step k) (hx : IsFinite x) (h0 : 0 ≤ toRat x)
    (hx' : toRat x ≤ 2 ^ (200 : Int)) :
    Double.RoundsTo (x - step) (toRat x - toRat step) := by
  have hpos := hs.pos
  have hlt := hs.high_lt hs.exponent.2
  refine Double.sub_roundsTo hx hs.finite (le_trans (b := 2 ^ (200 : Int)) ?_ ?_)
  · rw [abs_le]
    constructor <;> linarith
  · exact zpow_le_zpow_right₀ one_le_two (by decide)

/-- What lies two units above the power, or more, is not moved below that by subtracting the
    step. -/
theorem descend (hs : StallsAt step k) (hK : k ≤ K) (hx : IsFinite x)
    (hlow : 2 ^ K + 2 ^ (K - 51) ≤ toRat x) (hx' : toRat x ≤ 2 ^ (200 : Int)) (n : Nat) :
    IsFinite ((· - step)^[n] x) ∧ 2 ^ K + 2 ^ (K - 51) ≤ toRat ((· - step)^[n] x) ∧
      toRat ((· - step)^[n] x) ≤ toRat x := by
  have hpower : (0 : Rat) ≤ 2 ^ K + 2 ^ (K - 51) := by positivity
  have hhigh := hs.high_of_le hK
  have hpos := hs.pos
  have hleast := hs.exponent.1
  induction n with
  | zero => exact ⟨hx, hlow, le_rfl⟩
  | succ n ih =>
    obtain ⟨hfinite, hge, hle⟩ := ih
    rw [Function.iterate_succ_apply']
    generalize (· - step)^[n] x = y at hfinite hge hle
    have hround := hs.sub_roundsTo hfinite (hpower.trans hge) (hle.trans hx')
    refine ⟨hround.finite, ?_, (hround.le hfinite (by linarith)).trans hle⟩
    -- the step is half a unit of what lies there, at most
    obtain ⟨hcanonical, hvalue⟩ := canonical_above (K := K) (by omega)
    have heven := Nearest.ge_of_even hround hcanonical (by decide) (by decide)
    rw [hvalue, half_two_pow, show K - 52 - 1 = K - 53 by ring] at heven
    exact heven (by linarith)

end StallsAt

/-! ## Section 3: Tools -/

open Double (IsFinite IsInfinite IsLow toRat)

/-- Half the diameter of a tool. -/
def halfTool (tool : Single) : Float := widen tool / ((2 : Nat) : Float)

/-- The exponent of the power of two in which half the diameter of a tool is lost. -/
def stallingExponent (tool : Single) : Int := 52 + Int.clog 2 tool.toRat

section Tools

variable {tool : Single}

theorem toRat_halfTool (hfinite : tool.isFinite = true) (hpos : 0 < tool.toRat) :
    IsFinite (halfTool tool) ∧ toRat (halfTool tool) = tool.toRat / 2 := by
  obtain ⟨hwide, hvalue⟩ := Double.widen_exact hfinite
  obtain ⟨htwo, htwo'⟩ := Double.natCast_exact (k := 2) (by decide)
  have hbound := (abs_lt.mp (Single.abs_toRat_lt hfinite)).2
  have hround : Double.RoundsTo (halfTool tool) (tool.toRat / 2) := by
    have hdiv := Double.div_roundsTo hwide htwo (by rw [htwo']; norm_num)
    rw [hvalue, htwo', Nat.cast_ofNat] at hdiv
    refine hdiv (le_trans (b := 2 ^ (128 : Int)) ?_ (zpow_le_zpow_right₀ one_le_two (by decide)))
    rw [abs_of_pos (by linarith)]
    norm_num at hbound ⊢
    linarith
  -- half of it has the same mantissa
  obtain ⟨m, e, hm, hcanonical, -⟩ := Single.exists_of_pos hfinite hpos
  have hlt : m < 2 ^ 24 := hcanonical.lt
  have hle := hcanonical.le
  rw [BinaryFormat.minExponent_single] at hle
  have hhalf : tool.toRat / 2 = (BinaryValue.finite false m (e - 1)).toRat := by
    rw [BinaryValue.toRat_positive, zpow_sub_one₀ two_ne_zero, hm]
    ring
  refine ⟨hround.finite, ?_⟩
  rw [hhalf] at hround ⊢
  refine Nearest.exact hround (lt_trans hlt (by decide)) ?_
  rw [BinaryFormat.minExponent_double]
  omega

/-- Half the diameter of every tool is lost somewhere. -/
theorem stallsAt_halfTool (hfinite : tool.isFinite = true) (hpos : 0 < tool.toRat) :
    StallsAt (halfTool tool) (stallingExponent tool) := by
  obtain ⟨hhalf, hvalue⟩ := toRat_halfTool hfinite hpos
  have hbound := (abs_lt.mp (Single.abs_toRat_lt hfinite)).2
  obtain ⟨m, e, hm, hcanonical, -⟩ := Single.exists_of_pos hfinite hpos
  have hle := hcanonical.le
  rw [BinaryFormat.minExponent_single] at hle
  have hlower := Int.zpow_pred_clog_lt_self (b := 2) (by decide) hpos
  have hupper := Int.self_le_zpow_clog (b := 2) (by decide) tool.toRat
  have hclog := Int.zpow_lt_iff_lt_clog (b := 2) (x := -150) (by decide) hpos
  have hclog' := Int.le_zpow_iff_clog_le (b := 2) (x := 128) (by decide) hpos
  unfold stallingExponent
  generalize Int.clog 2 tool.toRat = c at hlower hupper hclog hclog' ⊢
  rw [Nat.cast_ofNat] at hlower hupper hclog hclog'
  refine ⟨hhalf, ?_, ?_, ?_, ?_⟩
  · rw [hvalue, show 52 + c - 54 = c - 1 - 1 by ring, ← half_two_pow]
    linarith
  · rw [hvalue, show 52 + c - 53 = c - 1 by ring, ← half_two_pow]
    linarith
  -- the least positive number is not a small one in double precision
  · have hone : (1 : Rat) ≤ m := by
      have hne : m ≠ 0 := by
        rintro rfl
        rw [hm, Nat.cast_zero, zero_mul] at hpos
        exact absurd hpos (lt_irrefl 0)
      exact_mod_cast Nat.one_le_iff_ne_zero.mpr hne
    have hleast : (2 : Rat) ^ (-150 : Int) < tool.toRat := by
      calc (2 : Rat) ^ (-150 : Int) < 2 ^ e := zpow_lt_zpow_right₀ one_lt_two (by omega)
        _ ≤ m * 2 ^ e := le_mul_of_one_le_left (by positivity) hone
        _ = tool.toRat := hm.symm
    have hc := hclog.mp hleast
    omega
  · have hc := hclog'.mp (by norm_num at hbound ⊢; linarith)
    omega

end Tools

/-! ## Section 4: Rectangles -/

/-- A number that is infinite or greater than a value. -/
def Exceeds (x : Single) (q : Rat) : Prop :=
  BinaryValue.ofSingle x = .infinite false ∨ x.isFinite = true ∧ q < x.toRat

/-- A number that is infinite or at least a value. -/
def Reaches (x : Single) (q : Rat) : Prop :=
  BinaryValue.ofSingle x = .infinite false ∨ x.isFinite = true ∧ q ≤ x.toRat

theorem Exceeds.reaches {x : Single} {q : Rat} (h : Exceeds x q) : Reaches x q :=
  h.imp_right fun hx => ⟨hx.1, hx.2.le⟩

/-- What is not a number does not reach anything, nor does the lower infinity. -/
theorem not_reaches_of_low {x : Single} {q : Rat} (hfinite : x.isFinite = false)
    (hlow : BinaryValue.ofSingle x = .nan ∨ BinaryValue.ofSingle x = .infinite true) :
    ¬ Reaches x q := by
  rintro (h | ⟨h, -⟩)
  · rw [h] at hlow
    rcases hlow with hlow | hlow <;> cases hlow
  · rw [hfinite] at h
    cases h

/-- The coordinate beyond which the lower sides of a rectangle do not get. -/
def stallingPoint (tool : Single) : Rat := max 1 (2 ^ stallingExponent tool)

theorem stallingPoint_eq (tool : Single) :
    stallingPoint tool = 2 ^ max 0 (stallingExponent tool) := by
  unfold stallingPoint
  rcases le_total 0 (stallingExponent tool) with h | h
  · rw [max_eq_right h, max_eq_right (one_le_zpow₀ one_le_two h)]
  · rw [max_eq_left h, max_eq_left (zpow_le_one_of_nonpos₀ one_le_two h), zpow_zero]

/-- Single precision numbers are so far apart that one beyond the power is more than the first
    turn away from it. -/
theorem add_le_of_exceeds {x : Single} {K : Int} (hx : x.isFinite = true) (hK : 0 ≤ K)
    (h : 2 ^ K + 1 < x.toRat) : 2 ^ K + 1 + 2 ^ (K - 24) ≤ x.toRat := by
  have hunit : (2 : Rat) ^ (K - 23) = 2 ^ (K - 24) * 2 := by
    rw [← zpow_add_one₀ two_ne_zero]
    congr 1
    ring
  have hpos : (0 : Rat) < 2 ^ (K - 24) := zpow_pos two_pos _
  rcases le_or_gt K 23 with hsmall | hlarge
  -- one is a whole number of units
  · obtain ⟨d, hd⟩ : ∃ d : Nat, K = 23 - d := ⟨(23 - K).toNat, by omega⟩
    have hone : (2 : Rat) ^ d * 2 ^ (K - 23) = 1 := by
      rw [← zpow_natCast, ← zpow_add₀ two_ne_zero, show (d : Int) + (K - 23) = 0 by omega,
        zpow_zero]
    have hvalue : ((2 ^ 23 + 2 ^ d : Nat) : Rat) * 2 ^ (K - 23) = 2 ^ K + 1 := by
      push_cast
      rw [add_mul, hone, zpow_sub₀ two_ne_zero]
      norm_num
      field_simp
    rw [← hvalue] at h
    have hgap := (Single.add_unit_le hx (Nat.le_add_right _ _) h).1
    rw [hvalue] at hgap
    linarith
  -- one is half a unit at most
  · have hvalue : ((2 ^ 23 : Nat) : Rat) * 2 ^ (K - 23) = 2 ^ K := Canonical.toRat_two_pow .single K
    have hone : (1 : Rat) ≤ 2 ^ (K - 24) := one_le_zpow₀ one_le_two (by omega)
    have habove : ((2 ^ 23 : Nat) : Rat) * 2 ^ (K - 23) < x.toRat := by
      rw [hvalue]
      linarith
    have hgap := (Single.add_unit_le hx (Nat.le_refl _) habove).1
    rw [hvalue] at hgap
    linarith

section Rectangles

variable {tool : Single}

/-- The lower sides of the first turn. -/
def firstSide (tool : Single) : Float := halfTool tool + ((1 : Nat) : Float)

theorem firstSide_spec (hfinite : tool.isFinite = true) (hpos : 0 < tool.toRat) :
    IsFinite (firstSide tool) ∧ 1 ≤ toRat (firstSide tool) ∧
      toRat (firstSide tool) ≤ 2 ^ max 0 (stallingExponent tool) ∧
      toRat (firstSide tool) ≤ 1 + 2 ^ (max 0 (stallingExponent tool) - 50) := by
  have hs := stallsAt_halfTool hfinite hpos
  obtain ⟨hone, hone'⟩ := Double.natCast_exact (k := 1) (by decide)
  rw [Nat.cast_one] at hone'
  have hhalf := hs.pos
  have hhigh := hs.high_of_le (le_max_right 0 (stallingExponent tool))
  have hK : 0 ≤ max 0 (stallingExponent tool) := le_max_left _ _
  have hK' : max 0 (stallingExponent tool) ≤ 200 := max_le (by decide) hs.exponent.2
  generalize max 0 (stallingExponent tool) = K at hhigh hK hK' ⊢
  have hpower : (1 : Rat) ≤ 2 ^ K := one_le_zpow₀ one_le_two hK
  have hshare : (2 : Rat) ^ (K - 53) ≤ 2 ^ K := zpow_le_zpow_right₀ one_le_two (by omega)
  have hround : Double.RoundsTo (firstSide tool) (toRat (halfTool tool) + 1) := by
    have hadd := Double.add_roundsTo hs.finite hone
    rw [hone'] at hadd
    refine hadd ?_
    rw [abs_of_pos (by linarith)]
    calc toRat (halfTool tool) + 1 ≤ 2 ^ K * 2 := by linarith
      _ = 2 ^ (K + 1) := (zpow_add_one₀ two_ne_zero K).symm
      _ ≤ 2 ^ (1023 : Int) := zpow_le_zpow_right₀ one_le_two (by omega)
  refine ⟨hround.finite, ?_, hround.le_two_pow (by omega) (by linarith), ?_⟩
  · rw [← hone']
    exact hround.ge hone (by rw [hone']; linarith)
  · have herror := (abs_le.mp hround.abs_sub_le).2
    rw [abs_of_pos (by linarith)] at herror
    have hleast : Double.least ≤ 2 ^ (K - 53) := zpow_le_zpow_right₀ one_le_two (by omega)
    have hunit : (2 : Rat) ^ K = 2 ^ (K - 53) * 2 ^ 53 := by
      rw [zpow_sub₀ two_ne_zero]
      norm_num
    have hunit' : (2 : Rat) ^ (K - 50) = 2 ^ (K - 53) * 2 ^ 3 := by
      rw [zpow_sub₀ two_ne_zero, zpow_sub₀ two_ne_zero]
      norm_num
      ring
    rw [hunit']
    rw [hunit] at hpower hshare
    norm_num at herror hpower ⊢
    linarith

/-- The lower sides climb to the stalling point. -/
theorem lowerSide_spec (hfinite : tool.isFinite = true) (hpos : 0 < tool.toRat) :
    (∀ n, IsFinite ((· + halfTool tool)^[n] (firstSide tool)) ∧
      1 ≤ toRat ((· + halfTool tool)^[n] (firstSide tool)) ∧
      toRat ((· + halfTool tool)^[n] (firstSide tool)) ≤ stallingPoint tool) ∧
    ∃ n, toRat ((· + halfTool tool)^[n] (firstSide tool)) = stallingPoint tool := by
  have hs := stallsAt_halfTool hfinite hpos
  obtain ⟨hfirst, hone, hle, -⟩ := firstSide_spec hfinite hpos
  rw [← stallingPoint_eq] at hle
  have hclimb : ∀ n, IsFinite ((· + halfTool tool)^[n] (firstSide tool)) ∧
      1 ≤ toRat ((· + halfTool tool)^[n] (firstSide tool)) ∧
      toRat ((· + halfTool tool)^[n] (firstSide tool)) ≤ stallingPoint tool := by
    intro n
    rw [stallingPoint_eq] at hle ⊢
    obtain ⟨h, hge, hle'⟩ := hs.climb (le_max_right 0 _) (max_le (by decide) hs.exponent.2) hfirst
      (by linarith) hle n
    exact ⟨h, hone.trans hge, hle'⟩
  refine ⟨hclimb, ?_⟩
  rcases le_total 0 (stallingExponent tool) with h | h
  · rw [stallingPoint_eq, max_eq_right h] at hle ⊢
    exact hs.climb_reaches hfirst (by linarith) hle
  -- a small step is lost in the first lower sides already
  · have hpoint : stallingPoint tool = 1 := by
      rw [stallingPoint_eq, max_eq_left h, zpow_zero]
    refine ⟨0, le_antisymm (hclimb 0).2.2 ?_⟩
    rw [hpoint]
    exact (hclimb 0).2.1

theorem stallingPoint_le (hfinite : tool.isFinite = true) (hpos : 0 < tool.toRat) :
    stallingPoint tool ≤ 2 ^ (200 : Int) := by
  rw [stallingPoint_eq]
  exact zpow_le_zpow_right₀ one_le_two
    (max_le (by decide) (stallsAt_halfTool hfinite hpos).exponent.2)

/-- Where the upper side of the first turn is. -/
theorem upperSide_roundsTo (hfinite : tool.isFinite = true) (hpos : 0 < tool.toRat) {side : Single}
    (hside : side.isFinite = true) :
    Double.RoundsTo (widen side - firstSide tool) (side.toRat - toRat (firstSide tool)) := by
  obtain ⟨hfirst, hone, hle, -⟩ := firstSide_spec hfinite hpos
  rw [← stallingPoint_eq] at hle
  have hfar := stallingPoint_le hfinite hpos
  obtain ⟨hwide, hvalue⟩ := Double.widen_exact hside
  have hbound := abs_lt.mp (Single.abs_toRat_lt hside)
  have hround := Double.sub_roundsTo hwide hfirst
  rw [hvalue] at hround
  refine hround (le_trans (b := 2 ^ (201 : Int)) ?_ (zpow_le_zpow_right₀ one_le_two (by decide)))
  rw [abs_le]
  norm_num at hbound hfar ⊢
  constructor <;> linarith

/-- In a rectangle that is not long enough the upper side never lies beyond the stalling point. -/
theorem upperSide_le (hfinite : tool.isFinite = true) (hpos : 0 < tool.toRat) {side : Single}
    (hside : side.isFinite = true) (hshort : side.toRat ≤ stallingPoint tool + 1)
    (hinside : ∀ n, HasInside (widen tool) (widen side) n) (n : Nat) :
    IsFinite ((· - halfTool tool)^[n] (widen side - firstSide tool)) ∧
      toRat ((· - halfTool tool)^[n] (widen side - firstSide tool)) ≤ stallingPoint tool := by
  have hs := stallsAt_halfTool hfinite hpos
  obtain ⟨-, hone, -⟩ := firstSide_spec hfinite hpos
  obtain ⟨hlower, -⟩ := lowerSide_spec hfinite hpos
  induction n with
  | zero =>
    have hround := upperSide_roundsTo hfinite hpos hside
    refine ⟨hround.finite, ?_⟩
    rw [stallingPoint_eq] at hshort ⊢
    have hhalf : (0 : Rat) < 2 ^ (max 0 (stallingExponent tool) - 53) := zpow_pos two_pos _
    exact hround.le_two_pow (le_trans (by decide) (le_max_left 0 _)) (by linarith)
  | succ n ih =>
    obtain ⟨hupper, hle⟩ := ih
    -- it lies beyond the lower side, so that the difference is not too large
    have hturn : (· + halfTool tool)^[n] (firstSide tool) <
        (· - halfTool tool)^[n] (widen side - firstSide tool) := hinside n
    rw [Double.lt_iff (hlower n).1 hupper] at hturn
    rw [Function.iterate_succ_apply']
    have hround := hs.sub_roundsTo hupper (by linarith [(hlower n).2.1])
      (hle.trans (stallingPoint_le hfinite hpos))
    exact ⟨hround.finite, (hround.le hupper (by linarith [hs.pos])).trans hle⟩

/-- In a rectangle that is long enough the upper side always lies beyond the stalling point. -/
theorem lt_upperSide (hfinite : tool.isFinite = true) (hpos : 0 < tool.toRat) {side : Single}
    (hside : side.isFinite = true) (hlong : stallingPoint tool + 1 < side.toRat) (n : Nat) :
    IsFinite ((· - halfTool tool)^[n] (widen side - firstSide tool)) ∧
      stallingPoint tool < toRat ((· - halfTool tool)^[n] (widen side - firstSide tool)) := by
  have hs := stallsAt_halfTool hfinite hpos
  obtain ⟨-, hone, hfirst, hnear⟩ := firstSide_spec hfinite hpos
  have hround := upperSide_roundsTo hfinite hpos hside
  have hbound := (abs_lt.mp (Single.abs_toRat_lt hside)).2
  have hK : 0 ≤ max 0 (stallingExponent tool) := le_max_left _ _
  have hgap : 2 ^ max 0 (stallingExponent tool) + 1 + 2 ^ (max 0 (stallingExponent tool) - 24) ≤
      side.toRat := add_le_of_exceeds hside hK (by rwa [← stallingPoint_eq])
  have hle : stallingExponent tool ≤ max 0 (stallingExponent tool) := le_max_right _ _
  rw [stallingPoint_eq]
  generalize max 0 (stallingExponent tool) = K at hnear hgap hK hle ⊢
  obtain ⟨hcanonical, hvalue⟩ := canonical_above (K := K) (by omega)
  have hunit : (2 : Rat) ^ (K - 51) + 2 ^ (K - 50) ≤ 2 ^ (K - 24) := by
    have hsmall : (2 : Rat) ^ (K - 51) ≤ 2 ^ (K - 50) := zpow_le_zpow_right₀ one_le_two (by omega)
    have hsum : (2 : Rat) ^ (K - 50) * 2 = 2 ^ (K - 49) := by
      rw [← zpow_add_one₀ two_ne_zero]
      congr 1
      ring
    have hlarge : (2 : Rat) ^ (K - 49) ≤ 2 ^ (K - 24) := zpow_le_zpow_right₀ one_le_two (by omega)
    linarith
  have hupper : 2 ^ K + 2 ^ (K - 51) ≤ toRat (widen side - firstSide tool) := by
    have hge := Nearest.ge (b := false) hround hcanonical
    rw [BinaryValue.toRat_positive, hvalue] at hge
    exact hge (by linarith)
  have hfar : toRat (widen side - firstSide tool) ≤ 2 ^ (200 : Int) := by
    refine hround.le_two_pow (by decide) ?_
    norm_num at hbound ⊢
    linarith
  obtain ⟨hfinite, hge, -⟩ := hs.descend hle hround.finite hupper hfar n
  have hpos' : (0 : Rat) < 2 ^ (K - 51) := zpow_pos two_pos _
  exact ⟨hfinite, by linarith⟩

/-- There is an inside after any number of turns exactly if the side is infinite, or longer than
    the way to the stalling point and the first turn. -/
theorem hasInside_iff (hfinite : tool.isFinite = true) (hpos : 0 < tool.toRat) (side : Single) :
    (∀ n, HasInside (widen tool) (widen side) n) ↔ Exceeds side (stallingPoint tool + 1) := by
  obtain ⟨hfirst, -⟩ := firstSide_spec hfinite hpos
  obtain ⟨hlower, last, hlast⟩ := lowerSide_spec hfinite hpos
  have hinside : ∀ n, HasInside (widen tool) (widen side) n ↔
      (· + halfTool tool)^[n] (firstSide tool) <
        (· - halfTool tool)^[n] (widen side - firstSide tool) := fun n => Iff.rfl
  rcases Single.finite_or side with hside | hside | ⟨hside, hlow⟩
  · constructor
    · intro h
      refine .inr ⟨hside, ?_⟩
      by_contra hshort
      obtain ⟨hupper, hle⟩ := upperSide_le hfinite hpos hside (not_lt.mp hshort) h last
      have hturn := (hinside last).mp (h last)
      rw [Double.lt_iff (hlower last).1 hupper, hlast] at hturn
      exact absurd hturn hle.not_gt
    · rintro (h | ⟨-, hlong⟩) n
      · exact absurd h (Single.ofSingle_ne_infinite hside false)
      · obtain ⟨hupper, hlt⟩ := lt_upperSide hfinite hpos hside hlong n
        rw [hinside, Double.lt_iff (hlower n).1 hupper]
        exact lt_of_le_of_lt (hlower n).2.2 hlt
  · refine iff_of_true (fun n => ?_) (.inl hside)
    have hupper := Double.sub_infinite (Double.widen_infinite hside) hfirst
    have hstays : IsInfinite ((· - halfTool tool)^[n] (widen side - firstSide tool)) := by
      induction n with
      | zero => exact hupper
      | succ n ih =>
        rw [Function.iterate_succ_apply']
        exact Double.sub_infinite ih (toRat_halfTool hfinite hpos).1
    exact Double.lt_infinite (hlower n).1 hstays
  · refine iff_of_false (fun h => ?_) fun h => not_reaches_of_low hside hlow h.reaches
    have hupper := Double.sub_low (Double.widen_low hlow) hfirst
    exact Double.not_le_low (.inl hfirst) hupper (Double.le_of_lt (h 0))

end Rectangles

/-! ## Section 5: Circles -/

section Circles

variable {tool : Single}

/-- The radius climbs to the power where half the diameter is lost. -/
theorem radius_spec (hfinite : tool.isFinite = true) (hpos : 0 < tool.toRat) :
    (∀ n, IsFinite ((· + halfTool tool)^[n] (halfTool tool)) ∧
      toRat ((· + halfTool tool)^[n] (halfTool tool)) ≤ 2 ^ stallingExponent tool) ∧
    ∃ n, toRat ((· + halfTool tool)^[n] (halfTool tool)) = 2 ^ stallingExponent tool := by
  have hs := stallsAt_halfTool hfinite hpos
  have hlt := hs.high_lt le_rfl
  refine ⟨fun n => ?_, hs.climb_reaches hs.finite hs.pos hlt.le⟩
  obtain ⟨h, -, hle⟩ := hs.climb le_rfl hs.exponent.2 hs.finite hs.pos.le hlt.le n
  exact ⟨h, hle⟩

/-- All radii keep a margin exactly if the power does. -/
theorem forall_radius_le_iff (hfinite : tool.isFinite = true) (hpos : 0 < tool.toRat) {y : Float}
    (hy : IsFinite y) :
    (∀ n, (· + halfTool tool)^[n] (halfTool tool) ≤ y) ↔ 2 ^ stallingExponent tool ≤ toRat y := by
  obtain ⟨hradius, last, hlast⟩ := radius_spec hfinite hpos
  constructor
  · intro h
    have hle := h last
    rw [Double.le_iff (hradius last).1 hy, hlast] at hle
    exact hle
  · intro h n
    rw [Double.le_iff (hradius n).1 hy]
    exact (hradius n).2.trans h

theorem sub_roundsTo_of_le {radius : Single} (hradius : radius.isFinite = true) {y : Float}
    (hy : IsFinite y) (hy' : |toRat y| ≤ 2 ^ (200 : Int)) :
    Double.RoundsTo (widen radius - y) (radius.toRat - toRat y) := by
  obtain ⟨hwide, hvalue⟩ := Double.widen_exact hradius
  have hbound := abs_lt.mp (Single.abs_toRat_lt hradius)
  have hround := Double.sub_roundsTo hwide hy
  rw [hvalue] at hround
  rw [abs_le] at hy'
  refine hround (le_trans (b := 2 ^ (201 : Int)) ?_ (zpow_le_zpow_right₀ one_le_two (by decide)))
  rw [abs_le]
  norm_num at hbound hy' ⊢
  constructor <;> linarith

/-- A radius greater than the power is so by a unit of single precision, which is more than half
    the diameter. -/
theorem le_sub_halfTool (hfinite : tool.isFinite = true) (hpos : 0 < tool.toRat) {radius : Single}
    (hradius : radius.isFinite = true) (h : 2 ^ stallingExponent tool < radius.toRat) :
    2 ^ stallingExponent tool ≤ radius.toRat - toRat (halfTool tool) := by
  have hs := stallsAt_halfTool hfinite hpos
  have hvalue : ((2 ^ 23 : Nat) : Rat) * 2 ^ (stallingExponent tool - 23) =
      2 ^ stallingExponent tool := Canonical.toRat_two_pow .single _
  rw [← hvalue] at h
  have hgap := (Single.add_unit_le hradius (Nat.le_refl _) h).1
  rw [hvalue] at hgap
  have hunit : (2 : Rat) ^ (stallingExponent tool - 53) ≤ 2 ^ (stallingExponent tool - 23) :=
    zpow_le_zpow_right₀ one_le_two (by omega)
  linarith [hs.high]

/-- A radius that is not greater than the power is still below it when half the diameter is
    subtracted. -/
theorem sub_halfTool_lt (hfinite : tool.isFinite = true) (hpos : 0 < tool.toRat) {radius : Single}
    (hle : radius.toRat ≤ 2 ^ stallingExponent tool)
    (hround : Double.RoundsTo (widen radius - halfTool tool)
      (radius.toRat - toRat (halfTool tool))) :
    toRat (widen radius - halfTool tool) < 2 ^ stallingExponent tool := by
  have hs := stallsAt_halfTool hfinite hpos
  have hleast := hs.exponent.1
  have hlow := hs.low
  generalize stallingExponent tool = k at hle hleast hlow ⊢
  -- the number before the power
  have hcanonical : Canonical .double (2 ^ 53 - 1) (k - 53) := by
    refine ⟨by decide, ?_, .inr (by decide)⟩
    rw [BinaryFormat.minExponent_double]
    omega
  have hvalue : ((2 ^ 53 - 1 : Nat) : Rat) * 2 ^ (k - 53) = 2 ^ k - 2 ^ (k - 53) := by
    rw [zpow_sub₀ two_ne_zero]
    norm_num
    ring
  have hhalf : (2 : Rat) ^ (k - 53) / 2 = 2 ^ (k - 54) := by
    rw [half_two_pow, show k - 53 - 1 = k - 54 by ring]
  have hlt := Nearest.lt_of_half hround hcanonical
  rw [hvalue, sub_add_cancel] at hlt
  exact hlt (by linarith)

/-- Three is subtracted without loss from a radius beyond the power that is less than three away
    from it, since there are such radii only if the power is not too large. -/
theorem sub_three_lt {k : Int} {radius : Single} (hradius : radius.isFinite = true)
    (hlarge : 2 ^ k < radius.toRat) (hlt : radius.toRat < 2 ^ k + 3)
    (hround : Double.RoundsTo (widen radius - ((3 : Nat) : Float)) (radius.toRat - 3)) :
    toRat (widen radius - ((3 : Nat) : Float)) < 2 ^ k := by
  have hpower : (0 : Rat) < 2 ^ k := zpow_pos two_pos k
  rcases le_or_gt radius.toRat 3 with hsmall | hbig
  · obtain ⟨hzero, hzero'⟩ := Double.natCast_exact (k := 0) (by decide)
    rw [Nat.cast_zero] at hzero'
    have hle := hround.le hzero (by rw [hzero']; linarith)
    rw [hzero'] at hle
    exact lt_of_le_of_lt hle hpower
  -- the unit of the radius is less than three
  have hk : k ≤ 24 := by
    have hvalue : ((2 ^ 23 : Nat) : Rat) * 2 ^ (k - 23) = 2 ^ k := Canonical.toRat_two_pow .single k
    rw [← hvalue] at hlarge
    have hgap := (Single.add_unit_le hradius (Nat.le_refl _) hlarge).1
    rw [hvalue] at hgap
    by_contra hgt
    have hunit : (2 : Rat) ^ (2 : Int) ≤ 2 ^ (k - 23) := zpow_le_zpow_right₀ one_le_two (by omega)
    norm_num at hunit
    linarith
  -- and so the difference is a whole number of units that has no more than 53 bits
  have hthree : ((3 * 2 ^ 22 : Nat) : Rat) * 2 ^ (-22 : Int) = 3 := by norm_num
  have hbig' : ((3 * 2 ^ 22 : Nat) : Rat) * 2 ^ (-22 : Int) < radius.toRat := by
    rw [hthree]
    exact hbig
  obtain ⟨m, hm⟩ := (Single.add_unit_le hradius (by decide) hbig').2
  have hunit : (0 : Rat) < 2 ^ (-22 : Int) := zpow_pos two_pos _
  have hle : 3 * 2 ^ 22 ≤ m := by
    rw [hm] at hbig'
    have hlt' := lt_of_mul_lt_mul_right hbig' hunit.le
    exact_mod_cast hlt'.le
  have hfits : m < 2 ^ 53 := by
    have hpower' : (2 : Rat) ^ k ≤ 2 ^ (24 : Int) := zpow_le_zpow_right₀ one_le_two hk
    have hm' : (m : Rat) < (2 ^ 24 + 3) * 2 ^ 22 := by
      rw [hm] at hlt
      norm_num at hlt hpower'
      linarith
    have hm'' : m < (2 ^ 24 + 3) * 2 ^ 22 := by exact_mod_cast hm'
    exact lt_trans hm'' (by decide)
  have hvalue : radius.toRat - 3 = (BinaryValue.finite false (m - 3 * 2 ^ 22) (-22)).toRat := by
    rw [BinaryValue.toRat_positive, hm, Nat.cast_sub hle, sub_mul, hthree]
  have hexact : toRat (widen radius - ((3 : Nat) : Float)) = radius.toRat - 3 := by
    rw [hvalue] at hround ⊢
    refine Nearest.exact hround (lt_of_le_of_lt (Nat.sub_le _ _) hfits) ?_
    rw [BinaryFormat.minExponent_double]
    decide
  rw [hexact]
  linarith

/-- The radius always keeps its margins exactly if the circle is infinite, or is large enough for
    the power and the wider margin. -/
theorem hasTurn_iff (hfinite : tool.isFinite = true) (hpos : 0 < tool.toRat) (radius : Single) :
    (∀ n, HasTurn (widen tool) (widen radius) n) ↔
      Reaches radius (2 ^ stallingExponent tool + 3) := by
  have hs := stallsAt_halfTool hfinite hpos
  obtain ⟨hradius, -⟩ := radius_spec hfinite hpos
  obtain ⟨hthree, hcast⟩ := Double.natCast_exact (k := 3) (by decide)
  have hthree' : toRat ((3 : Nat) : Float) = 3 := hcast.trans Nat.cast_ofNat
  have hturns : (∀ n, HasTurn (widen tool) (widen radius) n) ↔
      (∀ n, (· + halfTool tool)^[n] (halfTool tool) ≤ widen radius - ((3 : Nat) : Float)) ∧
        ∀ n, (· + halfTool tool)^[n] (halfTool tool) ≤ widen radius - halfTool tool := forall_and
  rw [hturns]
  rcases Single.finite_or radius with hr | hr | ⟨hr, hlow⟩
  · have hround := sub_roundsTo_of_le hr hthree (by rw [hthree']; norm_num)
    rw [hthree'] at hround
    have hround' := sub_roundsTo_of_le hr hs.finite (by
      rw [abs_of_pos hs.pos]
      exact (hs.high_lt hs.exponent.2).le)
    rw [forall_radius_le_iff hfinite hpos hround.finite,
      forall_radius_le_iff hfinite hpos hround'.finite]
    have hpower := hs.exponent.1
    constructor
    · rintro ⟨hrough, hfinish⟩
      refine .inr ⟨hr, ?_⟩
      by_contra hless
      rw [not_le] at hless
      rcases le_or_gt radius.toRat (2 ^ stallingExponent tool) with hle | hlarge
      · exact absurd (sub_halfTool_lt hfinite hpos hle hround') hfinish.not_gt
      · exact absurd (sub_three_lt hr hlarge hless hround) hrough.not_gt
    · rintro (h | ⟨-, h⟩)
      · exact absurd h (Single.ofSingle_ne_infinite hr false)
      · refine ⟨hround.two_pow_le (by omega) (by linarith),
          hround'.two_pow_le (by omega) (le_sub_halfTool hfinite hpos hr (by linarith))⟩
  · have hwide := Double.widen_infinite hr
    refine iff_of_true ⟨fun n => ?_, fun n => ?_⟩ (.inl hr)
    · exact Double.le_infinite (hradius n).1 (Double.sub_infinite hwide hthree)
    · exact Double.le_infinite (hradius n).1 (Double.sub_infinite hwide hs.finite)
  · refine iff_of_false (fun h => ?_) (not_reaches_of_low hr hlow)
    exact Double.not_le_low (.inl hs.finite) (Double.sub_low (Double.widen_low hlow) hthree) (h.1 0)

end Circles

/-! ## Section 6: Pockets whose toolpath ends -/

theorem ends_iff {α : Type} {run : Nat → Option α} :
    (∃ fuel length, run fuel = some length) ↔ ¬ ∀ fuel, run fuel = none := by
  simp only [not_forall, Option.ne_none_iff_exists']

/-- What is greater than zero is a positive number or infinity. -/
theorem pos_or_infinite {tool : Single} (htool : ((0 : Nat) : Single) < tool) :
    tool.isFinite = true ∧ 0 < tool.toRat ∨
      tool.isFinite = false ∧ BinaryValue.ofSingle tool = .infinite false := by
  have hzero : BinaryValue.ofSingle ((0 : Nat) : Single) = .finite false 0 (-149) := by
    decide +kernel
  rcases Single.finite_or tool with hfinite | hinfinite | ⟨-, hlow⟩
  · rw [Single.lt_iff (Single.isFinite_of_ofSingle hzero) hfinite, Single.toRat, hzero,
      BinaryValue.toRat_zero] at htool
    exact .inl ⟨hfinite, htool⟩
  · refine .inr ⟨?_, hinfinite⟩
    by_contra hfinite
    rw [Bool.not_eq_false] at hfinite
    exact Single.ofSingle_ne_infinite hfinite false hinfinite
  · rw [Single.lt_iff_compare?, Single.compare?, Single.unpack_toMachine, Single.unpack_toMachine,
      hzero] at htool
    rcases hlow with hlow | hlow
    · rw [hlow] at htool
      cases htool
    · rw [hlow] at htool
      cases htool

section Ends

variable {tool : Single}

theorem halfTool_pos (hfinite : tool.isFinite = true) (hpos : 0 < tool.toRat) :
    ((0 : Nat) : Float) < halfTool tool := by
  obtain ⟨hhalf, hvalue⟩ := toRat_halfTool hfinite hpos
  obtain ⟨hzero, hzero'⟩ := Double.natCast_exact (k := 0) (by decide)
  rw [Double.lt_iff hzero hhalf, hzero', hvalue, Nat.cast_zero]
  linarith

/-- A long side is not one without any length. -/
theorem not_le_zero_of_exceeds {side : Single} {q : Rat} (hq : 0 ≤ q) (h : Exceeds side q) :
    ¬ widen side ≤ ((0 : Nat) : Float) := by
  obtain ⟨hzero, hzero'⟩ := Double.natCast_exact (k := 0) (by decide)
  rcases h with h | ⟨hside, h⟩
  · exact Double.not_infinite_le (Double.widen_infinite h) hzero
  · obtain ⟨hwide, hvalue⟩ := Double.widen_exact hside
    rw [Double.le_iff hwide hzero, hvalue, hzero', Nat.cast_zero]
    linarith

theorem infinite_halfTool (hinfinite : BinaryValue.ofSingle tool = .infinite false) :
    IsInfinite (halfTool tool) := by
  obtain ⟨htwo, htwo'⟩ := Double.natCast_exact (k := 2) (by decide)
  refine Double.div_infinite (Double.widen_infinite hinfinite) htwo ?_
  rw [htwo']
  norm_num

/-- A circle whose radius always keeps its margins has an inside at first. -/
theorem not_sub_le_zero (hfinite : tool.isFinite = true) (hpos : 0 < tool.toRat) {radius : Single}
    (hturn : ∀ n, HasTurn (widen tool) (widen radius) n) :
    ¬ widen radius - halfTool tool ≤ ((0 : Nat) : Float) := by
  have hs := stallsAt_halfTool hfinite hpos
  obtain ⟨hzero, hzero'⟩ := Double.natCast_exact (k := 0) (by decide)
  rcases (hasTurn_iff hfinite hpos radius).mp hturn with hradius | ⟨hradius, -⟩
  · exact Double.not_infinite_le (Double.sub_infinite (Double.widen_infinite hradius) hs.finite)
      hzero
  · have hround := sub_roundsTo_of_le hradius hs.finite (by
      rw [abs_of_pos hs.pos]
      exact (hs.high_lt hs.exponent.2).le)
    have hpower := (forall_radius_le_iff hfinite hpos hround.finite).mp fun n => (hturn n).2
    rw [Double.le_iff hround.finite hzero, hzero', Nat.cast_zero, not_le]
    exact lt_of_lt_of_le (zpow_pos two_pos _) hpower

/-- The toolpath of a rectangle ends unless the tool is finite and both sides exceed the stalling
    point. -/
theorem rect?_ends_iff (htool : ((0 : Nat) : Single) < tool) (width height : Single) :
    (∃ fuel length, rect? fuel (widen width) (widen height) (widen tool) = some length) ↔
      ¬ (tool.isFinite = true ∧ Exceeds width (stallingPoint tool + 1) ∧
        Exceeds height (stallingPoint tool + 1)) := by
  rw [ends_iff, not_iff_not]
  simp only [rect?_eq_none_iff]
  rcases pos_or_infinite htool with ⟨hfinite, hpos⟩ | ⟨hfinite, hinfinite⟩
  · rw [and_iff_right hfinite, ← hasInside_iff hfinite hpos, ← hasInside_iff hfinite hpos,
      ← forall_and]
    constructor
    · intro h n
      exact (h (n + 1)).2 n (Nat.lt_succ_self n)
    · intro h fuel
      refine ⟨?_, fun n _ => h n⟩
      have hpoint : 0 ≤ stallingPoint tool + 1 := by
        rw [stallingPoint_eq]
        positivity
      have hwidth := (hasInside_iff hfinite hpos width).mp fun n => (h n).1
      have hheight := (hasInside_iff hfinite hpos height).mp fun n => (h n).2
      rintro (hw | hh | hno)
      · exact not_le_zero_of_exceeds hpoint hwidth hw
      · exact not_le_zero_of_exceeds hpoint hheight hh
      · exact hno (halfTool_pos hfinite hpos)
  -- an infinite tool leaves no inside
  · refine iff_of_false (fun h => ?_) fun h => ?_
    · obtain ⟨hone, -⟩ := Double.natCast_exact (k := 1) (by decide)
      have hfirst := Double.add_infinite (infinite_halfTool hinfinite) hone
      exact Double.not_infinite_lt hfirst _ ((h 1).2 0 Nat.zero_lt_one).1
    · rw [hfinite] at h
      cases h.1

/-- The toolpath of a circle ends unless the tool is finite and the circle is larger than the power
    in which half its diameter is lost by the wider margin. -/
theorem circle?_ends_iff (htool : ((0 : Nat) : Single) < tool) (radius : Single) :
    (∃ fuel length, circle? pi fuel (widen radius) (widen tool) = some length) ↔
      ¬ (tool.isFinite = true ∧ Reaches radius (2 ^ stallingExponent tool + 3)) := by
  rw [ends_iff, not_iff_not]
  simp only [circle?_eq_none_iff]
  rcases pos_or_infinite htool with ⟨hfinite, hpos⟩ | ⟨hfinite, hinfinite⟩
  · rw [and_iff_right hfinite, ← hasTurn_iff hfinite hpos]
    constructor
    · intro h n
      exact (h (n + 1)).2 n (Nat.lt_succ_self n)
    · intro h fuel
      refine ⟨?_, fun n _ => h n⟩
      have hpower : (0 : Rat) ≤ 2 ^ stallingExponent tool := by positivity
      have hexceeds : Exceeds radius 0 := ((hasTurn_iff hfinite hpos radius).mp h).imp_right
        fun hr => ⟨hr.1, by linarith [hr.2]⟩
      rintro (hr | hf | hno)
      · exact not_le_zero_of_exceeds le_rfl hexceeds hr
      · exact not_sub_le_zero hfinite hpos h hf
      · exact hno (halfTool_pos hfinite hpos)
  · refine iff_of_false (fun h => ?_) fun h => ?_
    · have hhalf := infinite_halfTool hinfinite
      exact Double.not_le_low (.inr hhalf) (Double.low_sub_infinite (widen radius) hhalf)
        ((h 1).2 0 Nat.zero_lt_one).2
    · rw [hfinite] at h
      cases h.1

/-- For every tool that settings may have, the pockets whose toolpath ends. With an infinite tool
    all do. With a finite one the loop of a rectangle ends unless both sides are infinite or longer
    than the stalling point and one, that of a circle unless the radius is infinite or greater than
    the power in which half the diameter is lost, by three at least. -/
theorem toolpaths_end_iff {s : Settings Single} (hs : s.Accepted) :
    (∀ width height : Single,
      (∃ fuel length, rect? fuel (widen width) (widen height) (widen s.pricing.toolDiameter) =
          some length) ↔
        ¬ (s.pricing.toolDiameter.isFinite = true ∧
          Exceeds width (stallingPoint s.pricing.toolDiameter + 1) ∧
          Exceeds height (stallingPoint s.pricing.toolDiameter + 1))) ∧
    ∀ radius : Single,
      (∃ fuel length, circle? pi fuel (widen radius) (widen s.pricing.toolDiameter) =
          some length) ↔
        ¬ (s.pricing.toolDiameter.isFinite = true ∧
          Reaches radius (2 ^ stallingExponent s.pricing.toolDiameter + 3)) := by
  have htool := (Settings.accepted_iff.mp hs).toolDiameter
  exact ⟨rect?_ends_iff htool, circle?_ends_iff htool⟩

/-- With the default tool of 6 mm the toolpaths of a square of 50 mm and of a circle in it end. -/
theorem toolpaths_end_iff_standard :
    (Settings.standard : Settings Single).Accepted ∧
      (∃ fuel length, rect? fuel (widen 50) (widen 50) (widen 6) = some length) ∧
      ∃ fuel length, circle? pi fuel (widen 25) (widen 6) = some length := by
  have hs : (Settings.standard : Settings Single).Accepted := by
    unfold Settings.Accepted
    decide +kernel
  have htool : (Settings.standard : Settings Single).pricing.toolDiameter = 6 := rfl
  obtain ⟨hrect, hcircle⟩ := toolpaths_end_iff hs
  rw [htool] at hrect hcircle
  -- half the diameter is lost far beyond the sides
  have hpower : (50 : Rat) < 2 ^ stallingExponent 6 := by
    have hdiameter : (6 : Single).toRat = 6 := by decide +kernel
    have hclog := Int.self_le_zpow_clog (b := 2) (by decide) (6 : Single).toRat
    unfold stallingExponent
    rw [zpow_add₀ two_ne_zero]
    generalize Int.clog 2 (6 : Single).toRat = c at hclog ⊢
    rw [Nat.cast_ofNat, hdiameter] at hclog
    norm_num
    linarith
  have hwidth : (50 : Single).toRat = 50 := by decide +kernel
  have hradius : (25 : Single).toRat = 25 := by decide +kernel
  refine ⟨hs, (hrect 50 50).mpr ?_, (hcircle 25).mpr ?_⟩
  · rintro ⟨-, h | ⟨-, h⟩, -⟩
    · exact absurd h (by decide +kernel)
    · have hpoint : 2 ^ stallingExponent 6 ≤ stallingPoint 6 := le_max_right 1 _
      linarith
  · rintro ⟨-, h | ⟨-, h⟩⟩
    · exact absurd h (by decide +kernel)
    · linarith

/-- The default settings, but with a tool that is very thin. -/
def thinTool : Settings Single :=
  { Settings.standard with
    pricing := { PricingSettings.standard with
      toolDiameter := (BinaryValue.finite false 1 (-56)).toSingle } }

/-- The settings are accepted, but a turn with that tool changes nothing in a square of 50 mm, nor
    does it end. -/
theorem thinTool_endless :
    thinTool.Accepted ∧
      ∀ fuel, rect? fuel (widen 50) (widen 50) (widen thinTool.pricing.toolDiameter) = none := by
  refine ⟨by unfold Settings.Accepted; decide +kernel, fun fuel => ?_⟩
  have hinside : ∀ n, HasInside (widen thinTool.pricing.toolDiameter) (widen 50) n := by
    intro n
    unfold HasInside
    dsimp only
    rw [Function.iterate_fixed (by decide +kernel), Function.iterate_fixed (by decide +kernel)]
    decide +kernel
  rw [rect?_eq_none_iff]
  exact ⟨by decide +kernel, fun n _ => ⟨hinside n, hinside n⟩⟩

end Ends

end FoamTray.Toolpath
