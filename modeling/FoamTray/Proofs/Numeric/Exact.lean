import FoamTray.Proofs.Numeric.Rounding
import Mathlib.Data.Rat.Floor

/-! # Whole numbers, comparisons and remainders

    Rounding to whole numbers, comparing, and taking remainders are exact for finite numbers.

    * `toRat_round` : the nearest whole number, while a number can have a fraction at all.
    * `rationalRound_eq` : what is less than one half from a whole number is rounded to it.
    * `le_iff`, `lt_iff`, `beq_iff_toRat` : finite numbers are compared by their values.
    * `toRat_max`, `toRat_min`, `toRat_abs` : so these are exact as well.
    * `toRat_remainder` : the remainder of a division by a positive number is exact.
    * `le_of_lineIndex_le` : the line of all patterns has the finite numbers in their order.
-/

namespace FoamTray

open Float.Model (UnpackedFloat)

/-! ## Section 1: Whole numbers -/

theorem rationalRound_eq_floor (q : Rat) :
    rationalRound q = if 0 ≤ q then ((⌊q + 1 / 2⌋ : Int) : Rat) else -((⌊-q + 1 / 2⌋ : Int) : Rat) :=
  rfl

theorem rationalRound_eq {q : Rat} {k : Int} (h : |q - k| < 1 / 2) : rationalRound q = k := by
  obtain ⟨hlow, hhigh⟩ := abs_lt.mp h
  rw [rationalRound_eq_floor]
  split
  · have hfloor : ⌊q + 1 / 2⌋ = k := by
      rw [Int.floor_eq_iff]
      constructor <;> linarith
    rw [hfloor]
  · have hfloor : ⌊-q + 1 / 2⌋ = -k := by
      rw [Int.floor_eq_iff]
      push_cast
      constructor <;> linarith
    rw [hfloor]
    push_cast
    exact neg_neg _

/-- A rounded value is whole, and no more than one half off. -/
theorem exists_rationalRound_eq (q : Rat) :
    ∃ k : Int, rationalRound q = k ∧ |q - k| ≤ 1 / 2 := by
  rw [rationalRound_eq_floor]
  have hlow := Int.floor_le (q + 1 / 2)
  have hhigh := Int.lt_floor_add_one (q + 1 / 2)
  have hlow' := Int.floor_le (-q + 1 / 2)
  have hhigh' := Int.lt_floor_add_one (-q + 1 / 2)
  split
  · refine ⟨⌊q + 1 / 2⌋, rfl, ?_⟩
    rw [abs_le]
    constructor <;> linarith
  · refine ⟨-⌊-q + 1 / 2⌋, by push_cast; rfl, ?_⟩
    push_cast
    rw [abs_le]
    constructor <;> linarith

theorem rationalRound_intCast (k : Int) : rationalRound k = k := by
  refine rationalRound_eq ?_
  rw [sub_self, abs_zero]
  norm_num

theorem rationalRound_mono {p q : Rat} (h : p ≤ q) : rationalRound p ≤ rationalRound q := by
  rw [rationalRound_eq_floor, rationalRound_eq_floor]
  split
  · rw [if_pos (by linarith)]
    exact_mod_cast Int.floor_le_floor (by linarith : p + 1 / 2 ≤ q + 1 / 2)
  · rename_i hp
    split
    -- a negative value is rounded to no more than zero
    · have hzero : (0 : Int) ≤ ⌊-p + 1 / 2⌋ := Int.floor_nonneg.mpr (by linarith)
      have hzero' : (0 : Int) ≤ ⌊q + 1 / 2⌋ := Int.floor_nonneg.mpr (by linarith)
      exact_mod_cast (by omega : -⌊-p + 1 / 2⌋ ≤ ⌊q + 1 / 2⌋)
    · have hfloor : ⌊-q + 1 / 2⌋ ≤ ⌊-p + 1 / 2⌋ := Int.floor_le_floor (by linarith)
      exact_mod_cast (by omega : -⌊-p + 1 / 2⌋ ≤ -⌊-q + 1 / 2⌋)

namespace Single

/-- A value of 24 bits that is neither too small nor too large is the value of a number. -/
theorem toSingle_exact (n : Bool) {m : Nat} {e : Int} (hm : m < 2 ^ 24) (he : -149 ≤ e)
    (hmax : e ≤ 104) :
    (BinaryValue.finite n m e).toSingle.isFinite = true ∧
      (BinaryValue.finite n m e).toSingle.toRat = (BinaryValue.finite n m e).toRat := by
  rw [← BinaryFormat.minExponent_single] at he
  rw [← BinaryFormat.maxExponent_single] at hmax
  obtain ⟨m', e', hcanonical, hbound, hvalue, hencode⟩ := exists_encode n hm he hmax
  have hdecode : BinaryValue.ofSingle (BinaryValue.finite n m e).toSingle = .finite n m' e' := by
    unfold BinaryValue.toSingle
    rw [hencode]
    exact ofSingle_ofBits n hcanonical hbound
  refine ⟨isFinite_of_ofSingle hdecode, ?_⟩
  unfold toRat
  rw [hdecode, hvalue]

/-- A number that is not too large is rounded to the nearest whole one. -/
theorem toRat_round {x : Single} (hx : x.isFinite = true) (hbound : |x.toRat| < 2 ^ 23) :
    x.round.isFinite = true ∧ x.round.toRat = rationalRound x.toRat := by
  obtain ⟨n, m, e, hvalue, hcanonical, -⟩ := canonical_of_isFinite hx
  have hx' := toRat_of_ofSingle hvalue
  rw [hx', abs_sign_mul n (by positivity)] at hbound
  -- with a unit of one or more the number would be too large
  have hneg : e < 0 := by
    by_contra hnonneg
    have hleast := BinaryFormat.minExponent_single
    have hm : (2 : Rat) ^ 23 ≤ m := by
      exact_mod_cast hcanonical.normal.resolve_left (by omega)
    have hunit : (1 : Rat) ≤ 2 ^ e := one_le_zpow₀ one_le_two (by omega)
    have hlarge : (2 : Rat) ^ 23 * 1 ≤ m * 2 ^ e := mul_le_mul hm hunit zero_le_one (by positivity)
    linarith
  obtain ⟨d, rfl⟩ : ∃ d : Nat, e = -d := ⟨(-e).toNat, by omega⟩
  have hround : x.round =
      (BinaryValue.finite n ((2 * m + 2 ^ d) / (2 * 2 ^ d)) 0).toSingle := by
    unfold round
    rw [isNaN_of_ofSingle hvalue, if_neg Bool.false_ne_true, hvalue]
    unfold BinaryValue.roundHalfAway
    dsimp only
    rw [if_neg (by omega), show (- -(d : Int)).toNat = d by omega]
    rfl
  generalize hk : (2 * m + 2 ^ d) / (2 * 2 ^ d) = k at hround
  have hpos : (0 : Rat) < 2 ^ d := pow_pos two_pos d
  have hshare : (m : Rat) * 2 ^ (-(d : Int)) = m / 2 ^ d := by
    rw [zpow_neg, zpow_natCast, div_eq_mul_inv]
  rw [hshare] at hx' hbound
  -- the quotient is cut off
  have hfloor : ⌊(m : Rat) / 2 ^ d + 1 / 2⌋ = k := by
    have hlow : k * (2 * 2 ^ d) ≤ 2 * m + 2 ^ d := by
      rw [← hk]
      exact Nat.div_mul_le_self _ _
    have hhigh : 2 * m + 2 ^ d < (k + 1) * (2 * 2 ^ d) := by
      rw [← hk]
      exact Nat.lt_mul_of_div_lt (Nat.lt_succ_self _) (by positivity)
    have hlow' : (k : Rat) * (2 * 2 ^ d) ≤ 2 * m + 2 ^ d := by exact_mod_cast hlow
    have hhigh' : (2 : Rat) * m + 2 ^ d < (k + 1) * (2 * 2 ^ d) := by exact_mod_cast hhigh
    have hsum : (m : Rat) / 2 ^ d + 1 / 2 = (2 * m + 2 ^ d) / (2 * 2 ^ d) := by
      field_simp
    rw [Int.floor_eq_iff, hsum, Int.cast_natCast, le_div_iff₀ (by positivity),
      div_lt_iff₀ (by positivity)]
    exact ⟨hlow', hhigh'⟩
  have hfits : k < 2 ^ 24 := by
    have hle : ((k : Int) : Rat) ≤ m / 2 ^ d + 1 / 2 := by
      rw [← hfloor]
      exact Int.floor_le _
    have hlt : (k : Rat) < 2 ^ 24 := by
      rw [Int.cast_natCast] at hle
      linarith
    exact_mod_cast hlt
  obtain ⟨hfinite, hresult⟩ := toSingle_exact (e := 0) n hfits (by decide) (by decide)
  rw [hround]
  refine ⟨hfinite, ?_⟩
  rw [hresult, hx', rationalRound_eq_floor, BinaryValue.toRat_finite, zpow_zero, mul_one]
  cases n
  · rw [if_neg Bool.false_ne_true, one_mul, one_mul, if_pos (by positivity), hfloor,
      Int.cast_natCast]
  · rw [if_pos rfl, neg_one_mul, neg_one_mul, neg_neg, hfloor, Int.cast_natCast]
    split
    -- a zero with a sign
    · rename_i hnonneg
      have hzero : (m : Rat) / 2 ^ d = 0 := by
        have hnonneg' : (0 : Rat) ≤ m / 2 ^ d := by positivity
        linarith
      rw [hzero] at hfloor ⊢
      have hk0 : (k : Int) = 0 := by
        rw [← hfloor]
        norm_num
      have hk0' : k = 0 := by omega
      rw [hk0']
      norm_num
    · rfl

end Single

/-! ## Section 2: Comparisons -/

namespace Single

variable {x y : Single}

/-- How two patterns compare, if they do. -/
def compare? (x y : Single) : Option Ordering :=
  x.toMachine.toModel.unpack.compare y.toMachine.toModel.unpack

theorem compare?_eq (hx : x.isFinite = true) (hy : y.isFinite = true) :
    compare? x y = some (compare x.toRat y.toRat) := by
  obtain ⟨n, m, e, hvx, hcx, -⟩ := canonical_of_isFinite hx
  obtain ⟨n', m', e', hvy, hcy, -⟩ := canonical_of_isFinite hy
  unfold compare? toRat
  rw [unpack_toMachine, unpack_toMachine, hvx, hvy]
  exact compare_unpacked n n' hcx hcy

theorem lt_iff_compare? : x < y ↔ compare? x y = some .lt := by
  have hlt : x < y ↔ (compare? x y == some .lt) = true := by
    show decide (_ = true) = true ↔ _
    exact decide_eq_true_iff
  rw [hlt, beq_iff_eq]

theorem le_iff_compare? : x ≤ y ↔ ∃ o, compare? x y = some o ∧ o.isLE = true := by
  have hle : x ≤ y ↔ (compare? x y).any (·.isLE) = true := by
    show decide (_ = true) = true ↔ _
    exact decide_eq_true_iff
  rw [hle, Option.any_eq_true]

/-- What is less is no greater, also among patterns that are not finite. -/
theorem le_of_lt (h : x < y) : x ≤ y :=
  le_iff_compare?.mpr ⟨.lt, lt_iff_compare?.mp h, rfl⟩

theorem lt_iff (hx : x.isFinite = true) (hy : y.isFinite = true) :
    x < y ↔ x.toRat < y.toRat := by
  rw [lt_iff_compare?, compare?_eq hx hy, Option.some.injEq, compare_lt_iff_lt]

theorem le_iff (hx : x.isFinite = true) (hy : y.isFinite = true) :
    x ≤ y ↔ x.toRat ≤ y.toRat := by
  rw [le_iff_compare?, compare?_eq hx hy]
  simp only [Option.some.injEq, exists_eq_left']
  rw [Ordering.isLE_iff_ne_gt, compare_gt_iff_gt, not_lt]

theorem beq_iff_toRat (hx : x.isFinite = true) (hy : y.isFinite = true) :
    (x == y) = true ↔ x.toRat = y.toRat := by
  have hbeq : (x == y) = (compare? x y == some .eq) := rfl
  rw [hbeq, compare?_eq hx hy, beq_iff_eq, Option.some.injEq, compare_eq_iff_eq]

/-! ## Section 3: The smaller, the larger and the distance from zero -/

variable {a b : Single}

theorem isNumber_of_isFinite (h : a.isFinite = true) : Scalar.isNumber a = true :=
  (beq_iff_toRat h h).mpr rfl

theorem toRat_max (ha : a.isFinite = true) (hb : b.isFinite = true) :
    (Scalar.max a b).isFinite = true ∧ (Scalar.max a b).toRat = max a.toRat b.toRat := by
  unfold Scalar.max
  rw [if_pos (isNumber_of_isFinite hb)]
  by_cases h : b < a
  · rw [if_pos h]
    exact ⟨ha, (max_eq_left ((lt_iff hb ha).mp h).le).symm⟩
  · rw [if_neg h]
    rw [lt_iff hb ha, not_lt] at h
    exact ⟨hb, (max_eq_right h).symm⟩

theorem toRat_min (ha : a.isFinite = true) (hb : b.isFinite = true) :
    (Scalar.min a b).isFinite = true ∧ (Scalar.min a b).toRat = min a.toRat b.toRat := by
  unfold Scalar.min
  rw [if_pos (isNumber_of_isFinite hb)]
  by_cases h : a < b
  · rw [if_pos h]
    exact ⟨ha, (min_eq_left ((lt_iff ha hb).mp h).le).symm⟩
  · rw [if_neg h]
    rw [lt_iff ha hb, not_lt] at h
    exact ⟨hb, (min_eq_right h).symm⟩

/-- Without its sign a number is the distance from zero. -/
theorem toRat_abs (x : Single) : x.abs.toRat = |x.toRat| := by
  have hbits := x.abs_toNat
  have hfield : x.field < 2 ^ 8 := Nat.mod_lt _ (Nat.two_pow_pos 8)
  have hfraction : x.fraction < 2 ^ 23 := Nat.mod_lt _ (Nat.two_pow_pos 23)
  have hfield' : x.abs.field = x.field := by
    show x.abs.bits.toNat / 2 ^ 23 % 2 ^ 8 = x.field
    omega
  have hfraction' : x.abs.fraction = x.fraction := by
    show x.abs.bits.toNat % 2 ^ 23 = x.fraction
    omega
  have hsign : x.abs.negative = false := by
    have hzero : x.abs.bits.toNat / 2 ^ 31 % 2 = 0 := by omega
    unfold negative
    rw [hzero]
    rfl
  have hfinite : ∀ (n : Bool) (m : Nat) (e : Int),
      (BinaryValue.finite false m e).toRat = |(BinaryValue.finite n m e).toRat| := by
    intro n m e
    show (if false = true then -1 else 1 : Rat) * (m * 2 ^ e) =
      |(if n = true then -1 else 1 : Rat) * (m * 2 ^ e)|
    rw [abs_sign_mul n (by positivity), if_neg Bool.false_ne_true, one_mul]
  unfold toRat
  rw [ofSingle_eq, ofSingle_eq x, hfield', hfraction', hsign]
  split
  · split <;> exact abs_zero.symm
  · split
    · exact hfinite x.negative _ _
    · exact hfinite x.negative _ _

theorem isFinite_abs (x : Single) : x.abs.isFinite = x.isFinite := by
  have hbits := x.abs_toNat
  have hfraction : x.fraction < 2 ^ 23 := Nat.mod_lt _ (Nat.two_pow_pos 23)
  have hfield : x.field < 2 ^ 8 := Nat.mod_lt _ (Nat.two_pow_pos 8)
  have hfield' : x.abs.field = x.field := by
    show x.abs.bits.toNat / 2 ^ 23 % 2 ^ 8 = x.field
    omega
  rw [Bool.eq_iff_iff, isFinite_iff, isFinite_iff, hfield']

/-! ## Section 4: Remainders -/

/-- The remainder by a positive number is exact: a whole number of them is taken away, what is left
    is less than one of them and has the sign of the dividend. -/
theorem toRat_remainder (hx : x.isFinite = true) (hy : y.isFinite = true) (hpos : 0 < y.toRat) :
    (x.remainder y).isFinite = true ∧ |(x.remainder y).toRat| < y.toRat ∧
      ∃ k : Int, (x.remainder y).toRat = x.toRat - k * y.toRat := by
  obtain ⟨n, m, e, hvx, hcx, he⟩ := canonical_of_isFinite hx
  obtain ⟨n', m', e', hvy, hcy, he'⟩ := canonical_of_isFinite hy
  have hleast := hcx.le
  have hleast' := hcy.le
  rw [BinaryFormat.minExponent_single] at hleast hleast'
  have hy' : y.toRat = m' * 2 ^ e' := by
    unfold toRat at hpos ⊢
    rw [hvy] at hpos ⊢
    exact BinaryValue.toRat_of_pos hpos
  have hm' : 0 < m' := by
    rcases Nat.eq_zero_or_pos m' with rfl | hm'
    · rw [hy', Nat.cast_zero, zero_mul] at hpos
      exact absurd hpos (lt_irrefl 0)
    · exact hm'
  -- both numbers are whole multiples of the lower one of their units
  have hshift : ∀ (k : Nat) (t : Int), min e e' ≤ t →
      ((k * 2 ^ (t - min e e').toNat : Nat) : Rat) * 2 ^ min e e' = k * 2 ^ t := by
    intro k t ht
    push_cast
    rw [mul_assoc, ← zpow_natCast, ← zpow_add₀ two_ne_zero]
    congr 2
    omega
  have hdividend := hshift m e (min_le_left e e')
  have hdivisor := hshift m' e' (min_le_right e e')
  rw [remainder_eq hvx hvy (Nat.ne_of_gt hm')]
  -- where the units differ, one of the two mantissas stays as it is
  have hshort : m * 2 ^ (e - min e e').toNat < 2 ^ 24 ∨ m' * 2 ^ (e' - min e e').toNat < 2 ^ 24 := by
    rcases le_total e e' with hle | hle
    · left
      rw [min_eq_left hle, Int.sub_self, Int.toNat_zero, Nat.pow_zero, Nat.mul_one]
      exact hcx.lt
    · right
      rw [min_eq_right hle, Int.sub_self, Int.toNat_zero, Nat.pow_zero, Nat.mul_one]
      exact hcy.lt
  have hdivisor_pos : 0 < m' * 2 ^ (e' - min e e').toNat :=
    Nat.mul_pos hm' (Nat.two_pow_pos _)
  generalize m * 2 ^ (e - min e e').toNat = a at hdividend hshort ⊢
  generalize m' * 2 ^ (e' - min e e').toNat = b at hdivisor hshort hdivisor_pos ⊢
  have hmod_lt : a % b < b := Nat.mod_lt a hdivisor_pos
  have hmod_le : a % b ≤ a := Nat.mod_le a b
  obtain ⟨hfinite, hvalue⟩ := toSingle_exact (e := min e e') n
    (show a % b < 2 ^ 24 by omega) (by omega) (by omega)
  have hunit : (0 : Rat) < 2 ^ min e e' := zpow_pos two_pos _
  have hsplit : (a : Rat) = b * (a / b : Nat) + (a % b : Nat) := by
    exact_mod_cast (Nat.div_add_mod a b).symm
  have hlt : ((a % b : Nat) : Rat) < b := by exact_mod_cast hmod_lt
  generalize a / b = q at hsplit
  refine ⟨hfinite, ?_, if n then -(q : Int) else q, ?_⟩
  · rw [hvalue, BinaryValue.abs_toRat_finite, hy', ← hdivisor]
    exact mul_lt_mul_of_pos_right hlt hunit
  · rw [hvalue, BinaryValue.toRat_finite, toRat_of_ofSingle hvx, hy', ← hdividend, ← hdivisor,
      hsplit]
    cases n
    · rw [if_neg Bool.false_ne_true, if_neg Bool.false_ne_true]
      push_cast
      ring
    · rw [if_pos rfl, if_pos rfl]
      push_cast
      ring

/-! ## Section 5: The line of all patterns -/

/-- The magnitude of a pattern counts the values up to its own. -/
theorem abs_toNat_of_ofSingle {x : Single} {n : Bool} {m : Nat} {e : Int}
    (h : BinaryValue.ofSingle x = .finite n m e) :
    x.abs.bits.toNat = (e - BinaryFormat.single.minExponent).toNat *
      2 ^ BinaryFormat.single.fractionBits + m := by
  rw [abs_toNat, BinaryFormat.minExponent_single]
  show _ = (e - -149).toNat * 2 ^ 23 + m
  rw [ofSingle_eq] at h
  split at h
  · split at h <;> cases h
  · split at h
    · rename_i hzero
      cases h
      rw [hzero]
      rfl
    · cases h
      have hshift : ((x.field : Int) - 150 - -149).toNat + 1 = x.field := by omega
      rw [← hshift, Nat.add_mul]
      omega

theorem negative_of_ofSingle {x : Single} {n : Bool} {m : Nat} {e : Int}
    (h : BinaryValue.ofSingle x = .finite n m e) : x.negative = n := by
  rw [ofSingle_eq] at h
  split at h
  · split at h <;> cases h
  · split at h <;> exact (BinaryValue.finite.inj h).1

/-- Positive numbers lie above the middle of the line, by their magnitudes, and negative ones in
    the opposite order below it. -/
theorem lineIndex_eq (x : Single) :
    x.lineIndex = if x.negative then 2 ^ 31 - 1 - (x.abs.bits.toNat : Int)
      else 2 ^ 31 + (x.abs.bits.toNat : Int) := by
  have hbits := x.bits_toNat
  have hmagnitude := x.abs_toNat
  have hfield : x.field < 2 ^ 8 := Nat.mod_lt _ (Nat.two_pow_pos 8)
  have hfraction : x.fraction < 2 ^ 23 := Nat.mod_lt _ (Nat.two_pow_pos 23)
  unfold lineIndex
  simp only [Nat.pow_eq]
  cases hn : x.negative <;> simp only [hn, if_true, if_false, Bool.false_eq_true] at hbits ⊢
  · rw [if_pos (by omega)]
    omega
  · rw [if_neg (by omega)]
    omega

/-- Finite numbers are in the order of their places in the line. -/
theorem toRat_le_of_lineIndex_le {x y : Single} (hx : x.isFinite = true) (hy : y.isFinite = true)
    (h : x.lineIndex ≤ y.lineIndex) : x.toRat ≤ y.toRat := by
  obtain ⟨n, m, e, hvx, hcx, -⟩ := canonical_of_isFinite hx
  obtain ⟨n', m', e', hvy, hcy, -⟩ := canonical_of_isFinite hy
  rw [lineIndex_eq, lineIndex_eq, negative_of_ofSingle hvx, negative_of_ofSingle hvy,
    abs_toNat_of_ofSingle hvx, abs_toNat_of_ofSingle hvy] at h
  rw [toRat_of_ofSingle hvx, toRat_of_ofSingle hvy]
  have hvalue : (0 : Rat) ≤ m * 2 ^ e := by positivity
  have hvalue' : (0 : Rat) ≤ m' * 2 ^ e' := by positivity
  cases n <;> cases n' <;> simp only [if_true, if_false, Bool.false_eq_true] at h ⊢
  · have hle := hcx.toRat_le_of_pattern_le hcy (by omega)
    linarith
  · exfalso
    omega
  · linarith
  · have hle := hcy.toRat_le_of_pattern_le hcx (by omega)
    linarith

/-- The order of the line agrees with that of the machine. -/
theorem le_of_lineIndex_le {x y : Single} (hx : x.isFinite = true) (hy : y.isFinite = true)
    (h : x.lineIndex ≤ y.lineIndex) : x ≤ y :=
  (le_iff hx hy).mpr (toRat_le_of_lineIndex_le hx hy h)

theorem lineIndex_lt_of_lt {x y : Single} (hx : x.isFinite = true) (hy : y.isFinite = true)
    (h : x < y) : x.lineIndex < y.lineIndex := by
  by_contra hge
  have hle := toRat_le_of_lineIndex_le hy hx (not_lt.mp hge)
  exact absurd ((lt_iff hx hy).mp h) hle.not_gt

theorem precedes_iff (x y : Single) :
    Coordinate.precedes x y = true ↔ x.lineIndex < y.lineIndex :=
  decide_eq_true_iff

end Single

end FoamTray
