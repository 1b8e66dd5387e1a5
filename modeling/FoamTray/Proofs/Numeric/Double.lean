import FoamTray.Numeric.Machine
import FoamTray.Proofs.Numeric.Rounding

/-! # Double precision numbers

    Double precision numbers by their exact values: what sums, differences and quotients are
    rounded to, how numbers and infinity are compared, and that widening loses nothing.

    * `RoundsTo` : a number is the nearest one to an exact value.
    * `add_roundsTo`, `sub_roundsTo`, `div_roundsTo` : the operations.
    * `lt_iff`, `le_iff` : finite numbers are compared by their values.
    * `ofDouble_widen`, `widen_exact` : a single precision number keeps its value.
-/

namespace FoamTray

open Float.Model (UnpackedFloat Format)

theorem BinaryFormat.minExponent_double : double.minExponent = -1074 := by decide

theorem BinaryFormat.maxExponent_double : double.maxExponent = 971 := by decide

namespace Double

variable {x y : Float} {q : Rat}

/-! ## Section 1: Values -/

/-- The exact value of a double precision number. -/
def toRat (x : Float) : Rat := (BinaryValue.ofDouble x).toRat

/-- The least positive number. -/
def least : Rat := 2 ^ (-1074 : Int)

theorem least_pos : 0 < least := zpow_pos two_pos _

/-- A number that is neither infinite nor something else. -/
def IsFinite (x : Float) : Prop := ∃ n m e, BinaryValue.ofDouble x = .finite n m e

/-- Positive infinity. -/
def IsInfinite (x : Float) : Prop := BinaryValue.ofDouble x = .infinite false

/-- What no finite number is below: what is not a number, and negative infinity. -/
def IsLow (x : Float) : Prop :=
  BinaryValue.ofDouble x = .nan ∨ BinaryValue.ofDouble x = .infinite true

/-- A number is the nearest one to an exact value. -/
def RoundsTo (x : Float) (q : Rat) : Prop := Nearest .double (BinaryValue.ofDouble x) q

/-- The machine calculates with the exact value. -/
theorem unpack_toModel (x : Float) : x.toModel.unpack = (BinaryValue.ofDouble x).unpacked :=
  BinaryFormat.double.unpack_eq_decode x.toBits.toBitVec

/-- The machine tells finite numbers. -/
theorem isFinite_of_ofDouble {n : Bool} {m : Nat} {e : Int}
    (h : BinaryValue.ofDouble x = .finite n m e) : x.isFinite = true := by
  show x.toModel.unpack.isFinite = true
  rw [unpack_toModel, h]
  rcases Nat.eq_zero_or_pos m with rfl | hm
  · rfl
  · rw [BinaryValue.unpacked_of_pos n hm]
    rfl

/-- What the machine answers for an unpacked result. -/
def packed (u : UnpackedFloat) : Float := .ofModel (.pack u)

/-- A result of 53 bits at an exponent that fits is packed without loss. -/
theorem ofDouble_packed (n : Bool) {m : Nat} {e : Int} (h : Canonical .double m e)
    (he : e ≤ BinaryFormat.double.maxExponent) :
    BinaryValue.ofDouble (packed (BinaryValue.finite n m e).unpacked) = .finite n m e := by
  have hbits : (packed (BinaryValue.finite n m e).unpacked).toBits.toNat =
      BinaryFormat.double.pattern n m e := BinaryFormat.toNat_pack n h he
  unfold BinaryValue.ofDouble
  rw [hbits, BinaryFormat.decode_pattern n h he]

theorem ofDouble_packed_infinite (n : Bool) :
    BinaryValue.ofDouble (packed (.infinity (BinaryValue.signOf n))) = .infinite n := by
  cases n <;> rfl

theorem ofDouble_packed_nan : BinaryValue.ofDouble (packed .notANumber) = .nan := rfl

/-- A positive number has a mantissa and an exponent. -/
theorem exists_of_pos (hx : IsFinite x) (hpos : 0 < toRat x) :
    ∃ (m : Nat) (e : Int), toRat x = m * 2 ^ e ∧ Canonical .double m e := by
  obtain ⟨n, m, e, hvalue⟩ := hx
  refine ⟨m, e, ?_, (BinaryFormat.canonical_of_decode hvalue).1⟩
  rw [← BinaryValue.abs_toRat_finite n m e, ← hvalue]
  exact (abs_of_pos hpos).symm

/-- Different numbers differ by the least positive one at least. -/
theorem add_least_le (hx : IsFinite x) (hy : IsFinite y) (h : toRat x < toRat y) :
    toRat x + least ≤ toRat y := by
  obtain ⟨n, m, e, hvx⟩ := hx
  obtain ⟨n', m', e', hvy⟩ := hy
  have hle := (BinaryFormat.canonical_of_decode hvx).1.le
  have hle' := (BinaryFormat.canonical_of_decode hvy).1.le
  rw [BinaryFormat.minExponent_double] at hle hle'
  obtain ⟨k, hk⟩ := BinaryValue.exists_toRat_eq_mul n m hle
  obtain ⟨k', hk'⟩ := BinaryValue.exists_toRat_eq_mul n' m' hle'
  have hpos := least_pos
  unfold toRat at h ⊢
  rw [hvx, hvy, hk, hk', ← least] at h ⊢
  have hlt : k < k' := by exact_mod_cast lt_of_mul_lt_mul_right h hpos.le
  have hone : (k : Rat) + 1 ≤ k' := by exact_mod_cast hlt
  calc (k : Rat) * least + least = (k + 1) * least := by ring
    _ ≤ k' * least := mul_le_mul_of_nonneg_right hone hpos.le

namespace RoundsTo

theorem finite (h : RoundsTo x q) : IsFinite x := by
  obtain ⟨n, m, e, t, hvalue, -⟩ := h
  exact ⟨n, m, e, hvalue⟩

/-- A number that is not less than the exact value is not less than the nearest one. -/
theorem le (h : RoundsTo x q) (hy : IsFinite y) (hq : q ≤ toRat y) : toRat x ≤ toRat y := by
  obtain ⟨n, m, e, hvalue⟩ := hy
  unfold toRat at hq ⊢
  rw [hvalue] at hq ⊢
  exact Nearest.le h (BinaryFormat.canonical_of_decode hvalue).1 hq

theorem ge (h : RoundsTo x q) (hy : IsFinite y) (hq : toRat y ≤ q) : toRat y ≤ toRat x := by
  obtain ⟨n, m, e, hvalue⟩ := hy
  unfold toRat at hq ⊢
  rw [hvalue] at hq ⊢
  exact Nearest.ge h (BinaryFormat.canonical_of_decode hvalue).1 hq

/-- The distance is a share of the value, or of the least number. -/
theorem abs_sub_le (h : RoundsTo x q) : |toRat x - q| ≤ |q| / 2 ^ 53 + least / 2 := by
  have herror := Nearest.error_le h
  rw [BinaryFormat.minExponent_double] at herror
  exact herror

/-- What lies no more than half a unit above a power of two is not rounded up. -/
theorem le_two_pow (h : RoundsTo x q) {k : Int} (hk : -1022 ≤ k)
    (hq : q ≤ 2 ^ k + 2 ^ (k - 53)) : toRat x ≤ 2 ^ k := by
  refine Nearest.le_two_pow h hk ?_
  have hhalf : (2 : Rat) ^ (k - 53) = 2 ^ (k - 52) / 2 := by
    rw [show k - 53 = k - 52 - 1 by ring, zpow_sub_one₀ two_ne_zero, div_eq_mul_inv]
  rw [hhalf] at hq
  exact hq

theorem two_pow_le (h : RoundsTo x q) {k : Int} (hk : -1022 ≤ k) (hq : 2 ^ k ≤ q) :
    2 ^ k ≤ toRat x :=
  Nearest.two_pow_le h hk hq

end RoundsTo

/-! ## Section 2: Operations -/

/-- What is rounded is packed into the nearest number. -/
theorem packed_roundsTo {u : UnpackedFloat} (h : Rounded .double u q)
    (hbound : |q| ≤ 2 ^ (1023 : Int)) : RoundsTo (packed u) q := by
  obtain ⟨v, hv, rfl⟩ := h
  obtain ⟨n, m, e, -, rfl, -⟩ := id hv
  have hlargest : (2 : Rat) ^ ((BinaryFormat.double.fractionBits : Int) +
      BinaryFormat.double.maxExponent) = 2 ^ (1023 : Int) := by
    rw [BinaryFormat.maxExponent_double]
    rfl
  obtain ⟨hcanonical, he⟩ := hv.exponent_le (by rw [hlargest]; exact hbound)
  unfold RoundsTo
  rw [ofDouble_packed n hcanonical he]
  exact hv

theorem add_eq (x y : Float) : x + y = packed (UnpackedFloat.add Format.binary64
    (BinaryValue.ofDouble x).unpacked (BinaryValue.ofDouble y).unpacked) := by
  rw [← unpack_toModel, ← unpack_toModel]
  rfl

theorem sub_eq (x y : Float) : x - y = packed (UnpackedFloat.sub Format.binary64
    (BinaryValue.ofDouble x).unpacked (BinaryValue.ofDouble y).unpacked) := by
  rw [← unpack_toModel, ← unpack_toModel]
  rfl

theorem div_eq (x y : Float) : x / y = packed (UnpackedFloat.div Format.binary64
    (BinaryValue.ofDouble x).unpacked (BinaryValue.ofDouble y).unpacked) := by
  rw [← unpack_toModel, ← unpack_toModel]
  rfl

/-- The machine adds. -/
theorem add_roundsTo (hx : IsFinite x) (hy : IsFinite y)
    (hbound : |toRat x + toRat y| ≤ 2 ^ (1023 : Int)) : RoundsTo (x + y) (toRat x + toRat y) := by
  obtain ⟨n, m, e, hvx⟩ := hx
  obtain ⟨n', m', e', hvy⟩ := hy
  rw [add_eq]
  refine packed_roundsTo ?_ hbound
  unfold toRat
  rw [hvx, hvy]
  exact rounded_add (BinaryFormat.canonical_of_decode hvx).1
    (BinaryFormat.canonical_of_decode hvy).1

/-- The machine subtracts. -/
theorem sub_roundsTo (hx : IsFinite x) (hy : IsFinite y)
    (hbound : |toRat x - toRat y| ≤ 2 ^ (1023 : Int)) : RoundsTo (x - y) (toRat x - toRat y) := by
  obtain ⟨n, m, e, hvx⟩ := hx
  obtain ⟨n', m', e', hvy⟩ := hy
  rw [sub_eq]
  refine packed_roundsTo ?_ hbound
  unfold toRat
  rw [hvx, hvy]
  exact rounded_sub (BinaryFormat.canonical_of_decode hvx).1
    (BinaryFormat.canonical_of_decode hvy).1

/-- The machine divides. -/
theorem div_roundsTo (hx : IsFinite x) (hy : IsFinite y) (hy0 : toRat y ≠ 0)
    (hbound : |toRat x / toRat y| ≤ 2 ^ (1023 : Int)) : RoundsTo (x / y) (toRat x / toRat y) := by
  obtain ⟨n, m, e, hvx⟩ := hx
  obtain ⟨n', m', e', hvy⟩ := hy
  have hm' : 0 < m' := by
    rcases Nat.eq_zero_or_pos m' with rfl | hpos
    · unfold toRat at hy0
      rw [hvy, BinaryValue.toRat_zero] at hy0
      exact absurd rfl hy0
    · exact hpos
  rw [div_eq]
  refine packed_roundsTo ?_ hbound
  unfold toRat
  rw [hvx, hvy]
  exact rounded_div (BinaryFormat.canonical_of_decode hvx).1 hm'

/-- Infinity stays what it is when something finite is added to it. -/
theorem add_infinite (hx : IsInfinite x) (hy : IsFinite y) : IsInfinite (x + y) := by
  obtain ⟨n, m, e, hvy⟩ := hy
  unfold IsInfinite at hx ⊢
  rw [add_eq, hx, hvy]
  rcases Nat.eq_zero_or_pos m with rfl | hm
  · exact ofDouble_packed_infinite false
  · rw [BinaryValue.unpacked_of_pos n hm]
    exact ofDouble_packed_infinite false

theorem sub_infinite (hx : IsInfinite x) (hy : IsFinite y) : IsInfinite (x - y) := by
  obtain ⟨n, m, e, hvy⟩ := hy
  unfold IsInfinite at hx ⊢
  rw [sub_eq, hx, hvy]
  rcases Nat.eq_zero_or_pos m with rfl | hm
  · exact ofDouble_packed_infinite false
  · rw [BinaryValue.unpacked_of_pos n hm]
    exact ofDouble_packed_infinite false

theorem div_infinite (hx : IsInfinite x) (hy : IsFinite y) (hpos : 0 < toRat y) :
    IsInfinite (x / y) := by
  obtain ⟨n, m, e, hvy⟩ := hy
  unfold IsInfinite at hx ⊢
  unfold toRat at hpos
  rw [hvy] at hpos
  rw [div_eq, hx, hvy]
  rcases Nat.eq_zero_or_pos m with rfl | hm
  · rw [BinaryValue.toRat_zero] at hpos
    exact absurd hpos (lt_irrefl 0)
  · rw [BinaryValue.unpacked_of_pos n hm]
    cases n with
    | false => exact ofDouble_packed_infinite false
    | true =>
      have hneg : (BinaryValue.finite true m e).toRat ≤ 0 := by
        rw [BinaryValue.toRat_negative, neg_nonpos]
        positivity
      exact absurd hpos hneg.not_gt

theorem sub_low (hx : IsLow x) (hy : IsFinite y) : IsLow (x - y) := by
  obtain ⟨n, m, e, hvy⟩ := hy
  unfold IsLow
  rw [sub_eq, hvy]
  rcases hx with hx | hx
  · left
    rw [hx]
    exact ofDouble_packed_nan
  · right
    rw [hx]
    rcases Nat.eq_zero_or_pos m with rfl | hm
    · exact ofDouble_packed_infinite true
    · rw [BinaryValue.unpacked_of_pos n hm]
      exact ofDouble_packed_infinite true

/-- Nothing is left where infinity is subtracted. -/
theorem low_sub_infinite (x : Float) (hy : IsInfinite y) : IsLow (x - y) := by
  unfold IsInfinite at hy
  unfold IsLow
  rw [sub_eq, hy]
  cases hx : BinaryValue.ofDouble x with
  | nan => exact .inl ofDouble_packed_nan
  | infinite n =>
    cases n with
    | false => exact .inl ofDouble_packed_nan
    | true => exact .inr (ofDouble_packed_infinite true)
  | finite n m e =>
    right
    rcases Nat.eq_zero_or_pos m with rfl | hm
    · exact ofDouble_packed_infinite true
    · rw [BinaryValue.unpacked_of_pos n hm]
      exact ofDouble_packed_infinite true

/-! ## Section 3: Comparisons -/

/-- How two numbers compare, if they do. -/
def compare? (x y : Float) : Option Ordering :=
  (BinaryValue.ofDouble x).unpacked.compare (BinaryValue.ofDouble y).unpacked

theorem lt_iff_compare? : x < y ↔ compare? x y = some .lt := by
  unfold compare?
  rw [← unpack_toModel, ← unpack_toModel, ← beq_iff_eq]
  show decide (_ = true) = true ↔ _
  exact decide_eq_true_iff

theorem le_iff_compare? : x ≤ y ↔ ∃ o, compare? x y = some o ∧ o.isLE = true := by
  unfold compare?
  rw [← unpack_toModel, ← unpack_toModel, ← Option.any_eq_true]
  show decide (_ = true) = true ↔ _
  exact decide_eq_true_iff

theorem compare?_eq (hx : IsFinite x) (hy : IsFinite y) :
    compare? x y = some (compare (toRat x) (toRat y)) := by
  obtain ⟨n, m, e, hvx⟩ := hx
  obtain ⟨n', m', e', hvy⟩ := hy
  unfold compare? toRat
  rw [hvx, hvy]
  exact compare_unpacked n n' (BinaryFormat.canonical_of_decode hvx).1
    (BinaryFormat.canonical_of_decode hvy).1

theorem lt_iff (hx : IsFinite x) (hy : IsFinite y) : x < y ↔ toRat x < toRat y := by
  rw [lt_iff_compare?, compare?_eq hx hy, Option.some.injEq, compare_lt_iff_lt]

theorem le_iff (hx : IsFinite x) (hy : IsFinite y) : x ≤ y ↔ toRat x ≤ toRat y := by
  rw [le_iff_compare?, compare?_eq hx hy]
  simp only [Option.some.injEq, exists_eq_left']
  rw [Ordering.isLE_iff_ne_gt, compare_gt_iff_gt, not_lt]

theorem compare?_infinite (hx : IsFinite x) (hy : IsInfinite y) : compare? x y = some .lt := by
  obtain ⟨n, m, e, hvx⟩ := hx
  unfold IsInfinite at hy
  unfold compare?
  rw [hvx, hy]
  rcases Nat.eq_zero_or_pos m with rfl | hm
  · rfl
  · rw [BinaryValue.unpacked_of_pos n hm]
    cases n <;> rfl

/-- Every finite number is less than infinity. -/
theorem lt_infinite (hx : IsFinite x) (hy : IsInfinite y) : x < y :=
  lt_iff_compare?.mpr (compare?_infinite hx hy)

theorem le_infinite (hx : IsFinite x) (hy : IsInfinite y) : x ≤ y :=
  le_iff_compare?.mpr ⟨.lt, compare?_infinite hx hy, rfl⟩

/-- Nothing is greater than infinity. -/
theorem not_infinite_lt (hx : IsInfinite x) (y : Float) : ¬ x < y := by
  unfold IsInfinite at hx
  rw [lt_iff_compare?]
  unfold compare?
  rw [hx]
  cases BinaryValue.ofDouble y with
  | nan => exact nofun
  | infinite n => cases n <;> exact nofun
  | finite n m e =>
    rcases Nat.eq_zero_or_pos m with rfl | hm
    · exact nofun
    · rw [BinaryValue.unpacked_of_pos n hm]
      exact nofun

/-- Nothing finite is greater than or equal to infinity. -/
theorem not_infinite_le (hx : IsInfinite x) (hy : IsFinite y) : ¬ x ≤ y := by
  obtain ⟨n, m, e, hvy⟩ := hy
  unfold IsInfinite at hx
  rw [le_iff_compare?]
  unfold compare?
  rw [hx, hvy]
  rintro ⟨o, ho, hle⟩
  rcases Nat.eq_zero_or_pos m with rfl | hm
  · cases ho
    cases hle
  · rw [BinaryValue.unpacked_of_pos n hm] at ho
    cases ho
    cases hle

theorem not_le_low (hx : IsFinite x ∨ IsInfinite x) (hy : IsLow y) : ¬ x ≤ y := by
  rw [le_iff_compare?]
  unfold compare?
  rintro ⟨o, ho, hle⟩
  rcases hx with ⟨n, m, e, hvx⟩ | hx
  · rw [hvx] at ho
    rcases hy with hy | hy
    · rw [hy] at ho
      rcases Nat.eq_zero_or_pos m with rfl | hm
      · cases ho
      · rw [BinaryValue.unpacked_of_pos n hm] at ho
        cases n <;> cases ho
    · rw [hy] at ho
      rcases Nat.eq_zero_or_pos m with rfl | hm
      · cases ho
        cases hle
      · rw [BinaryValue.unpacked_of_pos n hm] at ho
        cases n <;> cases ho <;> cases hle
  · unfold IsInfinite at hx
    rw [hx] at ho
    rcases hy with hy | hy
    · rw [hy] at ho
      cases ho
    · rw [hy] at ho
      cases ho
      cases hle

theorem le_of_lt (h : x < y) : x ≤ y :=
  le_iff_compare?.mpr ⟨.lt, lt_iff_compare?.mp h, rfl⟩

/-! ## Section 4: Exact values -/

/-- The machine reads the pattern of a value. -/
theorem ofDouble_ofBits (n : Bool) {m : Nat} {e : Int} (h : Canonical .double m e)
    (he : e ≤ BinaryFormat.double.maxExponent) :
    BinaryValue.ofDouble (.ofBits (.ofNat (BinaryFormat.double.pattern n m e))) = .finite n m e := by
  have hbits : (UInt64.ofNat (BinaryFormat.double.pattern n m e)).toNat =
      BinaryFormat.double.pattern n m e := by
    have hlt : BinaryFormat.double.pattern n m e < 2 ^ 64 := BinaryFormat.pattern_lt n h he
    rw [UInt64.toNat_ofNat', Nat.mod_eq_of_lt hlt]
  -- it unpacks the pattern and packs it again
  have hunpack : UnpackedFloat.unpack Format.binary64
      (UInt64.ofNat (BinaryFormat.double.pattern n m e)).toBitVec =
        (BinaryValue.finite n m e).unpacked := by
    refine (BinaryFormat.double.unpack_eq_decode _).trans ?_
    show (BinaryFormat.double.decode
      (UInt64.ofNat (BinaryFormat.double.pattern n m e)).toNat).unpacked = _
    rw [hbits, BinaryFormat.decode_pattern n h he]
  have hpacked : Float.ofBits (.ofNat (BinaryFormat.double.pattern n m e)) =
      packed (BinaryValue.finite n m e).unpacked := by
    rw [← hunpack]
    rfl
  rw [hpacked, ofDouble_packed n h he]

/-- A value of 53 bits that is neither too small nor too large is the value of a number. -/
theorem toDouble_exact (n : Bool) {m : Nat} {e : Int} (hm : m < 2 ^ 53) (he : -1074 ≤ e)
    (hmax : e ≤ 971) :
    IsFinite (BinaryValue.finite n m e).toDouble ∧
      toRat (BinaryValue.finite n m e).toDouble = (BinaryValue.finite n m e).toRat := by
  rw [← BinaryFormat.minExponent_double] at he
  rw [← BinaryFormat.maxExponent_double] at hmax
  obtain ⟨m', e', hcanonical, hbound, hvalue, hencode⟩ := exists_encode n hm he hmax
  have hdecode := ofDouble_ofBits n hcanonical hbound
  rw [← hencode] at hdecode
  refine ⟨⟨n, m', e', hdecode⟩, ?_⟩
  unfold toRat
  rw [← hvalue, ← hdecode]
  rfl

/-- Whole numbers of 53 bits are exact. -/
theorem natCast_exact {k : Nat} (hk : k < 2 ^ 53) :
    IsFinite (k : Float) ∧ toRat (k : Float) = k := by
  obtain ⟨hfinite, hvalue⟩ := toDouble_exact (e := 0) false hk (by decide) (by decide)
  refine ⟨hfinite, hvalue.trans ?_⟩
  rw [BinaryValue.toRat_positive, zpow_zero, mul_one]

/-- A finite number keeps its value when it is widened. -/
theorem widen_exact {x : Single} (hx : x.isFinite = true) :
    IsFinite (widen x) ∧ toRat (widen x) = x.toRat := by
  obtain ⟨n, m, e, hvalue, hcanonical, he⟩ := Single.canonical_of_isFinite hx
  have hm : m < 2 ^ 24 := hcanonical.lt
  have hle := hcanonical.le
  rw [BinaryFormat.minExponent_single] at hle
  unfold widen Single.toRat
  rw [hvalue]
  exact toDouble_exact n (by omega) (by omega) (by omega)

theorem widen_infinite {x : Single} (hx : BinaryValue.ofSingle x = .infinite false) :
    IsInfinite (widen x) := by
  unfold widen IsInfinite
  rw [hx]
  rfl

theorem widen_low {x : Single}
    (hx : BinaryValue.ofSingle x = .nan ∨ BinaryValue.ofSingle x = .infinite true) :
    IsLow (widen x) := by
  unfold widen IsLow
  rcases hx with hx | hx
  · left
    rw [hx]
    rfl
  · right
    rw [hx]
    rfl

end Double

end FoamTray
