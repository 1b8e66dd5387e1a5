import FoamTray.Proofs.Numeric.Operations
import FoamTray.Proofs.Numeric.Single

/-! # Rounding of single precision numbers

    Each operation of the machine answers the exact result, rounded to the nearest number, as long
    as that is not too large.

    * `RoundsTo` : a number is the nearest one to an exact value.
    * `RoundsTo.abs_sub_le`, `RoundsTo.eq_toRat` : it is not far off, and not off at all if the
      exact value is that of a number.
    * `add_roundsTo`, `sub_roundsTo`, `mul_roundsTo`, `div_roundsTo` : the operations.
-/

namespace FoamTray

open Float.Model (UnpackedFloat Format)

theorem BinaryFormat.minExponent_single : single.minExponent = -149 := by decide

theorem BinaryFormat.maxExponent_single : single.maxExponent = 104 := by decide

namespace Single

variable {x y : Single} {q : Rat}

/-! ## Section 1: Nearest numbers -/

theorem toRat_of_ofSingle {n : Bool} {m : Nat} {e : Int}
    (h : BinaryValue.ofSingle x = .finite n m e) :
    x.toRat = (if n then -1 else 1) * (m * 2 ^ e) := by
  unfold toRat
  rw [h]
  rfl

theorem ofSingle_ne_infinite (hx : x.isFinite = true) (n : Bool) :
    BinaryValue.ofSingle x ≠ .infinite n := by
  obtain ⟨n', m, e, hvalue, -⟩ := ofSingle_of_isFinite hx
  rw [hvalue]
  exact nofun

/-- A value that is not too large is read from its pattern. -/
theorem ofSingle_ofBits (n : Bool) {m : Nat} {e : Int} (h : Canonical .single m e)
    (he : e ≤ BinaryFormat.single.maxExponent) :
    BinaryValue.ofSingle ⟨.ofNat (BinaryFormat.single.pattern n m e)⟩ = .finite n m e := by
  have hpattern : BinaryFormat.single.pattern n m e < 2 ^ 32 := BinaryFormat.pattern_lt n h he
  unfold BinaryValue.ofSingle
  rw [UInt32.toNat_ofNat', Nat.mod_eq_of_lt hpattern, BinaryFormat.decode_pattern n h he]

/-- A number is finite, or positive infinity, or nothing finite is below it. -/
theorem finite_or (x : Single) : x.isFinite = true ∨ BinaryValue.ofSingle x = .infinite false ∨
    x.isFinite = false ∧
      (BinaryValue.ofSingle x = .nan ∨ BinaryValue.ofSingle x = .infinite true) := by
  cases hfinite : x.isFinite with
  | true => exact .inl rfl
  | false =>
    right
    cases hx : BinaryValue.ofSingle x with
    | finite n m e =>
      rw [isFinite_of_ofSingle hx] at hfinite
      cases hfinite
    | nan => exact .inr ⟨rfl, .inl rfl⟩
    | infinite n =>
      cases n with
      | false => exact .inl rfl
      | true => exact .inr ⟨rfl, .inr rfl⟩

/-- A finite number has 24 bits at an exponent that fits. -/
theorem canonical_of_isFinite (h : x.isFinite = true) :
    ∃ n m e, BinaryValue.ofSingle x = .finite n m e ∧ Canonical .single m e ∧ e ≤ 104 := by
  obtain ⟨n, m, e, hvalue, -⟩ := ofSingle_of_isFinite h
  have hcanonical := BinaryFormat.canonical_of_decode hvalue
  rw [BinaryFormat.maxExponent_single] at hcanonical
  exact ⟨n, m, e, hvalue, hcanonical⟩

/-- A positive number has a mantissa and an exponent. -/
theorem exists_of_pos (hx : x.isFinite = true) (hpos : 0 < x.toRat) :
    ∃ (m : Nat) (e : Int), x.toRat = m * 2 ^ e ∧ Canonical .single m e ∧ e ≤ 104 := by
  obtain ⟨n, m, e, hvalue, hcanonical, he⟩ := canonical_of_isFinite hx
  refine ⟨m, e, ?_, hcanonical, he⟩
  rw [← BinaryValue.abs_toRat_finite n m e, ← hvalue]
  exact (abs_of_pos hpos).symm

/-- What is greater than a number of 24 bits is a whole multiple of its unit, and is greater by one
    unit at least. -/
theorem add_unit_le (hx : x.isFinite = true) {m : Nat} {e : Int} (hm : 2 ^ 23 ≤ m)
    (h : m * 2 ^ e < x.toRat) :
    m * 2 ^ e + 2 ^ e ≤ x.toRat ∧ ∃ k : Nat, x.toRat = k * 2 ^ e := by
  have hnonneg : (0 : Rat) ≤ m * 2 ^ e := by positivity
  obtain ⟨m', e', hvalue, hcanonical, -⟩ := exists_of_pos hx (lt_of_le_of_lt hnonneg h)
  rw [hvalue] at h ⊢
  obtain ⟨he, hgap⟩ := hcanonical.add_unit_le hm h
  refine ⟨by linarith, m' * 2 ^ (e' - e).toNat, ?_⟩
  push_cast
  rw [mul_assoc, ← zpow_natCast, ← zpow_add₀ two_ne_zero]
  congr 2
  omega

/-- No finite number is as far from zero as the next power of two. -/
theorem abs_toRat_lt (hx : x.isFinite = true) : |x.toRat| < 2 ^ 128 := by
  obtain ⟨n, m, e, hvalue, hcanonical, he⟩ := canonical_of_isFinite hx
  unfold toRat
  rw [hvalue, BinaryValue.abs_toRat_finite]
  have hpower : (2 : Rat) ^ e ≤ 2 ^ (104 : Int) := zpow_le_zpow_right₀ one_le_two he
  calc (m : Rat) * 2 ^ e < 2 ^ 24 * 2 ^ e := hcanonical.toRat_lt
    _ ≤ 2 ^ 24 * 2 ^ (104 : Int) := mul_le_mul_of_nonneg_left hpower (by positivity)
    _ = 2 ^ 128 := by norm_num

/-- A number is the nearest one to an exact value. -/
def RoundsTo (x : Single) (q : Rat) : Prop := Nearest .single (BinaryValue.ofSingle x) q

namespace RoundsTo

theorem finite (h : RoundsTo x q) : x.isFinite = true := by
  obtain ⟨n, m, e, t, hvalue, -⟩ := h
  exact isFinite_of_ofSingle hvalue

/-- The distance is a share of the value, or of the least number. -/
theorem abs_sub_le (h : RoundsTo x q) : |x.toRat - q| ≤ |q| / 2 ^ 24 + 1 / 2 ^ 150 := by
  have herror := h.error_le
  have hleast : (2 : Rat) ^ (-149 : Int) / 2 = 1 / 2 ^ 150 := by norm_num
  rw [BinaryFormat.minExponent_single, hleast] at herror
  exact herror

/-- A number that is not less than the exact value is not less than the nearest one. -/
theorem le (h : RoundsTo x q) (hy : y.isFinite = true) (hq : q ≤ y.toRat) :
    x.toRat ≤ y.toRat := by
  obtain ⟨n, m, e, hvalue, hcanonical, -⟩ := canonical_of_isFinite hy
  unfold toRat at hq ⊢
  rw [hvalue] at hq ⊢
  exact Nearest.le h hcanonical hq

theorem ge (h : RoundsTo x q) (hy : y.isFinite = true) (hq : y.toRat ≤ q) :
    y.toRat ≤ x.toRat := by
  obtain ⟨n, m, e, hvalue, hcanonical, -⟩ := canonical_of_isFinite hy
  unfold toRat at hq ⊢
  rw [hvalue] at hq ⊢
  exact Nearest.ge h hcanonical hq

/-- Nothing is lost of a value that is the value of a number. -/
theorem eq_toRat (h : RoundsTo x y.toRat) (hy : y.isFinite = true) : x.toRat = y.toRat := by
  obtain ⟨n, m, e, hvalue, hcanonical, -⟩ := canonical_of_isFinite hy
  unfold toRat at h ⊢
  rw [hvalue] at h ⊢
  exact Nearest.eq h hcanonical

end RoundsTo

/-! ## Section 2: Operations -/

/-- What the machine answers for an unpacked result. -/
def packed (u : UnpackedFloat) : Single := ofMachine (.ofModel (.pack u))

/-- A result of 24 bits at an exponent that fits is packed without loss. -/
theorem ofSingle_packed (n : Bool) {m : Nat} {e : Int} (h : Canonical .single m e)
    (he : e ≤ BinaryFormat.single.maxExponent) :
    BinaryValue.ofSingle (packed (BinaryValue.finite n m e).unpacked) = .finite n m e := by
  have hnumber : (BinaryValue.finite n m e).unpacked.isNaN = false := by
    rcases Nat.eq_zero_or_pos m with rfl | hm
    · rw [BinaryValue.unpacked_zero]
      rfl
    · rw [BinaryValue.unpacked_of_pos n hm]
      rfl
  have hnan : (Float32.ofModel (.pack (BinaryValue.finite n m e).unpacked)).isNaN = false :=
    (congrArg UnpackedFloat.isNaN (BinaryFormat.unpack_pack n h he)).trans hnumber
  have hbits : (packed (BinaryValue.finite n m e).unpacked).bits.toNat =
      BinaryFormat.single.pattern n m e := by
    unfold packed ofMachine
    rw [hnan, if_neg Bool.false_ne_true]
    exact BinaryFormat.toNat_pack n h he
  unfold BinaryValue.ofSingle
  rw [hbits, BinaryFormat.decode_pattern n h he]

/-- What is rounded is packed into the nearest number. -/
theorem packed_roundsTo {u : UnpackedFloat} (h : Rounded .single u q) (hbound : |q| ≤ 2 ^ 127) :
    RoundsTo (packed u) q := by
  obtain ⟨v, hv, rfl⟩ := h
  obtain ⟨n, m, e, -, rfl, -⟩ := id hv
  have hlargest : (2 : Rat) ^ ((BinaryFormat.single.fractionBits : Int) +
      BinaryFormat.single.maxExponent) = 2 ^ 127 := by
    rw [BinaryFormat.maxExponent_single]
    exact zpow_natCast 2 127
  obtain ⟨hcanonical, he⟩ := hv.exponent_le (by rw [hlargest]; exact hbound)
  unfold RoundsTo
  rw [ofSingle_packed n hcanonical he]
  exact hv

theorem calculate_eq (op : Float32 → Float32 → Float32) (hx : x.isFinite = true)
    (hy : y.isFinite = true) : calculate op x y = ofMachine (op x.toMachine y.toMachine) := by
  unfold calculate
  rw [isNaN_of_isFinite hx, isNaN_of_isFinite hy, if_neg Bool.false_ne_true,
    if_neg Bool.false_ne_true]

/-- The machine adds. -/
theorem add_roundsTo (hx : x.isFinite = true) (hy : y.isFinite = true)
    (hbound : |x.toRat + y.toRat| ≤ 2 ^ 127) : RoundsTo (x + y) (x.toRat + y.toRat) := by
  obtain ⟨n, m, e, hvx, hcx, -⟩ := canonical_of_isFinite hx
  obtain ⟨n', m', e', hvy, hcy, -⟩ := canonical_of_isFinite hy
  have hsum : x + y = packed (UnpackedFloat.add Format.binary32 x.toMachine.toModel.unpack
      y.toMachine.toModel.unpack) := calculate_eq (· + ·) hx hy
  rw [hsum, unpack_toMachine, unpack_toMachine]
  refine packed_roundsTo ?_ hbound
  unfold toRat
  rw [hvx, hvy]
  exact rounded_add hcx hcy

/-- The machine subtracts. -/
theorem sub_roundsTo (hx : x.isFinite = true) (hy : y.isFinite = true)
    (hbound : |x.toRat - y.toRat| ≤ 2 ^ 127) : RoundsTo (x - y) (x.toRat - y.toRat) := by
  obtain ⟨n, m, e, hvx, hcx, -⟩ := canonical_of_isFinite hx
  obtain ⟨n', m', e', hvy, hcy, -⟩ := canonical_of_isFinite hy
  have hdifference : x - y = packed (UnpackedFloat.sub Format.binary32 x.toMachine.toModel.unpack
      y.toMachine.toModel.unpack) := calculate_eq (· - ·) hx hy
  rw [hdifference, unpack_toMachine, unpack_toMachine]
  refine packed_roundsTo ?_ hbound
  unfold toRat
  rw [hvx, hvy]
  exact rounded_sub hcx hcy

/-- The machine multiplies. -/
theorem mul_roundsTo (hx : x.isFinite = true) (hy : y.isFinite = true)
    (hbound : |x.toRat * y.toRat| ≤ 2 ^ 127) : RoundsTo (x * y) (x.toRat * y.toRat) := by
  obtain ⟨n, m, e, hvx, hcx, -⟩ := canonical_of_isFinite hx
  obtain ⟨n', m', e', hvy, hcy, -⟩ := canonical_of_isFinite hy
  have hproduct : x * y = packed (UnpackedFloat.mul Format.binary32 x.toMachine.toModel.unpack
      y.toMachine.toModel.unpack) := calculate_eq (· * ·) hx hy
  rw [hproduct, unpack_toMachine, unpack_toMachine]
  refine packed_roundsTo ?_ hbound
  unfold toRat
  rw [hvx, hvy]
  exact rounded_mul hcx hcy

/-- The machine divides. -/
theorem div_roundsTo (hx : x.isFinite = true) (hy : y.isFinite = true) (hy0 : y.toRat ≠ 0)
    (hbound : |x.toRat / y.toRat| ≤ 2 ^ 127) : RoundsTo (x / y) (x.toRat / y.toRat) := by
  obtain ⟨n, m, e, hvx, hcx, -⟩ := canonical_of_isFinite hx
  obtain ⟨n', m', e', hvy, -, -⟩ := canonical_of_isFinite hy
  have hquotient : x / y = packed (UnpackedFloat.div Format.binary32 x.toMachine.toModel.unpack
      y.toMachine.toModel.unpack) := calculate_eq (· / ·) hx hy
  have hm' : 0 < m' := by
    rcases Nat.eq_zero_or_pos m' with rfl | hpos
    · rw [toRat_of_ofSingle hvy, Nat.cast_zero, zero_mul, mul_zero] at hy0
      exact absurd rfl hy0
    · exact hpos
  rw [hquotient, unpack_toMachine, unpack_toMachine]
  refine packed_roundsTo ?_ hbound
  unfold toRat
  rw [hvx, hvy]
  exact rounded_div hcx hm'

end Single

end FoamTray
