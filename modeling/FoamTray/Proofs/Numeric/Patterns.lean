import FoamTray.Numeric.Binary
import Mathlib.Data.BitVec
import Mathlib.Data.Rat.Defs
import Mathlib.Tactic.Linarith
import Mathlib.Tactic.Ring

/-! # Patterns and the values that they stand for

    What holds of the patterns of every format alike. A finite value has one mantissa and one
    exponent under which it is stored, and its pattern is the sum of its sign bit, the exponent
    moved up and the mantissa, whose uppermost bit is carried into the exponent.

    * `Canonical` : a mantissa and an exponent under which a value is stored.
    * `BinaryFormat.pattern`, `BinaryFormat.decode_pattern` : the pattern of a value.
    * `BinaryFormat.roundQuotient_exact` : rounding finds the pattern of a value that has one.
    * `BinaryFormat.unpack_eq_decode`, `BinaryFormat.unpack_pack` : the machine reads and writes the
      same patterns.
-/

namespace FoamTray

open Float.Model (UnpackedFloat Format)
open Float.Model.UnpackedFloat (Sign)

/-! ## Section 1: Values that are stored -/

/-- A format with a fraction and an exponent. -/
class BinaryFormat.Proper (f : BinaryFormat) : Prop where
  /-- There is a fraction. -/
  fractionBits_pos : 0 < f.fractionBits
  /-- There is an exponent that tells infinities and the least numbers from all others. -/
  one_lt_exponentBits : 1 < f.exponentBits

instance : BinaryFormat.single.Proper := ⟨by decide, by decide⟩

instance : BinaryFormat.double.Proper := ⟨by decide, by decide⟩

/-- The exponent of the greatest finite value. -/
def BinaryFormat.maxExponent (f : BinaryFormat) : Int :=
  f.minExponent + 2 ^ f.exponentBits - 3

/-- A mantissa that is not too long, and only at the least exponent shorter than that. -/
structure Canonical (f : BinaryFormat) (m : Nat) (e : Int) : Prop where
  lt : m < 2 ^ (f.fractionBits + 1)
  le : f.minExponent ≤ e
  normal : e = f.minExponent ∨ 2 ^ f.fractionBits ≤ m

namespace BinaryFormat

variable (f : BinaryFormat) {n : Bool} {m : Nat} {e : Int}

/-- The weight of a sign. -/
def signWeight (n : Bool) : Nat := if n then f.signBit else 0

/-- The pattern of a stored value. -/
def pattern (n : Bool) (m : Nat) (e : Int) : Nat :=
  f.signWeight n + ((e - f.minExponent).toNat * 2 ^ f.fractionBits + m)

variable {f}

theorem minExponent_le_maxExponent [f.Proper] : f.minExponent ≤ f.maxExponent := by
  have hfour : 2 ^ 2 ≤ 2 ^ f.exponentBits :=
    Nat.pow_le_pow_right (by decide) Proper.one_lt_exponentBits
  have hmax : f.maxExponent = f.minExponent + (2 ^ f.exponentBits : Nat) - 3 := by
    unfold maxExponent
    push_cast
    rfl
  omega

theorem canonical_zero : Canonical f 0 f.minExponent :=
  ⟨Nat.two_pow_pos _, Int.le_refl _, .inl rfl⟩

/-- The fields of a stored value: either it has the implicit bit, or its exponent is the least
    one. -/
theorem exists_fields (h : Canonical f m e) (he : e ≤ f.maxExponent) :
    ∃ field fraction, fraction < 2 ^ f.fractionBits ∧ field + 1 < 2 ^ f.exponentBits ∧
      (e - f.minExponent).toNat * 2 ^ f.fractionBits + m = field * 2 ^ f.fractionBits + fraction ∧
      (field = 0 ∧ m = fraction ∧ e = f.minExponent ∨
        0 < field ∧ m = fraction + 2 ^ f.fractionBits ∧ e = f.minExponent + field - 1) := by
  have hle := h.le
  have hlt := h.lt
  have hpos := Nat.two_pow_pos f.fractionBits
  have hmax : e - f.minExponent + 3 ≤ (2 ^ f.exponentBits : Nat) := by
    unfold maxExponent at he
    push_cast
    omega
  rw [Nat.pow_succ] at hlt
  rcases Nat.lt_or_ge m (2 ^ f.fractionBits) with hsub | hnorm
  · obtain rfl : e = f.minExponent := h.normal.resolve_right (by omega)
    refine ⟨0, m, hsub, by omega, ?_, .inl ⟨rfl, rfl, rfl⟩⟩
    rw [Int.sub_self, Int.toNat_zero]
  · obtain ⟨k, hk⟩ : ∃ k : Nat, e = f.minExponent + k := ⟨(e - f.minExponent).toNat, by omega⟩
    refine ⟨k + 1, m - 2 ^ f.fractionBits, by omega, by omega, ?_,
      .inr ⟨by omega, by omega, by omega⟩⟩
    have hshift : (e - f.minExponent).toNat = k := by omega
    rw [hshift, Nat.add_mul]
    omega

/-- The magnitude of a pattern is below the sign bit. -/
theorem magnitude_lt {field fraction : Nat} (hfraction : fraction < 2 ^ f.fractionBits)
    (hfield : field < 2 ^ f.exponentBits) :
    field * 2 ^ f.fractionBits + fraction < f.signBit := by
  show _ < 2 ^ (f.fractionBits + f.exponentBits)
  calc field * 2 ^ f.fractionBits + fraction < (field + 1) * 2 ^ f.fractionBits := by
        rw [Nat.add_mul]
        omega
    _ ≤ 2 ^ f.exponentBits * 2 ^ f.fractionBits := Nat.mul_le_mul_right _ hfield
    _ = 2 ^ (f.fractionBits + f.exponentBits) := by
        rw [Nat.pow_add, Nat.mul_comm]

/-- The magnitude of a stored value is not above that of infinity. -/
theorem magnitude_le_infinityBits (h : Canonical f m e) (he : e ≤ f.maxExponent) :
    (e - f.minExponent).toNat * 2 ^ f.fractionBits + m ≤ f.infinityBits := by
  obtain ⟨field, fraction, hfraction, hfield, hsum, -⟩ := exists_fields h he
  rw [hsum]
  unfold infinityBits
  simp only [Nat.pow_eq]
  calc field * 2 ^ f.fractionBits + fraction ≤ (field + 1) * 2 ^ f.fractionBits := by
        rw [Nat.add_mul]
        omega
    _ ≤ (2 ^ f.exponentBits - 1) * 2 ^ f.fractionBits :=
        Nat.mul_le_mul_right _ (by omega)

/-- Beyond the greatest exponent there is nothing below infinity. -/
theorem infinityBits_le_magnitude [f.Proper] (h : Canonical f m e) (he : f.maxExponent < e) :
    f.infinityBits ≤ (e - f.minExponent).toNat * 2 ^ f.fractionBits + m := by
  have hle := minExponent_le_maxExponent (f := f)
  have hnormal : 2 ^ f.fractionBits ≤ m := h.normal.resolve_left (by omega)
  have hmax : f.maxExponent = f.minExponent + (2 ^ f.exponentBits : Nat) - 3 := by
    unfold maxExponent
    push_cast
    rfl
  unfold infinityBits
  simp only [Nat.pow_eq]
  calc (2 ^ f.exponentBits - 1) * 2 ^ f.fractionBits ≤
        ((e - f.minExponent).toNat + 1) * 2 ^ f.fractionBits :=
        Nat.mul_le_mul_right _ (by omega)
    _ ≤ (e - f.minExponent).toNat * 2 ^ f.fractionBits + m := by
        rw [Nat.add_mul]
        omega

/-- Decoding reads the fields. -/
theorem decode_fields {field fraction : Nat} (hfraction : fraction < 2 ^ f.fractionBits)
    (hfield : field < 2 ^ f.exponentBits) (n : Bool) :
    f.decode (f.signWeight n + (field * 2 ^ f.fractionBits + fraction)) =
      if field + 1 = 2 ^ f.exponentBits then if fraction = 0 then .infinite n else .nan
      else if field = 0 then .finite n fraction f.minExponent
      else .finite n (fraction + 2 ^ f.fractionBits) (f.minExponent + field - 1) := by
  have hlt := magnitude_lt hfraction hfield
  have hbit : 0 < f.signBit := Nat.two_pow_pos _
  have hdiv : (field * 2 ^ f.fractionBits + fraction) / 2 ^ f.fractionBits = field := by
    rw [Nat.mul_comm, Nat.mul_add_div (Nat.two_pow_pos _), Nat.div_eq_of_lt hfraction, Nat.add_zero]
  have hmod : (field * 2 ^ f.fractionBits + fraction) % 2 ^ f.fractionBits = fraction := by
    rw [Nat.mul_comm, Nat.mul_add_mod, Nat.mod_eq_of_lt hfraction]
  generalize field * 2 ^ f.fractionBits + fraction = magnitude at hlt hdiv hmod ⊢
  have hsign : ((f.signWeight n + magnitude) / f.signBit % 2 == 1) = n := by
    unfold signWeight
    cases n
    · rw [if_neg Bool.false_ne_true, Nat.zero_add, Nat.div_eq_of_lt hlt]
      rfl
    · rw [if_pos rfl, Nat.add_div_left _ hbit, Nat.div_eq_of_lt hlt]
      rfl
  have hmagnitude : (f.signWeight n + magnitude) % f.signBit = magnitude := by
    unfold signWeight
    cases n
    · rw [if_neg Bool.false_ne_true, Nat.zero_add, Nat.mod_eq_of_lt hlt]
    · rw [if_pos rfl, Nat.add_mod_left, Nat.mod_eq_of_lt hlt]
  unfold decode
  simp only [Nat.pow_eq]
  simp only [hsign, hmagnitude, hdiv, hmod]

/-- A stored value is decoded from its pattern. -/
theorem decode_pattern (n : Bool) (h : Canonical f m e) (he : e ≤ f.maxExponent) :
    f.decode (f.pattern n m e) = .finite n m e := by
  obtain ⟨field, fraction, hfraction, hfield, hsum, hcases⟩ := exists_fields h he
  unfold pattern
  rw [hsum, decode_fields hfraction (Nat.lt_of_succ_lt hfield), if_neg (Nat.ne_of_lt hfield)]
  rcases hcases with ⟨rfl, rfl, rfl⟩ | ⟨hpos, rfl, rfl⟩
  · rw [if_pos rfl]
  · rw [if_neg (Nat.ne_of_gt hpos)]

/-- Every finite value that is decoded is a stored one. -/
theorem canonical_of_decode [f.Proper] {bits : Nat} (h : f.decode bits = .finite n m e) :
    Canonical f m e ∧ e ≤ f.maxExponent := by
  have hpos := Nat.two_pow_pos f.fractionBits
  have hfraction : bits % f.signBit % 2 ^ f.fractionBits < 2 ^ f.fractionBits :=
    Nat.mod_lt _ hpos
  have hfield : bits % f.signBit / 2 ^ f.fractionBits < 2 ^ f.exponentBits := by
    rw [Nat.div_lt_iff_lt_mul hpos, ← Nat.pow_add, Nat.add_comm]
    exact Nat.mod_lt _ (Nat.two_pow_pos _)
  unfold decode at h
  simp only [Nat.pow_eq] at h
  generalize bits % f.signBit % 2 ^ f.fractionBits = fraction at h hfraction
  generalize bits % f.signBit / 2 ^ f.fractionBits = field at h hfield
  have hfour : 2 ^ 2 ≤ 2 ^ f.exponentBits :=
    Nat.pow_le_pow_right (by decide) Proper.one_lt_exponentBits
  have hmax : f.maxExponent = f.minExponent + (2 ^ f.exponentBits : Nat) - 3 := by
    unfold maxExponent
    push_cast
    rfl
  rw [hmax]
  split at h
  · split at h <;> cases h
  · rename_i hones
    split at h
    · cases h
      refine ⟨⟨?_, Int.le_refl _, .inl rfl⟩, by omega⟩
      rw [Nat.pow_succ]
      omega
    · cases h
      refine ⟨⟨?_, by omega, .inr (by omega)⟩, by omega⟩
      rw [Nat.pow_succ]
      omega

theorem pattern_lt (n : Bool) (h : Canonical f m e) (he : e ≤ f.maxExponent) :
    f.pattern n m e < 2 * f.signBit := by
  obtain ⟨field, fraction, hfraction, hfield, hsum, -⟩ := exists_fields h he
  have hlt := magnitude_lt hfraction (Nat.lt_of_succ_lt hfield)
  have hweight : f.signWeight n ≤ f.signBit := by
    unfold signWeight
    split
    · exact Nat.le_refl _
    · exact Nat.zero_le _
  unfold pattern
  omega

end BinaryFormat

/-! ## Section 2: Rounding what has a pattern -/

theorem nearestEven_mul_self (k : Nat) {den : Nat} (hden : 0 < den) :
    nearestEven (k * den) den = k := by
  unfold nearestEven
  dsimp only
  rw [Nat.mul_mod_left, Nat.mul_div_cancel _ hden, if_pos hden]

theorem log2_mul_two_pow {n : Nat} (hn : n ≠ 0) (k : Nat) : (n * 2 ^ k).log2 = n.log2 + k := by
  induction k with
  | zero => simp
  | succ k ih =>
    have hne : n * 2 ^ k ≠ 0 := Nat.mul_ne_zero hn (Nat.two_pow_pos k).ne'
    rw [Nat.pow_succ, ← Nat.mul_assoc, Nat.mul_comm _ 2, Nat.log2_two_mul hne, ih]
    omega

namespace BinaryFormat

variable {f : BinaryFormat} {m : Nat} {e : Int}

/-- A value that is not too long has an exponent under which it is stored. -/
theorem exists_canonical (hpos : 0 < m) (hm : m < 2 ^ (f.fractionBits + 1))
    (he : f.minExponent ≤ e) :
    ∃ d : Nat, e - d = max ((m.log2 : Int) + e - f.fractionBits) f.minExponent ∧
      Canonical f (m * 2 ^ d) (e - d) := by
  have hne : m ≠ 0 := Nat.ne_of_gt hpos
  have hlog : m.log2 < f.fractionBits + 1 := (Nat.log2_lt hne).mpr hm
  refine ⟨(e - max ((m.log2 : Int) + e - f.fractionBits) f.minExponent).toNat, by omega, ?_⟩
  generalize hd : (e - max ((m.log2 : Int) + e - f.fractionBits) f.minExponent).toNat = d
  have hlog' := log2_mul_two_pow hne d
  have hne' : m * 2 ^ d ≠ 0 := Nat.mul_ne_zero hne (Nat.two_pow_pos d).ne'
  refine ⟨(Nat.log2_lt hne').mp (by omega), by omega, ?_⟩
  rcases le_or_gt ((m.log2 : Int) + e - f.fractionBits) f.minExponent with hleast | habove
  · exact .inl (by omega)
  · exact .inr ((Nat.le_log2 hne').mp (by omega))

/-- Rounding finds the pattern of a value that has one. -/
theorem roundQuotient_exact (n : Bool) (hpos : 0 < m) (hm : m < 2 ^ (f.fractionBits + 1))
    (he : f.minExponent ≤ e) (hmax : e ≤ f.maxExponent) :
    ∃ d : Nat, Canonical f (m * 2 ^ d) (e - d) ∧ e - d ≤ f.maxExponent ∧
      f.roundQuotient n (m * 2 ^ e.toNat) (2 ^ (-e).toNat) = f.pattern n (m * 2 ^ d) (e - d) := by
  obtain ⟨d, hd, hcanonical⟩ := exists_canonical hpos hm he
  have hbound : e - d ≤ f.maxExponent := by omega
  refine ⟨d, hcanonical, hbound, ?_⟩
  have hne : m ≠ 0 := Nat.ne_of_gt hpos
  have hnum : m * 2 ^ e.toNat ≠ 0 := Nat.mul_ne_zero hne (Nat.two_pow_pos _).ne'
  have hguess : ((m * 2 ^ e.toNat).log2 : Int) - (2 ^ (-e).toNat).log2 - f.fractionBits =
      m.log2 + e - f.fractionBits := by
    rw [log2_mul_two_pow hne, Nat.log2_two_pow]
    omega
  unfold roundQuotient
  simp only [Nat.pow_eq]
  rw [if_neg hnum, hguess]
  generalize hg : (m.log2 : Int) + e - f.fractionBits = guess at hd
  -- the guess is right
  have hright : ¬ m * 2 ^ e.toNat * 2 ^ (-guess).toNat <
      2 ^ f.fractionBits * (2 ^ (-e).toNat * 2 ^ guess.toNat) := by
    rw [Nat.not_lt]
    calc 2 ^ f.fractionBits * (2 ^ (-e).toNat * 2 ^ guess.toNat) =
          2 ^ m.log2 * 2 ^ e.toNat * 2 ^ (-guess).toNat := by
          rw [← Nat.pow_add, ← Nat.pow_add, ← Nat.pow_add, ← Nat.pow_add]
          congr 1
          omega
      _ ≤ m * 2 ^ e.toNat * 2 ^ (-guess).toNat :=
          Nat.mul_le_mul_right _ (Nat.mul_le_mul_right _ (Nat.log2_self_le hne))
  rw [if_neg hright, ← hd]
  -- and nothing is cut off
  have hquotient : m * 2 ^ e.toNat * 2 ^ (-(e - d)).toNat =
      m * 2 ^ d * (2 ^ (-e).toNat * 2 ^ (e - d).toNat) := by
    rw [Nat.mul_assoc, Nat.mul_assoc, ← Nat.pow_add, ← Nat.pow_add, ← Nat.pow_add]
    congr 2
    omega
  rw [hquotient, nearestEven_mul_self _ (Nat.mul_pos (Nat.two_pow_pos _) (Nat.two_pow_pos _))]
  rw [Nat.min_eq_left (magnitude_le_infinityBits hcanonical hbound)]
  rfl

end BinaryFormat

/-! ## Section 3: What the machine sees -/

namespace BinaryValue

/-- The sign that a flag stands for. -/
def signOf (negative : Bool) : Sign := if negative then .negative else .positive

/-- A value in the form in which the machine calculates with it. -/
def unpacked : BinaryValue → UnpackedFloat
  | .nan => .notANumber
  | .infinite negative => .infinity (signOf negative)
  | .finite negative m e =>
      if h : 0 < m then .finite (signOf negative) m e h else .zero (signOf negative)

theorem unpacked_zero (negative : Bool) (e : Int) :
    (finite negative 0 e).unpacked = .zero (signOf negative) := rfl

theorem unpacked_of_pos (negative : Bool) {m : Nat} (h : 0 < m) (e : Int) :
    (finite negative m e).unpacked = .finite (signOf negative) m e h := dif_pos h

end BinaryValue

namespace BinaryFormat

variable {f : BinaryFormat} [f.Proper] {n : Bool} {m : Nat} {e : Int}

/-- The format as the machine knows it. -/
abbrev machine (f : BinaryFormat) [f.Proper] : Format :=
  ⟨f.fractionBits, Proper.fractionBits_pos, f.exponentBits,
    Nat.lt_of_succ_lt Proper.one_lt_exponentBits⟩

theorem minExponent_machine (f : BinaryFormat) [f.Proper] :
    f.machine.minExponent = f.minExponent := by
  unfold Format.minExponent Format.mantissaBits minExponent
  simp only [Nat.pow_eq]
  push_cast
  ring

theorem minExponent_neg : f.minExponent < 0 := by
  have hpos := Proper.fractionBits_pos (f := f)
  have htwo : 2 ^ 1 ≤ 2 ^ (f.exponentBits - 1) :=
    Nat.pow_le_pow_right (by decide) (Nat.le_sub_one_of_lt Proper.one_lt_exponentBits)
  unfold minExponent
  simp only [Nat.pow_eq]
  omega

theorem bias_machine (f : BinaryFormat) [f.Proper] :
    (f.machine.exponentBias : Int) + f.fractionBits = 1 - f.minExponent := by
  have hpos : 1 ≤ 2 ^ (f.exponentBits - 1) := Nat.one_le_two_pow
  unfold Format.exponentBias minExponent
  simp only [Nat.pow_eq]
  omega

theorem toNat_unpackExponent (b : BitVec f.machine.numBits) :
    (@UnpackedFloat.unpackExponent f.machine b).toNat =
      b.toNat / 2 ^ f.fractionBits % 2 ^ f.exponentBits := by
  have hpos := Proper.one_lt_exponentBits (f := f)
  have hwidth : f.fractionBits + f.exponentBits - 1 - f.fractionBits + 1 = f.exponentBits := by
    omega
  unfold UnpackedFloat.unpackExponent
  rw [BitVec.toNat_cast, BitVec.extractLsb_toNat, Nat.shiftRight_eq_div_pow, hwidth]

theorem toNat_unpackMantissa (b : BitVec f.machine.numBits) :
    (@UnpackedFloat.unpackMantissa f.machine b).toNat = b.toNat % 2 ^ f.fractionBits := by
  have hpos := Proper.fractionBits_pos (f := f)
  have hwidth : f.fractionBits - 1 - 0 + 1 = f.fractionBits := by omega
  unfold UnpackedFloat.unpackMantissa
  rw [BitVec.toNat_cast, BitVec.extractLsb_toNat, Nat.shiftRight_zero, hwidth]

theorem toNat_unpackSign (b : BitVec f.machine.numBits) :
    (@UnpackedFloat.unpackSign f.machine b).toNat = b.toNat / f.signBit % 2 := by
  unfold UnpackedFloat.unpackSign
  rw [BitVec.toNat_cast, BitVec.extractLsb_toNat, Nat.shiftRight_eq_div_pow, Nat.sub_self]
  rfl

theorem toNat_implicitBit {k : Nat} (m : BitVec k) : (1#1 ++ m).toNat = m.toNat + 2 ^ k := by
  rw [BitVec.toNat_append, ← Nat.shiftLeft_add_eq_or_of_lt m.isLt, Nat.shiftLeft_eq, Nat.add_comm]
  rw [show (1#1).toNat = 1 from rfl, Nat.one_mul]

theorem finite_eq_finite {s : Sign} {m m' : Nat} {e e' : Int} (h : 0 < m) (h' : 0 < m')
    (hm : m = m') (he : e = e') : UnpackedFloat.finite s m e h = .finite s m' e' h' := by
  subst hm he
  rfl

theorem ofBitVec_eq_signOf (b : BitVec 1) :
    Sign.ofBitVec b = BinaryValue.signOf (b.toNat == 1) := by
  rcases b.eq_zero_or_eq_one with rfl | rfl <;> rfl

theorem eq_ones_iff {k : Nat} (b : BitVec k) : b = -1#k ↔ b.toNat + 1 = 2 ^ k := by
  have hpos := Nat.two_pow_pos k
  rw [BitVec.neg_one_eq_allOnes, ← BitVec.toNat_inj, BitVec.toNat_allOnes]
  omega

theorem eq_zero_iff {k : Nat} (b : BitVec k) : b = 0#k ↔ b.toNat = 0 := by
  rw [← BitVec.toNat_inj, BitVec.toNat_zero]

/-- Unpacking a pattern gives its exact value. -/
theorem unpack_eq_decode (b : BitVec f.machine.numBits) :
    UnpackedFloat.unpack f.machine b = (f.decode b.toNat).unpacked := by
  have hexponent := toNat_unpackExponent b
  have hmantissa := toNat_unpackMantissa b
  have hbias := bias_machine f
  have hfield : b.toNat % f.signBit / 2 ^ f.fractionBits =
      b.toNat / 2 ^ f.fractionBits % 2 ^ f.exponentBits := by
    unfold signBit
    rw [Nat.pow_eq, Nat.pow_add, Nat.mod_mul_right_div_self]
  have hfraction : b.toNat % f.signBit % 2 ^ f.fractionBits = b.toNat % 2 ^ f.fractionBits :=
    Nat.mod_mod_of_dvd _ (Nat.pow_dvd_pow 2 (Nat.le_add_right _ _))
  unfold UnpackedFloat.unpack decode
  dsimp only
  rw [ofBitVec_eq_signOf, toNat_unpackSign, Nat.pow_eq, Nat.pow_eq, hfield, hfraction]
  generalize (b.toNat / f.signBit % 2 == 1) = n
  generalize b.toNat % 2 ^ f.fractionBits = fraction at hmantissa ⊢
  generalize b.toNat / 2 ^ f.fractionBits % 2 ^ f.exponentBits = field at hexponent ⊢
  have hones : @UnpackedFloat.unpackExponent f.machine b = -1#f.exponentBits ↔
      field + 1 = 2 ^ f.exponentBits := by
    rw [← hexponent]
    exact eq_ones_iff _
  have hzero : @UnpackedFloat.unpackExponent f.machine b = 0#f.exponentBits ↔ field = 0 := by
    rw [← hexponent]
    exact eq_zero_iff _
  have hnone : @UnpackedFloat.unpackMantissa f.machine b = 0#f.fractionBits ↔ fraction = 0 := by
    rw [← hmantissa]
    exact eq_zero_iff _
  -- both sides tell infinities, what is not a number, subnormal and normal numbers apart
  by_cases hfield' : field + 1 = 2 ^ f.exponentBits
  · rw [if_pos hfield', if_pos (hones.mpr hfield')]
    by_cases hfraction' : fraction = 0
    · rw [if_pos hfraction', if_pos (hnone.mpr hfraction')]
      rfl
    · rw [if_neg hfraction', if_neg (mt hnone.mp hfraction')]
      rfl
  rw [if_neg hfield', if_neg (mt hones.mp hfield')]
  by_cases hfield₀ : field = 0
  · rw [if_pos hfield₀, if_pos (hzero.mpr hfield₀)]
    by_cases hfraction' : fraction = 0
    · rw [dif_pos (hnone.mpr hfraction'), hfraction', BinaryValue.unpacked_zero]
    · rw [dif_neg (mt hnone.mp hfraction'),
        BinaryValue.unpacked_of_pos _ (Nat.pos_of_ne_zero hfraction')]
      apply finite_eq_finite _ _ hmantissa
      omega
  · rw [if_neg hfield₀, if_neg (mt hzero.mp hfield₀),
      BinaryValue.unpacked_of_pos _ (Nat.add_pos_right _ (Nat.two_pow_pos _))]
    apply finite_eq_finite
    · rw [toNat_implicitBit, hmantissa]
    · omega

theorem toNat_packComponents (n : Bool) (e : BitVec f.exponentBits) (m : BitVec f.fractionBits) :
    (UnpackedFloat.packComponents f.machine (BinaryValue.signOf n) e m).toNat =
      f.signWeight n + (e.toNat * 2 ^ f.fractionBits + m.toNat) := by
  have hbit : (BinaryValue.signOf n).toBitVec.toNat * 2 ^ f.exponentBits * 2 ^ f.fractionBits =
      f.signWeight n := by
    cases n
    · show 0 * 2 ^ f.exponentBits * 2 ^ f.fractionBits = 0
      rw [Nat.zero_mul, Nat.zero_mul]
    · show 1 * 2 ^ f.exponentBits * 2 ^ f.fractionBits = 2 ^ (f.fractionBits + f.exponentBits)
      rw [Nat.one_mul, ← Nat.pow_add, Nat.add_comm]
  unfold UnpackedFloat.packComponents
  rw [BitVec.toNat_append, ← Nat.shiftLeft_add_eq_or_of_lt m.isLt, BitVec.toNat_append,
    ← Nat.shiftLeft_add_eq_or_of_lt e.isLt, Nat.shiftLeft_eq, Nat.shiftLeft_eq]
  show ((BinaryValue.signOf n).toBitVec.toNat * 2 ^ f.exponentBits + e.toNat) * 2 ^ f.fractionBits +
    m.toNat = _
  rw [Nat.add_mul, hbit, Nat.add_assoc]

/-- A stored value is packed into its pattern. -/
theorem toNat_pack (n : Bool) (h : Canonical f m e) (he : e ≤ f.maxExponent) :
    (UnpackedFloat.pack f.machine (BinaryValue.finite n m e).unpacked).toNat =
      f.pattern n m e := by
  have hle := h.le
  have hlt := h.lt
  have hbias := bias_machine f
  have hmax : e - f.minExponent + 3 ≤ (2 ^ f.exponentBits : Nat) := by
    unfold maxExponent at he
    push_cast
    omega
  have hbits : f.machine.mantissaBits = f.fractionBits + 1 := Nat.add_comm _ _
  have hzero : ∀ k, (0 : BitVec k).toNat = 0 := fun k => BitVec.toNat_zero
  rcases Nat.eq_zero_or_pos m with rfl | hm
  · obtain rfl : e = f.minExponent :=
      h.normal.resolve_right (Nat.not_le.mpr (Nat.two_pow_pos _))
    rw [BinaryValue.unpacked_zero]
    unfold pattern
    rw [Int.sub_self, Int.toNat_zero]
    refine (toNat_packComponents n _ _).trans ?_
    rw [hzero, hzero]
  rw [BinaryValue.unpacked_of_pos n hm]
  unfold UnpackedFloat.pack pattern
  dsimp only
  rw [if_neg (by omega), hbits]
  split
  -- with the implicit bit the exponent is biased
  · rename_i hlog
    have hlow : 2 ^ f.fractionBits ≤ m := by
      have hle := Nat.log2_self_le (Nat.ne_of_gt hm)
      rw [Nat.succ.inj hlog] at hle
      exact hle
    rw [Nat.pow_succ] at hlt
    obtain ⟨k, hk⟩ : ∃ k : Nat, e = f.minExponent + k := ⟨(e - f.minExponent).toNat, by omega⟩
    have hbiased : (e + f.machine.exponentBias + f.fractionBits).toNat = k + 1 := by omega
    have hfield : (k + 1) % 2 ^ f.exponentBits = k + 1 := Nat.mod_eq_of_lt (by omega)
    have hfraction : m % 2 ^ f.fractionBits = m - 2 ^ f.fractionBits := by
      rw [Nat.mod_eq_sub_mod hlow, Nat.mod_eq_of_lt (by omega)]
    have hshift : (e - f.minExponent).toNat = k := by omega
    rw [hbiased, toNat_packComponents, BitVec.toNat_ofNat, BitVec.toNat_ofNat, hfield, hfraction,
      hshift, Nat.add_mul]
    omega
  -- without it the exponent is the least one
  · rename_i hlog
    have hshort : m < 2 ^ f.fractionBits := by
      by_contra hlow
      have hle := (Nat.le_log2 (Nat.ne_of_gt hm)).mpr (Nat.not_lt.mp hlow)
      have hlt' := (Nat.log2_lt (Nat.ne_of_gt hm)).mpr hlt
      omega
    obtain rfl : e = f.minExponent := h.normal.resolve_right (by omega)
    rw [toNat_packComponents, BitVec.toNat_zero, BitVec.toNat_ofNat, Nat.mod_eq_of_lt hshort,
      Int.sub_self, Int.toNat_zero]

/-- A stored value is packed without loss. -/
theorem unpack_pack (n : Bool) (h : Canonical f m e) (he : e ≤ f.maxExponent) :
    UnpackedFloat.unpack f.machine
        (UnpackedFloat.pack f.machine (BinaryValue.finite n m e).unpacked) =
      (BinaryValue.finite n m e).unpacked := by
  rw [unpack_eq_decode, toNat_pack n h he, decode_pattern n h he]

/-- What has no exponent of its own is packed without loss as well. -/
theorem unpack_packComponents_ones (n : Bool) (m : BitVec f.fractionBits) :
    UnpackedFloat.unpack f.machine
        (UnpackedFloat.packComponents f.machine (BinaryValue.signOf n) (-1#f.exponentBits) m) =
      if m = 0#f.fractionBits then .infinity (BinaryValue.signOf n) else .notANumber := by
  have hones := (eq_ones_iff (-1#f.exponentBits)).mp rfl
  rw [unpack_eq_decode, toNat_packComponents, decode_fields m.isLt (BitVec.isLt _), if_pos hones]
  simp only [eq_zero_iff]
  split <;> rfl

/-- What is unpacked can be packed and unpacked again. -/
theorem unpack_pack_unpack (b : BitVec f.machine.numBits) :
    UnpackedFloat.unpack f.machine
        (UnpackedFloat.pack f.machine (UnpackedFloat.unpack f.machine b)) =
      UnpackedFloat.unpack f.machine b := by
  rw [unpack_eq_decode b]
  cases hvalue : f.decode b.toNat with
  | nan =>
    have hbit : (1#f.fractionBits <<< (f.fractionBits - 1)) ≠ 0#f.fractionBits := by
      have hpos := Proper.fractionBits_pos (f := f)
      have hlt : 2 ^ (f.fractionBits - 1) < 2 ^ f.fractionBits :=
        Nat.pow_lt_pow_right (by decide) (by omega)
      have hone : 1 < 2 ^ f.fractionBits := Nat.one_lt_two_pow (Nat.ne_of_gt hpos)
      rw [Ne, eq_zero_iff, BitVec.toNat_shiftLeft, BitVec.toNat_ofNat, Nat.mod_eq_of_lt hone,
        Nat.shiftLeft_eq, Nat.one_mul, Nat.mod_eq_of_lt hlt]
      exact Nat.ne_of_gt (Nat.two_pow_pos _)
    exact (unpack_packComponents_ones false _).trans (if_neg hbit)
  | infinite n => exact (unpack_packComponents_ones n 0#f.fractionBits).trans (if_pos rfl)
  | finite n m e =>
    obtain ⟨h, he⟩ := canonical_of_decode hvalue
    exact unpack_pack n h he

end BinaryFormat

/-! ## Section 4: Rational values -/

/-- The exact value as a rational; what is not finite counts as zero. -/
def BinaryValue.toRat : BinaryValue → Rat
  | .finite negative m e => (if negative then -1 else 1) * (m * 2 ^ e)
  | _ => 0

end FoamTray
