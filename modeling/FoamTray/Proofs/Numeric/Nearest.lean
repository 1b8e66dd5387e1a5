import FoamTray.Proofs.Numeric.Patterns
import Mathlib.Algebra.Order.Field.Power
import Mathlib.Algebra.Order.Field.Rat
import Mathlib.Data.Rat.Cast.Order
import Mathlib.Tactic.FieldSimp
import Mathlib.Tactic.Linarith
import Mathlib.Tactic.NormNum
import Mathlib.Tactic.Positivity
import Mathlib.Tactic.Ring

/-! # Rounding in any format

    The machine rounds an exact result to the nearest value of the format. It works on mantissas
    with two residual bits, which tell how the mantissa lies to the exact value; dropping bits keeps
    what they tell (`Tells.shiftRight`), and rounding them away costs half a unit at most
    (`Tells.abs_rounded_sub_le`).

    * `Nearest` : a stored value is the nearest one to an exact value.
    * `nearest_roundWithAccuracy` : the one place at which the machine rounds.
    * `Nearest.closest`, `Nearest.le_of_even`, `Nearest.ge_of_even` : no other value is nearer, and
      half way the even mantissa wins.
    * `Nearest.exact` : a value that the format can store is not changed.
-/

namespace FoamTray

open Float.Model (UnpackedFloat Format totalExponent)
open Float.Model.UnpackedFloat (Sign Accuracy ExtendedMantissa shiftToExponent
  shiftToTargetExponent roundWithAccuracy decreaseExponent)

/-! ## Section 1: Mantissas with residual bits -/

/-- What a mantissa and its residual bits tell of a value: that it is the mantissa, that it is
    half a unit more, or in which of the two halves of the unit above the mantissa it lies. -/
def Tells (em : ExtendedMantissa) (v : Rat) : Prop :=
  match em.roundBit, em.stickyBit with
  | false, false => v = em.mantissa
  | false, true => em.mantissa < v ∧ v < em.mantissa + 1 / 2
  | true, false => v = em.mantissa + 1 / 2
  | true, true => em.mantissa + 1 / 2 < v ∧ v < em.mantissa + 1

theorem tells_exact (m : Nat) :
    Tells (ExtendedMantissa.ofMantissaAndAccuracy m .exact) m := rfl

section Mantissas

variable {em : ExtendedMantissa} {v : Rat}

theorem Tells.floor (h : Tells em v) : (em.mantissa : Rat) ≤ v ∧ v < em.mantissa + 1 := by
  obtain ⟨m, r, s⟩ := em
  unfold Tells at h
  cases r <;> cases s <;> dsimp only at h ⊢ <;> constructor <;> linarith

/-- The mantissa is rounded to the nearest one, and half way to an even one. -/
theorem Tells.abs_rounded_sub_le (h : Tells em v) :
    |(em.roundedMantissa : Rat) - v| ≤ 1 / 2 ∧
      (|(em.roundedMantissa : Rat) - v| = 1 / 2 → 2 ∣ em.roundedMantissa) := by
  obtain ⟨m, r, s⟩ := em
  unfold Tells at h
  cases r <;> cases s <;> dsimp only at h <;>
    simp only [ExtendedMantissa.roundedMantissa, ExtendedMantissa.accuracy,
      Accuracy.roundToNearestEven]
  · rw [h, sub_self, abs_zero]
    norm_num
  · have hlt : |(m : Rat) - v| < 1 / 2 := by
      rw [abs_lt]
      constructor <;> linarith
    exact ⟨hlt.le, fun he => absurd he hlt.ne⟩
  -- half way, the mantissa is made even
  · rcases Nat.mod_two_eq_zero_or_one m with he | ho
    · rw [he, Nat.add_zero, h, sub_add_cancel_left, abs_neg, abs_of_pos one_half_pos]
      exact ⟨le_rfl, fun _ => Nat.dvd_of_mod_eq_zero he⟩
    · have hup : ((m + 1 : Nat) : Rat) - (m + 1 / 2) = 1 / 2 := by
        push_cast
        ring
      rw [ho, h, hup, abs_of_pos one_half_pos]
      exact ⟨le_rfl, fun _ => by omega⟩
  · have hlt : |((m + 1 : Nat) : Rat) - v| < 1 / 2 := by
      push_cast
      rw [abs_lt]
      constructor <;> linarith
    exact ⟨hlt.le, fun he => absurd he hlt.ne⟩

theorem rounded_bounds (em : ExtendedMantissa) :
    em.mantissa ≤ em.roundedMantissa ∧ em.roundedMantissa ≤ em.mantissa + 1 := by
  obtain ⟨m, r, s⟩ := em
  cases r <;> cases s <;>
    simp only [ExtendedMantissa.roundedMantissa, ExtendedMantissa.accuracy,
      Accuracy.roundToNearestEven] <;> omega

/-- A bit that is dropped becomes the round bit, and what it was is kept in the sticky bit. -/
theorem Tells.shiftRightOne (h : Tells em v) : Tells em.shiftRightOne (v / 2) := by
  obtain ⟨m, r, s⟩ := em
  have hsplit : (m : Rat) = 2 * (m / 2 : Nat) + (m % 2 : Nat) := by
    exact_mod_cast (Nat.div_add_mod m 2).symm
  unfold Tells at h ⊢
  unfold ExtendedMantissa.shiftRightOne
  -- the new round bit is the last bit of the mantissa, the new sticky bit is set if the value
  -- was not the mantissa
  rcases Nat.mod_two_eq_zero_or_one m with hm | hm
  · rw [hm, Nat.cast_zero] at hsplit
    cases r <;> cases s <;> simp [hm] at h ⊢
    · linarith
    all_goals constructor <;> linarith
  · rw [hm, Nat.cast_one] at hsplit
    cases r <;> cases s <;> simp [hm] at h ⊢
    · linarith
    all_goals constructor <;> linarith

theorem Tells.shiftRight (h : Tells em v) (k : Nat) : Tells (em >>> k) (v / 2 ^ k) := by
  show Tells (k.repeat ExtendedMantissa.shiftRightOne em) _
  induction k with
  | zero =>
    rw [pow_zero, div_one]
    exact h
  | succ k ih =>
    rw [pow_succ, ← div_div]
    exact ih.shiftRightOne

theorem mantissa_ofMantissaAndAccuracy (m : Nat) (accuracy : Accuracy) :
    (ExtendedMantissa.ofMantissaAndAccuracy m accuracy).mantissa = m := by
  cases accuracy with
  | exact => rfl
  | inexact o => cases o <;> rfl

/-- The remainder of a division tells how the quotient lies to the exact one. -/
theorem tells_quotient (k : Nat) {d : Nat} (hd : 0 < d) :
    Tells (.ofMantissaAndAccuracy (k / d) (UnpackedFloat.accuracyOfFraction (k % d) d))
      ((k : Rat) / d) := by
  have hpos : (0 : Rat) < d := by exact_mod_cast hd
  have hlt : ((k % d : Nat) : Rat) < d := by exact_mod_cast Nat.mod_lt k hd
  have hsplit : (k : Rat) / d = (k / d : Nat) + ((k % d : Nat) : Rat) / d := by
    have hk : (k : Rat) = (k / d : Nat) * d + (k % d : Nat) := by
      exact_mod_cast (Nat.div_add_mod' k d).symm
    rw [div_eq_iff hpos.ne', add_mul, div_mul_cancel₀ _ hpos.ne']
    exact hk
  have hone : ((k % d : Nat) : Rat) / d < 1 := (div_lt_one hpos).mpr hlt
  rw [hsplit]
  unfold UnpackedFloat.accuracyOfFraction
  by_cases h0 : k % d = 0
  · rw [if_pos h0, h0, Nat.cast_zero, zero_div, add_zero]
    exact tells_exact _
  · rw [if_neg h0]
    have hr : (0 : Rat) < ((k % d : Nat) : Rat) / d := by
      have hr' : (0 : Rat) < (k % d : Nat) := by exact_mod_cast Nat.pos_of_ne_zero h0
      positivity
    rcases lt_trichotomy (2 * (k % d)) d with h | h | h
    · rw [Nat.compare_eq_lt.mpr h]
      have h' : (2 : Rat) * (k % d : Nat) < d := by exact_mod_cast h
      have hhalf : ((k % d : Nat) : Rat) / d < 1 / 2 := by
        rw [div_lt_div_iff₀ hpos two_pos]
        linarith
      show ((k / d : Nat) : Rat) < _ ∧ _ < ((k / d : Nat) : Rat) + 1 / 2
      constructor <;> linarith
    · rw [Nat.compare_eq_eq.mpr h]
      have h' : (2 : Rat) * (k % d : Nat) = d := by exact_mod_cast h
      have hhalf : ((k % d : Nat) : Rat) / d = 1 / 2 := by
        rw [div_eq_div_iff hpos.ne' two_ne_zero]
        linarith
      rw [hhalf]
      rfl
    · rw [Nat.compare_eq_gt.mpr h]
      have h' : (d : Rat) < 2 * (k % d : Nat) := by exact_mod_cast h
      have hhalf : 1 / 2 < ((k % d : Nat) : Rat) / d := by
        rw [div_lt_div_iff₀ two_pos hpos]
        linarith
      show ((k / d : Nat) : Rat) + 1 / 2 < _ ∧ _ < ((k / d : Nat) : Rat) + 1
      constructor <;> linarith

end Mantissas

/-! ## Section 2: Rational values -/

theorem abs_sign_mul (n : Bool) {q : Rat} (hq : 0 ≤ q) :
    |(if n then -1 else 1 : Rat) * q| = q := by
  cases n
  · rw [if_neg Bool.false_ne_true, one_mul, abs_of_nonneg hq]
  · rw [if_pos rfl, neg_one_mul, abs_neg, abs_of_nonneg hq]

namespace BinaryValue

theorem toRat_finite (n : Bool) (m : Nat) (e : Int) :
    (finite n m e).toRat = (if n then -1 else 1) * (m * 2 ^ e) := rfl

theorem toRat_positive (m : Nat) (e : Int) : (finite false m e).toRat = m * 2 ^ e := one_mul _

theorem toRat_negative (m : Nat) (e : Int) : (finite true m e).toRat = -(m * 2 ^ e) :=
  neg_one_mul _

theorem toRat_of_pos {n : Bool} {m : Nat} {e : Int} (h : 0 < (finite n m e).toRat) :
    (finite n m e).toRat = m * 2 ^ e := by
  cases n
  · exact toRat_positive m e
  · rw [toRat_negative, Left.neg_pos_iff] at h
    have hnonneg : (0 : Rat) ≤ m * 2 ^ e := by positivity
    exact absurd h hnonneg.not_gt

theorem abs_toRat_finite (n : Bool) (m : Nat) (e : Int) :
    |(finite n m e).toRat| = m * 2 ^ e := abs_sign_mul n (by positivity)

/-- A value is a whole multiple of every unit that is not above its own. -/
theorem exists_toRat_eq_mul (n : Bool) (m : Nat) {e t : Int} (h : t ≤ e) :
    ∃ k : Int, (finite n m e).toRat = k * 2 ^ t := by
  obtain ⟨d, rfl⟩ : ∃ d : Nat, e = d + t := ⟨(e - t).toNat, by omega⟩
  refine ⟨(if n then -1 else 1) * (m * 2 ^ d : Nat), ?_⟩
  rw [toRat_finite, zpow_add₀ two_ne_zero, zpow_natCast]
  push_cast
  ring

theorem toRat_zero (n : Bool) (e : Int) : (finite n 0 e).toRat = 0 := by
  rw [toRat_finite, Nat.cast_zero, zero_mul, mul_zero]

/-- A longer mantissa at a lower exponent. -/
theorem toRat_shift (n : Bool) (m : Nat) (e : Int) (d : Nat) :
    (finite n (m * 2 ^ d) (e - d)).toRat = (finite n m e).toRat := by
  rw [toRat_finite, toRat_finite, zpow_sub₀ two_ne_zero, zpow_natCast]
  push_cast
  field_simp

end BinaryValue

/-- A value that is not too long is encoded without loss. -/
theorem exists_encode {f : BinaryFormat} [f.Proper] (n : Bool) {m : Nat} {e : Int}
    (hm : m < 2 ^ (f.fractionBits + 1)) (he : f.minExponent ≤ e) (hmax : e ≤ f.maxExponent) :
    ∃ m' e', Canonical f m' e' ∧ e' ≤ f.maxExponent ∧
      (BinaryValue.finite n m' e').toRat = (BinaryValue.finite n m e).toRat ∧
      f.encode (.finite n m e) = f.pattern n m' e' := by
  rcases Nat.eq_zero_or_pos m with rfl | hpos
  · refine ⟨0, f.minExponent, BinaryFormat.canonical_zero, BinaryFormat.minExponent_le_maxExponent,
      ?_, ?_⟩
    · rw [BinaryValue.toRat_zero, BinaryValue.toRat_zero]
    · unfold BinaryFormat.encode BinaryFormat.pattern dyadicQuotient BinaryFormat.roundQuotient
      dsimp only
      rw [Nat.zero_mul, if_pos rfl, Int.sub_self, Int.toNat_zero, Nat.zero_mul]
      rfl
  · obtain ⟨d, hcanonical, hbound, hpattern⟩ :=
      BinaryFormat.roundQuotient_exact n hpos hm he hmax
    exact ⟨m * 2 ^ d, e - d, hcanonical, hbound, BinaryValue.toRat_shift n m e d, hpattern⟩

/-! ## Section 3: Where the machine rounds -/

/-- A stored value is the nearest one to an exact value: it is off by half a unit at most, where
    the unit is the least one, or is such that the exact value has all bits of a mantissa. It is
    off by exactly half a unit only if its mantissa is even. -/
def Nearest (f : BinaryFormat) (v : BinaryValue) (q : Rat) : Prop :=
  ∃ n m e t, v = .finite n m e ∧ Canonical f m e ∧ f.minExponent ≤ t ∧ t ≤ e ∧
    (t = f.minExponent ∨ (2 : Rat) ^ (t + f.fractionBits) ≤ |q|) ∧
    |v.toRat - q| ≤ 2 ^ t / 2 ∧ (|v.toRat - q| = 2 ^ t / 2 → 2 ∣ m)

section Rounding

variable {f : BinaryFormat} [f.Proper]

theorem targetExponent_eq (m : Nat) (e : Int) :
    f.machine.targetExponent (totalExponent m e) =
      max (m.log2 + e - f.fractionBits) f.minExponent := by
  have hbits : (f.machine.mantissaBits : Int) = 1 + f.fractionBits := by
    show ((1 + f.fractionBits : Nat) : Int) = _
    push_cast
    rfl
  unfold Format.targetExponent totalExponent
  rw [BinaryFormat.minExponent_machine, hbits]
  omega

/-- A mantissa that was rounded up by one bit is shifted once more, and loses nothing by it. -/
theorem shiftToTargetExponent_rounded {r : Nat} {t : Int} (hr : r ≤ 2 ^ (f.fractionBits + 1))
    (ht : f.minExponent ≤ t) (hn : t = f.minExponent ∨ 2 ^ f.fractionBits ≤ r) :
    ∃ m e, Canonical f m e ∧ t ≤ e ∧ (m : Rat) * 2 ^ e = r * 2 ^ t ∧ (2 ∣ r → 2 ∣ m) ∧
      shiftToTargetExponent f.machine r t .exact = (⟨m, false, false⟩, e) := by
  have htarget := targetExponent_eq (f := f) r t
  have hpos := BinaryFormat.Proper.fractionBits_pos (f := f)
  rcases Nat.lt_or_eq_of_le hr with hlt | rfl
  · have hlog : r.log2 ≤ f.fractionBits := by
      rcases Nat.eq_zero_or_pos r with rfl | hr0
      · rw [Nat.log2_zero]
        exact Nat.zero_le _
      · have hlog' := (Nat.log2_lt (Nat.ne_of_gt hr0)).mpr hlt
        omega
    have hshift : (f.machine.targetExponent (totalExponent r t) - t).toNat = 0 := by omega
    refine ⟨r, t, ⟨hlt, ht, hn⟩, Int.le_refl t, rfl, id, ?_⟩
    unfold shiftToTargetExponent shiftToExponent
    dsimp only
    rw [hshift, Int.ofNat_zero, Int.add_zero]
    rfl
  · rw [Nat.log2_two_pow] at htarget
    have hshift : (f.machine.targetExponent (totalExponent (2 ^ (f.fractionBits + 1)) t) -
        t).toNat = 1 := by omega
    have hhalf : 2 ^ (f.fractionBits + 1) / 2 = 2 ^ f.fractionBits := by
      rw [Nat.pow_succ, Nat.mul_div_cancel _ two_pos]
    have heven : 2 ^ (f.fractionBits + 1) % 2 = 0 := by
      rw [Nat.pow_succ, Nat.mul_mod_left]
    refine ⟨2 ^ f.fractionBits, t + 1, ⟨?_, by omega, .inr (Nat.le_refl _)⟩, by omega, ?_, ?_, ?_⟩
    · rw [Nat.pow_succ]
      have hone := Nat.two_pow_pos f.fractionBits
      omega
    · rw [zpow_add₀ two_ne_zero]
      push_cast
      ring
    · exact fun _ => dvd_pow_self 2 (Nat.ne_of_gt hpos)
    · unfold shiftToTargetExponent shiftToExponent
      dsimp only
      rw [hshift]
      show (ExtendedMantissa.shiftRightOne ⟨2 ^ (f.fractionBits + 1), false, false⟩, t + 1) = _
      unfold ExtendedMantissa.shiftRightOne
      dsimp only
      rw [hhalf, heven]
      rfl

/-- Rounding gives the nearest value that can be stored. -/
theorem nearest_roundWithAccuracy (n : Bool) {m : Nat} {e : Int} {accuracy : Accuracy} {v : Rat}
    (hv : Tells (.ofMantissaAndAccuracy m accuracy) v)
    (he : e ≤ f.machine.targetExponent (totalExponent m e)) :
    ∃ w, Nearest f w ((if n then -1 else 1) * (v * 2 ^ e)) ∧
      roundWithAccuracy f.machine (BinaryValue.signOf n) m e accuracy = w.unpacked := by
  have htarget := targetExponent_eq (f := f) m e
  obtain ⟨hlow, hhigh⟩ := hv.floor
  rw [mantissa_ofMantissaAndAccuracy] at hlow hhigh
  have hnonneg : 0 ≤ v * 2 ^ e := by
    have hv0 : 0 ≤ v := le_trans (Nat.cast_nonneg _) hlow
    positivity
  -- the exponent `t` is reached by dropping `k` bits
  generalize hT : f.machine.targetExponent (totalExponent m e) = t at htarget he
  obtain ⟨k, hk⟩ : ∃ k : Nat, t = e + k := ⟨(t - e).toNat, by omega⟩
  have hpow : (2 : Rat) ^ t = 2 ^ k * 2 ^ e := by
    rw [hk, zpow_add₀ two_ne_zero, zpow_natCast, mul_comm]
  have hpos : (0 : Rat) < 2 ^ k := pow_pos two_pos k
  have hunit : (0 : Rat) < 2 ^ t := zpow_pos two_pos t
  let em := ExtendedMantissa.ofMantissaAndAccuracy m accuracy >>> k
  have htells : Tells em (v / 2 ^ k) := hv.shiftRight k
  have hvalue : v / 2 ^ k * 2 ^ t = v * 2 ^ e := by
    rw [hpow, ← mul_assoc, div_mul_cancel₀ _ hpos.ne']
  obtain ⟨hlow', hhigh'⟩ := htells.floor
  obtain ⟨hle, hge⟩ := rounded_bounds em
  -- no more than the bits of a mantissa are left
  have hfits : em.roundedMantissa ≤ 2 ^ (f.fractionBits + 1) := by
    have hm : m + 1 ≤ 2 ^ (f.fractionBits + 1 + k) := by
      calc m + 1 ≤ 2 ^ (m.log2 + 1) := Nat.lt_log2_self
        _ ≤ 2 ^ (f.fractionBits + 1 + k) := Nat.pow_le_pow_right (by decide) (by omega)
    have hm' : (m : Rat) + 1 ≤ 2 ^ (f.fractionBits + 1) * 2 ^ k := by
      rw [← pow_add]
      exact_mod_cast hm
    have hlt : v / 2 ^ k < 2 ^ (f.fractionBits + 1) := by
      rw [div_lt_iff₀ hpos]
      linarith
    have hmantissa : em.mantissa < 2 ^ (f.fractionBits + 1) := by
      have hlt' : (em.mantissa : Rat) < 2 ^ (f.fractionBits + 1) := by linarith
      exact_mod_cast hlt'
    omega
  -- no less than that, unless the exponent is the least one
  have hnormal : t = f.minExponent ∨ (2 : Rat) ^ f.fractionBits ≤ v / 2 ^ k := by
    rcases eq_or_ne t f.minExponent with ht | ht
    · exact .inl ht
    · right
      have hlog : m.log2 = f.fractionBits + k := by omega
      have hm : 2 ^ (f.fractionBits + k) ≤ m := by
        rw [← hlog]
        refine Nat.log2_self_le ?_
        rintro rfl
        rw [Nat.log2_zero] at hlog
        have hbits := BinaryFormat.Proper.fractionBits_pos (f := f)
        omega
      have hm' : (2 : Rat) ^ f.fractionBits * 2 ^ k ≤ m := by
        rw [← pow_add]
        exact_mod_cast hm
      rw [le_div_iff₀ hpos]
      linarith
  have hrounded : t = f.minExponent ∨ 2 ^ f.fractionBits ≤ em.roundedMantissa := by
    refine hnormal.imp_right fun h => ?_
    have hlt : (2 : Rat) ^ f.fractionBits < em.mantissa + 1 := by linarith
    have hlt' : 2 ^ f.fractionBits < em.mantissa + 1 := by exact_mod_cast hlt
    omega
  obtain ⟨m', e', hcanonical, hte, hm', heven, hshift⟩ :=
    shiftToTargetExponent_rounded hfits (by omega) hrounded
  have herror : |(BinaryValue.finite n m' e').toRat - (if n then -1 else 1) * (v * 2 ^ e)| =
      |(em.roundedMantissa : Rat) - v / 2 ^ k| * 2 ^ t := by
    rw [BinaryValue.toRat_finite, ← mul_sub, hm', ← hvalue, ← sub_mul]
    cases n
    · rw [if_neg Bool.false_ne_true, one_mul, abs_mul, abs_of_pos hunit]
    · rw [if_pos rfl, neg_one_mul, abs_neg, abs_mul, abs_of_pos hunit]
  obtain ⟨hclose, htie⟩ := htells.abs_rounded_sub_le
  refine ⟨.finite n m' e', ⟨n, m', e', t, rfl, hcanonical, by omega, hte, ?_, ?_, ?_⟩, ?_⟩
  · rw [abs_sign_mul n hnonneg]
    refine hnormal.imp_right fun h => ?_
    rw [← hvalue, add_comm, zpow_add₀ two_ne_zero, zpow_natCast]
    exact mul_le_mul_of_nonneg_right h hunit.le
  · rw [herror]
    calc |(em.roundedMantissa : Rat) - v / 2 ^ k| * 2 ^ t ≤ 1 / 2 * 2 ^ t :=
          mul_le_mul_of_nonneg_right hclose hunit.le
      _ = 2 ^ t / 2 := by ring
  · rw [herror]
    intro hhalf
    refine heven (htie (mul_right_cancel₀ hunit.ne' ?_))
    rw [hhalf]
    ring
  · have hfirst : shiftToTargetExponent f.machine m e accuracy = (em, t) := by
      unfold shiftToTargetExponent shiftToExponent
      dsimp only
      rw [hT, show (t - e).toNat = k by omega, hk]
    unfold roundWithAccuracy
    rw [hfirst]
    dsimp only
    rw [hshift]
    unfold BinaryValue.unpacked
    dsimp only
    rcases Nat.eq_zero_or_pos m' with rfl | hpos'
    · rfl
    · rw [dif_neg (Nat.ne_of_gt hpos'), dif_pos hpos']

end Rounding

/-! ## Section 4: No value is nearer -/

namespace Canonical

variable {f : BinaryFormat} {m m' k : Nat} {e e' : Int}

theorem toRat_lt (h : Canonical f m e) : (m : Rat) * 2 ^ e < 2 ^ (f.fractionBits + 1) * 2 ^ e := by
  have hm : (m : Rat) < 2 ^ (f.fractionBits + 1) := by exact_mod_cast h.lt
  exact mul_lt_mul_of_pos_right hm (zpow_pos two_pos e)

/-- A higher exponent outweighs the mantissa. -/
theorem toRat_lt_of_exponent_lt (h : Canonical f m e) (hm' : 2 ^ f.fractionBits ≤ m')
    (he : e < e') : (m : Rat) * 2 ^ e < m' * 2 ^ e' := by
  have hm'' : (2 : Rat) ^ f.fractionBits ≤ m' := by exact_mod_cast hm'
  calc (m : Rat) * 2 ^ e < 2 ^ (f.fractionBits + 1) * 2 ^ e := h.toRat_lt
    _ = 2 ^ f.fractionBits * 2 ^ (e + 1) := by
        rw [zpow_add₀ two_ne_zero, pow_succ]
        ring
    _ ≤ m' * 2 ^ e' :=
        mul_le_mul hm'' (zpow_le_zpow_right₀ one_le_two (by omega)) (by positivity) (by positivity)

/-- Values are in the order of their patterns. -/
theorem toRat_le_of_pattern_le (h : Canonical f m e) (h' : Canonical f m' e')
    (hle : (e - f.minExponent).toNat * 2 ^ f.fractionBits + m ≤
      (e' - f.minExponent).toNat * 2 ^ f.fractionBits + m') :
    (m : Rat) * 2 ^ e ≤ m' * 2 ^ e' := by
  have hleast := h.le
  have hleast' := h'.le
  rcases lt_trichotomy e e' with hlt | rfl | hgt
  -- the exponent decides unless it is the least one
  · have hnormal : 2 ^ f.fractionBits ≤ m' := h'.normal.resolve_left (by omega)
    exact (h.toRat_lt_of_exponent_lt hnormal hlt).le
  · have hm : (m : Rat) ≤ m' := by exact_mod_cast Nat.le_of_add_le_add_left hle
    exact mul_le_mul_of_nonneg_right hm (zpow_pos two_pos e).le
  · exfalso
    have hnormal : 2 ^ f.fractionBits ≤ m := h.normal.resolve_left (by omega)
    have hshort := h'.lt
    rw [Nat.pow_succ] at hshort
    have hshift : (e' - f.minExponent).toNat + 1 ≤ (e - f.minExponent).toNat := by omega
    have hunits := Nat.mul_le_mul_right (2 ^ f.fractionBits) hshift
    rw [Nat.add_mul, Nat.one_mul] at hunits
    omega

/-- A value that is greater than another one at a lower exponent is so by a unit at least. -/
theorem add_unit_le_of_le (he : e' ≤ e) (hlt : (m' : Rat) * 2 ^ e' < m * 2 ^ e) :
    ((m' : Rat) + 1) * 2 ^ e' ≤ m * 2 ^ e := by
  obtain ⟨d, rfl⟩ : ∃ d : Nat, e = d + e' := ⟨(e - e').toNat, by omega⟩
  have hunit : (0 : Rat) < 2 ^ e' := zpow_pos two_pos e'
  rw [zpow_add₀ two_ne_zero, zpow_natCast, ← mul_assoc] at hlt ⊢
  have hmantissa : (m' : Rat) < m * 2 ^ d := lt_of_mul_lt_mul_right hlt hunit.le
  have hmantissa' : m' + 1 ≤ m * 2 ^ d := by exact_mod_cast hmantissa
  exact mul_le_mul_of_nonneg_right (by exact_mod_cast hmantissa') hunit.le

/-- A stored value that is greater than a normal one is so by a unit of that one at least. -/
theorem add_unit_le (h : Canonical f m e) (hm' : 2 ^ f.fractionBits ≤ m')
    (hlt : (m' : Rat) * 2 ^ e' < m * 2 ^ e) :
    e' ≤ e ∧ ((m' : Rat) + 1) * 2 ^ e' ≤ m * 2 ^ e := by
  have he : e' ≤ e := by
    by_contra hne
    exact absurd hlt (h.toRat_lt_of_exponent_lt hm' (not_le.mp hne)).not_gt
  exact ⟨he, add_unit_le_of_le he hlt⟩

/-- The value that is greater by a unit is stored as well, and one of both has an even mantissa. -/
theorem exists_succ (h : Canonical f m e) :
    ∃ m' e', Canonical f m' e' ∧ (m' : Rat) * 2 ^ e' = m * 2 ^ e + 2 ^ e ∧
      (0 < f.fractionBits → (2 ∣ m' ↔ ¬ 2 ∣ m)) := by
  have hlt := h.lt
  rcases Nat.lt_or_ge (m + 1) (2 ^ (f.fractionBits + 1)) with hnext | hnext
  · refine ⟨m + 1, e, ⟨hnext, h.le, h.normal.imp_right fun hm => Nat.le_succ_of_le hm⟩, ?_, ?_⟩
    · push_cast
      ring
    · omega
  -- after the greatest mantissa the least one of the next exponent follows
  · have hm : m + 1 = 2 ^ (f.fractionBits + 1) := by omega
    have hm' : (m : Rat) + 1 = 2 ^ (f.fractionBits + 1) := by exact_mod_cast hm
    refine ⟨2 ^ f.fractionBits, e + 1,
      ⟨Nat.pow_lt_pow_right one_lt_two (Nat.lt_succ_self _), by have hle := h.le; omega,
        .inr (Nat.le_refl _)⟩, ?_, fun hbits => ?_⟩
    · have hsum : (m : Rat) * 2 ^ e + 2 ^ e = (m + 1) * 2 ^ e := by ring
      rw [hsum, hm', zpow_add₀ two_ne_zero, pow_succ]
      push_cast
      ring
    · have heven : 2 ∣ 2 ^ f.fractionBits := dvd_pow_self 2 (Nat.ne_of_gt hbits)
      rw [Nat.pow_succ] at hm
      omega

theorem two_pow {k : Int} (hk : f.minExponent + f.fractionBits ≤ k) :
    Canonical f (2 ^ f.fractionBits) (k - f.fractionBits) :=
  ⟨Nat.pow_lt_pow_right one_lt_two (Nat.lt_succ_self _), by omega, .inr (Nat.le_refl _)⟩

theorem toRat_two_pow (f : BinaryFormat) (k : Int) :
    ((2 ^ f.fractionBits : Nat) : Rat) * 2 ^ (k - f.fractionBits) = 2 ^ k := by
  rw [zpow_sub₀ two_ne_zero, zpow_natCast]
  push_cast
  field_simp

/-- With an odd mantissa at a lower exponent a value is stored under that one. -/
theorem eq_of_odd (he : e' ≤ e) (hk : ¬ 2 ∣ k) (heq : (m : Rat) * 2 ^ e = k * 2 ^ e') :
    e = e' ∧ m = k := by
  obtain ⟨d, rfl⟩ : ∃ d : Nat, e = d + e' := ⟨(e - e').toNat, by omega⟩
  have hunit : (2 : Rat) ^ e' ≠ 0 := (zpow_pos two_pos e').ne'
  rw [zpow_add₀ two_ne_zero, zpow_natCast, ← mul_assoc] at heq
  have hmantissa : m * 2 ^ d = k := by exact_mod_cast mul_right_cancel₀ hunit heq
  cases d with
  | zero => exact ⟨by omega, by omega⟩
  | succ d =>
    refine absurd ?_ hk
    rw [← hmantissa, Nat.pow_succ, ← Nat.mul_assoc]
    exact Nat.dvd_mul_left 2 _

end Canonical

namespace Nearest

variable {f : BinaryFormat} {v : BinaryValue} {q : Rat} {b : Bool} {m' : Nat} {e' : Int}

/-- The distance is a share of the value, or of the least number. -/
theorem error_le (h : Nearest f v q) :
    |v.toRat - q| ≤ |q| / 2 ^ (f.fractionBits + 1) + 2 ^ f.minExponent / 2 := by
  obtain ⟨n, m, e, t, -, -, -, -, hunit, herror, -⟩ := h
  rcases hunit with rfl | hunit
  · have hshare : 0 ≤ |q| / 2 ^ (f.fractionBits + 1) := by positivity
    linarith
  · have hshare : (2 : Rat) ^ t / 2 ≤ |q| / 2 ^ (f.fractionBits + 1) := by
      rw [zpow_add₀ two_ne_zero, zpow_natCast] at hunit
      rw [le_div_iff₀ (by positivity), pow_succ]
      linarith
    have hleast : (0 : Rat) ≤ 2 ^ f.minExponent / 2 := by positivity
    linarith

/-- No stored value is nearer to the exact value. -/
theorem closest (h : Nearest f v q) (b : Bool) (h' : Canonical f m' e') :
    |v.toRat - q| ≤ |(BinaryValue.finite b m' e').toRat - q| := by
  obtain ⟨n, m, e, t, rfl, -, hleast, hte, hunit, herror, -⟩ := h
  have hpos : (0 : Rat) < 2 ^ t := zpow_pos two_pos t
  obtain ⟨k, hk⟩ := BinaryValue.exists_toRat_eq_mul n m hte
  -- no whole multiple of the unit is
  have hmultiple : ∀ k' : Int, |(BinaryValue.finite n m e).toRat - q| ≤ |k' * 2 ^ t - q| := by
    intro k'
    rcases eq_or_ne k' k with rfl | hne
    · rw [hk]
    · have hone : (1 : Rat) ≤ |(k : Rat) - k'| := by
        exact_mod_cast Int.one_le_abs (sub_ne_zero.mpr hne.symm)
      have hapart : (2 : Rat) ^ t ≤ |(BinaryValue.finite n m e).toRat - k' * 2 ^ t| := by
        rw [hk, ← sub_mul, abs_mul, abs_of_pos hpos]
        exact le_mul_of_one_le_left hpos.le hone
      have htriangle := abs_sub_le ((BinaryValue.finite n m e).toRat) q (k' * 2 ^ t)
      rw [abs_sub_comm q] at htriangle
      linarith
  rcases le_or_gt t e' with hle | hgt
  · obtain ⟨k', hk'⟩ := BinaryValue.exists_toRat_eq_mul b m' hle
    rw [hk']
    exact hmultiple k'
  -- a value below the least normal one at this unit is farther away than that one
  · have hlarge := hunit.resolve_left (by have hmin := h'.le; omega)
    rw [zpow_add₀ two_ne_zero, zpow_natCast, mul_comm] at hlarge
    have hsmall : |(BinaryValue.finite b m' e').toRat| < 2 ^ f.fractionBits * 2 ^ t := by
      rw [BinaryValue.abs_toRat_finite]
      have hlt := h'.toRat_lt_of_exponent_lt (Nat.le_refl (2 ^ f.fractionBits)) hgt
      push_cast at hlt
      exact hlt
    have hfar := abs_sub_abs_le_abs_sub q (BinaryValue.finite b m' e').toRat
    rw [abs_sub_comm q] at hfar
    refine le_trans ?_ hfar
    -- that one has the sign of the exact value
    have hclose : |(BinaryValue.finite n m e).toRat - q| ≤ |q| - 2 ^ f.fractionBits * 2 ^ t := by
      rcases le_total 0 q with hq | hq
      · have hclose := hmultiple (2 ^ f.fractionBits)
        push_cast at hclose
        rw [abs_of_nonneg hq] at hlarge ⊢
        rw [abs_of_nonpos (sub_nonpos.mpr hlarge), neg_sub] at hclose
        exact hclose
      · have hclose := hmultiple (-2 ^ f.fractionBits)
        push_cast at hclose
        rw [abs_of_nonpos hq] at hlarge ⊢
        have hside : 0 ≤ -(2 ^ f.fractionBits * 2 ^ t) - q := by linarith
        rw [neg_mul, abs_of_nonneg hside] at hclose
        linarith
    linarith

/-- A stored value that is not greater than the exact one is not greater than the nearest one. -/
theorem ge (h : Nearest f v q) (h' : Canonical f m' e')
    (hle : (BinaryValue.finite b m' e').toRat ≤ q) :
    (BinaryValue.finite b m' e').toRat ≤ v.toRat := by
  have hclosest := h.closest b h'
  by_contra hlt
  rw [abs_of_nonpos (by linarith), abs_of_nonpos (by linarith)] at hclosest
  linarith

theorem le (h : Nearest f v q) (h' : Canonical f m' e')
    (hle : q ≤ (BinaryValue.finite b m' e').toRat) :
    v.toRat ≤ (BinaryValue.finite b m' e').toRat := by
  have hclosest := h.closest b h'
  by_contra hlt
  rw [abs_of_nonneg (by linarith), abs_of_nonneg (by linarith)] at hclosest
  linarith

/-- Nothing is lost of a value that can be stored. -/
theorem eq (h : Nearest f v (BinaryValue.finite b m' e').toRat) (h' : Canonical f m' e') :
    v.toRat = (BinaryValue.finite b m' e').toRat :=
  le_antisymm (h.le h' le_rfl) (h.ge h' le_rfl)

/-- Nothing is lost of a value that is not too long. -/
theorem exact {n : Bool} {m : Nat} {e : Int} (h : Nearest f v (BinaryValue.finite n m e).toRat)
    (hm : m < 2 ^ (f.fractionBits + 1)) (he : f.minExponent ≤ e) :
    v.toRat = (BinaryValue.finite n m e).toRat := by
  rcases Nat.eq_zero_or_pos m with rfl | hpos
  · rw [BinaryValue.toRat_zero, ← BinaryValue.toRat_zero n f.minExponent] at h ⊢
    exact h.eq BinaryFormat.canonical_zero
  · obtain ⟨d, -, hcanonical⟩ := BinaryFormat.exists_canonical hpos hm he
    rw [← BinaryValue.toRat_shift n m e d] at h ⊢
    exact h.eq hcanonical

theorem self (b : Bool) (h' : Canonical f m' e') :
    Nearest f (.finite b m' e') (BinaryValue.finite b m' e').toRat := by
  refine ⟨b, m', e', e', rfl, h', h'.le, Int.le_refl e', ?_, ?_, ?_⟩
  · refine h'.normal.imp_right fun hm => ?_
    have hm' : (2 : Rat) ^ f.fractionBits ≤ m' := by exact_mod_cast hm
    rw [BinaryValue.abs_toRat_finite, add_comm, zpow_add₀ two_ne_zero, zpow_natCast]
    exact mul_le_mul_of_nonneg_right hm' (zpow_pos two_pos e').le
  · rw [sub_self, abs_zero]
    positivity
  · rw [sub_self, abs_zero]
    intro hhalf
    have hpos : (0 : Rat) < 2 ^ e' / 2 := by positivity
    exact absurd hhalf hpos.ne

theorem two_pow_le (h : Nearest f v q) {k : Int} (hk : f.minExponent + f.fractionBits ≤ k)
    (hq : 2 ^ k ≤ q) : 2 ^ k ≤ v.toRat := by
  have hge := h.ge (b := false) (Canonical.two_pow hk)
  rw [BinaryValue.toRat_positive, Canonical.toRat_two_pow] at hge
  exact hge hq

/-- What lies more than half a unit above a stored value is not rounded down to it. -/
theorem gt_of_half (h : Nearest f v q) (h' : Canonical f m' e')
    (hq : m' * 2 ^ e' + 2 ^ e' / 2 < q) : m' * 2 ^ e' < v.toRat := by
  obtain ⟨m, e, hnext, hvalue, -⟩ := h'.exists_succ
  have hvalue' : (BinaryValue.finite false m e).toRat = m' * 2 ^ e' + 2 ^ e' := by
    rw [BinaryValue.toRat_positive, hvalue]
  have hunit : (0 : Rat) < 2 ^ e' := zpow_pos two_pos e'
  have hclosest := h.closest false hnext
  have hge := h.ge (b := false) hnext
  rw [hvalue'] at hclosest hge
  by_contra hle
  rw [not_lt] at hle
  rcases le_or_gt ((m' : Rat) * 2 ^ e' + 2 ^ e') q with habove | hbelow
  · linarith [hge habove]
  · rw [abs_of_nonpos (by linarith), abs_of_pos (by linarith)] at hclosest
    linarith

/-- What lies less than half a unit above a stored value is not rounded up to the next one. -/
theorem lt_of_half (h : Nearest f v q) (h' : Canonical f m' e')
    (hq : q < m' * 2 ^ e' + 2 ^ e' / 2) : v.toRat < m' * 2 ^ e' + 2 ^ e' := by
  have hvalue : (BinaryValue.finite false m' e').toRat = m' * 2 ^ e' :=
    BinaryValue.toRat_positive m' e'
  have hunit : (0 : Rat) < 2 ^ e' := zpow_pos two_pos e'
  have hclosest := h.closest false h'
  have hle := h.le (b := false) h'
  rw [hvalue] at hclosest hle
  by_contra hge
  rw [not_lt] at hge
  rcases le_or_gt q (m' * 2 ^ e') with hbelow | habove
  · linarith [hle hbelow]
  · rw [abs_of_nonneg (by linarith), abs_of_neg (by linarith)] at hclosest
    linarith

/-- What lies no more than half a unit above an even mantissa is not rounded up. -/
theorem le_of_even (h : Nearest f v q) (h' : Canonical f m' e') (heven : 2 ∣ m')
    (hm' : 2 ^ f.fractionBits ≤ m') (hq : q ≤ m' * 2 ^ e' + 2 ^ e' / 2) :
    v.toRat ≤ m' * 2 ^ e' := by
  have hclosest := h.closest false h'
  have hvalue : (BinaryValue.finite false m' e').toRat = m' * 2 ^ e' :=
    BinaryValue.toRat_positive m' e'
  rw [hvalue] at hclosest
  have hunit : (0 : Rat) < 2 ^ e' := zpow_pos two_pos e'
  obtain ⟨n, m, e, t, rfl, hcanonical, hleast, hte, -, herror, htie⟩ := h
  by_contra hlt
  rw [not_le] at hlt
  have hnonneg : (0 : Rat) ≤ m' * 2 ^ e' := by positivity
  have hpos := BinaryValue.toRat_of_pos (lt_of_le_of_lt hnonneg hlt)
  rw [hpos] at hlt hclosest herror htie
  obtain ⟨he, hgap⟩ := hcanonical.add_unit_le hm' hlt
  have habove : q ≤ m * 2 ^ e := by linarith
  have hbelow : (m' : Rat) * 2 ^ e' ≤ q := by
    by_contra hbelow
    rw [abs_of_nonneg (by linarith), abs_of_nonneg (by linarith)] at hclosest
    linarith
  rw [abs_of_nonneg (by linarith), abs_of_nonpos (by linarith)] at hclosest
  rw [abs_of_nonneg (by linarith)] at herror htie
  -- it would be the next value, and both would be half a unit away
  have hnext : (m : Rat) * 2 ^ e = ((m' + 1 : Nat) : Rat) * 2 ^ e' := by
    push_cast
    linarith
  have hodd : ¬ 2 ∣ m' + 1 := by omega
  obtain ⟨rfl, rfl⟩ := Canonical.eq_of_odd he hodd hnext
  have hpow : (2 : Rat) ^ e ≤ 2 ^ t := by linarith
  obtain rfl : t = e := le_antisymm hte ((zpow_le_zpow_iff_right₀ one_lt_two).mp hpow)
  exact hodd (htie (by linarith))

/-- What lies no more than half a unit above a power of two is not rounded up. -/
theorem le_two_pow [f.Proper] (h : Nearest f v q) {k : Int}
    (hk : f.minExponent + f.fractionBits ≤ k) (hq : q ≤ 2 ^ k + 2 ^ (k - f.fractionBits) / 2) :
    v.toRat ≤ 2 ^ k := by
  have hpos := BinaryFormat.Proper.fractionBits_pos (f := f)
  have hle := h.le_of_even (Canonical.two_pow hk) (dvd_pow_self 2 (Nat.ne_of_gt hpos))
    (Nat.le_refl _)
  rw [Canonical.toRat_two_pow] at hle
  exact hle hq

/-- What lies no more than half a unit below an even mantissa is not rounded down, unless that is
    the least one at its exponent. -/
theorem ge_of_even (h : Nearest f v q) (h' : Canonical f m' e') (heven : 2 ∣ m')
    (hm' : 2 ^ f.fractionBits < m') (hq : m' * 2 ^ e' - 2 ^ e' / 2 ≤ q) :
    m' * 2 ^ e' ≤ v.toRat := by
  have hclosest := h.closest false h'
  have hvalue : (BinaryValue.finite false m' e').toRat = m' * 2 ^ e' :=
    BinaryValue.toRat_positive m' e'
  rw [hvalue] at hclosest
  have hunit : (0 : Rat) < 2 ^ e' := zpow_pos two_pos e'
  obtain ⟨k, rfl⟩ := Nat.exists_eq_succ_of_ne_zero (Nat.ne_of_gt (Nat.zero_lt_of_lt hm'))
  have hk : 2 ^ f.fractionBits ≤ k := Nat.le_of_lt_succ hm'
  have hodd : ¬ 2 ∣ k := by omega
  have hkpos : (0 : Rat) < k * 2 ^ e' := by
    have hk0 : 0 < k := Nat.lt_of_lt_of_le (Nat.two_pow_pos _) hk
    positivity
  push_cast at hq hclosest ⊢
  obtain ⟨n, m, e, t, rfl, hcanonical, hleast, hte, -, herror, htie⟩ := h
  by_contra hlt
  rw [not_le] at hlt
  -- then it would not be greater than the value before
  have hbefore : (BinaryValue.finite n m e).toRat ≤ k * 2 ^ e' := by
    by_contra hgt
    rw [not_le] at hgt
    have hpos := BinaryValue.toRat_of_pos (hkpos.trans hgt)
    rw [hpos] at hgt hlt
    exact absurd hlt (hcanonical.add_unit_le hk hgt).2.not_gt
  have hsplit : ((k : Rat) + 1) * 2 ^ e' = k * 2 ^ e' + 2 ^ e' := by ring
  rw [hsplit] at hq hclosest hlt
  have habove : q ≤ k * 2 ^ e' + 2 ^ e' := by
    by_contra habove
    rw [abs_of_nonpos (by linarith), abs_of_nonpos (by linarith)] at hclosest
    linarith
  rw [abs_of_nonpos (by linarith), abs_of_nonneg (by linarith)] at hclosest
  rw [abs_of_nonpos (by linarith)] at herror htie
  -- it would be that value, and both would be half a unit away
  have hprevious : (BinaryValue.finite n m e).toRat = k * 2 ^ e' := by linarith
  have hpos : (m : Rat) * 2 ^ e = k * 2 ^ e' := by
    rw [← BinaryValue.abs_toRat_finite n, hprevious, abs_of_pos hkpos]
  have he : e' ≤ e := by
    by_contra hne
    exact absurd hpos (hcanonical.toRat_lt_of_exponent_lt hk (not_le.mp hne)).ne
  obtain ⟨rfl, rfl⟩ := Canonical.eq_of_odd he hodd hpos
  have hpow : (2 : Rat) ^ e ≤ 2 ^ t := by linarith
  obtain rfl : t = e := le_antisymm hte ((zpow_le_zpow_iff_right₀ one_lt_two).mp hpow)
  exact hodd (htie (by linarith))

/-- The nearest value has an exponent that fits if the exact one is not too large. -/
theorem exponent_le [f.Proper] {n : Bool} {m : Nat} {e : Int} (h : Nearest f (.finite n m e) q)
    (hq : |q| ≤ 2 ^ (f.fractionBits + f.maxExponent)) :
    Canonical f m e ∧ e ≤ f.maxExponent := by
  have hlargest : Canonical f (2 ^ f.fractionBits) f.maxExponent :=
    ⟨Nat.pow_lt_pow_right one_lt_two (Nat.lt_succ_self _),
      BinaryFormat.minExponent_le_maxExponent, .inr (Nat.le_refl _)⟩
  have hvalue : (2 : Rat) ^ (f.fractionBits + f.maxExponent) =
      ((2 ^ f.fractionBits : Nat) : Rat) * 2 ^ f.maxExponent := by
    push_cast
    rw [zpow_add₀ two_ne_zero, zpow_natCast]
  rw [hvalue] at hq
  have hupper : (BinaryValue.finite n m e).toRat ≤
      ((2 ^ f.fractionBits : Nat) : Rat) * 2 ^ f.maxExponent := by
    have hle := h.le (b := false) hlargest
    rw [BinaryValue.toRat_positive] at hle
    exact hle (abs_le.mp hq).2
  have hlower : -(((2 ^ f.fractionBits : Nat) : Rat) * 2 ^ f.maxExponent) ≤
      (BinaryValue.finite n m e).toRat := by
    have hge := h.ge (b := true) hlargest
    rw [BinaryValue.toRat_negative] at hge
    exact hge (abs_le.mp hq).1
  have habs := abs_le.mpr ⟨hlower, hupper⟩
  rw [BinaryValue.abs_toRat_finite] at habs
  obtain ⟨_, _, _, t, hfinite, hcanonical, -⟩ := h
  cases hfinite
  refine ⟨hcanonical, ?_⟩
  by_contra hgt
  have hleast := hlargest.le
  have hm := hcanonical.normal.resolve_left (by omega)
  exact absurd habs (hlargest.toRat_lt_of_exponent_lt hm (not_le.mp hgt)).not_ge

end Nearest

end FoamTray
