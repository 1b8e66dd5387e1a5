import FoamTray.Proofs.Numeric.Nearest

/-! # Quotients

    A quotient of natural numbers is rounded to a format by its leading bits. That finds the nearest
    value.

    * `abs_nearestEven_sub_le` : rounding to a natural number.
    * `BinaryFormat.exists_exponent` : the exponent of a quotient.
    * `BinaryFormat.exists_nearest_roundQuotient` : the nearest value, or infinity beyond all of them.
    * `BinaryFormat.roundDecimal_eq` : a decimal is a quotient, whatever the format.
-/

namespace FoamTray

open Float.Model (UnpackedFloat)
open Float.Model.UnpackedFloat (ExtendedMantissa)

/-! ## Section 1: Natural numbers -/

/-- The machine rounds a mantissa with residual bits in the same way. -/
theorem nearestEven_eq_roundedMantissa (num den : Nat) :
    nearestEven num den = (ExtendedMantissa.ofMantissaAndAccuracy (num / den)
      (UnpackedFloat.accuracyOfFraction (num % den) den)).roundedMantissa := by
  unfold nearestEven UnpackedFloat.accuracyOfFraction
  dsimp only
  by_cases h0 : num % den = 0
  · rw [if_pos h0, h0]
    rcases Nat.eq_zero_or_pos den with rfl | hden
    · simp at h0
      subst h0
      rfl
    · rw [if_pos hden]
      rfl
  · rw [if_neg h0]
    rcases lt_trichotomy (2 * (num % den)) den with h | h | h
    · rw [if_pos h, Nat.compare_eq_lt.mpr h]
      rfl
    · rw [if_neg (by omega), if_neg (by omega), Nat.compare_eq_eq.mpr h]
      show _ = num / den + num / den % 2
      split <;> omega
    · rw [if_neg (by omega), if_pos h, Nat.compare_eq_gt.mpr h]
      rfl

/-- Rounding costs a half at most, and exactly that only where an even number is found. -/
theorem abs_nearestEven_sub_le (num : Nat) {den : Nat} (hden : 0 < den) :
    |(nearestEven num den : Rat) - num / den| ≤ 1 / 2 ∧
      (|(nearestEven num den : Rat) - num / den| = 1 / 2 → 2 ∣ nearestEven num den) := by
  rw [nearestEven_eq_roundedMantissa]
  exact (tells_quotient num hden).abs_rounded_sub_le

/-! ## Section 2: Quotients -/

/-- Numerator and denominator are scaled by natural numbers, whatever the sign of the exponent. -/
theorem scaled_quotient (num den : Nat) (t : Int) :
    ((num * 2 ^ (-t).toNat : Nat) : Rat) / (den * 2 ^ t.toNat : Nat) = num / den / 2 ^ t := by
  have hpower : (2 : Rat) ^ t = 2 ^ t.toNat / 2 ^ (-t).toNat := by
    rw [← zpow_natCast, ← zpow_natCast, ← zpow_sub₀ two_ne_zero]
    congr 1
    omega
  rw [hpower]
  push_cast
  field_simp

/-- A quotient is bounded by the bits of its parts from below. -/
theorem two_pow_le_quotient {num den : Nat} (hnum : 0 < num) (hden : 0 < den) :
    (2 : Rat) ^ ((num.log2 : Int) - den.log2 - 1) ≤ num / den := by
  have hpos : (0 : Rat) < den := by exact_mod_cast hden
  rw [le_div_iff₀ hpos]
  calc (2 : Rat) ^ ((num.log2 : Int) - den.log2 - 1) * den
      ≤ 2 ^ ((num.log2 : Int) - den.log2 - 1) * 2 ^ (den.log2 + 1) := by
        have hlt : (den : Rat) < 2 ^ (den.log2 + 1) := by exact_mod_cast Nat.lt_log2_self
        exact mul_le_mul_of_nonneg_left hlt.le (by positivity)
    _ = 2 ^ num.log2 := by
        rw [← zpow_natCast, ← zpow_natCast, ← zpow_add₀ two_ne_zero]
        congr 1
        push_cast
        ring
    _ ≤ num := by exact_mod_cast Nat.log2_self_le (Nat.ne_of_gt hnum)

/-- A quotient is bounded by the bits of its parts from above. -/
theorem quotient_lt_two_pow (num : Nat) {den : Nat} (hden : 0 < den) :
    (num : Rat) / den < 2 ^ ((num.log2 : Int) - den.log2 + 1) := by
  have hpos : (0 : Rat) < den := by exact_mod_cast hden
  rw [div_lt_iff₀ hpos]
  calc (num : Rat) < 2 ^ (num.log2 + 1) := by exact_mod_cast Nat.lt_log2_self
    _ = 2 ^ ((num.log2 : Int) - den.log2 + 1) * 2 ^ den.log2 := by
        rw [← zpow_natCast, ← zpow_natCast, ← zpow_add₀ two_ne_zero]
        congr 1
        push_cast
        ring
    _ ≤ 2 ^ ((num.log2 : Int) - den.log2 + 1) * den := by
        have hle : (2 : Rat) ^ den.log2 ≤ den := by
          exact_mod_cast Nat.log2_self_le (Nat.ne_of_gt hden)
        exact mul_le_mul_of_nonneg_left hle (by positivity)

namespace BinaryFormat

variable {f : BinaryFormat} {num den : Nat}

/-- The exponent that is guessed, and corrected once, is that of the quotient. -/
theorem exists_exponent (n : Bool) (hnum : 0 < num) (hden : 0 < den) :
    ∃ e : Int, (2 : Rat) ^ (f.fractionBits + e) ≤ num / den ∧
      (num : Rat) / den < 2 ^ (f.fractionBits + 1 + e) ∧
      f.roundQuotient n num den = f.signWeight n +
        min ((max e f.minExponent - f.minExponent).toNat * 2 ^ f.fractionBits +
          nearestEven (num * 2 ^ (-max e f.minExponent).toNat)
            (den * 2 ^ (max e f.minExponent).toNat)) f.infinityBits := by
  unfold roundQuotient
  simp only [Nat.pow_eq]
  rw [if_neg (Nat.ne_of_gt hnum)]
  generalize hg : (num.log2 : Int) - den.log2 - f.fractionBits = guess
  have hcompare : num * 2 ^ (-guess).toNat < 2 ^ f.fractionBits * (den * 2 ^ guess.toNat) ↔
      (num : Rat) / den < 2 ^ (f.fractionBits + guess) := by
    have hscaled : (0 : Rat) < (den * 2 ^ guess.toNat : Nat) := by positivity
    rw [zpow_add₀ two_ne_zero, zpow_natCast, ← div_lt_iff₀ (zpow_pos two_pos guess),
      ← scaled_quotient, div_lt_iff₀ hscaled]
    norm_cast
  by_cases h : num * 2 ^ (-guess).toNat < 2 ^ f.fractionBits * (den * 2 ^ guess.toNat)
  · rw [if_pos h]
    refine ⟨guess - 1, ?_, ?_, rfl⟩
    · rw [show (f.fractionBits : Int) + (guess - 1) = num.log2 - den.log2 - 1 by omega]
      exact two_pow_le_quotient hnum hden
    · rw [show (f.fractionBits : Int) + 1 + (guess - 1) = f.fractionBits + guess by omega]
      exact hcompare.mp h
  · rw [if_neg h]
    refine ⟨guess, ?_, ?_, rfl⟩
    · exact not_lt.mp (mt hcompare.mpr h)
    · rw [show (f.fractionBits : Int) + 1 + guess = num.log2 - den.log2 + 1 by omega]
      exact quotient_lt_two_pow num hden

/-- A mantissa that was rounded up by one bit is carried into the exponent. -/
theorem exists_carried {r : Nat} {t : Int} (hr : r ≤ 2 ^ (f.fractionBits + 1))
    (ht : f.minExponent ≤ t) (hn : t = f.minExponent ∨ 2 ^ f.fractionBits ≤ r)
    (hbits : 0 < f.fractionBits) :
    ∃ m e, Canonical f m e ∧ t ≤ e ∧ (m : Rat) * 2 ^ e = r * 2 ^ t ∧ (2 ∣ r → 2 ∣ m) ∧
      (e - f.minExponent).toNat * 2 ^ f.fractionBits + m =
        (t - f.minExponent).toNat * 2 ^ f.fractionBits + r := by
  rcases Nat.lt_or_eq_of_le hr with hlt | rfl
  · exact ⟨r, t, ⟨hlt, ht, hn⟩, Int.le_refl t, rfl, id, rfl⟩
  · refine ⟨2 ^ f.fractionBits, t + 1, ⟨?_, by omega, .inr (Nat.le_refl _)⟩, by omega, ?_, ?_, ?_⟩
    · exact Nat.pow_lt_pow_right one_lt_two (Nat.lt_succ_self _)
    · rw [zpow_add₀ two_ne_zero]
      push_cast
      ring
    · exact fun _ => dvd_pow_self 2 (Nat.ne_of_gt hbits)
    · rw [show (t + 1 - f.minExponent).toNat = (t - f.minExponent).toNat + 1 by omega, Nat.pow_succ]
      ring

/-- A mantissa that is rounded at the right exponent is that of the nearest value, once it is
    carried. -/
theorem exists_nearest_of_close [f.Proper] {q : Rat} {r : Nat} {t : Int} (hq : 0 ≤ q)
    (ht : f.minExponent ≤ t) (hunit : t = f.minExponent ∨ (2 : Rat) ^ (t + f.fractionBits) ≤ q)
    (hfits : q < 2 ^ (f.fractionBits + 1 + t)) (hclose : |(r : Rat) - q / 2 ^ t| ≤ 1 / 2)
    (htie : |(r : Rat) - q / 2 ^ t| = 1 / 2 → 2 ∣ r) :
    ∃ m e, Canonical f m e ∧ Nearest f (.finite false m e) q ∧
      (e - f.minExponent).toNat * 2 ^ f.fractionBits + m =
        (t - f.minExponent).toNat * 2 ^ f.fractionBits + r := by
  have hpos : (0 : Rat) < 2 ^ t := zpow_pos two_pos t
  obtain ⟨habove, hbelow⟩ := abs_le.mp hclose
  -- no more than the bits of a mantissa are left, and no less unless the exponent is the least one
  have hr : r ≤ 2 ^ (f.fractionBits + 1) := by
    have hlt : q / 2 ^ t < 2 ^ (f.fractionBits + 1) := by
      rw [div_lt_iff₀ hpos, ← zpow_natCast, ← zpow_add₀ two_ne_zero]
      exact_mod_cast hfits
    have hr' : (r : Rat) < 2 ^ (f.fractionBits + 1) + 1 := by linarith
    exact Nat.le_of_lt_succ (by exact_mod_cast hr')
  have hn : t = f.minExponent ∨ 2 ^ f.fractionBits ≤ r := by
    refine hunit.imp_right fun hle => ?_
    rw [zpow_add₀ two_ne_zero, zpow_natCast, mul_comm, ← le_div_iff₀ hpos] at hle
    have hr' : (2 : Rat) ^ f.fractionBits < r + 1 := by linarith
    exact Nat.le_of_lt_succ (by exact_mod_cast hr')
  obtain ⟨m, e, hcanonical, hte, hvalue, heven, hbits⟩ :=
    exists_carried hr ht hn Proper.fractionBits_pos
  have herror : |(BinaryValue.finite false m e).toRat - q| = |(r : Rat) - q / 2 ^ t| * 2 ^ t := by
    rw [BinaryValue.toRat_positive, hvalue, ← abs_of_pos hpos, ← abs_mul, abs_of_pos hpos, sub_mul,
      div_mul_cancel₀ _ hpos.ne']
  refine ⟨m, e, hcanonical, ⟨false, m, e, t, rfl, hcanonical, ht, hte, ?_, ?_, ?_⟩, hbits⟩
  · rw [abs_of_nonneg hq]
    exact hunit
  · rw [herror]
    calc |(r : Rat) - q / 2 ^ t| * 2 ^ t ≤ 1 / 2 * 2 ^ t :=
          mul_le_mul_of_nonneg_right hclose hpos.le
      _ = 2 ^ t / 2 := by ring
  · rw [herror]
    intro hhalf
    refine heven (htie (mul_right_cancel₀ hpos.ne' ?_))
    rw [hhalf]
    ring

/-- Rounding a quotient finds the pattern of the nearest value, or infinity if the exponent of that
    value does not fit. -/
theorem exists_nearest_roundQuotient [f.Proper] (n : Bool) (num : Nat) (hden : 0 < den) :
    ∃ m e, Canonical f m e ∧ Nearest f (.finite false m e) (num / den) ∧
      (e ≤ f.maxExponent ∧ f.roundQuotient n num den = f.pattern n m e ∨
        f.maxExponent < e ∧ f.roundQuotient n num den = f.encode (.infinite n)) := by
  rcases Nat.eq_zero_or_pos num with rfl | hnum
  · have hnearest := Nearest.self false (canonical_zero (f := f))
    rw [BinaryValue.toRat_zero] at hnearest
    refine ⟨0, f.minExponent, canonical_zero, ?_, .inl ⟨minExponent_le_maxExponent, ?_⟩⟩
    · rw [Nat.cast_zero, zero_div]
      exact hnearest
    · unfold roundQuotient pattern
      rw [if_pos rfl, Int.sub_self, Int.toNat_zero, Nat.zero_mul]
      rfl
  obtain ⟨e, hlow, hhigh, hround⟩ := exists_exponent (f := f) n hnum hden
  have ht : f.minExponent ≤ max e f.minExponent := le_max_right _ _
  have hunit : max e f.minExponent = f.minExponent ∨
      (2 : Rat) ^ (max e f.minExponent + f.fractionBits) ≤ num / den := by
    rcases le_total e f.minExponent with hle | hge
    · exact .inl (max_eq_right hle)
    · right
      rw [max_eq_left hge, add_comm]
      exact hlow
  have hfits : (num : Rat) / den < 2 ^ (f.fractionBits + 1 + max e f.minExponent) :=
    hhigh.trans_le (zpow_le_zpow_right₀ one_le_two (by omega))
  generalize max e f.minExponent = t at ht hunit hfits hround
  obtain ⟨hclose, htie⟩ := abs_nearestEven_sub_le (num * 2 ^ (-t).toNat)
    (Nat.mul_pos hden (Nat.two_pow_pos t.toNat))
  rw [scaled_quotient] at hclose htie
  obtain ⟨m, e, hcanonical, hnearest, hbits⟩ :=
    exists_nearest_of_close (by positivity) ht hunit hfits hclose htie
  rw [← hbits] at hround
  refine ⟨m, e, hcanonical, hnearest, ?_⟩
  rcases le_or_gt e f.maxExponent with hle | hgt
  · rw [Nat.min_eq_left (magnitude_le_infinityBits hcanonical hle)] at hround
    exact .inl ⟨hle, hround⟩
  · rw [Nat.min_eq_right (infinityBits_le_magnitude hcanonical hgt)] at hround
    exact .inr ⟨hgt, hround⟩

/-- A decimal is rounded as a quotient, which is the same one in every format, or is too large for
    all of them. -/
theorem roundDecimal_eq (n : Bool) (mantissa : Nat) (exponent : Int) :
    (∃ num den, 0 < den ∧
      ∀ f : BinaryFormat, f.roundDecimal n mantissa exponent = f.roundQuotient n num den) ∨
    ∀ f : BinaryFormat, f.roundDecimal n mantissa exponent = f.encode (.infinite n) := by
  unfold roundDecimal
  dsimp only
  split
  · exact .inl ⟨0, 1, one_pos, fun _ => rfl⟩
  · split
    · exact .inr fun _ => rfl
    · exact .inl ⟨_, _, Nat.pow_pos (by decide), fun _ => rfl⟩

end BinaryFormat

end FoamTray
