import FoamTray.Proofs.Numeric.Nearest

/-! # Operations in any format

    What the machine answers for stored values: the exact result, rounded to the nearest value of
    the format. It compares stored values by their exact values.

    * `Rounded` : an unpacked result is the stored value nearest to an exact one.
    * `rounded_add`, `rounded_sub`, `rounded_mul`, `rounded_div` : the operations.
    * `compare_unpacked` : comparisons.
-/

namespace FoamTray

open Float.Model (UnpackedFloat Format totalExponent)
open Float.Model.UnpackedFloat (Sign Accuracy decreaseExponent roundWithAccuracy)

/-! ## Section 1: Rounding of exact results -/

/-- An unpacked result is the stored value that is nearest to an exact one. -/
def Rounded (f : BinaryFormat) (u : UnpackedFloat) (q : Rat) : Prop :=
  ∃ v, Nearest f v q ∧ u = v.unpacked

variable {f : BinaryFormat} {n n' : Bool} {m m' : Nat} {e e' : Int}

theorem rounded_unpacked (n : Bool) (h : Canonical f m e) :
    Rounded f (BinaryValue.finite n m e).unpacked (BinaryValue.finite n m e).toRat :=
  ⟨_, Nearest.self n h, rfl⟩

theorem rounded_zero (n : Bool) : Rounded f (.zero (BinaryValue.signOf n)) 0 := by
  have h := rounded_unpacked n (BinaryFormat.canonical_zero (f := f))
  rwa [BinaryValue.toRat_zero] at h

theorem decreaseExponent_value (m : Nat) (e t : Int) :
    ((decreaseExponent m e t).1 : Rat) * 2 ^ (decreaseExponent m e t).2 = m * 2 ^ e := by
  unfold decreaseExponent
  dsimp only
  rw [Nat.shiftLeft_eq]
  push_cast
  rw [← zpow_natCast, mul_assoc, ← zpow_add₀ two_ne_zero]
  congr 2
  omega

section Operations

variable [f.Proper]

/-- Before it rounds, the machine makes a mantissa long enough. -/
theorem rounded_round (n : Bool) (hm : 0 < m) (e : Int) :
    Rounded f (UnpackedFloat.round f.machine (BinaryValue.signOf n) m e)
      (BinaryValue.finite n m e).toRat := by
  have htarget := targetExponent_eq (f := f) m e
  generalize hT : f.machine.targetExponent (totalExponent m e) = t at htarget
  have hvalue := decreaseExponent_value m e t
  have hlog : (decreaseExponent m e t).1.log2 = m.log2 + (e - t).toNat := by
    show (m <<< (e - t).toNat).log2 = _
    rw [Nat.shiftLeft_eq, log2_mul_two_pow (Nat.ne_of_gt hm)]
  have hexp : (decreaseExponent m e t).2 = e - (e - t).toNat := rfl
  have he : (decreaseExponent m e t).2 ≤ f.machine.targetExponent
      (totalExponent (decreaseExponent m e t).1 (decreaseExponent m e t).2) := by
    rw [targetExponent_eq, hlog, hexp]
    omega
  have h := nearest_roundWithAccuracy (f := f) n (tells_exact _) he
  rw [hvalue] at h
  unfold UnpackedFloat.round
  rw [hT]
  exact h

/-- The machine rounds a sum of mantissas at one exponent. -/
theorem rounded_normalize (mantissa : Int) (e : Int) (zeroSign : Sign) :
    Rounded f (UnpackedFloat.normalize f.machine mantissa e zeroSign) (mantissa * 2 ^ e) := by
  unfold UnpackedFloat.normalize
  rcases lt_trichotomy mantissa 0 with hlt | rfl | hgt
  · rw [Int.compare_eq_lt.mpr hlt]
    obtain ⟨m, hm, rfl⟩ : ∃ m : Nat, 0 < m ∧ mantissa = -m :=
      ⟨(-mantissa).toNat, by omega, by omega⟩
    have h := rounded_round (f := f) true hm e
    rw [BinaryValue.toRat_negative] at h
    rw [neg_neg, Int.toNat_natCast, Int.cast_neg, Int.cast_natCast, neg_mul]
    exact h
  · rw [Int.compare_eq_eq.mpr rfl, Int.cast_zero, zero_mul]
    have h := rounded_zero (f := f) (zeroSign == .negative)
    cases zeroSign <;> exact h
  · rw [Int.compare_eq_gt.mpr hgt]
    obtain ⟨m, hm, rfl⟩ : ∃ m : Nat, 0 < m ∧ mantissa = m := ⟨mantissa.toNat, by omega, by omega⟩
    have h := rounded_round (f := f) false hm e
    rw [BinaryValue.toRat_positive] at h
    rw [Int.cast_natCast]
    exact h

/-! ## Section 2: The operations -/

/-- The machine adds. -/
theorem rounded_add (h : Canonical f m e) (h' : Canonical f m' e') :
    Rounded f (UnpackedFloat.add f.machine (BinaryValue.finite n m e).unpacked
        (BinaryValue.finite n' m' e').unpacked)
      ((BinaryValue.finite n m e).toRat + (BinaryValue.finite n' m' e').toRat) := by
  have hself := rounded_unpacked n h
  have hself' := rounded_unpacked n' h'
  rcases Nat.eq_zero_or_pos m with rfl | hm
  · rw [BinaryValue.toRat_zero, zero_add, BinaryValue.unpacked_zero]
    rcases Nat.eq_zero_or_pos m' with rfl | hm'
    -- the sum of two zeros is a zero, which is negative if both are
    · rw [BinaryValue.toRat_zero, BinaryValue.unpacked_zero]
      cases n <;> cases n'
      · exact rounded_zero false
      · exact rounded_zero false
      · exact rounded_zero false
      · exact rounded_zero true
    · rw [BinaryValue.unpacked_of_pos n' hm'] at hself' ⊢
      exact hself'
  · rcases Nat.eq_zero_or_pos m' with rfl | hm'
    · rw [BinaryValue.toRat_zero, add_zero, BinaryValue.unpacked_zero]
      rw [BinaryValue.unpacked_of_pos n hm] at hself ⊢
      exact hself
    -- otherwise the mantissas are brought to the lower exponent, where the sum is exact
    · rw [BinaryValue.unpacked_of_pos n hm, BinaryValue.unpacked_of_pos n' hm']
      have hshift : ∀ (k : Nat) (t : Int), min e e' ≤ t →
          ((decreaseExponent k t (min e e')).1 : Rat) * 2 ^ min e e' = k * 2 ^ t := by
        intro k t ht
        rw [← decreaseExponent_value k t (min e e')]
        congr 2
        show min e e' = t - (t - min e e').toNat
        omega
      have hsign : ∀ (n : Bool) (k : Nat),
          (((BinaryValue.signOf n).apply (k : Int) : Int) : Rat) = (if n then -1 else 1) * k := by
        intro n k
        cases n
        · exact (one_mul _).symm
        · show ((-(k : Int) : Int) : Rat) = -1 * k
          push_cast
          ring
      have hsum : (BinaryValue.finite n m e).toRat + (BinaryValue.finite n' m' e').toRat =
          (((BinaryValue.signOf n).apply (decreaseExponent m e (min e e')).1 +
            (BinaryValue.signOf n').apply (decreaseExponent m' e' (min e e')).1 : Int) : Rat) *
              2 ^ min e e' := by
        push_cast
        rw [hsign, hsign, add_mul, mul_assoc, mul_assoc, hshift m e (min_le_left _ _),
          hshift m' e' (min_le_right _ _)]
        rfl
      rw [hsum]
      exact rounded_normalize _ _ _

theorem not_sign (n : Bool) : (if !n then -1 else 1 : Rat) = -(if n then -1 else 1) := by
  cases n
  · rfl
  · exact (neg_neg 1).symm

theorem neg_unpacked (n : Bool) (m : Nat) (e : Int) :
    (BinaryValue.finite n m e).unpacked.neg = (BinaryValue.finite (!n) m e).unpacked := by
  rcases Nat.eq_zero_or_pos m with rfl | hm
  · rw [BinaryValue.unpacked_zero, BinaryValue.unpacked_zero]
    cases n <;> rfl
  · rw [BinaryValue.unpacked_of_pos _ hm, BinaryValue.unpacked_of_pos _ hm]
    cases n <;> rfl

/-- A difference is the sum with the other sign. -/
theorem sub_eq_add (format : Format) (u u' : UnpackedFloat) :
    UnpackedFloat.sub format u u' = UnpackedFloat.add format u u'.neg := by
  cases u with
  | finite s m e hm =>
    cases u' with
    | finite s' m' e' hm' =>
      have hsign : ∀ k : Int, (-s').apply k = -s'.apply k := by
        intro k
        cases s'
        · exact (Int.neg_neg k).symm
        · rfl
      unfold UnpackedFloat.sub UnpackedFloat.add UnpackedFloat.neg
      dsimp only
      rw [hsign, ← Int.sub_eq_add_neg]
    | _ => rfl
  | _ => cases u' <;> rfl

/-- The machine subtracts. -/
theorem rounded_sub (h : Canonical f m e) (h' : Canonical f m' e') :
    Rounded f (UnpackedFloat.sub f.machine (BinaryValue.finite n m e).unpacked
        (BinaryValue.finite n' m' e').unpacked)
      ((BinaryValue.finite n m e).toRat - (BinaryValue.finite n' m' e').toRat) := by
  have hneg : -(BinaryValue.finite n' m' e').toRat = (BinaryValue.finite (!n') m' e').toRat := by
    rw [BinaryValue.toRat_finite, BinaryValue.toRat_finite, not_sign, neg_mul]
  rw [sub_eq_add, neg_unpacked, sub_eq_add_neg, hneg]
  exact rounded_add h h'

theorem xor_sign (n n' : Bool) : (if n ^^ n' then -1 else 1 : Rat) =
    (if n then -1 else 1) * (if n' then -1 else 1) := by
  cases n <;> cases n' <;> norm_num

/-- The machine multiplies. -/
theorem rounded_mul (h : Canonical f m e) (h' : Canonical f m' e') :
    Rounded f (UnpackedFloat.mul f.machine (BinaryValue.finite n m e).unpacked
        (BinaryValue.finite n' m' e').unpacked)
      ((BinaryValue.finite n m e).toRat * (BinaryValue.finite n' m' e').toRat) := by
  have hvalue : (BinaryValue.finite n m e).toRat * (BinaryValue.finite n' m' e').toRat =
      (if n ^^ n' then -1 else 1) * (((m * m' : Nat) : Rat) * 2 ^ (e + e')) := by
    rw [BinaryValue.toRat_finite, BinaryValue.toRat_finite, xor_sign, zpow_add₀ two_ne_zero]
    push_cast
    ring
  have hsign : BinaryValue.signOf n * BinaryValue.signOf n' = BinaryValue.signOf (n ^^ n') := by
    cases n <;> cases n' <;> rfl
  rw [hvalue]
  rcases Nat.eq_zero_or_pos (m * m') with h0 | hpos
  -- a product with a zero is one
  · have hzero := rounded_zero (f := f) (n ^^ n')
    rw [h0, Nat.cast_zero, zero_mul, mul_zero]
    rw [← hsign] at hzero
    rcases Nat.mul_eq_zero.mp h0 with rfl | rfl
    · rw [BinaryValue.unpacked_zero]
      rcases Nat.eq_zero_or_pos m' with rfl | hm'
      · rw [BinaryValue.unpacked_zero]
        exact hzero
      · rw [BinaryValue.unpacked_of_pos n' hm']
        exact hzero
    · rw [BinaryValue.unpacked_zero n']
      rcases Nat.eq_zero_or_pos m with rfl | hm
      · rw [BinaryValue.unpacked_zero]
        exact hzero
      · rw [BinaryValue.unpacked_of_pos n hm]
        exact hzero
  · have hm : 0 < m := Nat.pos_of_mul_pos_right hpos
    have hm' : 0 < m' := Nat.pos_of_mul_pos_left hpos
    rw [BinaryValue.unpacked_of_pos n hm, BinaryValue.unpacked_of_pos n' hm']
    show Rounded f (roundWithAccuracy f.machine
      (BinaryValue.signOf n * BinaryValue.signOf n') (m * m') (e + e') .exact) _
    rw [hsign]
    refine nearest_roundWithAccuracy (n ^^ n') (tells_exact _) ?_
    -- the product with a normal value is long enough, that of two others is far below the least one
    have hleast := BinaryFormat.minExponent_neg (f := f)
    rw [targetExponent_eq]
    rcases h.normal with rfl | hn
    · rcases h'.normal with rfl | hn'
      · omega
      · have hlog : f.fractionBits ≤ (m * m').log2 :=
          (Nat.le_log2 (Nat.ne_of_gt hpos)).mpr (le_trans hn' (Nat.le_mul_of_pos_left m' hm))
        omega
    · have hlog : f.fractionBits ≤ (m * m').log2 :=
        (Nat.le_log2 (Nat.ne_of_gt hpos)).mpr (le_trans hn (Nat.le_mul_of_pos_right m hm'))
      omega

/-- Before it divides, the machine makes the dividend long enough for all bits of a quotient. -/
theorem divCore_exponent (h : Canonical f m e) (hm : 0 < m) (hm' : 0 < m') (e' : Int) :
    ∃ s : Nat, ∃ t : Int, t = e - e' - s ∧
      UnpackedFloat.divCore f.machine m e m' e' =
        (m * 2 ^ s / m', t, UnpackedFloat.accuracyOfFraction (m * 2 ^ s % m') m') ∧
      t ≤ f.machine.targetExponent (totalExponent (m * 2 ^ s / m') t) := by
  have hbits : (f.machine.mantissaBits : Int) = 1 + f.fractionBits := by
    show ((1 + f.fractionBits : Nat) : Int) = _
    push_cast
    rfl
  have hlog : m.log2 < f.fractionBits + 1 := (Nat.log2_lt (Nat.ne_of_gt hm)).mpr h.lt
  -- the exponent that the quotient is brought to
  obtain ⟨t, ht⟩ : ∃ t, t = min (e - e') (f.machine.targetExponent
    (totalExponent m e - totalExponent m' e')) := ⟨_, rfl⟩
  obtain ⟨s, hs⟩ : ∃ s : Nat, t = e - e' - s := ⟨(e - e' - t).toNat, by omega⟩
  refine ⟨s, t, hs, ?_, ?_⟩
  · unfold UnpackedFloat.divCore
    dsimp only
    rw [← ht, show (e - e' - t).toNat = s by omega, Nat.shiftLeft_eq]
  · rw [targetExponent_eq]
    unfold Format.targetExponent totalExponent at ht
    rw [BinaryFormat.minExponent_machine, hbits] at ht
    rcases le_or_gt t f.minExponent with hle | hgt
    · omega
    · -- above the least exponent the dividend is longer than the divisor by a mantissa
      have hlength : m.log2 + s = f.fractionBits + 1 + m'.log2 := by
        have hele := h.le
        omega
      have hquotient : 2 ^ f.fractionBits ≤ m * 2 ^ s / m' := by
        rw [Nat.le_div_iff_mul_le hm']
        calc 2 ^ f.fractionBits * m' ≤ 2 ^ f.fractionBits * 2 ^ (m'.log2 + 1) :=
              Nat.mul_le_mul_left _ (Nat.le_of_lt Nat.lt_log2_self)
          _ = 2 ^ m.log2 * 2 ^ s := by
              rw [← Nat.pow_add, ← Nat.pow_add]
              congr 1
              omega
          _ ≤ m * 2 ^ s := Nat.mul_le_mul_right _ (Nat.log2_self_le (Nat.ne_of_gt hm))
      have hne : m * 2 ^ s / m' ≠ 0 :=
        Nat.ne_of_gt (Nat.lt_of_lt_of_le (Nat.two_pow_pos _) hquotient)
      have hlog' : f.fractionBits ≤ (m * 2 ^ s / m').log2 := (Nat.le_log2 hne).mpr hquotient
      omega

/-- The machine divides. -/
theorem rounded_div (h : Canonical f m e) (hm' : 0 < m') :
    Rounded f (UnpackedFloat.div f.machine (BinaryValue.finite n m e).unpacked
        (BinaryValue.finite n' m' e').unpacked)
      ((BinaryValue.finite n m e).toRat / (BinaryValue.finite n' m' e').toRat) := by
  have hpos' : (0 : Rat) < m' := by exact_mod_cast hm'
  have hvalue : (BinaryValue.finite n m e).toRat / (BinaryValue.finite n' m' e').toRat =
      (if n ^^ n' then -1 else 1) * (m / m' * 2 ^ (e - e')) := by
    have hsign : ∀ n : Bool, (if n then -1 else 1 : Rat)⁻¹ = if n then -1 else 1 := by
      intro n
      cases n <;> norm_num
    rw [BinaryValue.toRat_finite, BinaryValue.toRat_finite, xor_sign, zpow_sub₀ two_ne_zero,
      mul_div_mul_comm, div_eq_mul_inv (if n then -1 else 1 : Rat), hsign, mul_div_mul_comm]
  have hsign : BinaryValue.signOf n / BinaryValue.signOf n' = BinaryValue.signOf (n ^^ n') := by
    cases n <;> cases n' <;> rfl
  rw [hvalue, BinaryValue.unpacked_of_pos n' hm']
  rcases Nat.eq_zero_or_pos m with rfl | hm
  · have hzero := rounded_zero (f := f) (n ^^ n')
    rw [← hsign] at hzero
    rw [Nat.cast_zero, zero_div, zero_mul, mul_zero]
    exact hzero
  · rw [BinaryValue.unpacked_of_pos n hm]
    obtain ⟨s, t, ht, hcore, htarget⟩ := divCore_exponent h hm hm' e'
    have hscaled : ((m * 2 ^ s : Nat) : Rat) / m' * 2 ^ t = m / m' * 2 ^ (e - e') := by
      rw [ht, zpow_sub₀ two_ne_zero (e - e'), zpow_natCast]
      push_cast
      field_simp
    have hround := nearest_roundWithAccuracy (f := f) (n ^^ n')
      (tells_quotient (m * 2 ^ s) hm') htarget
    rw [hscaled, ← hsign] at hround
    unfold UnpackedFloat.div
    dsimp only
    rw [hcore]
    exact hround

end Operations

/-! ## Section 3: Comparisons -/

/-- Positive values are compared by their exponents, then by their mantissas. -/
theorem compare_magnitudes (h : Canonical f m e) (h' : Canonical f m' e') :
    (compare e e').then (compare m m') = compare ((m : Rat) * 2 ^ e) (m' * 2 ^ e') := by
  rcases lt_trichotomy e e' with he | rfl | he
  · have hm' := h'.normal.resolve_left (by have hle := h.le; omega)
    rw [compare_lt_iff_lt.mpr he, compare_lt_iff_lt.mpr (h.toRat_lt_of_exponent_lt hm' he)]
    rfl
  · have hpos : (0 : Rat) < 2 ^ e := by positivity
    rw [compare_eq_iff_eq.mpr rfl]
    rcases lt_trichotomy m m' with hm | rfl | hm
    · have hm' : (m : Rat) < m' := by exact_mod_cast hm
      rw [compare_lt_iff_lt.mpr hm, compare_lt_iff_lt.mpr (mul_lt_mul_of_pos_right hm' hpos)]
      rfl
    · rw [compare_eq_iff_eq.mpr rfl, compare_eq_iff_eq.mpr rfl]
      rfl
    · have hm' : (m' : Rat) < m := by exact_mod_cast hm
      rw [compare_gt_iff_gt.mpr hm, compare_gt_iff_gt.mpr (mul_lt_mul_of_pos_right hm' hpos)]
      rfl
  · have hm := h.normal.resolve_left (by have hle := h'.le; omega)
    rw [compare_gt_iff_gt.mpr he, compare_gt_iff_gt.mpr (h'.toRat_lt_of_exponent_lt hm he)]
    rfl

theorem compare_neg_neg (a b : Rat) : compare (-a) (-b) = (compare a b).swap := by
  rcases lt_trichotomy a b with h | rfl | h
  · rw [compare_lt_iff_lt.mpr h, compare_gt_iff_gt.mpr (neg_lt_neg h)]
    rfl
  · rw [compare_eq_iff_eq.mpr rfl, compare_eq_iff_eq.mpr rfl]
    rfl
  · rw [compare_gt_iff_gt.mpr h, compare_lt_iff_lt.mpr (neg_lt_neg h)]
    rfl

/-- The machine compares values. -/
theorem compare_unpacked (n n' : Bool) (h : Canonical f m e) (h' : Canonical f m' e') :
    (BinaryValue.finite n m e).unpacked.compare (BinaryValue.finite n' m' e').unpacked =
      some (compare (BinaryValue.finite n m e).toRat (BinaryValue.finite n' m' e').toRat) := by
  have hvalue : ∀ {k : Nat} (t : Int), 0 < k → (0 : Rat) < k * 2 ^ t := by
    intro k t hk
    have hk' : (0 : Rat) < k := by exact_mod_cast hk
    positivity
  rcases Nat.eq_zero_or_pos m with rfl | hm
  · rw [BinaryValue.unpacked_zero, BinaryValue.toRat_zero]
    rcases Nat.eq_zero_or_pos m' with rfl | hm'
    · rw [BinaryValue.unpacked_zero, BinaryValue.toRat_zero, compare_eq_iff_eq.mpr rfl]
      rfl
    · have hpos := hvalue e' hm'
      rw [BinaryValue.unpacked_of_pos n' hm']
      cases n'
      · rw [BinaryValue.toRat_positive, compare_lt_iff_lt.mpr hpos]
        rfl
      · rw [BinaryValue.toRat_negative, compare_gt_iff_gt.mpr (neg_lt_zero.mpr hpos)]
        rfl
  · have hpos := hvalue e hm
    rw [BinaryValue.unpacked_of_pos n hm]
    rcases Nat.eq_zero_or_pos m' with rfl | hm'
    · rw [BinaryValue.unpacked_zero, BinaryValue.toRat_zero]
      cases n
      · rw [BinaryValue.toRat_positive, compare_gt_iff_gt.mpr hpos]
        rfl
      · rw [BinaryValue.toRat_negative, compare_lt_iff_lt.mpr (neg_lt_zero.mpr hpos)]
        rfl
    -- values other than zero are told apart by their signs, then by their magnitudes
    · have hpos' := hvalue e' hm'
      rw [BinaryValue.unpacked_of_pos n' hm']
      cases n <;> cases n'
      · rw [BinaryValue.toRat_positive, BinaryValue.toRat_positive, ← compare_magnitudes h h']
        rfl
      · rw [BinaryValue.toRat_positive, BinaryValue.toRat_negative,
          compare_gt_iff_gt.mpr (by linarith)]
        rfl
      · rw [BinaryValue.toRat_positive, BinaryValue.toRat_negative,
          compare_lt_iff_lt.mpr (by linarith)]
        rfl
      · rw [BinaryValue.toRat_negative, BinaryValue.toRat_negative, compare_neg_neg,
          ← compare_magnitudes h h']
        rfl

end FoamTray
