import FoamTray.Proofs.Numeric.Double
import FoamTray.Proofs.Numeric.Quotients

/-! # Numbers read from decimals

    A decimal can be rounded to single precision at once, or to double precision first and to single
    precision from there. The second way ends at the same number unless it comes by a place half-way
    between two single precision numbers. There it ends at the even one of the two.

    * `Nearest.eq_of_notSeparated` : two exact values that are rounded alike, because no place
      half-way between values separates them.
    * `Nearest.beside_half`, `Nearest.even_of_half` : where a place half-way is rounded to.
    * `Double.HalfWay` : a double precision number at such a place. It can be decided by its bits.
    * `Double.narrow_doubleOfDecimal` : the two ways of reading a decimal.
-/

namespace FoamTray

/-! ## Section 1: Places half-way between values -/

namespace Canonical

variable {f : BinaryFormat} {m m' : Nat} {e e' : Int}

/-- A stored value that is greater than another one is so by a unit of that one at least. -/
theorem toRat_add_unit_le (h : Canonical f m e) (h' : Canonical f m' e')
    (hlt : (m' : Rat) * 2 ^ e' < m * 2 ^ e) : m' * 2 ^ e' + 2 ^ e' ≤ (m : Rat) * 2 ^ e := by
  have hunit : ((m' : Rat) + 1) * 2 ^ e' ≤ m * 2 ^ e := by
    rcases h'.normal with rfl | hm'
    · exact add_unit_le_of_le h.le hlt
    · exact (h.add_unit_le hm' hlt).2
  linarith

/-- A value is stored in one way. -/
theorem eq_of_toRat_eq (h : Canonical f m e) (h' : Canonical f m' e')
    (heq : (m : Rat) * 2 ^ e = m' * 2 ^ e') : m = m' ∧ e = e' := by
  have hleast := h.le
  have hleast' := h'.le
  rcases lt_trichotomy e e' with hlt | rfl | hgt
  · exact absurd heq (h.toRat_lt_of_exponent_lt (h'.normal.resolve_left (by omega)) hlt).ne
  · have hunit : (2 : Rat) ^ e ≠ 0 := (zpow_pos two_pos e).ne'
    exact ⟨by exact_mod_cast mul_right_cancel₀ hunit heq, rfl⟩
  · exact absurd heq (h'.toRat_lt_of_exponent_lt (h.normal.resolve_left (by omega)) hgt).ne'

/-- Of a value and the next one, one has an even mantissa. -/
theorem even_succ_iff [f.Proper] (h : Canonical f m e) (h' : Canonical f m' e')
    (hnext : (m : Rat) * 2 ^ e = m' * 2 ^ e' + 2 ^ e') : 2 ∣ m ↔ ¬ 2 ∣ m' := by
  obtain ⟨k, d, hk, hvalue, heven⟩ := h'.exists_succ
  obtain ⟨rfl, -⟩ := h.eq_of_toRat_eq hk (hnext.trans hvalue.symm)
  exact heven BinaryFormat.Proper.fractionBits_pos

/-- Beside a place half-way there is one value with an even mantissa. -/
theorem eq_of_even_of_beside [f.Proper] {m'' : Nat} {e'' : Int} (h : Canonical f m e)
    (h' : Canonical f m' e') (hbase : Canonical f m'' e'')
    (hb : (m : Rat) * 2 ^ e = m'' * 2 ^ e'' ∨ (m : Rat) * 2 ^ e = m'' * 2 ^ e'' + 2 ^ e'')
    (hb' : (m' : Rat) * 2 ^ e' = m'' * 2 ^ e'' ∨ (m' : Rat) * 2 ^ e' = m'' * 2 ^ e'' + 2 ^ e'')
    (heven : 2 ∣ m) (heven' : 2 ∣ m') : m = m' ∧ e = e' := by
  refine h.eq_of_toRat_eq h' ?_
  rcases hb with hlow | hhigh <;> rcases hb' with hlow' | hhigh'
  · exact hlow.trans hlow'.symm
  · obtain ⟨rfl, -⟩ := h.eq_of_toRat_eq hbase hlow
    exact absurd heven ((h'.even_succ_iff hbase hhigh').mp heven')
  · obtain ⟨rfl, -⟩ := h'.eq_of_toRat_eq hbase hlow'
    exact absurd heven' ((h.even_succ_iff hbase hhigh).mp heven)
  · exact hhigh.trans hhigh'.symm

end Canonical

/-- No place half-way between two values of a format separates an exact value from another one,
    which can lie on it. -/
def NotSeparated (f : BinaryFormat) (q r : Rat) : Prop :=
  ∀ k d, Canonical f k d → (q ≤ k * 2 ^ d + 2 ^ d / 2 → r ≤ k * 2 ^ d + 2 ^ d / 2) ∧
    (k * 2 ^ d + 2 ^ d / 2 ≤ q → k * 2 ^ d + 2 ^ d / 2 ≤ r)

theorem NotSeparated.refl (f : BinaryFormat) (q : Rat) : NotSeparated f q q := fun _ _ _ => ⟨id, id⟩

namespace Nearest

variable {f : BinaryFormat} {m m' k : Nat} {e e' d : Int} {q r : Rat}

/-- What is rounded to a value does not lie beyond the place half-way to the next one. -/
theorem le_half (h : Nearest f (.finite false m e) q) (hm : Canonical f m e) :
    q ≤ m * 2 ^ e + 2 ^ e / 2 := by
  by_contra hgt
  have hlt := h.gt_of_half hm (not_le.mp hgt)
  rw [BinaryValue.toRat_positive] at hlt
  exact lt_irrefl _ hlt

/-- What is rounded to a value above another one lies beyond the place half-way to the next one. -/
theorem half_le (h : Nearest f (.finite false m e) q) (hm : Canonical f m e)
    (hm' : Canonical f m' e') (hlt : (m' : Rat) * 2 ^ e' < m * 2 ^ e) :
    m' * 2 ^ e' + 2 ^ e' / 2 ≤ q := by
  have hstep := hm.toRat_add_unit_le hm' hlt
  by_contra hbelow
  have hshort := h.lt_of_half hm' (not_le.mp hbelow)
  rw [BinaryValue.toRat_positive] at hshort
  linarith

/-- What is not separated from an exact value, and is not half-way itself, is rounded as that. -/
theorem eq_of_notSeparated (h : Nearest f (.finite false m e) q)
    (h' : Nearest f (.finite false m' e') r) (hm : Canonical f m e) (hm' : Canonical f m' e')
    (hside : NotSeparated f q r) (hne : ∀ k d, Canonical f k d → r ≠ k * 2 ^ d + 2 ^ d / 2) :
    m = m' ∧ e = e' := by
  refine hm.eq_of_toRat_eq hm' ?_
  -- otherwise the second value lies on the place above the lesser one
  rcases lt_trichotomy ((m : Rat) * 2 ^ e) (m' * 2 ^ e') with hlt | heq | hgt
  · have hle := (hside m e hm).1 (h.le_half hm)
    exact absurd (le_antisymm hle (h'.half_le hm' hm hlt)) (hne m e hm)
  · exact heq
  · have hge := (hside m' e' hm').2 (h.half_le hm hm' hgt)
    exact absurd (le_antisymm (h'.le_half hm') hge) (hne m' e' hm')

/-- What is not separated from a place half-way is rounded to one of the values beside it. -/
theorem beside_half (h : Nearest f (.finite false m e) q) (hm : Canonical f m e)
    (hk : Canonical f k d) (hside : NotSeparated f q (k * 2 ^ d + 2 ^ d / 2)) :
    (m : Rat) * 2 ^ e = k * 2 ^ d ∨ (m : Rat) * 2 ^ e = k * 2 ^ d + 2 ^ d := by
  have hunit : (0 : Rat) < 2 ^ d := zpow_pos two_pos d
  rcases lt_trichotomy ((m : Rat) * 2 ^ e) (k * 2 ^ d) with hlt | heq | hgt
  · exfalso
    have hstep := hk.toRat_add_unit_le hm hlt
    have hle := (hside m e hm).1 (h.le_half hm)
    have hunit' : (0 : Rat) < 2 ^ e := zpow_pos two_pos e
    linarith
  · exact .inl heq
  · right
    obtain ⟨k', d', hk', hnext, -⟩ := hk.exists_succ
    have hunit' : (0 : Rat) < 2 ^ d' := zpow_pos two_pos d'
    refine le_antisymm ?_ (hm.toRat_add_unit_le hk hgt)
    rw [← hnext]
    by_contra habove
    have hle := (hside k' d' hk').2 (h.half_le hm hk' (not_le.mp habove))
    linarith

/-- Half-way between two values, the one with the even mantissa is the nearest. -/
theorem even_of_half [f.Proper]
    (h : Nearest f (.finite false m e) (k * 2 ^ d + 2 ^ d / 2)) (hm : Canonical f m e)
    (hk : Canonical f k d) : 2 ∣ m := by
  have hunit : (0 : Rat) < 2 ^ d := zpow_pos two_pos d
  have hbeside := h.beside_half hm hk (.refl f _)
  have hdistance : |(BinaryValue.finite false m e).toRat - (k * 2 ^ d + 2 ^ d / 2)| = 2 ^ d / 2 := by
    rw [BinaryValue.toRat_positive]
    rcases hbeside with heq | heq
    · rw [heq, abs_of_neg (by linarith)]
      ring
    · rw [heq, abs_of_pos (by linarith)]
      ring
  obtain ⟨n, m, e, t, heq, -, -, hte, -, herror, htie⟩ := h
  cases heq
  rw [hdistance] at herror htie
  -- the distance is half a unit of the value if the value has the exponent of the one below
  have htie' : e = d → 2 ∣ m := by
    rintro rfl
    have hpow : (2 : Rat) ^ e ≤ 2 ^ t := by linarith
    obtain rfl : t = e := le_antisymm hte ((zpow_le_zpow_iff_right₀ one_lt_two).mp hpow)
    exact htie rfl
  rcases hbeside with heq | hnext
  · exact htie' (hm.eq_of_toRat_eq hk heq).2
  · by_cases hodd : 2 ∣ k
    · have hshort : k + 1 < 2 ^ (f.fractionBits + 1) := by
        have hlt := hk.lt
        rw [Nat.pow_succ] at hlt ⊢
        omega
      have hk' : Canonical f (k + 1) d :=
        ⟨hshort, hk.le, hk.normal.imp_right fun hle => Nat.le_succ_of_le hle⟩
      refine htie' (hm.eq_of_toRat_eq hk' ?_).2
      rw [hnext]
      push_cast
      ring
    · exact (hm.even_succ_iff hk hnext).mpr hodd

/-- A value that is not too long separates what is rounded from the exact value no more than any
    other value. -/
theorem sides (h : Nearest f (.finite false m e) q) (hk : 0 < k)
    (hshort : k < 2 ^ (f.fractionBits + 1)) (hd : f.minExponent ≤ d) :
    (q ≤ k * 2 ^ d → (m : Rat) * 2 ^ e ≤ k * 2 ^ d) ∧
      (k * 2 ^ d ≤ q → (k : Rat) * 2 ^ d ≤ m * 2 ^ e) := by
  obtain ⟨c, -, hcanonical⟩ := BinaryFormat.exists_canonical hk hshort hd
  have hvalue := BinaryValue.toRat_shift false k d c
  have hle := h.le (b := false) hcanonical
  have hge := h.ge (b := false) hcanonical
  rw [hvalue, BinaryValue.toRat_positive, BinaryValue.toRat_positive] at hle hge
  exact ⟨hle, hge⟩

end Nearest

/-! ## Section 2: Reading a decimal -/

namespace Double

variable {n : Bool} {mantissa : Nat} {exponent : Int}

/-- A place half-way between single precision values has a mantissa that is longer by a bit. -/
theorem half_unit (k : Nat) (d : Int) :
    (k : Rat) * 2 ^ d + 2 ^ d / 2 = (2 * k + 1 : Nat) * 2 ^ (d - 1) := by
  rw [zpow_sub₀ two_ne_zero]
  push_cast
  ring

/-- In a finer unit such a place is a mantissa with a single bit below. -/
theorem half_unit_above (k c : Nat) (e : Int) :
    (k : Rat) * 2 ^ (e + (c + 1)) + 2 ^ (e + (c + 1)) / 2 =
      (k * 2 ^ (c + 1) + 2 ^ c : Nat) * 2 ^ e := by
  rw [half_unit, show e + ((c : Int) + 1) - 1 = c + e by omega, zpow_add₀ two_ne_zero, zpow_natCast]
  push_cast
  ring

/-- Half-way between a number of single precision and the next one away from zero. -/
def HalfWay (x : Float) : Prop :=
  ∃ m e, Canonical .single m e ∧ |toRat x| = m * 2 ^ e + 2 ^ e / 2

/-- How many bits of a mantissa lie below the unit of single precision. -/
def bitsBelow (m : Nat) (e : Int) : Nat := (max ((m.log2 : Int) + e - 23) (-149) - e).toNat

/-- A single precision mantissa that is longer by a bit has all other bits below the unit. -/
theorem bitsBelow_eq {k c : Nat} {e : Int} (hk : Canonical .single k (e + (c + 1))) :
    bitsBelow (k * 2 ^ (c + 1) + 2 ^ c) e = c + 1 := by
  have hpos : k * 2 ^ (c + 1) + 2 ^ c ≠ 0 := (Nat.add_pos_right _ (Nat.two_pow_pos c)).ne'
  have hnext : k * 2 ^ (c + 1) + 2 ^ c < (k + 1) * 2 ^ (c + 1) := by
    have hhalf : 2 ^ c < 2 ^ (c + 1) := Nat.pow_lt_pow_right one_lt_two (Nat.lt_succ_self c)
    rw [Nat.add_mul]
    omega
  have hlog : ∀ b, k < 2 ^ b → (k * 2 ^ (c + 1) + 2 ^ c).log2 < b + (c + 1) := by
    intro b hb
    rw [Nat.log2_lt hpos, Nat.pow_add 2 b]
    exact hnext.trans_le (Nat.mul_le_mul_right _ hb)
  have hle := hk.le
  rw [BinaryFormat.minExponent_single] at hle
  unfold bitsBelow
  rcases Nat.lt_or_ge k (2 ^ 23) with hsub | hnormal
  · have hleast := hk.normal.resolve_right (Nat.not_le.mpr hsub)
    have hshort := hlog 23 hsub
    rw [BinaryFormat.minExponent_single] at hleast
    omega
  · have hshort := hlog 24 hk.lt
    have hlong : 23 + (c + 1) ≤ (k * 2 ^ (c + 1) + 2 ^ c).log2 := by
      rw [Nat.le_log2 hpos, Nat.pow_add]
      exact (Nat.mul_le_mul_right _ hnormal).trans (Nat.le_add_right _ _)
    omega

/-- A mantissa without the bits below the unit is one of single precision. -/
theorem canonical_above {m c : Nat} {e : Int} (h : bitsBelow m e = c + 1) :
    Canonical .single (m / 2 ^ (c + 1)) (e + (c + 1)) := by
  unfold bitsBelow at h
  have hm : m < 2 ^ (24 + (c + 1)) := by
    calc m < 2 ^ (m.log2 + 1) := Nat.lt_log2_self
      _ ≤ 2 ^ (24 + (c + 1)) := Nat.pow_le_pow_right two_pos (by omega)
  refine ⟨?_, ?_, ?_⟩
  · rw [Nat.div_lt_iff_lt_mul (Nat.two_pow_pos _), ← Nat.pow_add]
    exact hm
  · rw [BinaryFormat.minExponent_single]
    omega
  · rw [BinaryFormat.minExponent_single]
    rcases le_or_gt ((m.log2 : Int) + e - 23) (-149) with hle | hgt
    · exact .inl (by omega)
    · right
      have hlog : m.log2 = 23 + (c + 1) := by omega
      have hm0 : m ≠ 0 := by
        rintro rfl
        rw [Nat.log2_zero] at hlog
        omega
      rw [Nat.le_div_iff_mul_le (Nat.two_pow_pos _), ← Nat.pow_add]
      show 2 ^ (23 + (c + 1)) ≤ m
      rw [← hlog]
      exact Nat.log2_self_le hm0

/-- What lies half-way has a single bit below the unit, and that is the uppermost one there. -/
theorem halfWay_iff {x : Float} {n : Bool} {m : Nat} {e : Int}
    (h : BinaryValue.ofDouble x = .finite n m e) :
    HalfWay x ↔ m % 2 ^ bitsBelow m e = 2 ^ (bitsBelow m e - 1) := by
  have hvalue : |toRat x| = m * 2 ^ e := by
    rw [toRat, h, BinaryValue.abs_toRat_finite]
  unfold HalfWay
  rw [hvalue]
  constructor
  · rintro ⟨k, d, hk, heq⟩
    have hd : e < d := by
      by_contra hle
      rw [half_unit] at heq
      have he := (Canonical.eq_of_odd (by omega) (by omega) heq).1
      omega
    obtain ⟨c, rfl⟩ : ∃ c : Nat, d = e + (c + 1) := ⟨(d - e - 1).toNat, by omega⟩
    rw [half_unit_above] at heq
    have hm : m = k * 2 ^ (c + 1) + 2 ^ c := by
      exact_mod_cast mul_right_cancel₀ (zpow_pos two_pos e).ne' heq
    rw [hm, bitsBelow_eq hk, Nat.mul_add_mod']
    exact Nat.mod_eq_of_lt (Nat.pow_lt_pow_right one_lt_two (Nat.lt_succ_self c))
  · intro hbits
    obtain ⟨c, hc⟩ : ∃ c, bitsBelow m e = c + 1 := by
      refine Nat.exists_eq_succ_of_ne_zero fun h0 => ?_
      rw [h0, Nat.pow_zero, Nat.mod_one] at hbits
      cases hbits
    rw [hc, Nat.add_sub_cancel] at hbits
    have hm := Nat.div_add_mod' m (2 ^ (c + 1))
    rw [hbits] at hm
    exact ⟨_, _, canonical_above hc, by rw [half_unit_above, hm]⟩

instance (x : Float) : Decidable (HalfWay x) :=
  match h : BinaryValue.ofDouble x with
  | .finite _ _ _ => decidable_of_iff _ (halfWay_iff h).symm
  | .nan | .infinite _ => isFalse (by
      rintro ⟨m, e, -, hhalf⟩
      have hzero : toRat x = 0 := by
        rw [toRat, h]
        rfl
      have hpos : (0 : Rat) < m * 2 ^ e + 2 ^ e / 2 := by positivity
      rw [← hhalf, hzero, abs_zero] at hpos
      exact lt_irrefl _ hpos)

-- the text of a single precision number can be that of a place half-way, at the cost of a digit
example : HalfWay (doubleOfDecimal false 7038531 (-32)) ∧
    ¬ HalfWay (doubleOfDecimal false 1 (-6)) := by
  decide +kernel

/-- A place half-way between single precision numbers has 25 bits, so double precision can hold it,
    and rounding to double precision does not cross it. -/
theorem notSeparated_double {m : Nat} {e : Int} {q : Rat}
    (h : Nearest .double (.finite false m e) q) : NotSeparated .single q (m * 2 ^ e) := by
  intro k d hk
  have hlt : k < 2 ^ 24 := hk.lt
  have hle := hk.le
  rw [BinaryFormat.minExponent_single] at hle
  rw [half_unit]
  refine h.sides (Nat.succ_pos _) ?_ ?_
  · show 2 * k + 1 < 2 ^ 53
    omega
  · rw [BinaryFormat.minExponent_double]
    omega

theorem isFinite_infinite (n : Bool) :
    (⟨.ofNat (BinaryFormat.single.encode (.infinite n))⟩ : Single).isFinite = false := by
  cases n <;> decide

/-- Numbers of one sign are equal if their values are stored alike. -/
theorem pattern_inj (n : Bool) {m m' : Nat} {e e' : Int} (h : Canonical .single m e)
    (h' : Canonical .single m' e') (he : e ≤ 104) (he' : e' ≤ 104) :
    (⟨.ofNat (BinaryFormat.single.pattern n m e)⟩ : Single) =
      ⟨.ofNat (BinaryFormat.single.pattern n m' e')⟩ ↔ m = m' ∧ e = e' := by
  rw [← BinaryFormat.maxExponent_single] at he he'
  constructor
  · intro heq
    have hvalue := congrArg BinaryValue.ofSingle heq
    rw [Single.ofSingle_ofBits n h he, Single.ofSingle_ofBits n h' he'] at hvalue
    cases hvalue
    exact ⟨rfl, rfl⟩
  · rintro ⟨rfl, rfl⟩
    rfl

/-- The last bit of a number is that of its mantissa. -/
theorem two_dvd_pattern (n : Bool) (m : Nat) (e : Int) :
    2 ∣ (⟨.ofNat (BinaryFormat.single.pattern n m e)⟩ : Single).bits.toNat ↔ 2 ∣ m := by
  have hsign : BinaryFormat.single.signWeight n = 0 ∨
      BinaryFormat.single.signWeight n = 2 ^ 31 := by
    cases n
    · exact .inl rfl
    · exact .inr rfl
  have hbits : (⟨.ofNat (BinaryFormat.single.pattern n m e)⟩ : Single).bits.toNat =
      (BinaryFormat.single.signWeight n +
        ((e - BinaryFormat.single.minExponent).toNat * 2 ^ 23 + m)) % 2 ^ 32 := UInt32.toNat_ofNat'
  rw [hbits]
  omega

/-- What single precision can hold is not too large for double precision. -/
theorem exponent_le_of_single {q : Rat} {m m' : Nat} {e e' : Int} (hm : Canonical .single m e)
    (he : e ≤ 104) (hsingle : Nearest .single (.finite false m e) q)
    (hdouble : Nearest .double (.finite false m' e') q) (hq : 0 ≤ q) :
    e' ≤ BinaryFormat.double.maxExponent := by
  have hmantissa : (m : Rat) ≤ 2 ^ 24 := by exact_mod_cast hm.lt.le
  have hunit : (2 : Rat) ^ e ≤ 2 ^ (104 : Int) := zpow_le_zpow_right₀ one_le_two he
  refine (hdouble.exponent_le ?_).2
  rw [abs_of_nonneg hq]
  calc q ≤ m * 2 ^ e + 2 ^ e / 2 := hsingle.le_half hm
    _ ≤ 2 ^ 24 * 2 ^ (104 : Int) + 2 ^ (104 : Int) / 2 :=
        add_le_add (mul_le_mul hmantissa hunit (by positivity) (by positivity))
          (div_le_div_of_nonneg_right hunit two_pos.le)
    _ ≤ 2 ^ (129 : Int) := by norm_num
    _ ≤ 2 ^ ((BinaryFormat.double.fractionBits : Int) + BinaryFormat.double.maxExponent) :=
        zpow_le_zpow_right₀ one_le_two (by decide)

/-- A decimal that single precision can hold has a nearest number in both precisions. -/
theorem exists_nearest_decimal (hfinite : (singleOfDecimal n mantissa exponent).isFinite = true) :
    ∃ (q : Rat) (m m' : Nat) (e e' : Int),
      (Canonical .single m e ∧ e ≤ 104 ∧ Nearest .single (.finite false m e) q ∧
        singleOfDecimal n mantissa exponent = ⟨.ofNat (BinaryFormat.single.pattern n m e)⟩) ∧
      Nearest .double (.finite false m' e') q ∧
        BinaryValue.ofDouble (doubleOfDecimal n mantissa exponent) = .finite n m' e' := by
  unfold singleOfDecimal doubleOfDecimal at *
  obtain ⟨num, den, hden, hround⟩ | hround := BinaryFormat.roundDecimal_eq n mantissa exponent
  swap
  · rw [hround, isFinite_infinite] at hfinite
    cases hfinite
  rw [hround] at hfinite
  rw [hround, hround]
  obtain ⟨m, e, hm, hsingle, ⟨he, hpattern⟩ | ⟨-, hpattern⟩⟩ :=
    BinaryFormat.single.exists_nearest_roundQuotient n num hden
  swap
  · rw [hpattern, isFinite_infinite] at hfinite
    cases hfinite
  rw [BinaryFormat.maxExponent_single] at he
  obtain ⟨m', e', hm', hdouble, hcases⟩ :=
    BinaryFormat.double.exists_nearest_roundQuotient n num hden
  have he' := exponent_le_of_single hm he hsingle hdouble (by positivity)
  obtain ⟨-, hpattern'⟩ := hcases.resolve_right fun h => absurd he' (not_le.mpr h.1)
  exact ⟨num / den, m, m', e, e', ⟨hm, he, hsingle, by rw [hpattern]⟩, hdouble,
    by rw [hpattern', ofDouble_ofBits n hm' he']⟩

/-- Narrowing finds the nearest number, if that is not too large. -/
theorem exists_nearest_narrow {x : Float} {m : Nat} {e : Int}
    (h : BinaryValue.ofDouble x = .finite n m e) :
    ∃ m' e', Canonical .single m' e' ∧ Nearest .single (.finite false m' e') (m * 2 ^ e) ∧
      (e' ≤ 104 ∧ narrow x = ⟨.ofNat (BinaryFormat.single.pattern n m' e')⟩ ∨
        104 < e' ∧ (narrow x).isFinite = false) := by
  have hexact : ((m * 2 ^ e.toNat : Nat) : Rat) / (2 ^ (-e).toNat : Nat) = m * 2 ^ e := by
    have hscaled := scaled_quotient m 1 (-e)
    rw [neg_neg, one_mul, Nat.cast_one, div_one, zpow_neg, div_inv_eq_mul] at hscaled
    exact hscaled
  have hnarrow : narrow x = ⟨.ofNat (BinaryFormat.single.roundQuotient n (m * 2 ^ e.toNat)
      (2 ^ (-e).toNat))⟩ := by
    unfold narrow BinaryValue.toSingle
    rw [h]
    rfl
  obtain ⟨m', e', hm', hnearest, hcases⟩ := BinaryFormat.single.exists_nearest_roundQuotient n
    (m * 2 ^ e.toNat) (Nat.two_pow_pos (-e).toNat)
  rw [hexact] at hnearest
  rw [BinaryFormat.maxExponent_single] at hcases
  refine ⟨m', e', hm', hnearest, hcases.imp ?_ ?_⟩
  · rintro ⟨he, hpattern⟩
    rw [hnarrow, hpattern]
    exact ⟨he, rfl⟩
  · rintro ⟨he, hpattern⟩
    rw [hnarrow, hpattern, isFinite_infinite]
    exact ⟨he, rfl⟩

/-- A decimal that single precision can hold is read in double precision too. From there it is the
    same number, unless it is half-way between two single precision numbers and the one that it is
    read as in single precision is odd. -/
theorem narrow_doubleOfDecimal
    (hfinite : (singleOfDecimal n mantissa exponent).isFinite = true) :
    (doubleOfDecimal n mantissa exponent).isFinite = true ∧
      (narrow (doubleOfDecimal n mantissa exponent) = singleOfDecimal n mantissa exponent ↔
        (HalfWay (doubleOfDecimal n mantissa exponent) →
          2 ∣ (singleOfDecimal n mantissa exponent).bits.toNat)) := by
  obtain ⟨q, m, m', e, e', ⟨hm, he, hsingle, hpattern⟩, hdouble, hvalue⟩ :=
    exists_nearest_decimal hfinite
  obtain ⟨m'', e'', hm'', hnarrow, hcases⟩ := exists_nearest_narrow hvalue
  have hside := notSeparated_double hdouble
  have hhalf : HalfWay (doubleOfDecimal n mantissa exponent) ↔
      ∃ k d, Canonical .single k d ∧ (m' : Rat) * 2 ^ e' = k * 2 ^ d + 2 ^ d / 2 := by
    unfold HalfWay
    rw [toRat, hvalue, BinaryValue.abs_toRat_finite]
  refine ⟨isFinite_of_ofDouble hvalue, ?_⟩
  -- equal numbers are stored alike
  have hsame : narrow (doubleOfDecimal n mantissa exponent) = singleOfDecimal n mantissa exponent ↔
      m = m'' ∧ e = e'' := by
    rcases hcases with ⟨he'', hpattern'⟩ | ⟨he'', hinfinite⟩
    · rw [hpattern', hpattern, eq_comm]
      exact pattern_inj n hm hm'' he he''
    · refine iff_of_false ?_ (by omega)
      intro heq
      rw [heq, hfinite] at hinfinite
      cases hinfinite
  rw [hsame, hhalf, hpattern, two_dvd_pattern]
  constructor
  · rintro ⟨rfl, rfl⟩ ⟨k, d, hk, heq⟩
    rw [heq] at hnarrow
    exact hnarrow.even_of_half hm hk
  · intro heven
    by_cases hplace : ∃ k d, Canonical .single k d ∧ (m' : Rat) * 2 ^ e' = k * 2 ^ d + 2 ^ d / 2
    · obtain ⟨k, d, hk, heq⟩ := id hplace
      rw [heq] at hnarrow hside
      exact hm.eq_of_even_of_beside hm'' hk (hsingle.beside_half hm hk hside)
        (hnarrow.beside_half hm'' hk (.refl _ _)) (heven hplace)
        (hnarrow.even_of_half hm'' hk)
    · exact hsingle.eq_of_notSeparated hnarrow hm hm'' hside fun k d hk heq =>
        hplace ⟨k, d, hk, heq⟩

end Double

end FoamTray
