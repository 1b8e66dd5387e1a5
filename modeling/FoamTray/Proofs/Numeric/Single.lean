import FoamTray.Numeric.Single
import FoamTray.Proofs.Numeric.Patterns
import Mathlib.Algebra.Order.Field.Rat
import Mathlib.Data.Rat.Cast.Order
import Mathlib.Tactic.Positivity
import Mathlib.Tactic.Ring

/-! # Exact values of single precision numbers

    A pattern of 32 bits stands for an exact value, the machine calculates with that value, and
    rounding goes back to patterns.

    * `ofSingle_eq` : the value of a pattern by its fields.
    * `unpack_toMachine` : the machine sees the same value.
    * `beq_iff` : what the machine finds equal.
    * `isZero_toSingle_iff` : rounding takes nothing but zero to zero.
    * `toRat` : the value of a finite number as a rational.
-/

namespace FoamTray

open Float.Model (UnpackedFloat Format)
open Float.Model.UnpackedFloat (Sign)

/-! ## Section 1: Fields -/

namespace Single

/-- The exponent field of a pattern. -/
def field (x : Single) : Nat := x.bits.toNat / 2 ^ 23 % 2 ^ 8

/-- The fraction field of a pattern. -/
def fraction (x : Single) : Nat := x.bits.toNat % 2 ^ 23

/-- The sign bit of a pattern. -/
def negative (x : Single) : Bool := x.bits.toNat / 2 ^ 31 % 2 == 1

theorem ofSingle_eq (x : Single) :
    BinaryValue.ofSingle x =
      if x.field = 255 then (if x.fraction = 0 then .infinite x.negative else .nan)
      else if x.field = 0 then .finite x.negative x.fraction (-149)
      else .finite x.negative (x.fraction + 2 ^ 23) (x.field - 150) := by
  have hfield : x.bits.toNat % 2 ^ 31 / 2 ^ 23 = x.field := by
    unfold field
    omega
  have hfraction : x.bits.toNat % 2 ^ 31 % 2 ^ 23 = x.fraction := by
    unfold fraction
    omega
  have hones : x.field + 1 = Nat.pow 2 8 ↔ x.field = 255 := by
    show x.field + 1 = 256 ↔ x.field = 255
    omega
  have hexp : BinaryFormat.single.minExponent + x.field - 1 = (x.field : Int) - 150 := by
    have hmin : BinaryFormat.single.minExponent = -149 := by decide
    rw [hmin]
    omega
  -- decoding takes the fields from the pattern without its sign
  show (if x.bits.toNat % 2 ^ 31 / 2 ^ 23 + 1 = Nat.pow 2 8 then
      if x.bits.toNat % 2 ^ 31 % 2 ^ 23 = 0 then BinaryValue.infinite x.negative else .nan
    else if x.bits.toNat % 2 ^ 31 / 2 ^ 23 = 0 then
      .finite x.negative (x.bits.toNat % 2 ^ 31 % 2 ^ 23) BinaryFormat.single.minExponent
    else .finite x.negative (x.bits.toNat % 2 ^ 31 % 2 ^ 23 + 2 ^ 23)
      (BinaryFormat.single.minExponent + (x.bits.toNat % 2 ^ 31 / 2 ^ 23 : Nat) - 1)) = _
  rw [hfield, hfraction, hexp]
  simp only [hones]
  rfl

theorem bits_toNat (x : Single) :
    x.bits.toNat = (if x.negative then 2 ^ 31 else 0) + x.field * 2 ^ 23 + x.fraction := by
  have hlt : x.bits.toNat < 2 ^ 32 := x.bits.toNat_lt
  unfold negative field fraction
  by_cases h : x.bits.toNat / 2 ^ 31 % 2 = 1
  · simp only [h, beq_self_eq_true, if_true]
    omega
  · have hne : (x.bits.toNat / 2 ^ 31 % 2 == 1) = false := beq_false_of_ne h
    simp only [hne, Bool.false_eq_true, if_false]
    omega

theorem abs_toNat (x : Single) : x.abs.bits.toNat = x.field * 2 ^ 23 + x.fraction := by
  have hand : x.abs.bits.toNat = x.bits.toNat % 2 ^ 31 := by
    -- the mask is one less than a power of two
    show (x.bits &&& 0x7FFFFFFF).toNat = _
    rw [UInt32.toNat_and]
    exact Nat.and_two_pow_sub_one_eq_mod x.bits.toNat 31
  rw [hand]
  unfold field fraction
  omega

theorem isFinite_iff (x : Single) : x.isFinite = true ↔ x.field ≠ 255 := by
  have hfield : x.field < 2 ^ 8 := Nat.mod_lt _ (Nat.two_pow_pos 8)
  have hfraction : x.fraction < 2 ^ 23 := Nat.mod_lt _ (Nat.two_pow_pos 23)
  unfold isFinite
  rw [decide_eq_true_iff, UInt32.lt_iff_toNat_lt, abs_toNat]
  -- infinity has all ones in the exponent and no fraction
  show x.field * 2 ^ 23 + x.fraction < 2139095040 ↔ _
  omega

theorem isNaN_iff (x : Single) : x.isNaN = true ↔ x.field = 255 ∧ x.fraction ≠ 0 := by
  have hfield : x.field < 2 ^ 8 := Nat.mod_lt _ (Nat.two_pow_pos 8)
  have hfraction : x.fraction < 2 ^ 23 := Nat.mod_lt _ (Nat.two_pow_pos 23)
  unfold isNaN
  rw [decide_eq_true_iff, UInt32.lt_iff_toNat_lt, abs_toNat]
  show 2139095040 < x.field * 2 ^ 23 + x.fraction ↔ _
  omega

/-- Whether a number is one of the two zeros. -/
def isZero (x : Single) : Bool := x.abs.bits == 0

theorem isZero_iff (x : Single) : x.isZero = true ↔ x.field = 0 ∧ x.fraction = 0 := by
  unfold isZero
  rw [beq_iff_eq, ← UInt32.toNat_inj, abs_toNat]
  show x.field * 2 ^ 23 + x.fraction = 0 ↔ _
  omega

theorem eq_of_fields {x y : Single} (hn : x.negative = y.negative) (hf : x.field = y.field)
    (hm : x.fraction = y.fraction) : x = y := by
  have hbits : x.bits = y.bits := by
    rw [← UInt32.toNat_inj, bits_toNat, bits_toNat, hn, hf, hm]
  cases x
  cases y
  exact congrArg Single.mk hbits

/-- A zero is one of two patterns. -/
theorem eq_of_isZero {x : Single} (h : x.isZero = true) : x = ⟨0⟩ ∨ x = ⟨0x80000000⟩ := by
  obtain ⟨hf, hm⟩ := (isZero_iff x).mp h
  cases hn : x.negative with
  | false => exact .inl (eq_of_fields hn hf hm)
  | true => exact .inr (eq_of_fields hn hf hm)

theorem isNaN_iff_ofSingle (x : Single) : x.isNaN = true ↔ BinaryValue.ofSingle x = .nan := by
  rw [isNaN_iff, ofSingle_eq]
  by_cases h255 : x.field = 255
  · by_cases h0 : x.fraction = 0 <;> simp [h255, h0]
  · by_cases h0 : x.field = 0 <;> simp [h255, h0]

/-- The fields that a value has in its pattern. -/
def fieldsOf : BinaryValue → Bool × Nat × Nat
  | .nan => (false, 255, 1)
  | .infinite negative => (negative, 255, 0)
  | .finite negative m e =>
      if m < 2 ^ 23 then (negative, 0, m) else (negative, (e + 150).toNat, m - 2 ^ 23)

/-- The fields can be read off the value, except for what is not a number. -/
theorem fieldsOf_ofSingle {x : Single} (hx : x.isNaN = false) :
    fieldsOf (BinaryValue.ofSingle x) = (x.negative, x.field, x.fraction) := by
  have hfraction : x.fraction < 2 ^ 23 := Nat.mod_lt _ (Nat.two_pow_pos 23)
  have hnan : ¬(x.field = 255 ∧ x.fraction ≠ 0) := by
    rw [← isNaN_iff, hx]
    exact Bool.false_ne_true
  rw [ofSingle_eq]
  by_cases h255 : x.field = 255
  -- an infinity: with another fraction it would not be a number
  · have h0 : x.fraction = 0 := by
      by_contra h0
      exact hnan ⟨h255, h0⟩
    rw [if_pos h255, if_pos h0, h255, h0]
    rfl
  rw [if_neg h255]
  by_cases h0 : x.field = 0
  · rw [if_pos h0, h0]
    exact if_pos hfraction
  -- the implicit bit tells a normal number from a subnormal one
  · rw [if_neg h0]
    have hbig : ¬ x.fraction + 2 ^ 23 < 2 ^ 23 := by omega
    have hexp : ((x.field : Int) - 150 + 150).toNat = x.field := by omega
    unfold fieldsOf
    dsimp only
    rw [if_neg hbig, hexp, Nat.add_sub_cancel]

/-- Numbers of one exact value are one pattern. -/
theorem eq_of_ofSingle {x y : Single} (hx : x.isNaN = false)
    (h : BinaryValue.ofSingle x = BinaryValue.ofSingle y) : x = y := by
  have hy : y.isNaN = false := by
    by_contra hy
    rw [Bool.not_eq_false, isNaN_iff_ofSingle, ← h, ← isNaN_iff_ofSingle, hx] at hy
    cases hy
  have hfields : (x.negative, x.field, x.fraction) = (y.negative, y.field, y.fraction) := by
    rw [← fieldsOf_ofSingle hx, h, fieldsOf_ofSingle hy]
  obtain ⟨hn, hrest⟩ := Prod.mk.inj hfields
  obtain ⟨hf, hm⟩ := Prod.mk.inj hrest
  exact eq_of_fields hn hf hm

/-- The zeros are the numbers with mantissa zero. -/
theorem isZero_iff_ofSingle (x : Single) :
    x.isZero = true ↔ ∃ n e, BinaryValue.ofSingle x = .finite n 0 e := by
  rw [isZero_iff, ofSingle_eq]
  constructor
  · rintro ⟨hf, hm⟩
    exact ⟨x.negative, -149, by rw [hf, hm]; rfl⟩
  · rintro ⟨n, e, h⟩
    split at h
    · split at h <;> cases h
    · split at h
      · rename_i hf
        exact ⟨hf, (BinaryValue.finite.inj h).2.1⟩
      · have hm := (BinaryValue.finite.inj h).2.1
        omega

theorem isFinite_of_ofSingle {x : Single} {n : Bool} {m : Nat} {e : Int}
    (h : BinaryValue.ofSingle x = .finite n m e) : x.isFinite = true := by
  rw [isFinite_iff]
  intro h255
  rw [ofSingle_eq, if_pos h255] at h
  split at h <;> cases h

theorem isNaN_of_ofSingle {x : Single} {n : Bool} {m : Nat} {e : Int}
    (h : BinaryValue.ofSingle x = .finite n m e) : x.isNaN = false := by
  by_contra hx
  rw [Bool.not_eq_false, isNaN_iff_ofSingle, h] at hx
  cases hx

/-- A finite number is a whole multiple of the least positive one. -/
theorem ofSingle_of_isFinite {x : Single} (h : x.isFinite = true) :
    ∃ negative m e, BinaryValue.ofSingle x = .finite negative m e ∧ -149 ≤ e := by
  rw [isFinite_iff] at h
  rw [ofSingle_eq, if_neg h]
  split
  · exact ⟨_, _, _, rfl, Int.le_refl _⟩
  · exact ⟨_, _, _, rfl, by omega⟩

theorem isNaN_of_isFinite {x : Single} (h : x.isFinite = true) : x.isNaN = false := by
  obtain ⟨n, m, e, hvalue, -⟩ := ofSingle_of_isFinite h
  exact isNaN_of_ofSingle hvalue

end Single

/-! ## Section 2: What the machine sees -/

namespace Single

/-- Unpacking a pattern gives its exact value. -/
theorem unpack_bits (x : Single) :
    UnpackedFloat.unpack Format.binary32 x.bits.toBitVec = (BinaryValue.ofSingle x).unpacked :=
  BinaryFormat.single.unpack_eq_decode x.bits.toBitVec

/-- The machine calculates with the exact value. It keeps its numbers packed, so the pattern is
    packed again before it is unpacked. -/
theorem unpack_toMachine (x : Single) :
    x.toMachine.toModel.unpack = (BinaryValue.ofSingle x).unpacked :=
  (BinaryFormat.single.unpack_pack_unpack x.bits.toBitVec).trans x.unpack_bits

/-! ## Section 3: Equality -/

/-- Different values are not found equal, other than zeros, nor is what is not a number. -/
theorem beq_of_ne {u u' : UnpackedFloat} (h : u = u' → u = .notANumber)
    (hzero : ∀ s s', u = .zero s → u' ≠ .zero s') (hbeq : u.beq u' = false) :
    u.beq u' = true ↔
      (u = u' ∧ u ≠ .notANumber) ∨ ∃ s s', u = .zero s ∧ u' = .zero s' := by
  rw [hbeq]
  constructor
  · intro h'
    cases h'
  · rintro (⟨h', hnumber⟩ | ⟨s, s', hu, hu'⟩)
    · exact absurd (h h') hnumber
    · exact absurd hu' (hzero s s' hu)

theorem beq_finite_iff {s s' : Sign} {m m' : Nat} {e e' : Int} (hm : 0 < m) (hm' : 0 < m') :
    (UnpackedFloat.finite s m e hm).beq (.finite s' m' e' hm') = true ↔
      s = s' ∧ m = m' ∧ e = e' := by
  have hcompare : (compare e e').then (compare m m') = .eq ↔ m = m' ∧ e = e' := by
    simp [Ordering.then_eq_eq, and_comm]
  cases s <;> cases s'
  case positive.positive =>
    show (some ((compare e e').then (compare m m')) == some .eq) = true ↔ _
    rw [beq_iff_eq, Option.some_inj, hcompare, and_iff_right rfl]
  case negative.negative =>
    show (some ((compare e e').then (compare m m')).swap == some .eq) = true ↔ _
    rw [beq_iff_eq, Option.some_inj, Ordering.swap_eq_eq, hcompare, and_iff_right rfl]
  all_goals
    constructor
    · intro h
      cases h
    · rintro ⟨h, -⟩
      cases h

/-- What the machine finds equal: one value that is a number, or two zeros. -/
theorem beq_unpacked_iff (u u' : UnpackedFloat) :
    u.beq u' = true ↔
      (u = u' ∧ u ≠ .notANumber) ∨ ∃ s s', u = .zero s ∧ u' = .zero s' := by
  cases u with
  | notANumber => exact beq_of_ne (fun _ => rfl) nofun rfl
  | infinity s =>
    cases u' with
    | infinity s' =>
      cases s <;> cases s'
      case positive.positive => exact iff_of_true rfl (.inl ⟨rfl, nofun⟩)
      case negative.negative => exact iff_of_true rfl (.inl ⟨rfl, nofun⟩)
      all_goals exact beq_of_ne nofun nofun rfl
    | _ => exact beq_of_ne nofun nofun (by cases s <;> rfl)
  | zero s =>
    cases u' with
    | zero s' => exact iff_of_true rfl (.inr ⟨s, s', rfl, rfl⟩)
    | infinity s' => exact beq_of_ne nofun nofun (by cases s' <;> rfl)
    | finite s' m' e' hm' => exact beq_of_ne nofun nofun (by cases s' <;> rfl)
    | notANumber => exact beq_of_ne nofun nofun rfl
  | finite s m e hm =>
    cases u' with
    | finite s' m' e' hm' =>
      have hnumber : UnpackedFloat.finite s m e hm ≠ .notANumber := nofun
      have hzero : ¬ ∃ t t', UnpackedFloat.finite s m e hm = .zero t ∧
          UnpackedFloat.finite s' m' e' hm' = .zero t' := by
        rintro ⟨t, t', h, -⟩
        cases h
      rw [and_iff_left hnumber, or_iff_left hzero, UnpackedFloat.finite.injEq, beq_finite_iff]
    | infinity s' => exact beq_of_ne nofun nofun (by cases s <;> cases s' <;> rfl)
    | _ => exact beq_of_ne nofun nofun (by cases s <;> rfl)

/-- The value that an unpacked form stands for. -/
def valueOf : UnpackedFloat → BinaryValue
  | .notANumber => .nan
  | .infinity s => .infinite (s == .negative)
  | .zero s => .finite (s == .negative) 0 (-149)
  | .finite s m e _ => .finite (s == .negative) m e

theorem valueOf_unpacked (x : Single) :
    valueOf (BinaryValue.ofSingle x).unpacked = BinaryValue.ofSingle x := by
  have hsign : ∀ n, (BinaryValue.signOf n == Sign.negative) = n := by
    intro n
    cases n <;> rfl
  rw [ofSingle_eq]
  split
  · split
    · exact congrArg BinaryValue.infinite (hsign x.negative)
    · rfl
  · split
    · rcases Nat.eq_zero_or_pos x.fraction with h | h
      · rw [h, BinaryValue.unpacked_zero]
        exact congrArg (BinaryValue.finite · 0 (-149)) (hsign x.negative)
      · rw [BinaryValue.unpacked_of_pos _ h]
        exact congrArg (BinaryValue.finite · _ _) (hsign x.negative)
    · rw [BinaryValue.unpacked_of_pos _ (Nat.add_pos_right _ (Nat.two_pow_pos 23))]
      exact congrArg (BinaryValue.finite · _ _) (hsign x.negative)

/-- The machine finds numbers equal if they are one pattern, or both zeros. -/
theorem beq_iff (x y : Single) :
    (x == y) = true ↔ (x = y ∧ x.isNaN = false) ∨ (x.isZero = true ∧ y.isZero = true) := by
  have hmachine : (x == y) =
      (BinaryValue.ofSingle x).unpacked.beq (BinaryValue.ofSingle y).unpacked := by
    rw [← unpack_toMachine, ← unpack_toMachine]
    rfl
  have hzero : ∀ z : Single, (∃ s, (BinaryValue.ofSingle z).unpacked = .zero s) ↔
      z.isZero = true := by
    intro z
    rw [isZero_iff_ofSingle]
    constructor
    · rintro ⟨s, h⟩
      exact ⟨_, _, by rw [← valueOf_unpacked, h]; rfl⟩
    · rintro ⟨n, e, h⟩
      exact ⟨_, by rw [h]; rfl⟩
  rw [hmachine, beq_unpacked_iff, ← hzero x, ← hzero y]
  constructor
  · rintro (⟨h, hnum⟩ | ⟨s, s', h, h'⟩)
    · left
      have hvalue : BinaryValue.ofSingle x = BinaryValue.ofSingle y := by
        rw [← valueOf_unpacked, h, valueOf_unpacked]
      have hnan : x.isNaN = false := by
        by_contra hx
        rw [Bool.not_eq_false, isNaN_iff_ofSingle] at hx
        exact hnum (by rw [hx]; rfl)
      exact ⟨eq_of_ofSingle hnan hvalue, hnan⟩
    · exact .inr ⟨⟨s, h⟩, ⟨s', h'⟩⟩
  · rintro (⟨rfl, hnan⟩ | ⟨⟨s, h⟩, ⟨s', h'⟩⟩)
    · refine .inl ⟨rfl, fun h => ?_⟩
      have hx : x.isNaN = true := by
        rw [isNaN_iff_ofSingle, ← valueOf_unpacked, h]
        rfl
      rw [hnan] at hx
      cases hx
    · exact .inr ⟨s, s', h, h'⟩

theorem beq_symm {x y : Single} (h : (x == y) = true) : (y == x) = true := by
  rw [beq_iff] at h ⊢
  rcases h with ⟨rfl, hx⟩ | ⟨hx, hy⟩
  · exact .inl ⟨rfl, hx⟩
  · exact .inr ⟨hy, hx⟩

theorem beq_trans {x y z : Single} (h : (x == y) = true) (h' : (y == z) = true) :
    (x == z) = true := by
  rw [beq_iff] at h h' ⊢
  rcases h with ⟨rfl, hx⟩ | ⟨hx, hy⟩
  · exact h'
  · rcases h' with ⟨rfl, -⟩ | ⟨-, hz⟩
    · exact .inr ⟨hx, hy⟩
    · exact .inr ⟨hx, hz⟩

/-- Only one pattern is found equal to a number other than zero. -/
theorem eq_of_beq {x y : Single} (h : (x == y) = true) (hy : y.isZero = false) : x = y := by
  rcases (beq_iff x y).mp h with ⟨he, -⟩ | ⟨-, hz⟩
  · exact he
  · rw [hy] at hz
    cases hz

/-- A number is found equal to zero if it is one of the zeros. -/
theorem beq_zero_iff (x : Single) : (x == ((0 : Nat) : Single)) = true ↔ x.isZero = true := by
  have hzero : ((0 : Nat) : Single).isZero = true := by decide
  rw [beq_iff]
  constructor
  · rintro (⟨rfl, -⟩ | ⟨hx, -⟩)
    · exact hzero
    · exact hx
  · exact fun hx => .inr ⟨hx, hzero⟩

end Single

/-! ## Section 4: Rounding -/

theorem nearestEven_mul_right (num den : Nat) {c : Nat} (hc : 0 < c) :
    nearestEven (num * c) (den * c) = nearestEven num den := by
  unfold nearestEven
  dsimp only
  rw [Nat.mul_div_mul_right _ _ hc, Nat.mul_mod_mul_right]
  have hlt : 2 * (num % den * c) < den * c ↔ 2 * (num % den) < den := by
    rw [← Nat.mul_assoc, Nat.mul_lt_mul_right hc]
  have hgt : den * c < 2 * (num % den * c) ↔ den < 2 * (num % den) := by
    rw [← Nat.mul_assoc, Nat.mul_lt_mul_right hc]
  simp only [hlt, hgt]

/-- Only the quotient matters. -/
theorem BinaryFormat.roundQuotient_mul_two_pow (f : BinaryFormat) (negative : Bool) {num den : Nat}
    (hden : den ≠ 0) (k : Nat) :
    f.roundQuotient negative (num * 2 ^ k) (den * 2 ^ k) = f.roundQuotient negative num den := by
  have hpos : 0 < 2 ^ k := Nat.two_pow_pos k
  rcases Nat.eq_zero_or_pos num with rfl | hnum
  · rw [Nat.zero_mul]
    unfold roundQuotient
    rw [if_pos rfl, if_pos rfl]
  have hguess : ((num * 2 ^ k).log2 : Int) - (den * 2 ^ k).log2 = num.log2 - den.log2 := by
    rw [log2_mul_two_pow (Nat.ne_of_gt hnum), log2_mul_two_pow hden]
    omega
  have hswap : ∀ a b : Nat, a * 2 ^ k * b = a * b * 2 ^ k :=
    fun a b => Nat.mul_right_comm a (2 ^ k) b
  -- the guessed exponent is the same, and then the power cancels wherever numbers are compared
  unfold roundQuotient
  rw [if_neg (Nat.mul_ne_zero (Nat.ne_of_gt hnum) hpos.ne'), if_neg (Nat.ne_of_gt hnum)]
  dsimp only
  rw [hguess]
  simp only [hswap, nearestEven_mul_right _ _ hpos, ← Nat.mul_assoc, Nat.mul_lt_mul_right hpos]

theorem div_le_nearestEven (num den : Nat) : num / den ≤ nearestEven num den := by
  unfold nearestEven
  dsimp only
  split
  · exact Nat.le_refl _
  · split
    · exact Nat.le_succ _
    · split
      · exact Nat.le_refl _
      · exact Nat.le_succ _

namespace BinaryFormat

/-- A quotient that is not below the least positive number is not rounded to zero. -/
theorem roundQuotient_pos (negative : Bool) {num den : Nat} (hnum : 0 < num) (hden : 0 < den)
    (h : den ≤ num * 2 ^ 149) :
    ∃ bits, 0 < bits ∧ bits ≤ 255 * 2 ^ 23 ∧
      single.roundQuotient negative num den = (if negative then 2 ^ 31 else 0) + bits := by
  -- which exponent is guessed does not matter
  obtain ⟨guess, hguess⟩ : ∃ guess : Int, single.roundQuotient negative num den =
      (if negative then 2 ^ 31 else 0) + min ((max guess (-149) - -149).toNat * 2 ^ 23 +
        nearestEven (num * 2 ^ (-max guess (-149)).toNat) (den * 2 ^ (max guess (-149)).toNat))
        (255 * 2 ^ 23) := by
    unfold roundQuotient
    rw [if_neg (Nat.ne_of_gt hnum)]
    exact ⟨_, rfl⟩
  refine ⟨_, Nat.lt_min.mpr ⟨?_, by decide⟩, Nat.min_le_right _ _, hguess⟩
  rcases Int.lt_or_le (-149) guess with hlt | hle
  -- above the least exponent the exponent field is not zero; at it the mantissa is not
  · have hmax : 0 < (max guess (-149) - -149).toNat := by omega
    exact Nat.add_pos_left (Nat.mul_pos hmax (Nat.two_pow_pos 23)) _
  · rw [max_eq_right hle]
    have hone : 1 ≤ num * 2 ^ 149 / (den * 2 ^ 0) := by
      rw [Nat.pow_zero, Nat.mul_one, Nat.one_le_div_iff hden]
      exact h
    exact Nat.add_pos_right _ (Nat.lt_of_lt_of_le hone (div_le_nearestEven _ _))

end BinaryFormat

namespace Single

theorem isZero_iff_mod (x : Single) : x.isZero = true ↔ x.bits.toNat % 2 ^ 31 = 0 := by
  rw [isZero_iff]
  unfold field fraction
  omega

/-- Rounding to single precision takes nothing but zero to zero. -/
theorem isZero_toSingle_iff (negative : Bool) (m : Nat) {e : Int} (he : -149 ≤ e) :
    (BinaryValue.finite negative m e).toSingle.isZero = true ↔ m = 0 := by
  rw [isZero_iff_mod]
  have hencode : BinaryFormat.single.encode (.finite negative m e) =
      BinaryFormat.single.roundQuotient negative (m * 2 ^ e.toNat) (2 ^ (-e).toNat) := rfl
  have hbits : (BinaryValue.finite negative m e).toSingle.bits.toNat =
      BinaryFormat.single.encode (.finite negative m e) % 2 ^ 32 := UInt32.toNat_ofNat'
  rw [hbits, hencode]
  rcases Nat.eq_zero_or_pos m with rfl | hm
  · have hround : BinaryFormat.single.roundQuotient negative (0 * 2 ^ e.toNat) (2 ^ (-e).toNat) =
        if negative then 2 ^ 31 else 0 := by
      unfold BinaryFormat.roundQuotient
      rw [if_pos (Nat.zero_mul _)]
      rfl
    rw [hround]
    cases negative <;> simp
  · have hden : 2 ^ (-e).toNat ≤ m * 2 ^ e.toNat * 2 ^ 149 := by
      calc 2 ^ (-e).toNat ≤ 2 ^ 149 := Nat.pow_le_pow_right (by decide) (by omega)
        _ ≤ m * 2 ^ e.toNat * 2 ^ 149 :=
          Nat.le_mul_of_pos_left _ (Nat.mul_pos hm (Nat.two_pow_pos _))
    obtain ⟨bits, hpos, hle, hround⟩ := BinaryFormat.roundQuotient_pos negative
      (Nat.mul_pos hm (Nat.two_pow_pos e.toNat)) (Nat.two_pow_pos (-e).toNat) hden
    rw [hround]
    have hsign : (if negative = true then 2 ^ 31 else 0) = 0 ∨
        (if negative = true then 2 ^ 31 else 0) = 2 ^ 31 := by
      cases negative
      · exact .inl rfl
      · exact .inr rfl
    omega

/-- A whole number is rounded as one, however small the unit in which it is given. -/
theorem toSingle_scaled (negative : Bool) (n k : Nat) :
    (BinaryValue.finite negative (n * 2 ^ k) (-(k : Int))).toSingle =
      (BinaryValue.finite negative n 0).toSingle := by
  have hencode : BinaryFormat.single.encode (.finite negative (n * 2 ^ k) (-(k : Int))) =
      BinaryFormat.single.encode (.finite negative n 0) := by
    unfold BinaryFormat.encode dyadicQuotient
    have h0 : (-(k : Int)).toNat = 0 := by omega
    have hk : (- -(k : Int)).toNat = k := by omega
    show BinaryFormat.single.roundQuotient negative (n * 2 ^ k * 2 ^ (-(k : Int)).toNat)
        (2 ^ (- -(k : Int)).toNat) = BinaryFormat.single.roundQuotient negative (n * 2 ^ 0) (2 ^ 0)
    rw [h0, hk]
    have hscale : BinaryFormat.single.roundQuotient negative (n * 2 ^ k) (1 * 2 ^ k) =
        BinaryFormat.single.roundQuotient negative n 1 :=
      BinaryFormat.single.roundQuotient_mul_two_pow negative one_ne_zero k
    simpa using hscale
  unfold BinaryValue.toSingle
  rw [hencode]

end Single

/-! ## Section 5: Rational values -/

/-- The exact value of a single precision number. -/
def Single.toRat (x : Single) : Rat := (BinaryValue.ofSingle x).toRat

namespace Single

theorem isFinite_zero : ((0 : Nat) : Single).isFinite = true := by decide

theorem toRat_zero : ((0 : Nat) : Single).toRat = 0 := by
  have hzero : BinaryValue.ofSingle ((0 : Nat) : Single) = .finite false 0 (-149) := rfl
  unfold toRat
  rw [hzero]
  simp [BinaryValue.toRat]

/-- The exact value in multiples of the least positive number. -/
theorem toRat_eq_iff {x : Single} {negative : Bool} {m : Nat} {e : Int}
    (hx : BinaryValue.ofSingle x = .finite negative m e) (he : -149 ≤ e) (c : Int) :
    x.toRat = c ↔
      (if negative then -((m * 2 ^ (e + 149).toNat : Nat) : Int)
        else (m * 2 ^ (e + 149).toNat : Nat)) = c * 2 ^ 149 := by
  have hnonneg : 0 ≤ e + 149 := by omega
  have hpow : (2 : Rat) ^ e * 2 ^ 149 = ((2 ^ (e + 149).toNat : Nat) : Rat) := by
    rw [← zpow_natCast, ← zpow_add₀ two_ne_zero, Nat.cast_pow, ← zpow_natCast,
      Int.toNat_of_nonneg hnonneg]
    rfl
  have hscaled : x.toRat * 2 ^ 149 =
      (((if negative then -((m * 2 ^ (e + 149).toNat : Nat) : Int)
        else (m * 2 ^ (e + 149).toNat : Nat)) : Int) : Rat) := by
    unfold toRat
    rw [hx]
    unfold BinaryValue.toRat
    rw [mul_assoc, mul_assoc, hpow]
    cases negative <;> simp
  -- both sides of the equation are multiplied by the same power
  have hne : (2 : Rat) ^ 149 ≠ 0 := by positivity
  rw [← mul_left_inj' hne, hscaled]
  exact_mod_cast Iff.rfl

/-- The remainder of finite numbers, before it is rounded. -/
theorem remainder_eq {x y : Single} {n n' : Bool} {m m' : Nat} {e e' : Int}
    (hx : BinaryValue.ofSingle x = .finite n m e) (hy : BinaryValue.ofSingle y = .finite n' m' e')
    (hm' : m' ≠ 0) :
    x.remainder y = (BinaryValue.finite n ((m * 2 ^ (e - min e e').toNat) %
      (m' * 2 ^ (e' - min e e').toNat)) (min e e')).toSingle := by
  unfold remainder
  rw [isNaN_of_ofSingle hx, isNaN_of_ofSingle hy, hx, hy]
  unfold BinaryValue.remainder
  dsimp only
  rw [if_neg hm']
  rfl

/-- Remainders can be taken in multiples of the least positive number. -/
theorem scaled_remainder (m m' : Nat) {e e' : Int} (he : -149 ≤ e) (he' : -149 ≤ e') :
    (m * 2 ^ (e - min e e').toNat) % (m' * 2 ^ (e' - min e e').toNat) *
        2 ^ (min e e' + 149).toNat =
      (m * 2 ^ (e + 149).toNat) % (m' * 2 ^ (e' + 149).toNat) := by
  -- a common factor can be taken out of a remainder
  have hsplit : ∀ (k : Nat) (f : Int), min e e' ≤ f →
      k * 2 ^ (f + 149).toNat = k * 2 ^ (f - min e e').toNat * 2 ^ (min e e' + 149).toNat := by
    intro k f hf
    rw [Nat.mul_assoc, ← Nat.pow_add]
    congr 2
    omega
  rw [hsplit m e (min_le_left _ _), hsplit m' e' (min_le_right _ _), Nat.mul_mod_mul_right]

end Single

end FoamTray
