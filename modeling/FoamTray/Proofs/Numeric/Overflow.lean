import FoamTray.Proofs.Numeric.Exact

/-! # Results that are too large

    A result that is too large for a number becomes an infinity, and infinities stay what they are
    in a difference.

    * `packed_of_pos` : a positive result is the nearest number, or infinity.
    * `zero_lt_sub` : what is less leaves something positive, also among infinities.
    * `isFinite_of_sub` : nothing but finite numbers has a finite difference.
-/

namespace FoamTray

open Float.Model (UnpackedFloat Format)

namespace Single

variable {x y : Single} {q : Rat}

/-! ## Section 1: Infinities -/

theorem ofSingle_infinity : BinaryValue.ofSingle infinity = .infinite false := by decide

theorem ofSingle_packed_infinity (n : Bool) :
    BinaryValue.ofSingle (packed (.infinity (BinaryValue.signOf n))) = .infinite n := by
  cases n <;> decide

theorem isNaN_of_infinite {n : Bool} (hx : BinaryValue.ofSingle x = .infinite n) :
    x.isNaN = false := by
  by_contra h
  rw [Bool.not_eq_false, isNaN_iff_ofSingle, hx] at h
  cases h

theorem finite_or_infinite_or (x : Single) :
    x.isFinite = true ∨ (∃ n, BinaryValue.ofSingle x = .infinite n) ∨ x.isNaN = true := by
  rcases finite_or x with hx | hx | ⟨-, hx | hx⟩
  · exact .inl hx
  · exact .inr (.inl ⟨false, hx⟩)
  · exact .inr (.inr ((isNaN_iff_ofSingle x).mpr hx))
  · exact .inr (.inl ⟨true, hx⟩)

/-- Infinity is one pattern, and it is greater than zero. -/
theorem zero_lt_infinite (hx : BinaryValue.ofSingle x = .infinite false) :
    ((0 : Nat) : Single) < x := by
  have hpattern : x = infinity :=
    eq_of_ofSingle (isNaN_of_infinite hx) (hx.trans ofSingle_infinity.symm)
  rw [hpattern]
  decide

/-! ## Section 2: What is packed as an infinity -/

/-- An exponent that does not fit makes an infinity. -/
theorem ofSingle_packed_of_lt (n : Bool) {m : Nat} {e : Int} (hm : 0 < m)
    (he : BinaryFormat.single.maxExponent < e) :
    BinaryValue.ofSingle (packed (BinaryValue.finite n m e).unpacked) = .infinite n := by
  have hbias : (Format.binary32.exponentBias : Int) = 127 := by decide
  have hbits : 2 ^ Format.binary32.exponentBits = 256 := by decide
  have hpack : UnpackedFloat.pack Format.binary32 (BinaryValue.finite n m e).unpacked =
      UnpackedFloat.pack Format.binary32 (.infinity (BinaryValue.signOf n)) := by
    rw [BinaryValue.unpacked_of_pos n hm]
    unfold UnpackedFloat.pack
    dsimp only
    rw [BinaryFormat.maxExponent_single] at he
    exact if_pos (by rw [hbits, hbias]; omega)
  have hmodel : Float32.Model.pack (BinaryValue.finite n m e).unpacked =
      Float32.Model.pack (.infinity (BinaryValue.signOf n)) :=
    (Float32.Model.mk.injEq ..).mpr (congrArg _ hpack)
  rw [← ofSingle_packed_infinity n]
  unfold packed
  rw [hmodel]

/-- A positive result is packed into the nearest number, or into infinity. -/
theorem packed_of_pos {u : UnpackedFloat} (h : Rounded .single u q) (hq : 0 < q) :
    RoundsTo (packed u) q ∨ BinaryValue.ofSingle (packed u) = .infinite false := by
  rcases le_or_gt |q| (2 ^ 127) with hbound | hbound
  · exact .inl (packed_roundsTo h hbound)
  obtain ⟨v, hv, rfl⟩ := h
  obtain ⟨n, m, e, -, rfl, hcanonical, -⟩ := id hv
  rcases Int.lt_or_le BinaryFormat.single.maxExponent e with hlt | hle
  · right
    rw [abs_of_pos hq] at hbound
    have hlarge : (2 : Rat) ^ (127 : Int) ≤ (BinaryValue.finite n m e).toRat :=
      hv.two_pow_le (by decide) hbound.le
    have hpos : 0 < (BinaryValue.finite n m e).toRat := lt_of_lt_of_le (by norm_num) hlarge
    have hm : 0 < m := by
      rcases Nat.eq_zero_or_pos m with rfl | hm
      · rw [BinaryValue.toRat_zero] at hpos
        exact absurd hpos (lt_irrefl 0)
      · exact hm
    rw [ofSingle_packed_of_lt n hm hlt]
    cases n with
    | false => rfl
    | true =>
      rw [BinaryValue.toRat_negative, neg_pos] at hpos
      exact absurd hpos (not_lt.mpr (by positivity))
  · left
    unfold RoundsTo
    rw [ofSingle_packed n hcanonical hle]
    exact hv

/-! ## Section 3: Differences -/

/-- Nothing is less than what is not a number or than negative infinity, and neither what is not a
    number nor infinity is less than anything. -/
theorem compare_ne_lt (u : UnpackedFloat) :
    u.compare .notANumber ≠ some .lt ∧ u.compare (.infinity .negative) ≠ some .lt ∧
      UnpackedFloat.notANumber.compare u ≠ some .lt ∧
      (UnpackedFloat.infinity .positive).compare u ≠ some .lt := by
  cases u with
  | notANumber => exact ⟨nofun, nofun, nofun, nofun⟩
  | infinity s => cases s <;> exact ⟨nofun, nofun, nofun, nofun⟩
  | zero s => exact ⟨nofun, nofun, nofun, nofun⟩
  | finite s m e hm => cases s <;> exact ⟨nofun, nofun, nofun, nofun⟩

/-- Between patterns in order there is no infinity but at the outer ends. -/
theorem ends_of_lt (h : x < y) :
    (x.isFinite = true ∨ BinaryValue.ofSingle x = .infinite true) ∧
      (y.isFinite = true ∨ BinaryValue.ofSingle y = .infinite false) := by
  rw [lt_iff_compare?] at h
  unfold compare? at h
  rw [unpack_toMachine, unpack_toMachine] at h
  constructor
  · rcases finite_or x with hx | hx | ⟨-, hx | hx⟩
    · exact .inl hx
    · rw [hx] at h
      exact absurd h (compare_ne_lt _).2.2.2
    · rw [hx] at h
      exact absurd h (compare_ne_lt _).2.2.1
    · exact .inr hx
  · rcases finite_or y with hy | hy | ⟨-, hy | hy⟩
    · exact .inl hy
    · exact .inr hy
    · rw [hy] at h
      exact absurd h (compare_ne_lt _).1
    · rw [hy] at h
      exact absurd h (compare_ne_lt _).2.1

theorem sub_eq (hx : x.isNaN = false) (hy : y.isNaN = false) :
    x - y = packed (UnpackedFloat.sub Format.binary32 (BinaryValue.ofSingle x).unpacked
      (BinaryValue.ofSingle y).unpacked) := by
  rw [← unpack_toMachine, ← unpack_toMachine]
  show calculate (· - ·) x y = _
  unfold calculate
  rw [hx, hy, if_neg Bool.false_ne_true, if_neg Bool.false_ne_true]
  rfl

/-- Infinity remains when anything but infinity is taken from it. -/
theorem infinite_sub (hx : BinaryValue.ofSingle x = .infinite false)
    (hy : y.isFinite = true ∨ BinaryValue.ofSingle y = .infinite true) :
    BinaryValue.ofSingle (x - y) = .infinite false := by
  rcases hy with hy | hy
  · obtain ⟨n, m, e, hvy, -⟩ := ofSingle_of_isFinite hy
    rw [sub_eq (isNaN_of_infinite hx) (isNaN_of_ofSingle hvy), hx, hvy]
    rcases Nat.eq_zero_or_pos m with rfl | hm
    · exact ofSingle_packed_infinity false
    · rw [BinaryValue.unpacked_of_pos n hm]
      exact ofSingle_packed_infinity false
  · rw [sub_eq (isNaN_of_infinite hx) (isNaN_of_infinite hy), hx, hy]
    exact ofSingle_packed_infinity false

/-- Taking negative infinity from a finite number gives infinity. -/
theorem sub_negative_infinite (hx : x.isFinite = true)
    (hy : BinaryValue.ofSingle y = .infinite true) :
    BinaryValue.ofSingle (x - y) = .infinite false := by
  obtain ⟨n, m, e, hvx, -⟩ := ofSingle_of_isFinite hx
  rw [sub_eq (isNaN_of_ofSingle hvx) (isNaN_of_infinite hy), hvx, hy]
  rcases Nat.eq_zero_or_pos m with rfl | hm
  · exact ofSingle_packed_infinity false
  · rw [BinaryValue.unpacked_of_pos n hm]
    exact ofSingle_packed_infinity false

/-- Numbers are apart by the least positive one at least. -/
theorem add_least_le (hx : x.isFinite = true) (hy : y.isFinite = true)
    (h : x.toRat < y.toRat) : x.toRat + 2 ^ (-149 : Int) ≤ y.toRat := by
  obtain ⟨n, m, e, hvx, hcx, -⟩ := canonical_of_isFinite hx
  obtain ⟨n', m', e', hvy, hcy, -⟩ := canonical_of_isFinite hy
  obtain ⟨k, hk⟩ := BinaryValue.exists_toRat_eq_mul n m hcx.le
  obtain ⟨k', hk'⟩ := BinaryValue.exists_toRat_eq_mul n' m' hcy.le
  rw [BinaryFormat.minExponent_single] at hk hk'
  have hleast : (0 : Rat) < 2 ^ (-149 : Int) := zpow_pos two_pos _
  unfold toRat at h ⊢
  rw [hvx, hvy, hk, hk'] at h ⊢
  have hlt : k < k' := by exact_mod_cast lt_of_mul_lt_mul_right h hleast.le
  have hone : (k : Rat) + 1 ≤ k' := by exact_mod_cast hlt
  calc (k : Rat) * 2 ^ (-149 : Int) + 2 ^ (-149 : Int) = (k + 1) * 2 ^ (-149 : Int) := by ring
    _ ≤ k' * 2 ^ (-149 : Int) := mul_le_mul_of_nonneg_right hone hleast.le

/-- What is left of a number after a lesser one is taken away. -/
theorem sub_of_lt (hx : x.isFinite = true) (hy : y.isFinite = true) (h : y.toRat < x.toRat) :
    RoundsTo (x - y) (x.toRat - y.toRat) ∨ BinaryValue.ofSingle (x - y) = .infinite false := by
  obtain ⟨n, m, e, hvx, hcx, -⟩ := canonical_of_isFinite hx
  obtain ⟨n', m', e', hvy, hcy, -⟩ := canonical_of_isFinite hy
  rw [sub_eq (isNaN_of_isFinite hx) (isNaN_of_isFinite hy)]
  refine packed_of_pos ?_ (sub_pos.mpr h)
  unfold toRat
  rw [hvx, hvy]
  exact rounded_sub hcx hcy

theorem toRat_least : (⟨1⟩ : Single).isFinite = true ∧ (⟨1⟩ : Single).toRat = 2 ^ (-149 : Int) := by
  have hone : BinaryValue.ofSingle ⟨1⟩ = .finite false 1 (-149) := rfl
  refine ⟨rfl, ?_⟩
  unfold toRat
  rw [hone]
  simp [BinaryValue.toRat]

/-- What is less leaves something positive, which may be infinite. -/
theorem zero_lt_sub (h : x < y) : ((0 : Nat) : Single) < y - x := by
  rcases ends_of_lt h with ⟨hx | hx, hy | hy⟩
  · rw [lt_iff hx hy] at h
    rcases sub_of_lt hy hx h with hround | hinfinite
    · have hge := hround.ge toRat_least.1 (by
        rw [toRat_least.2]
        linarith [add_least_le hx hy h])
      rw [toRat_least.2] at hge
      rw [lt_iff isFinite_zero hround.finite, toRat_zero]
      exact lt_of_lt_of_le (zpow_pos two_pos _) hge
    · exact zero_lt_infinite hinfinite
  · exact zero_lt_infinite (infinite_sub hy (.inl hx))
  · exact zero_lt_infinite (sub_negative_infinite hy hx)
  · exact zero_lt_infinite (infinite_sub hy (.inr hx))

/-- The machine finds no number where an infinity takes part in a difference. -/
theorem sub_infinity (u : UnpackedFloat) (n : Bool) :
    (UnpackedFloat.sub Format.binary32 (BinaryValue.infinite n).unpacked u = .notANumber ∨
        ∃ s, UnpackedFloat.sub Format.binary32 (BinaryValue.infinite n).unpacked u = .infinity s) ∧
      (UnpackedFloat.sub Format.binary32 u (BinaryValue.infinite n).unpacked = .notANumber ∨
        ∃ s, UnpackedFloat.sub Format.binary32 u (BinaryValue.infinite n).unpacked =
          .infinity s) := by
  cases u with
  | notANumber => exact ⟨.inl rfl, .inl rfl⟩
  | infinity s =>
    cases n <;> cases s
    case false.positive => exact ⟨.inl rfl, .inl rfl⟩
    case true.negative => exact ⟨.inl rfl, .inl rfl⟩
    all_goals exact ⟨.inr ⟨_, rfl⟩, .inr ⟨_, rfl⟩⟩
  | zero s => exact ⟨.inr ⟨_, rfl⟩, .inr ⟨_, rfl⟩⟩
  | finite s m e hm => exact ⟨.inr ⟨_, rfl⟩, .inr ⟨_, rfl⟩⟩

theorem not_isFinite_packed {u : UnpackedFloat} (h : u = .notANumber ∨ ∃ t, u = .infinity t) :
    (packed u).isFinite = false := by
  rcases h with rfl | ⟨t, rfl⟩
  · decide
  · cases t <;> decide

/-- A finite difference is one of finite numbers. -/
theorem isFinite_of_sub (h : (x - y).isFinite = true) :
    x.isFinite = true ∧ y.isFinite = true := by
  have hcalculate : x - y = if x.isNaN then x else if y.isNaN then y
    else ofMachine (x.toMachine - y.toMachine) := rfl
  rcases finite_or_infinite_or x with hx | ⟨n, hx⟩ | hx
  · rcases finite_or_infinite_or y with hy | ⟨n, hy⟩ | hy
    · exact ⟨hx, hy⟩
    · rw [sub_eq (isNaN_of_isFinite hx) (isNaN_of_infinite hy), hy,
        not_isFinite_packed (sub_infinity _ _).2] at h
      cases h
    · rw [hcalculate, isNaN_of_isFinite hx, if_neg Bool.false_ne_true, if_pos hy] at h
      rw [isNaN_of_isFinite h] at hy
      cases hy
  · cases hy : y.isNaN with
    | false =>
      rw [sub_eq (isNaN_of_infinite hx) hy, hx, not_isFinite_packed (sub_infinity _ _).1] at h
      cases h
    | true =>
      rw [hcalculate, isNaN_of_infinite hx, if_neg Bool.false_ne_true, if_pos hy] at h
      rw [isNaN_of_isFinite h] at hy
      cases hy
  · rw [hcalculate, if_pos hx] at h
    rw [isNaN_of_isFinite h] at hx
    cases hx

end Single

end FoamTray
