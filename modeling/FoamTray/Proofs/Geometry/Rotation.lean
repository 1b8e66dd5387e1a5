import FoamTray.Layout.Basic
import FoamTray.Proofs.Numeric.Single

/-! # Which angles are orientations

    An angle comes to an orientation if it is finite and a whole number of quarter turns, and then
    to the one that it differs from by full turns.

    * `ofQuarters` : orientations counted in quarter turns.
    * `normalize?_eq_some_iff` : the normalised angle, told from its rational value.
    * `normalize?_alike_iff` : angles that come to the same orientation.
    * `reduction_exact` : the two together, for all patterns that an angle can be given as.
-/

namespace FoamTray.Rotation

/-! ## Section 1: Quarter turns -/

/-- The orientation after so many quarter turns, to the left if the sign is set. -/
def ofQuarters (negative : Bool) (quarters : Nat) : Rotation :=
  match quarters % 4 with
  | 0 => .deg0
  | 1 => if negative then .deg270 else .deg90
  | 2 => .deg180
  | _ => if negative then .deg90 else .deg270

/-- An orientation is the one after so many quarter turns if the angles differ by full turns. -/
theorem ofQuarters_eq_iff (negative : Bool) (q : Nat) (r : Rotation) :
    ofQuarters negative q = r ↔
      (if negative then -(90 * q : Int) else 90 * q) % 360 = r.degrees := by
  have hcases : q % 4 = 0 ∨ q % 4 = 1 ∨ q % 4 = 2 ∨ q % 4 = 3 := by omega
  unfold ofQuarters
  rcases hcases with h | h | h | h <;> rw [h] <;> cases negative <;> cases r <;>
    simp only [degrees, if_true, if_false, Bool.false_eq_true, reduceCtorEq, false_iff,
      true_iff] <;>
    omega

/-- Angles that differ by full turns. -/
theorem exists_turns_iff (a : Int) (r : Rotation) :
    (∃ k : Int, a = r.degrees + 360 * k) ↔ a % 360 = r.degrees := by
  constructor
  · rintro ⟨k, rfl⟩
    cases r <;> simp only [degrees] <;> omega
  · intro h
    exact ⟨a / 360, by omega⟩

/-- Every orientation is a whole number of quarter turns, and so is every angle that differs from
    one by full turns. -/
theorem ninety_mul_dvd {a : Int} {unit : Nat} {r : Rotation} {k : Int}
    (h : a = (r.degrees + 360 * k) * unit) : ((90 * unit : Nat) : Int) ∣ a := by
  obtain ⟨d, hd⟩ : ∃ d : Int, (r.degrees : Int) = 90 * d := by
    cases r
    · exact ⟨0, rfl⟩
    · exact ⟨1, rfl⟩
    · exact ⟨2, rfl⟩
    · exact ⟨3, rfl⟩
  rw [h, hd]
  exact ⟨d + 4 * k, by push_cast; ring⟩

/-- Orientations by angles that are given in a unit of their own. -/
theorem ofQuarters_eq_iff_exists (negative : Bool) (n : Nat) {unit : Nat} (hunit : 0 < unit)
    (r : Rotation) :
    n % (90 * unit) = 0 ∧ ofQuarters negative (n / (90 * unit)) = r ↔
      ∃ k : Int, (if negative then -(n : Int) else n) = (r.degrees + 360 * k) * unit := by
  have hunit' : (unit : Int) ≠ 0 := by omega
  have hscale : ∀ q : Nat, n = 90 * unit * q →
      (if negative then -(n : Int) else n) =
        (if negative then -(90 * q : Int) else 90 * q) * unit := by
    rintro q rfl
    cases negative <;> simp only [if_true, if_false, Bool.false_eq_true] <;> push_cast <;> ring
  constructor
  · rintro ⟨hmod, hr⟩
    obtain ⟨q, hq⟩ := Nat.dvd_of_mod_eq_zero hmod
    rw [hq, Nat.mul_div_cancel_left _ (Nat.mul_pos (by decide) hunit), ofQuarters_eq_iff,
      ← exists_turns_iff] at hr
    obtain ⟨k, hk⟩ := hr
    exact ⟨k, by rw [hscale q hq, hk]⟩
  · rintro ⟨k, hk⟩
    have hdvd : 90 * unit ∣ n := by
      have hint := ninety_mul_dvd hk
      -- the sign does not matter for divisors
      cases negative
      · exact Int.natCast_dvd_natCast.mp hint
      · exact Int.natCast_dvd_natCast.mp (Int.dvd_neg.mp hint)
    obtain ⟨q, hq⟩ := hdvd
    refine ⟨Nat.mod_eq_zero_of_dvd ⟨q, hq⟩, ?_⟩
    rw [hq, Nat.mul_div_cancel_left _ (Nat.mul_pos (by decide) hunit), ofQuarters_eq_iff,
      ← exists_turns_iff]
    rw [hscale q hq] at hk
    exact ⟨k, mul_right_cancel₀ hunit' hk⟩

/-! ## Section 2: Normalised angles -/

theorem ofSingle_ninety :
    BinaryValue.ofSingle ((90 : Nat) : Single) = .finite false 11796480 (-17) :=
  rfl

theorem ofSingle_fullTurn :
    BinaryValue.ofSingle ((360 : Nat) : Single) = .finite false 11796480 (-15) :=
  rfl

/-- The machine reduces every number of quarter turns below a full one to its orientation. -/
theorem ofDegrees_reduced : ∀ j : Nat, j < 4 → ∀ negative : Bool,
    (let r := (BinaryValue.finite negative (90 * j) 0).toSingle
    ofDegrees? (if r < ((0 : Nat) : Single) then r + Coordinate.abs ((360 : Nat) : Single)
      else r)) = some (ofQuarters negative j) := by
  decide +kernel

section Remainders

variable {x : Single} {negative : Bool} {m : Nat} {e : Int}

/-- The remainder by a right angle is zero for whole quarter turns only: it is exact, and rounding
    takes nothing else to zero. -/
theorem remainder_ninety_iff (hx : BinaryValue.ofSingle x = .finite negative m e)
    (he : -149 ≤ e) :
    (Coordinate.remainder x ((90 : Nat) : Single) == ((0 : Nat) : Single)) = true ↔
      m * 2 ^ (e + 149).toNat % (90 * 2 ^ 149) = 0 := by
  have hninety : 11796480 * 2 ^ ((-17 : Int) + 149).toNat = 90 * 2 ^ 149 := by decide
  have hscaled := Single.scaled_remainder m 11796480 he (show -149 ≤ (-17 : Int) by decide)
  rw [hninety] at hscaled
  rw [Single.beq_zero_iff, ← hscaled, Nat.mul_eq_zero]
  show (x.remainder ((90 : Nat) : Single)).isZero = true ↔ _
  rw [Single.remainder_eq hx ofSingle_ninety (by decide),
    Single.isZero_toSingle_iff _ _ (by omega)]
  constructor
  · exact Or.inl
  · rintro (h | h)
    · exact h
    · exact absurd h (Nat.two_pow_pos _).ne'

/-- The remainder of whole quarter turns by a full turn is the number of quarter turns that are
    left, as a machine number. -/
theorem remainder_fullTurn (hx : BinaryValue.ofSingle x = .finite negative m e) (he : -149 ≤ e)
    {q : Nat} (hq : m * 2 ^ (e + 149).toNat = 90 * 2 ^ 149 * q) :
    Coordinate.remainder x ((360 : Nat) : Single) =
      (BinaryValue.finite negative (90 * (q % 4)) 0).toSingle := by
  have hturn : 11796480 * 2 ^ ((-15 : Int) + 149).toNat = 90 * 2 ^ 149 * 4 := by decide
  have hreduced := Single.scaled_remainder m 11796480 he (show -149 ≤ (-15 : Int) by decide)
  rw [hturn, hq, Nat.mul_mod_mul_left] at hreduced
  -- the remainder comes in a unit of its own, the smaller one of the two numbers
  let k := (-min e (-15)).toNat
  have hlow : min e (-15) = -(k : Int) := by omega
  have hpow : 2 ^ 149 = 2 ^ k * 2 ^ (min e (-15) + 149).toNat := by
    rw [← Nat.pow_add]
    congr 1
    omega
  have hR : (m * 2 ^ (e - min e (-15)).toNat) % (11796480 * 2 ^ (-15 - min e (-15)).toNat) =
      90 * (q % 4) * 2 ^ k := by
    refine Nat.eq_of_mul_eq_mul_right (Nat.two_pow_pos (min e (-15) + 149).toNat) ?_
    rw [hreduced, hpow]
    ring
  show x.remainder ((360 : Nat) : Single) = _
  rw [Single.remainder_eq hx ofSingle_fullTurn (by decide), hR, hlow, Single.toSingle_scaled]

/-- The angle in multiples of the least positive number decides. -/
theorem normalize?_eq (hx : BinaryValue.ofSingle x = .finite negative m e) (he : -149 ≤ e) :
    normalize? x = if m * 2 ^ (e + 149).toNat % (90 * 2 ^ 149) = 0 then
      some (ofQuarters negative (m * 2 ^ (e + 149).toNat / (90 * 2 ^ 149))) else none := by
  have hfinite : Scalar.isFinite x = true := Single.isFinite_of_ofSingle hx
  have hzero := remainder_ninety_iff hx he
  unfold normalize?
  rw [hfinite, Bool.true_and]
  by_cases hmod : m * 2 ^ (e + 149).toNat % (90 * 2 ^ 149) = 0
  · rw [if_pos (hzero.mpr hmod), if_pos hmod]
    obtain ⟨q, hq⟩ := Nat.dvd_of_mod_eq_zero hmod
    have hquarters : m * 2 ^ (e + 149).toNat / (90 * 2 ^ 149) = q := by
      rw [hq, Nat.mul_div_cancel_left _ (by decide)]
    have hmodmod : ofQuarters negative (q % 4) = ofQuarters negative q := by
      unfold ofQuarters
      rw [Nat.mod_mod]
    unfold Coordinate.remEuclid
    rw [remainder_fullTurn hx he hq, hquarters, ← hmodmod]
    -- only eight remainders are left
    exact ofDegrees_reduced (q % 4) (Nat.mod_lt _ (by decide)) negative
  · rw [if_neg (mt hzero.mp hmod), if_neg hmod]

end Remainders

/-- An angle is accepted if it is finite and differs from that of an orientation by whole turns,
    and that orientation is the answer. -/
theorem normalize?_eq_some_iff (x : Single) (r : Rotation) :
    normalize? x = some r ↔ x.isFinite = true ∧ ∃ k : Int, x.toRat = r.degrees + 360 * k := by
  by_cases hf : x.isFinite = true
  · obtain ⟨negative, m, e, hx, he⟩ := Single.ofSingle_of_isFinite hf
    have hvalue : ∀ k : Int, x.toRat = r.degrees + 360 * k ↔
        (if negative then -((m * 2 ^ (e + 149).toNat : Nat) : Int)
          else (m * 2 ^ (e + 149).toNat : Nat)) = (r.degrees + 360 * k) * (2 ^ 149 : Nat) := by
      intro k
      rw [show ((2 ^ 149 : Nat) : Int) = 2 ^ 149 from rfl, ← Single.toRat_eq_iff hx he]
      push_cast
      exact Iff.rfl
    simp only [hf, true_and, hvalue]
    rw [← ofQuarters_eq_iff_exists negative _ (Nat.two_pow_pos 149), normalize?_eq hx he]
    split
    · rename_i hmod
      rw [Option.some.injEq]
      exact ⟨fun h => ⟨hmod, h⟩, And.right⟩
    · rename_i hmod
      exact ⟨fun h => (nomatch h), fun h => absurd h.1 hmod⟩
  · have hnone : normalize? x = none := by
      unfold normalize?
      rw [show Scalar.isFinite x = x.isFinite from rfl, Bool.not_eq_true _ |>.mp hf]
      rfl
    rw [hnone]
    simp [hf]

/-- The angle of an orientation comes to that orientation. -/
theorem normalize?_angle (r : Rotation) : normalize? (r.angle : Single) = some r := by
  cases r <;> rfl

/-- The angles that come to an orientation are the finite multiples of a right angle. -/
theorem exists_normalize?_iff (x : Single) :
    (∃ r, normalize? x = some r) ↔ x.isFinite = true ∧ ∃ k : Int, x.toRat = 90 * k := by
  simp only [normalize?_eq_some_iff]
  constructor
  · rintro ⟨r, hf, k, hk⟩
    refine ⟨hf, ?_⟩
    rw [hk]
    cases r
    · exact ⟨4 * k, by simp only [degrees]; push_cast; ring⟩
    · exact ⟨4 * k + 1, by simp only [degrees]; push_cast; ring⟩
    · exact ⟨4 * k + 2, by simp only [degrees]; push_cast; ring⟩
    · exact ⟨4 * k + 3, by simp only [degrees]; push_cast; ring⟩
  · rintro ⟨hf, k, hk⟩
    have hsplit : k = 4 * (k / 4) + k % 4 := (Int.mul_ediv_add_emod k 4).symm
    have hcases : k % 4 = 0 ∨ k % 4 = 1 ∨ k % 4 = 2 ∨ k % 4 = 3 := by omega
    rw [hk, hsplit]
    rcases hcases with h | h | h | h <;> rw [h]
    · exact ⟨.deg0, hf, k / 4, by simp only [degrees]; push_cast; ring⟩
    · exact ⟨.deg90, hf, k / 4, by simp only [degrees]; push_cast; ring⟩
    · exact ⟨.deg180, hf, k / 4, by simp only [degrees]; push_cast; ring⟩
    · exact ⟨.deg270, hf, k / 4, by simp only [degrees]; push_cast; ring⟩

/-! ## Section 3: Angles that come to one orientation -/

/-- An angle is converted if it comes to an orientation. -/
theorem ofAngle_eq_ok_iff {α : Type} [Coordinate α] {angle : α} {r : Rotation} :
    ofAngle angle = .ok r ↔ normalize? angle = some r := by
  unfold ofAngle
  cases normalize? angle with
  | none => simp
  | some r' => simp

/-- Two angles come to the same orientation if both are finite, one is a whole number of quarter
    turns, and they differ by full turns. -/
theorem normalize?_alike_iff (x y : Single) :
    (∃ r, normalize? x = some r ∧ normalize? y = some r) ↔
      (x.isFinite = true ∧ ∃ k : Int, x.toRat = 90 * k) ∧
        y.isFinite = true ∧ ∃ k : Int, x.toRat - y.toRat = 360 * k := by
  rw [← exists_normalize?_iff]
  constructor
  · rintro ⟨r, hx, hy⟩
    obtain ⟨-, j, hj⟩ := (normalize?_eq_some_iff x r).mp hx
    obtain ⟨hfinite, k, hk⟩ := (normalize?_eq_some_iff y r).mp hy
    refine ⟨⟨r, hx⟩, hfinite, j - k, ?_⟩
    rw [hj, hk]
    push_cast
    ring
  · rintro ⟨⟨r, hx⟩, hfinite, k, hk⟩
    obtain ⟨-, j, hj⟩ := (normalize?_eq_some_iff x r).mp hx
    refine ⟨r, hx, (normalize?_eq_some_iff y r).mpr ⟨hfinite, j - k, ?_⟩⟩
    have hy : y.toRat = x.toRat - 360 * k := by
      rw [← hk]
      ring
    rw [hy, hj]
    push_cast
    ring

/-- Angles are reduced exactly, whatever pattern holds them:
    - an angle comes to an orientation if and only if it is finite and a whole multiple of a right
      angle;
    - the orientation is the one that it differs from by full turns;
    - converting an orientation to its angle and back gives it again;
    - two angles come to the same orientation if and only if they are finite multiples of a right
      angle that differ by full turns. -/
theorem reduction_exact :
    (∀ x : Single, (∃ r, normalize? x = some r) ↔
      x.isFinite = true ∧ ∃ k : Int, x.toRat = 90 * k) ∧
    (∀ (x : Single) (r : Rotation), normalize? x = some r ↔
      x.isFinite = true ∧ ∃ k : Int, x.toRat = r.degrees + 360 * k) ∧
    (∀ r : Rotation, ofAngle (r.angle : Single) = .ok r) ∧
    ∀ x y : Single, (∃ r, normalize? x = some r ∧ normalize? y = some r) ↔
      (x.isFinite = true ∧ ∃ k : Int, x.toRat = 90 * k) ∧
        y.isFinite = true ∧ ∃ k : Int, x.toRat - y.toRat = 360 * k := by
  refine ⟨exists_normalize?_iff, normalize?_eq_some_iff, ?_, normalize?_alike_iff⟩
  intro r
  exact ofAngle_eq_ok_iff.mpr (normalize?_angle r)

/-- The greatest finite number is a whole number of full turns, the least negative one is not, and
    the negative zero is an angle like the positive one. -/
example : normalize? (⟨0x7F7FFFFF⟩ : Single) = some .deg0 ∧
    normalize? (⟨0x80000001⟩ : Single) = none ∧
    normalize? (⟨0x80000000⟩ : Single) = some .deg0 := by
  decide +kernel

end FoamTray.Rotation
