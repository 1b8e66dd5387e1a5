/-! # Binary floating-point formats

    A finite binary float is `± mantissa · 2 ^ exponent`. This module decodes a bit pattern into
    that form and rounds an exact quotient of natural numbers back to a bit pattern:

    * **Decoding** (`BinaryFormat.decode`) is exact.
    * **Rounding** (`BinaryFormat.roundQuotient`) goes to the nearest representable value, a tie
      to the even mantissa; a value beyond the largest finite one becomes infinite.

    Everything else about machine numbers that the project needs and that has to be exact
    (conversions between the formats, rounding to integers, remainders) is derived from the two.
-/

namespace FoamTray

/-- A binary interchange format: how many fraction and exponent bits follow the sign bit. -/
structure BinaryFormat where
  /-- Stored bits of the fraction; a normal mantissa has one more. -/
  fractionBits : Nat
  /-- Bits of the biased exponent. -/
  exponentBits : Nat

/-- The value that a bit pattern stands for. -/
inductive BinaryValue where
  /-- Not a number. -/
  | nan
  /-- An infinity. -/
  | infinite (negative : Bool)
  /-- The number `± mantissa · 2 ^ exponent`; zero keeps its sign. -/
  | finite (negative : Bool) (mantissa : Nat) (exponent : Int)
  deriving DecidableEq, Repr

/-- The quotient `num / den` rounded to the nearest natural number, a tie to the even one. -/
def nearestEven (num den : Nat) : Nat :=
  let q := num / den
  let twice := 2 * (num % den)
  if twice < den then q
  else if den < twice then q + 1
  else if q % 2 = 0 then q else q + 1

/-- The number `mantissa · 2 ^ exponent` as a quotient of natural numbers. -/
def dyadicQuotient (mantissa : Nat) (exponent : Int) : Nat × Nat :=
  (mantissa * Nat.pow 2 exponent.toNat, Nat.pow 2 (-exponent).toNat)

namespace BinaryFormat

/-- The 32-bit format. -/
def single : BinaryFormat := ⟨23, 8⟩

/-- The 64-bit format. -/
def double : BinaryFormat := ⟨52, 11⟩

/-- The exponent of the least positive value. -/
def minExponent (f : BinaryFormat) : Int :=
  2 - Nat.pow 2 (f.exponentBits - 1) - f.fractionBits

/-- The pattern of positive infinity: an exponent of all ones and no fraction. -/
def infinityBits (f : BinaryFormat) : Nat :=
  (Nat.pow 2 f.exponentBits - 1) * Nat.pow 2 f.fractionBits

/-- The weight of the sign bit. -/
def signBit (f : BinaryFormat) : Nat :=
  Nat.pow 2 (f.fractionBits + f.exponentBits)

/-- The value of a bit pattern. -/
def decode (f : BinaryFormat) (bits : Nat) : BinaryValue :=
  let negative := bits / f.signBit % 2 == 1
  let magnitude := bits % f.signBit
  let field := magnitude / Nat.pow 2 f.fractionBits
  let fraction := magnitude % Nat.pow 2 f.fractionBits
  if field + 1 = Nat.pow 2 f.exponentBits then
    if fraction = 0 then .infinite negative else .nan
  else if field = 0 then .finite negative fraction f.minExponent
  else .finite negative (fraction + Nat.pow 2 f.fractionBits) (f.minExponent + field - 1)

/-- The pattern of the value nearest to `± num / den`, a tie to the even mantissa. The mantissa is
    scaled into `[2 ^ fractionBits, 2 ^ (fractionBits + 1))`, or lies below it when the exponent
    is already the least one; adding it to the shifted exponent carries a rounding overflow into
    the next exponent. -/
def roundQuotient (f : BinaryFormat) (negative : Bool) (num den : Nat) : Nat :=
  let sign := if negative then f.signBit else 0
  if num = 0 then sign
  else
    let guess : Int := num.log2 - den.log2 - f.fractionBits
    let least := Nat.pow 2 f.fractionBits * (den * Nat.pow 2 guess.toNat)
    let exponent := if num * Nat.pow 2 (-guess).toNat < least then guess - 1 else guess
    let exponent := max exponent f.minExponent
    let mantissa := nearestEven (num * Nat.pow 2 (-exponent).toNat) (den * Nat.pow 2 exponent.toNat)
    let bits := (exponent - f.minExponent).toNat * Nat.pow 2 f.fractionBits + mantissa
    sign + min bits f.infinityBits

/-- The pattern of a value, rounded to this format. -/
def encode (f : BinaryFormat) : BinaryValue → Nat
  | .nan => f.infinityBits + Nat.pow 2 (f.fractionBits - 1)
  | .infinite negative => (if negative then f.signBit else 0) + f.infinityBits
  | .finite negative mantissa exponent =>
      let (num, den) := dyadicQuotient mantissa exponent
      f.roundQuotient negative num den

/-- The pattern nearest to the decimal number `± mantissa · 10 ^ exponent`. Numbers far outside
    the range are settled by their count of digits, so that no huge power is ever formed. -/
def roundDecimal (f : BinaryFormat) (negative : Bool) (mantissa : Nat) (exponent : Int) : Nat :=
  let digits : Int := (Nat.toDigits 10 mantissa).length
  if mantissa = 0 ∨ digits + exponent < -400 then f.roundQuotient negative 0 1
  else if 400 < digits + exponent then f.encode (.infinite negative)
  else
    f.roundQuotient negative (mantissa * Nat.pow 10 exponent.toNat)
      (Nat.pow 10 (-exponent).toNat)

end BinaryFormat

namespace BinaryValue

/-- The exact value of an integer. -/
def ofInt (n : Int) : BinaryValue :=
  .finite (n < 0) n.natAbs 0

/-- The value with its sign cleared. -/
def abs : BinaryValue → BinaryValue
  | .nan => .nan
  | .infinite _ => .infinite false
  | .finite _ m e => .finite false m e

/-- The nearest integer, a half away from zero. Zero keeps the sign of what was rounded to it. -/
def roundHalfAway : BinaryValue → BinaryValue
  | .finite negative m e =>
      if 0 ≤ e then .finite negative m e
      else
        let unit := Nat.pow 2 (-e).toNat
        .finite negative ((2 * m + unit) / (2 * unit)) 0
  | v => v

/-- The remainder of a division whose quotient is cut off towards zero. It is exact and has the
    sign of the dividend; without a finite dividend and a divisor other than zero there is none. -/
def remainder : BinaryValue → BinaryValue → BinaryValue
  | .finite negative m e, .finite _ m' e' =>
      if m' = 0 then .nan
      else
        let low := min e e'
        .finite negative ((m * Nat.pow 2 (e - low).toNat) % (m' * Nat.pow 2 (e' - low).toNat)) low
  | .finite negative m e, .infinite _ => .finite negative m e
  | _, _ => .nan

/-- The nearest integer of the given range, cut off towards zero; not a number counts as zero. -/
def toIntSaturating (low high : Int) : BinaryValue → Int
  | .nan => 0
  | .infinite negative => if negative then low else high
  | .finite negative m e =>
      let (num, den) := dyadicQuotient m e
      let q : Int := ((num / den : Nat) : Int)
      max low (min high (if negative then -q else q))

/-- The least natural number that is not below the value, at most `high`; not a number and
    negative numbers count as zero. -/
def ceilSaturating (high : Nat) : BinaryValue → Nat
  | .nan => 0
  | .infinite negative => if negative then 0 else high
  | .finite negative m e =>
      let (num, den) := dyadicQuotient m e
      if negative then 0 else min high ((num + den - 1) / den)

end BinaryValue

end FoamTray
