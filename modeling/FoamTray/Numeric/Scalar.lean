/-! # Scalars

    The numbers that layouts are made of. All geometry and all editing rules are written once,
    over a type of scalars, and are used at two of them:

    * machine numbers (`FoamTray.Numeric.Single`), which every document and every answer holds;
    * the rationals (below), over which the same rules are exact and can be reasoned about as
      plane geometry.

    Comparisons are those of the scalar type itself: with machine numbers a comparison with a
    value that is not a number is false, and the two zeros are equal.
-/

namespace FoamTray

/-- Arithmetic with comparisons. -/
class Scalar (α : Type) extends Add α, Sub α, Mul α, Div α, Neg α, NatCast α, IntCast α, LT α, LE α,
    BEq α where
  /-- Comparisons can be run. -/
  decidableLT : DecidableLT α
  /-- Comparisons can be run. -/
  decidableLE : DecidableLE α
  /-- False for infinities and for what is not a number. -/
  isFinite : α → Bool
  /-- One is finite and greater than zero. -/
  one_usable : (isFinite ((1 : Nat) : α) && decide (((0 : Nat) : α) < ((1 : Nat) : α))) = true

attribute [reducible, instance] Scalar.decidableLT Scalar.decidableLE

/-- Scalars that can measure a position on the workspace. -/
class Coordinate (α : Type) extends Scalar α where
  /-- The distance from zero. -/
  abs : α → α
  /-- The nearest whole number, a half away from zero. -/
  round : α → α
  /-- The remainder of a division whose quotient is cut off towards zero. -/
  remainder : α → α → α
  /-- Equality up to the drift that repeated rescaling leaves: within a thousandth, or within the
      last few units of precision. -/
  near : α → α → Bool
  /-- Equality up to the last few units of precision: two such vertices are one. -/
  coincide : α → α → Bool
  /-- A total order that refines `<`. -/
  precedes : α → α → Bool

namespace Scalar

variable {α : Type} [Scalar α]

/-- Whether a scalar is a number: what is none differs from itself. -/
def isNumber (a : α) : Bool := a == a

/-- The smaller of two scalars; the other one if one is not a number. Of two equal ones the
    second. -/
def min (a b : α) : α :=
  if isNumber b then if a < b then a else b else a

/-- The larger of two scalars; the other one if one is not a number. Of two equal ones the
    second. -/
def max (a b : α) : α :=
  if isNumber b then if b < a then a else b else a

/-- The value moved into the bounds; the upper bound wins if they are inverted. -/
def clamp (value low high : α) : α :=
  min (max value low) high

end Scalar

namespace Coordinate

variable {α : Type} [Coordinate α]

/-- The remainder moved into `[0, b)` for a positive `b`. (With machine numbers a negative
    remainder too small to be told from zero ends up at `b` itself.) -/
def remEuclid (a b : α) : α :=
  let r := remainder a b
  if r < ((0 : Nat) : α) then r + abs b else r

/-- Not greater, up to tolerance. -/
def atMost (a b : α) : Bool :=
  near a b || decide (a < b)

/-- The three-way comparison up to tolerance; `none` if the two cannot be compared. -/
def compareNear (a b : α) : Option Ordering :=
  if near a b then some .eq
  else if a < b then some .lt
  else if b < a then some .gt
  else none

end Coordinate

/-! ## The rationals -/

/-- The distance of a rational from zero. -/
def rationalAbs (q : Rat) : Rat :=
  if q < 0 then -q else q

/-- The whole number nearest to a rational, a half away from zero. -/
def rationalRound (q : Rat) : Rat :=
  if 0 ≤ q then ((q + 1 / 2).floor : Rat) else -((-q + 1 / 2).floor : Rat)

/-- The remainder of a division whose quotient is cut off towards zero. -/
def rationalRemainder (a b : Rat) : Rat :=
  let q := a / b
  a - b * (if 0 ≤ q then (q.floor : Rat) else (q.ceil : Rat))

instance : Scalar Rat where
  decidableLT := inferInstance
  decidableLE := inferInstance
  isFinite _ := true
  one_usable := by decide

instance : Coordinate Rat where
  abs := rationalAbs
  round := rationalRound
  remainder := rationalRemainder
  near a b := decide (rationalAbs (a - b) ≤ 1 / 1000)
  coincide a b := decide (rationalAbs (a - b) ≤ 1 / 8388608)
  precedes a b := decide (a < b)

end FoamTray
