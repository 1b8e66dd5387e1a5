import FoamTray.Numeric.Decimal
import FoamTray.Numeric.Scalar

/-! # Single precision numbers

    A single precision number is the 32 bits that hold it: a sign and a magnitude. Sums, products,
    quotients and square roots are the machine's; rounding to whole numbers and remainders go
    through the exact value (`BinaryValue`), so that what they answer is visible in their
    definition.

    Patterns that are not a number are told apart, since the order of all patterns and equality up
    to a few units of precision see their bits:

    * `Single.nan` is what a caller hands over, and lies after all numbers;
    * `Single.indefinite` is what the machine answers where an operation has no result, as when
      infinities cancel. Its sign is set, so it lies before all numbers.

    An operation with an operand that is not a number answers that operand, the first one of two.
-/

namespace FoamTray

/-- A single precision number. -/
structure Single where
  /-- Its bits: the sign, 8 bits of the exponent, 23 bits of the fraction. -/
  bits : UInt32
  deriving DecidableEq, Repr, Inhabited

/-! ## Exact values -/

/-- The exact value of a single precision number. -/
def BinaryValue.ofSingle (x : Single) : BinaryValue :=
  BinaryFormat.single.decode x.bits.toNat

/-- The nearest single precision number. -/
def BinaryValue.toSingle (v : BinaryValue) : Single :=
  ⟨UInt32.ofNat (BinaryFormat.single.encode v)⟩

/-- The single precision number nearest to a decimal. -/
def singleOfDecimal (negative : Bool) (mantissa : Nat) (exponent : Int) : Single :=
  ⟨UInt32.ofNat (BinaryFormat.single.roundDecimal negative mantissa exponent)⟩

namespace Single

/-! ## Patterns -/

/-- What is not a number, as a caller hands it over. -/
def nan : Single := ⟨0x7FC00000⟩

/-- What is not a number, as the machine answers it. -/
def indefinite : Single := ⟨0xFFC00000⟩

/-- Positive infinity. -/
def infinity : Single := ⟨0x7F800000⟩

/-- The number without its sign. -/
def abs (x : Single) : Single := ⟨x.bits &&& 0x7FFFFFFF⟩

/-- The number with the other sign. -/
def neg (x : Single) : Single := ⟨x.bits ^^^ 0x80000000⟩

/-- Whether a pattern is not a number. -/
def isNaN (x : Single) : Bool := infinity.bits < x.abs.bits

/-- False for infinities and for what is not a number. -/
def isFinite (x : Single) : Bool := x.abs.bits < infinity.bits

/-- The place of a pattern in the line of all of them, negative ones first, the negative zero
    directly below the positive one. -/
def lineIndex (x : Single) : Int :=
  let bits := x.bits.toNat
  if bits < Nat.pow 2 31 then ((bits + Nat.pow 2 31 : Nat) : Int)
  else ((Nat.pow 2 32 - 1 - bits : Nat) : Int)

/-! ## Arithmetic -/

/-- The number as the machine calculates with it. -/
def toMachine (x : Single) : Float32 := .ofBits x.bits

/-- A result of the machine. -/
def ofMachine (r : Float32) : Single := if r.isNaN then indefinite else ⟨r.toBits⟩

/-- An operation of the machine on two numbers. -/
@[inline] def calculate (op : Float32 → Float32 → Float32) (x y : Single) : Single :=
  if x.isNaN then x
  else if y.isNaN then y
  else ofMachine (op x.toMachine y.toMachine)

/-- The square root; a negative number has none. -/
def sqrt (x : Single) : Single := if x.isNaN then x else ofMachine x.toMachine.sqrt

/-- The nearest whole number, a half away from zero. -/
def round (x : Single) : Single :=
  if x.isNaN then x else (BinaryValue.ofSingle x).roundHalfAway.toSingle

/-- The remainder of a division whose quotient is cut off towards zero. -/
def remainder (x y : Single) : Single :=
  if x.isNaN then x
  else if y.isNaN then y
  else
    match (BinaryValue.ofSingle x).remainder (BinaryValue.ofSingle y) with
    | .nan => indefinite
    | v => v.toSingle

instance : Add Single := ⟨calculate (· + ·)⟩

instance : Sub Single := ⟨calculate (· - ·)⟩

instance : Mul Single := ⟨calculate (· * ·)⟩

instance : Div Single := ⟨calculate (· / ·)⟩

instance : Neg Single := ⟨neg⟩

instance : NatCast Single := ⟨fun n => (BinaryValue.ofInt n).toSingle⟩

instance : IntCast Single := ⟨fun n => (BinaryValue.ofInt n).toSingle⟩

instance (n : Nat) : OfNat Single n := ⟨(n : Single)⟩

instance : OfScientific Single :=
  ⟨fun mantissa fraction exponent =>
    singleOfDecimal false mantissa (if fraction then -(exponent : Int) else (exponent : Int))⟩

/-! ## Comparisons -/

instance : BEq Single := ⟨fun x y => x.toMachine == y.toMachine⟩

instance : LT Single := ⟨fun x y => x.toMachine < y.toMachine⟩

instance : LE Single := ⟨fun x y => x.toMachine ≤ y.toMachine⟩

instance : DecidableLT Single := fun x y => Float32.decLt x.toMachine y.toMachine

instance : DecidableLE Single := fun x y => Float32.decLe x.toMachine y.toMachine

/-- Equality up to a distance of `tolerance` or of `steps` places in the line of all patterns
    (which is a ring of `2 ^ 32` places). -/
def approxEqual (tolerance : Single) (steps : Nat) (x y : Single) : Bool :=
  x == y || decide ((x - y).abs ≤ tolerance)
    || decide ((Int.bmod (x.lineIndex - y.lineIndex) (Nat.pow 2 32)).natAbs ≤ steps)

/-- The drift that repeated rescaling leaves. -/
def drift : Single := 1e-3

/-- The distance of one from the next larger number. -/
def epsilon : Single := (BinaryValue.finite false 1 (-23)).toSingle

instance : Scalar Single where
  decidableLT := inferInstance
  decidableLE := inferInstance
  isFinite := isFinite
  one_usable := by decide

instance : Coordinate Single where
  abs := abs
  round := round
  remainder := remainder
  near := approxEqual drift 4
  coincide := approxEqual epsilon 4
  precedes x y := decide (x.lineIndex < y.lineIndex)

end Single

end FoamTray
