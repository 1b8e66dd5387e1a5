import FoamTray.Numeric.Single

/-! # Machine numbers

    Double precision numbers as scalars, the exact conversions between them and single precision
    numbers, and how single precision numbers are written.
-/

namespace FoamTray

/-! ## Exact values and conversions -/

namespace BinaryValue

/-- The exact value of a double precision number. -/
def ofDouble (x : Float) : BinaryValue :=
  BinaryFormat.double.decode x.toBits.toNat

/-- The nearest double precision number. -/
def toDouble (v : BinaryValue) : Float :=
  Float.ofBits (UInt64.ofNat (BinaryFormat.double.encode v))

end BinaryValue

/-- The least integer of 64 bits. -/
def int64Min : Int := -((Nat.pow 2 63 : Nat) : Int)

/-- The greatest integer of 64 bits. -/
def int64Max : Int := ((Nat.pow 2 63 - 1 : Nat) : Int)

/-- The nearest single precision number. -/
def narrow (x : Float) : Single :=
  (BinaryValue.ofDouble x).toSingle

/-- The same number in double precision. -/
def widen (x : Single) : Float :=
  (BinaryValue.ofSingle x).toDouble

/-- The double precision number nearest to a decimal. -/
def doubleOfDecimal (negative : Bool) (mantissa : Nat) (exponent : Int) : Float :=
  Float.ofBits (UInt64.ofNat (BinaryFormat.double.roundDecimal negative mantissa exponent))

/-- The text of a single precision number in a message or a drawing. -/
def plainText (x : Single) : String :=
  DecimalStyle.plain.render .single (BinaryValue.ofSingle x)

/-- The text of a single precision number in a dump of a value. -/
def inspectionText (x : Single) : String :=
  DecimalStyle.inspection.render .single (BinaryValue.ofSingle x)

/-! ## Double precision -/

instance : Scalar Float where
  natCast n := (BinaryValue.ofInt n).toDouble
  intCast n := (BinaryValue.ofInt n).toDouble
  decidableLT := fun a b => Float.decLt a b
  decidableLE := fun a b => Float.decLe a b
  isFinite x := x.isFinite
  one_usable := by decide

end FoamTray
