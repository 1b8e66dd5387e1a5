import FoamTray.Numeric.Binary

/-! # Decimal texts of binary floats

    A float is written with the fewest digits that still read back as the same float, and among
    those with the digits nearest to its value. `Shortest` finds the digits in exact arithmetic on
    natural numbers; `DecimalStyle` says how they are laid out.

    * `DecimalStyle.plain` : positional only, as in messages and drawings (`5`, `0.1`, `1000000`).
    * `DecimalStyle.document` : as numbers of a document (`5.0`, `1e-6`, `1.5e+16`).
    * `DecimalStyle.inspection` : as in a dump of a value (`5.0`, `1e-5`, `1e20`).
-/

namespace FoamTray

/-! ## Shortest digits -/

/-- The positive numbers `low ≤ value ≤ high` over one denominator: a value and the ends of the
    interval of numbers that round to it. -/
structure RoundingInterval where
  /-- Numerator of the lower end. -/
  low : Nat
  /-- Numerator of the value. -/
  value : Nat
  /-- Numerator of the upper end. -/
  high : Nat
  /-- The common denominator. -/
  den : Nat
  /-- Whether the ends themselves round to the value (they do when its mantissa is even). -/
  closed : Bool

namespace RoundingInterval

/-- The interval of numbers that round to `mantissa · 2 ^ exponent`. Below a power of two the
    neighbouring float is only half as far away as above it. -/
def ofFloat (f : BinaryFormat) (mantissa : Nat) (exponent : Int) : RoundingInterval :=
  let up := Nat.pow 2 (exponent - 2).toNat
  let below := if mantissa = Nat.pow 2 f.fractionBits ∧ f.minExponent < exponent then 1 else 2
  { low := (4 * mantissa - below) * up
    value := 4 * mantissa * up
    high := (4 * mantissa + 2) * up
    den := Nat.pow 2 (2 - exponent).toNat
    closed := mantissa % 2 == 0 }

/-- Both sides of a comparison of `num / den` with `digits · 10 ^ scale`, over whole numbers. -/
def compared (num den digits : Nat) (scale : Int) : Nat × Nat :=
  (num * Nat.pow 10 (-scale).toNat, digits * Nat.pow 10 scale.toNat * den)

/-- Whether the decimal `digits · 10 ^ scale` rounds to the value. -/
def holds (r : RoundingInterval) (digits : Nat) (scale : Int) : Bool :=
  let (low, d) := compared r.low r.den digits scale
  let (high, _) := compared r.high r.den digits scale
  if r.closed then low ≤ d && d ≤ high else low < d && d < high

/-- The largest `digits` for which `digits · 10 ^ scale` is not above the value. -/
def floorAt (r : RoundingInterval) (scale : Int) : Nat :=
  r.value * Nat.pow 10 (-scale).toNat / (r.den * Nat.pow 10 scale.toNat)

/-- The number of digits before the point of the value: the `p` with
    `10 ^ (p - 1) ≤ value < 10 ^ p`. -/
def pointPosition (r : RoundingInterval) : Int :=
  let bits : Int := r.value.log2 - r.den.log2
  let guess := bits * 30103 / 100000
  if r.floorAt guess = 0 then guess
  else if r.floorAt (guess + 1) = 0 then guess + 1
  else if r.floorAt (guess + 2) = 0 then guess + 2
  else guess + 3

end RoundingInterval

/-- Which of two equally near decimals is taken. -/
inductive DecimalTie where
  /-- The one with the even last digit. -/
  | even
  /-- The larger one. -/
  | up
  deriving DecidableEq, Repr

/-- A positive decimal `digits · 10 ^ scale`. -/
structure Decimal where
  /-- The digits, read as one number. -/
  digits : Nat
  /-- The power of ten that they are counted in. -/
  scale : Int
  deriving DecidableEq, Repr

namespace Decimal

/-- The one of the value's two neighbours `d`, `d + 1` on the grid of `10 ^ scale` that rounds to
    the value and is nearer to it, if one does. -/
def onGrid (r : RoundingInterval) (tie : DecimalTie) (scale : Int) : Option Decimal :=
  let d := r.floorAt scale
  match r.holds d scale, r.holds (d + 1) scale with
  | false, false => none
  | true, false => some ⟨d, scale⟩
  | false, true => some ⟨d + 1, scale⟩
  | true, true =>
      let (value, half) := RoundingInterval.compared (2 * r.value) r.den (2 * d + 1) scale
      if value < half then some ⟨d, scale⟩
      else if half < value then some ⟨d + 1, scale⟩
      else if tie = .even ∧ d % 2 = 0 then some ⟨d, scale⟩
      else some ⟨d + 1, scale⟩

/-- Tries `count` grids, each ten times finer than the one before, from `scale` on. -/
def firstOnGrids (r : RoundingInterval) (tie : DecimalTie) : Nat → Int → Decimal
  | 0, scale => ⟨r.floorAt scale, scale⟩
  | count + 1, scale =>
      match onGrid r tie scale with
      | some d => d
      | none => firstOnGrids r tie count (scale - 1)

/-- The shortest decimal that rounds to `mantissa · 2 ^ exponent`, and of those the nearest.
    Seventeen digits suffice for every format used here. -/
def shortest (f : BinaryFormat) (tie : DecimalTie) (mantissa : Nat) (exponent : Int) : Decimal :=
  let r := RoundingInterval.ofFloat f mantissa exponent
  firstOnGrids r tie 17 (r.pointPosition - 1)

/-- The digits as characters, without zeros at the end, and the position of the point: the value
    is `0.digits · 10 ^ point`. -/
def digitChars (d : Decimal) : List Char × Int :=
  let all := Nat.toDigits 10 d.digits
  let kept := (all.reverse.dropWhile (· == '0')).reverse
  (kept, d.scale + all.length)

end Decimal

/-! ## Layout -/

/-- How a float is written. -/
structure DecimalStyle where
  /-- The choice between two equally near shortest decimals. -/
  tie : DecimalTie
  /-- Whether a whole number ends in `.0`. -/
  fraction : Bool
  /-- Values below one are positional while the point is at least here; `none`: always. -/
  leastPoint : Option Int
  /-- Values are positional while the point is at most here; `none`: always. -/
  greatestPoint : Option Int
  /-- Whether an exponent from zero on has a plus sign. -/
  signedExponent : Bool

namespace DecimalStyle

/-- Messages and drawings: positional, whole numbers without a point. -/
def plain : DecimalStyle := ⟨.up, false, none, none, false⟩

/-- Numbers of a document: at least one fraction digit, an exponent below `1e-5` and from
    `1e16` on. -/
def document : DecimalStyle := ⟨.even, true, some (-4), some 16, true⟩

/-- Dumps of values: at least one fraction digit, an exponent below `1e-4` and from `1e16` on. -/
def inspection : DecimalStyle := ⟨.up, true, some (-3), some 16, false⟩

/-- The digits with the point after the first `point` of them, zeros filled in. -/
def positional (s : DecimalStyle) (digits : List Char) (point : Int) : List Char :=
  if point ≤ 0 then '0' :: '.' :: (List.replicate (-point).toNat '0' ++ digits)
  else
    let whole := digits.take point.toNat ++ List.replicate (point.toNat - digits.length) '0'
    match digits.drop point.toNat with
    | [] => if s.fraction then whole ++ ['.', '0'] else whole
    | rest => whole ++ '.' :: rest

/-- The digits with the point after the first of them and a power of ten. -/
def scientific (s : DecimalStyle) (digits : List Char) (point : Int) : List Char :=
  let exponent := point - 1
  let sign := if exponent < 0 then ['-'] else if s.signedExponent then ['+'] else []
  let mantissa := match digits with
    | [] => []
    | [d] => [d]
    | d :: rest => d :: '.' :: rest
  mantissa ++ 'e' :: (sign ++ Nat.toDigits 10 exponent.natAbs)

/-- The text of a value of the given format. -/
def render (s : DecimalStyle) (f : BinaryFormat) : BinaryValue → String
  | .nan => "NaN"
  | .infinite negative => if negative then "-inf" else "inf"
  | .finite negative m e =>
      let body :=
        if m = 0 then if s.fraction then ['0', '.', '0'] else ['0']
        else
          let (digits, point) := (Decimal.shortest f s.tie m e).digitChars
          if s.leastPoint.all (· ≤ point) && s.greatestPoint.all (point ≤ ·) then
            s.positional digits point
          else s.scientific digits point
      String.ofList (if negative then '-' :: body else body)

end DecimalStyle

/-- The value as a whole number, a half to the even neighbour. -/
def BinaryValue.renderWhole : BinaryValue → String
  | .nan => "NaN"
  | .infinite negative => if negative then "-inf" else "inf"
  | .finite negative m e =>
      let (num, den) := dyadicQuotient m e
      let body := Nat.toDigits 10 (nearestEven num den)
      String.ofList (if negative then '-' :: body else body)

end FoamTray
