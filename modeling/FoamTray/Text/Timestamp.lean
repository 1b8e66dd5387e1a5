/-! # Timestamps

    A moment of universal time as text, such as `2024-06-19T15:22:45.5Z`.
-/

namespace FoamTray

/-- A moment: seconds since the start of 1970, and nanoseconds on top of them. -/
structure Timestamp where
  /-- Whole seconds. -/
  seconds : Int
  /-- Nanoseconds, less than a second. -/
  nanoseconds : Nat
  deriving DecidableEq, Repr

namespace Timestamp

/-- A number with leading zeros up to a width. -/
def padded (width n : Nat) : String :=
  let ds := Nat.toDigits 10 n
  String.ofList (List.replicate (width - ds.length) '0' ++ ds)

/-- Year, month and day of a day counted from the start of 1970. Years are counted from March, so
    that a leap day is the last day of its year; 400 years have 146097 days. -/
def civilDate (day : Int) : Int × Nat × Nat :=
  let shifted := day + 719468
  let era := shifted / 146097
  let d := (shifted % 146097).toNat
  let year := (d - d / 1460 + d / 36524 - d / 146096) / 365
  let dayOfYear := d - (365 * year + year / 4 - year / 100)
  let month := (5 * dayOfYear + 2) / 153
  let dayOfMonth := dayOfYear - (153 * month + 2) / 5 + 1
  let civilMonth := if month < 10 then month + 3 else month - 9
  (era * 400 + year + (if civilMonth ≤ 2 then 1 else 0), civilMonth, dayOfMonth)

/-- The fraction of a second, without zeros at its end. -/
def fractionText (nanoseconds : Nat) : String :=
  if nanoseconds = 0 then ""
  else "." ++ String.ofList
    (((padded 9 nanoseconds).toList.reverse.dropWhile (· == '0')).reverse)

/-- The moment as text. -/
def text (t : Timestamp) : String :=
  let (year, month, day) := civilDate (t.seconds / 86400)
  let second := (t.seconds % 86400).toNat
  padded 4 year.toNat ++ "-" ++ padded 2 month ++ "-" ++ padded 2 day ++ "T" ++
    padded 2 (second / 3600) ++ ":" ++ padded 2 (second / 60 % 60) ++ ":" ++
    padded 2 (second % 60) ++ fractionText t.nanoseconds ++ "Z"

end Timestamp

end FoamTray
