import FoamTray.Text.Quoted

/-! # Colours

    Colours are written as `#RRGGBB`. They are read with or without the mark, in either case; a
    channel is a hexadecimal number of two characters, which may begin with a plus sign.
-/

namespace FoamTray

/-- A colour of three channels. -/
structure Color where
  /-- The red channel. -/
  red : UInt8
  /-- The green channel. -/
  green : UInt8
  /-- The blue channel. -/
  blue : UInt8
  deriving DecidableEq, Repr

/-- Why a text is no colour. -/
inductive ColorError where
  /-- It does not have six plain characters. -/
  | malformed (text : String)
  /-- A channel is no number. -/
  | invalidDigit
  deriving DecidableEq, Repr

/-- The text that explains why a text is no colour. -/
def ColorError.message : ColorError → String
  | .malformed text => "invalid color: " ++ Text.quoted text ++ ", expected #RRGGBB"
  | .invalidDigit => "invalid digit found in string"

namespace Color

/-- A hexadecimal digit in upper case. -/
def hexDigit (n : Nat) : Char :=
  if n < 10 then Char.ofNat ('0'.toNat + n) else Char.ofNat ('A'.toNat + (n - 10))

/-- A channel with two digits. -/
def channelText (v : UInt8) : List Char := [hexDigit (v.toNat / 16), hexDigit (v.toNat % 16)]

/-- The colour as text. -/
def text (c : Color) : String :=
  String.ofList ('#' :: (channelText c.red ++ channelText c.green ++ channelText c.blue))

/-- The value of a hexadecimal digit. -/
def digitValue? (c : Char) : Option Nat :=
  if '0' ≤ c ∧ c ≤ '9' then some (c.toNat - '0'.toNat)
  else if 'a' ≤ c ∧ c ≤ 'f' then some (c.toNat - 'a'.toNat + 10)
  else if 'A' ≤ c ∧ c ≤ 'F' then some (c.toNat - 'A'.toNat + 10)
  else none

/-- A channel of two characters: two digits, or a plus sign and a digit. -/
def channel? (a b : Char) : Option UInt8 := do
  let low ← digitValue? b
  if a == '+' then return UInt8.ofNat low
  let high ← digitValue? a
  return UInt8.ofNat (16 * high + low)

/-- The colour that a text names. -/
def parse (s : String) : Except ColorError Color :=
  let cs := match s.toList with
    | '#' :: rest => rest
    | cs => cs
  match cs with
  | [a, b, c, d, e, f] =>
      if cs.all (·.toNat < 128) then
        match channel? a b, channel? c d, channel? e f with
        | some red, some green, some blue => .ok ⟨red, green, blue⟩
        | _, _, _ => .error .invalidDigit
      else .error (.malformed s)
  | _ => .error (.malformed s)

end Color

end FoamTray
