import FoamTray.Json.Value

/-! # Reading JSON texts

    The grammar is strict: no comments, no trailing commas, no leading zeros, nothing after the
    value but blanks. `Json.parse` answers `none` for a text outside the grammar. Parts that are
    inside the grammar but have no value become `Json.unreadable`:

    * a string in which an escaped half of a surrogate pair stands alone;
    * an object with such a string as a name;
    * a list or an object inside more than `maxLevel - 1` others.
-/

namespace FoamTray.Json.Reader

/-- How deep lists and objects may be nested. -/
def maxLevel : Nat := 127

/-- The characters that may stand between the parts of a text. -/
def isBlank (c : Char) : Bool := c == ' ' || c == '\n' || c == '\t' || c == '\r'

/-- The text after leading blanks. -/
def skipBlank (cs : List Char) : List Char := cs.dropWhile isBlank

/-! ## Numbers -/

/-- The value of a digit string. -/
def digitsValue (ds : List Char) : Nat :=
  ds.foldl (fun n d => 10 * n + (d.toNat - '0'.toNat)) 0

/-- The digits at the start of a text, at least one, and the rest. -/
def digits (cs : List Char) : Option (List Char × List Char) :=
  match cs.span Char.isDigit with
  | ([], _) => none
  | found => some found

/-- The digits before the point: a zero stands alone. -/
def wholeDigits : List Char → Option (List Char × List Char)
  | '0' :: c :: rest => if c.isDigit then none else some (['0'], c :: rest)
  | cs => digits cs

/-- A point with digits, if there is a point. -/
def fractionDigits : List Char → Option (Option (List Char) × List Char)
  | '.' :: rest => do
      let (ds, rest) ← digits rest
      return (some ds, rest)
  | cs => some (none, cs)

/-- An exponent with its sign and digits, if there is a mark of one. -/
def exponentPart : List Char → Option (Option Int × List Char)
  | c :: rest =>
      if c == 'e' || c == 'E' then do
        let (negative, rest) := match rest with
          | '-' :: rest => (true, rest)
          | '+' :: rest => (false, rest)
          | rest => (false, rest)
        let (ds, rest) ← digits rest
        let n : Int := digitsValue ds
        return (some (if negative then -n else n), rest)
      else some (none, c :: rest)
  | [] => some (none, [])

/-- The value of a number: whole if it has neither fraction nor exponent and fits into 64 bits.
    The negative zero is not whole; it and a number that fits into 64 bits but for its sign have
    double precision. -/
def numberValue (negative : Bool) (whole : List Char) (fraction : Option (List Char))
    (exponent : Option Int) : Json :=
  let n := digitsValue whole
  if fraction.isNone && exponent.isNone && n < Nat.pow 2 64 then
    if !negative then .integer n
    else if 0 < n && n ≤ Nat.pow 2 63 then .integer (-n)
    else .double (doubleOfDecimal true n 0)
  else
    let tail := fraction.getD []
    .decimal negative (digitsValue (whole ++ tail)) (exponent.getD 0 - tail.length)

/-- The number at the start of a text. -/
def number (cs : List Char) : Option (Json × List Char) := do
  let (negative, cs) := match cs with
    | '-' :: rest => (true, rest)
    | cs => (false, cs)
  let (whole, cs) ← wholeDigits cs
  let (fraction, cs) ← fractionDigits cs
  let (exponent, cs) ← exponentPart cs
  return (numberValue negative whole fraction exponent, cs)

/-! ## Strings -/

/-- A piece of a string: a character, or an escaped unit of sixteen bits. -/
inductive Piece where
  /-- A character as it stands. -/
  | char (c : Char)
  /-- The unit of a four-digit escape. -/
  | unit (u : Nat)

/-- The value of a hexadecimal digit. -/
def hexValue? (c : Char) : Option Nat :=
  if '0' ≤ c ∧ c ≤ '9' then some (c.toNat - '0'.toNat)
  else if 'a' ≤ c ∧ c ≤ 'f' then some (c.toNat - 'a'.toNat + 10)
  else if 'A' ≤ c ∧ c ≤ 'F' then some (c.toNat - 'A'.toNat + 10)
  else none

/-- The character that a one-letter escape stands for. -/
def escapedChar? : Char → Option Char
  | '"' => some '"'
  | '\\' => some '\\'
  | '/' => some '/'
  | 'b' => some '\x08'
  | 'f' => some '\x0c'
  | 'n' => some '\n'
  | 'r' => some '\r'
  | 't' => some '\t'
  | _ => none

/-- The pieces of a string up to its closing quote, in front of those already found (last one
    first), and the text after the quote. -/
def pieces (found : List Piece) : List Char → Option (List Piece × List Char)
  | [] => none
  | '"' :: rest => some (found.reverse, rest)
  | '\\' :: 'u' :: a :: b :: c :: d :: rest => do
      let a ← hexValue? a
      let b ← hexValue? b
      let c ← hexValue? c
      let d ← hexValue? d
      pieces (.unit (((a * 16 + b) * 16 + c) * 16 + d) :: found) rest
  | '\\' :: c :: rest => do
      let e ← escapedChar? c
      pieces (.char e :: found) rest
  | c :: rest => if c == '\\' || c < ' ' then none else pieces (.char c :: found) rest

/-- Whether a unit is the first half of a surrogate pair. -/
def isLead (u : Nat) : Bool := 0xD800 ≤ u && u < 0xDC00

/-- Whether a unit is the second half of a surrogate pair. -/
def isTrail (u : Nat) : Bool := 0xDC00 ≤ u && u < 0xE000

/-- The characters of a string, if no half of a surrogate pair stands alone. -/
def joined : List Piece → Option (List Char)
  | [] => some []
  | .char c :: rest => (joined rest).map (c :: ·)
  | .unit u :: .unit v :: rest =>
      if isLead u && isTrail v then
        (joined rest).map
          (Char.ofNat (0x10000 + (u - 0xD800) * 0x400 + (v - 0xDC00)) :: ·)
      else if isLead u || isTrail u then none
      else (joined (.unit v :: rest)).map (Char.ofNat u :: ·)
  | .unit u :: rest =>
      if isLead u || isTrail u then none else (joined rest).map (Char.ofNat u :: ·)

/-- The string whose opening quote was just read; `some none` if it is well formed but is no
    text. -/
def string (cs : List Char) : Option (Option String × List Char) := do
  let (found, rest) ← pieces [] cs
  return ((joined found).map String.ofList, rest)

/-! ## Values -/

/-- A list or an object at a level of nesting. -/
def atLevel (level : Nat) (v : Json) : Json := if level ≤ maxLevel then v else .unreadable

/-- The object with the given fields, if all names are texts. -/
def objectOf (fields : List (Option String × Json)) : Json :=
  match fields.mapM fun (name, v) => name.map (·, v) with
  | some fields => .object fields
  | none => .unreadable

mutual

/-- The value at the start of a text; a list or an object there stands at `level`. -/
def value (fuel level : Nat) (cs : List Char) : Option (Json × List Char) :=
  match fuel with
  | 0 => none
  | fuel + 1 =>
      match skipBlank cs with
      | '{' :: rest =>
          match skipBlank rest with
          | '}' :: rest => some (atLevel level (.object []), rest)
          | rest => do
              let (fields, rest) ← members fuel level rest
              return (atLevel level (objectOf fields), rest)
      | '[' :: rest =>
          match skipBlank rest with
          | ']' :: rest => some (atLevel level (.array []), rest)
          | rest => do
              let (items, rest) ← elements fuel level rest
              return (atLevel level (.array items), rest)
      | '"' :: rest => do
          let (s, rest) ← string rest
          return (match s with | some s => .string s | none => .unreadable, rest)
      | 'n' :: 'u' :: 'l' :: 'l' :: rest => some (.null, rest)
      | 't' :: 'r' :: 'u' :: 'e' :: rest => some (.bool true, rest)
      | 'f' :: 'a' :: 'l' :: 's' :: 'e' :: rest => some (.bool false, rest)
      | cs => number cs

/-- The items of a list from here on, up to its closing bracket. -/
def elements (fuel level : Nat) (cs : List Char) : Option (List Json × List Char) :=
  match fuel with
  | 0 => none
  | fuel + 1 => do
      let (v, rest) ← value fuel (level + 1) cs
      match skipBlank rest with
      | ',' :: rest => do
          let (items, rest) ← elements fuel level rest
          return (v :: items, rest)
      | ']' :: rest => return ([v], rest)
      | _ => none

/-- The fields of an object from here on, up to its closing brace. -/
def members (fuel level : Nat) (cs : List Char) :
    Option (List (Option String × Json) × List Char) :=
  match fuel with
  | 0 => none
  | fuel + 1 =>
      match skipBlank cs with
      | '"' :: rest => do
          let (name, rest) ← string rest
          match skipBlank rest with
          | ':' :: rest => do
              let (v, rest) ← value fuel (level + 1) rest
              match skipBlank rest with
              | ',' :: rest => do
                  let (fields, rest) ← members fuel level rest
                  return ((name, v) :: fields, rest)
              | '}' :: rest => return ([(name, v)], rest)
              | _ => none
          | _ => none
      | _ => none

end

end FoamTray.Json.Reader

namespace FoamTray.Json

/-- The value of a JSON text. A step of the reader either consumes a character or goes from a
    list to its next item, so twice the length of the text is fuel enough. -/
def parse (text : String) : Option Json :=
  let cs := text.toList
  match Reader.value (2 * cs.length + 2) 1 cs with
  | some (v, rest) => if (Reader.skipBlank rest).isEmpty then some v else none
  | none => none

end FoamTray.Json
