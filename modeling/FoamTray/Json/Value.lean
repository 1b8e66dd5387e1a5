import FoamTray.Numeric.Machine

/-! # JSON values

    Documents are exchanged as JSON. A value keeps the order of the fields of an object and keeps
    whole numbers apart from numbers with a fraction, because some fields take only the former.

    * A number with a fraction is kept as it was written (`Json.decimal`). A field that takes a
      number rounds it once, to its own precision.
    * A part whose kind is told by another part is held until that one is read (`Json.held?`).
      While it is held its numbers have double precision.
    * A text can be well formed and still hold something that no field can take: half of a
      surrogate pair, nesting without end. Such a part becomes `Json.unreadable`. It does no harm
      where nobody reads it (under an unknown field), and makes the document unusable where
      somebody does. A number beyond the range of a field is treated alike.
-/

namespace FoamTray

/-- A JSON value. -/
inductive Json where
  /-- The absent value. -/
  | null
  /-- A truth value. -/
  | bool (b : Bool)
  /-- A number without fraction and exponent that fits into 64 bits, signed or unsigned. -/
  | integer (n : Int)
  /-- Any other number that was read: `± mantissa · 10 ^ exponent`. -/
  | decimal (negative : Bool) (mantissa : Nat) (exponent : Int)
  /-- A number in single precision. -/
  | single (x : Single)
  /-- A number in double precision. -/
  | double (x : Float)
  /-- A string. -/
  | string (s : String)
  /-- A list of values. -/
  | array (items : List Json)
  /-- Named values, in the order in which they were written. -/
  | object (fields : List (String × Json))
  /-- A part of a well-formed text that has no value. -/
  | unreadable

namespace Json

mutual

/-- The value as it is held until its kind is known, with all numbers in double precision; none
    if some part of it cannot be read. -/
def held? : Json → Option Json
  | .decimal negative mantissa exponent =>
      let x := doubleOfDecimal negative mantissa exponent
      if x.isFinite then some (.double x) else none
  | .array items => (heldItems? items).map .array
  | .object fields => (heldFields? fields).map .object
  | .unreadable => none
  | v => some v

/-- The items of a list as they are held. -/
def heldItems? : List Json → Option (List Json)
  | [] => some []
  | v :: rest => do return (← held? v) :: (← heldItems? rest)

/-- The fields of an object as they are held. -/
def heldFields? : List (String × Json) → Option (List (String × Json))
  | [] => some []
  | (name, v) :: rest => do return (name, ← held? v) :: (← heldFields? rest)

end

/-! ## Writing values -/

/-- A single precision number; what is not finite has no number in JSON. -/
def ofSingle (x : Single) : Json :=
  if x.isFinite then .single x else .null

/-- A double precision number; what is not finite has no number in JSON. -/
def ofDouble (x : Float) : Json :=
  if x.isFinite then .double x else .null

/-- A natural number. -/
def ofNat (n : Nat) : Json := .integer n

/-- The value, or null without one. -/
def ofOption {β : Type} (f : β → Json) : Option β → Json
  | none => .null
  | some v => f v

/-- A list of values. -/
def ofList {β : Type} (f : β → Json) (items : List β) : Json := .array (items.map f)

/-- A pair as a list of two. -/
def ofPair (p : Single × Single) : Json := .array [ofSingle p.1, ofSingle p.2]

/-- A field that is left out without a value. -/
def fieldIfSome {β : Type} (name : String) (f : β → Json) : Option β → List (String × Json)
  | none => []
  | some v => [(name, f v)]

/-! ## Reading values -/

/-- A truth value. -/
def bool? : Json → Option Bool
  | .bool b => some b
  | _ => none

/-- A string. -/
def string? : Json → Option String
  | .string s => some s
  | _ => none

/-- A whole number in `[low, high]`. -/
def integerIn? (low high : Int) : Json → Option Int
  | .integer n => if low ≤ n ∧ n ≤ high then some n else none
  | _ => none

/-- A natural number of at most the given count of bits. -/
def natural? (bits : Nat) (v : Json) : Option Nat :=
  (v.integerIn? 0 ((Nat.pow 2 bits : Nat) - 1)).map Int.toNat

/-- A whole number of 64 bits with a sign. -/
def integer64? (v : Json) : Option Int := v.integerIn? int64Min int64Max

/-- A number in single precision. A number that was read must not round to infinity; one in
    double precision may. -/
def single? : Json → Option Single
  | .integer n => some (BinaryValue.ofInt n).toSingle
  | .decimal negative mantissa exponent =>
      let x := singleOfDecimal negative mantissa exponent
      if x.isFinite then some x else none
  | .single x => some x
  | .double x => some (narrow x)
  | _ => none

/-- A number in double precision. -/
def double? : Json → Option Float
  | .integer n => some (BinaryValue.ofInt n).toDouble
  | .decimal negative mantissa exponent =>
      let x := doubleOfDecimal negative mantissa exponent
      if x.isFinite then some x else none
  | .single x => some (widen x)
  | .double x => some x
  | _ => none

/-- A value that may be null. -/
def nullable? {β : Type} (f : Json → Option β) : Json → Option (Option β)
  | .null => some none
  | v => (f v).map some

/-- A list, item by item. -/
def list? {β : Type} (f : Json → Option β) : Json → Option (List β)
  | .array items => items.mapM f
  | _ => none

/-- A list of exactly two numbers. -/
def pair? : Json → Option (Single × Single)
  | .array [a, b] => do
      let x ← a.single?
      let y ← b.single?
      return (x, y)
  | _ => none

/-- The fields of an object. -/
def fields? : Json → Option (List (String × Json))
  | .object fields => some fields
  | _ => none

/-- One of several named choices: its name, or an object that gives the name no more than null. -/
def choice? : Json → Option String
  | .string name => some name
  | .object [(name, .null)] => some name
  | _ => none

/-! ## Records

    A record is an object, or the list of its values in the order of the record's own names; the
    last ones may be left out. A field that is read may occur only once; all others are
    ignored. -/

/-- The fields of a record with the given names. -/
def record? (names : List String) : Json → Option (List (String × Json))
  | .object fields => some fields
  | .array items => if items.length ≤ names.length then some (names.zip items) else none
  | _ => none

/-- The value of a field, if it occurs exactly once; `some none` if it does not occur. -/
def lookup? (fields : List (String × Json)) (name : String) : Option (Option Json) :=
  match fields.filter (·.1 == name) with
  | [] => some none
  | [(_, v)] => some (some v)
  | _ => none

/-- A field that has to be there. -/
def required {β : Type} (fields : List (String × Json)) (name : String) (f : Json → Option β) :
    Option β := do
  match ← lookup? fields name with
  | none => none
  | some v => f v

/-- A field that stands for a fixed value when it is missing. -/
def withDefault {β : Type} (fields : List (String × Json)) (name : String) (f : Json → Option β)
    (default : β) : Option β := do
  match ← lookup? fields name with
  | none => return default
  | some v => f v

/-- A field that may be missing or null. -/
def optional {β : Type} (fields : List (String × Json)) (name : String) (f : Json → Option β) :
    Option (Option β) :=
  withDefault fields name (nullable? f) none

end Json

end FoamTray
