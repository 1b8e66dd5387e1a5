import FoamTray.Json.Value

/-! # Writing JSON texts

    The compact form has no blanks at all; the indented form has one field or item a line.
-/

namespace FoamTray.Json

/-- A character inside a string: quotes, backslashes and control characters are escaped. -/
def escapeChar (c : Char) : List Char :=
  if c == '"' then ['\\', '"']
  else if c == '\\' then ['\\', '\\']
  else if c == '\n' then ['\\', 'n']
  else if c == '\r' then ['\\', 'r']
  else if c == '\t' then ['\\', 't']
  else if c == '\x08' then ['\\', 'b']
  else if c == '\x0c' then ['\\', 'f']
  else if c < ' ' then
    let ds := Nat.toDigits 16 c.toNat
    ['\\', 'u'] ++ List.replicate (4 - ds.length) '0' ++ ds
  else [c]

/-- A string with its quotes. -/
def quoted (s : String) : String :=
  String.ofList ('"' :: (s.toList.flatMap escapeChar ++ ['"']))

/-- The text of a value that is neither a list nor an object. -/
def scalarText : Json → String
  | .bool b => if b then "true" else "false"
  | .integer n => toString n
  | .decimal negative mantissa exponent =>
      (if negative then "-" else "") ++ toString mantissa ++ "e" ++ toString exponent
  | .single x => DecimalStyle.document.render .single (BinaryValue.ofSingle x)
  | .double x => DecimalStyle.document.render .double (BinaryValue.ofDouble x)
  | .string s => quoted s
  | _ => "null"

mutual

/-- The text of a value without any blanks. -/
def compact : Json → String
  | .array items => "[" ++ compactItems items ++ "]"
  | .object fields => "\x7b" ++ compactFields fields ++ "\x7d"
  | v => scalarText v

/-- The items of a list with commas between them. -/
def compactItems : List Json → String
  | [] => ""
  | [v] => compact v
  | v :: rest => compact v ++ "," ++ compactItems rest

/-- The fields of an object with commas between them. -/
def compactFields : List (String × Json) → String
  | [] => ""
  | [(name, v)] => quoted name ++ ":" ++ compact v
  | (name, v) :: rest => quoted name ++ ":" ++ compact v ++ "," ++ compactFields rest

end

/-- The start of a line at a level of nesting. -/
def indentation (level : Nat) : String := "\n" ++ "".pushn ' ' (2 * level)

mutual

/-- The text of a value with one field or item a line. -/
def indented (level : Nat) : Json → String
  | .array [] => "[]"
  | .array items =>
      "[" ++ indentedItems (level + 1) items ++ indentation level ++ "]"
  | .object [] => "\x7b\x7d"
  | .object fields =>
      "\x7b" ++ indentedFields (level + 1) fields ++ indentation level ++ "\x7d"
  | v => scalarText v

/-- The items of a list, each on its line. -/
def indentedItems (level : Nat) : List Json → String
  | [] => ""
  | [v] => indentation level ++ indented level v
  | v :: rest => indentation level ++ indented level v ++ "," ++ indentedItems level rest

/-- The fields of an object, each on its line. -/
def indentedFields (level : Nat) : List (String × Json) → String
  | [] => ""
  | [(name, v)] => indentation level ++ quoted name ++ ": " ++ indented level v
  | (name, v) :: rest =>
      indentation level ++ quoted name ++ ": " ++ indented level v ++ "," ++
        indentedFields level rest

end

end FoamTray.Json
