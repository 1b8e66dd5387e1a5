import FoamTray.Text.CharClass

/-! # Quoted texts

    A text inside a message, in quotes. Every character between the quotes can be seen: one that
    cannot be seen by itself is written as its code point.
-/

namespace FoamTray.Text

/-- A character by its code point. -/
def codePoint (c : Char) : List Char := ['\\', 'u', '\x7b'] ++ Nat.toDigits 16 c.toNat ++ ['\x7d']

/-- A character between quotes. -/
def quotedChar (c : Char) : List Char :=
  if c == '"' then ['\\', '"']
  else if c == '\\' then ['\\', '\\']
  else if c == '\n' then ['\\', 'n']
  else if c == '\r' then ['\\', 'r']
  else if c == '\t' then ['\\', 't']
  else if c == '\x00' then ['\\', '0']
  else if CharClass.isUnprintable c || CharClass.isExtending c then codePoint c
  else [c]

/-- The text in quotes. -/
def quoted (s : String) : String :=
  "\"" ++ String.ofList (s.toList.flatMap quotedChar) ++ "\""

end FoamTray.Text
