/-! # Lines of a text

    A line ends at a line feed; a carriage return directly before the line feed belongs to the
    end. The text after the last line feed is a line only if it is not empty.
-/

namespace FoamTray.Text

/-- A line, held last character first, without a carriage return at its end. -/
def withoutReturn : List Char → List Char
  | '\r' :: rest => rest
  | cs => cs

/-- The lines from here on; `current` is the part of the first one already passed, last character
    first. -/
def linesFrom (current : List Char) : List Char → List (List Char)
  | [] => if current.isEmpty then [] else [current.reverse]
  | '\n' :: rest => (withoutReturn current).reverse :: linesFrom [] rest
  | c :: rest => linesFrom (c :: current) rest

/-- The lines of a text. -/
def lines (s : String) : List (List Char) := linesFrom [] s.toList

end FoamTray.Text
