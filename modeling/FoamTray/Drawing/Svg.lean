import FoamTray.Numeric.Machine

/-! # SVG texts

    One element a line, attributes in the order of their names, text escaped. The text of a title
    stays on the line of its element, that of a text element has a line of its own.
-/

namespace FoamTray

/-- An element of a drawing. -/
inductive SvgElement where
  /-- An element with others inside. -/
  | node (name : String) (attributes : List (String × String)) (children : List SvgElement)
  /-- A title. -/
  | title (content : String)
  /-- A text. -/
  | text (attributes : List (String × String)) (content : String)

namespace SvgElement

/-- A character of a text. -/
def escapeChar (c : Char) : List Char :=
  if c == '&' then "&amp;".toList
  else if c == '<' then "&lt;".toList
  else if c == '>' then "&gt;".toList
  else [c]

/-- A text without characters that would be markup. -/
def escaped (s : String) : String := String.ofList (s.toList.flatMap escapeChar)

/-- The value of an attribute: quotes would end it. -/
def escapedValue (s : String) : String :=
  String.ofList (s.toList.flatMap fun c => if c == '"' then "&quot;".toList else escapeChar c)

/-- Attributes in the order of their names. -/
def attributesText (attributes : List (String × String)) : String :=
  let sorted := attributes.mergeSort fun a b => a.1 < b.1 || a.1 == b.1
  String.join (sorted.map fun (name, value) => " " ++ name ++ "=\"" ++ escapedValue value ++ "\"")

mutual

/-- The lines of an element. -/
def render : SvgElement → String
  | .node name attributes [] => "<" ++ name ++ attributesText attributes ++ "/>"
  | .node name attributes children =>
      "<" ++ name ++ attributesText attributes ++ ">" ++ renderAll children ++ "\n</" ++ name ++ ">"
  | .title content => "<title>" ++ escaped content ++ "</title>"
  | .text attributes content =>
      "<text" ++ attributesText attributes ++ ">\n" ++ escaped content ++ "\n</text>"

/-- The lines of several elements, each begun on a new line. -/
def renderAll : List SvgElement → String
  | [] => ""
  | e :: rest => "\n" ++ render e ++ renderAll rest

end

/-! ## Paths -/

/-- A point of a path. -/
def pointText (p : Single × Single) : String := plainText p.1 ++ "," ++ plainText p.2

/-- The data of a closed path through points. -/
def closedPath : List (Single × Single) → Option String
  | [] => none
  | first :: rest =>
      some (" ".intercalate
        (("M" ++ pointText first) :: rest.map (fun p => "L" ++ pointText p) ++ ["z"]))

/-- A path of closed parts. -/
def path (parts : List (List (Single × Single))) (style : List (String × String))
    (children : List SvgElement) : SvgElement :=
  .node "path" (("d", " ".intercalate (parts.filterMap closedPath)) :: style) children

end SvgElement

end FoamTray
