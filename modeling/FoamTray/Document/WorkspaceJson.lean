import FoamTray.Json.Value
import FoamTray.Document.Workspace
import FoamTray.Primitive

/-! # Workspace documents in JSON

    The kind of a primitive is the field `type` beside its sizes. The whole object is held until
    it is found.
-/

namespace FoamTray

open Json (ofSingle ofNat ofOption ofList fieldIfSome)

/-! ## Writing -/

/-- The tray. -/
def TrayRecord.toJson (t : TrayRecord Single) : Json :=
  .object [("width", ofSingle t.width), ("height", ofSingle t.height),
    ("offset", ofSingle t.offset)]

/-- A contour. -/
def ContourRecord.toJson (c : ContourRecord Single) : Json :=
  .object [("placementId", ofNat c.placementId), ("id", .string c.itemId),
    ("article", .string c.article), ("x", ofSingle c.x), ("y", ofSingle c.y),
    ("angle", ofSingle c.angle), ("scaleOverride", ofSingle c.scaleOverride)]

/-- A primitive. -/
def PrimitiveRecord.toJson : PrimitiveRecord Single → Json
  | .rect x y w h =>
      .object [("type", .string "rect"), ("x", ofSingle x), ("y", ofSingle y),
        ("width", ofSingle w), ("height", ofSingle h)]
  | .circle x y r =>
      .object [("type", .string "circle"), ("x", ofSingle x), ("y", ofSingle y),
        ("radius", ofSingle r)]

/-- A label. -/
def LabelRecord.toJson (l : LabelRecord Single) : Json :=
  .object [("placementId", ofNat l.placementId), ("text", .string l.text), ("x", ofSingle l.x),
    ("y", ofSingle l.y), ("fontSizeMm", ofSingle l.fontSize)]

/-- A workspace. -/
def Workspace.toJson (w : Workspace Single) : Json :=
  .object ([("schemaVersion", ofNat w.schemaVersion)] ++
    fieldIfSome "savedAt" .string w.savedAt ++
    [("layment", w.tray.toJson), ("workspaceScale", ofSingle w.workspaceScale),
      ("baseMaterialColor", .string w.material),
      ("contours", ofList ContourRecord.toJson w.contours),
      ("primitives", ofList PrimitiveRecord.toJson w.primitives),
      ("labels", ofList LabelRecord.toJson w.labels)])

/-- The kind of a primitive. -/
def PrimitiveKind.toJson : PrimitiveKind → Json
  | .rect => .string "rect"
  | .circle => .string "circle"

/-- A shape of a primitive. -/
def PrimitiveShape.toJson : PrimitiveShape Single → Json
  | .rect w h =>
      .object [("type", .string "rect"), ("width", ofSingle w), ("height", ofSingle h)]
  | .circle r => .object [("type", .string "circle"), ("radius", ofSingle r)]

/-! ## Reading -/

/-- The tray. -/
def TrayRecord.ofJson? (v : Json) : Option (TrayRecord Single) := do
  let fs ← v.record? ["width", "height", "offset"]
  return { width := ← Json.required fs "width" Json.single?
           height := ← Json.required fs "height" Json.single?
           offset := ← Json.required fs "offset" Json.single? }

/-- A contour. -/
def ContourRecord.ofJson? (v : Json) : Option (ContourRecord Single) := do
  let fs ← v.record? ["placementId", "id", "article", "x", "y", "angle", "scaleOverride"]
  return { placementId := ← Json.required fs "placementId" (Json.natural? 64)
           itemId := ← Json.required fs "id" Json.string?
           article := ← Json.required fs "article" Json.string?
           x := ← Json.required fs "x" Json.single?
           y := ← Json.required fs "y" Json.single?
           angle := ← Json.required fs "angle" Json.single?
           scaleOverride := ← Json.required fs "scaleOverride" Json.single? }

/-- The kind of a primitive. -/
def PrimitiveKind.ofJson? (v : Json) : Option PrimitiveKind := do
  match ← v.string? with
  | "rect" => some .rect
  | "circle" => some .circle
  | _ => none

/-- The names of the sizes of a kind. -/
def PrimitiveKind.sizeNames : PrimitiveKind → List String
  | .rect => ["width", "height"]
  | .circle => ["radius"]

/-- The kind of a record whose kind stands beside its sizes, and its fields; those of a list are
    the kind, `others` and the sizes. -/
def kindAndFields? (others : List String) (v : Json) :
    Option (PrimitiveKind × List (String × Json)) := do
  match ← v.held? with
  | .array (first :: rest) =>
      let kind ← PrimitiveKind.ofJson? first
      let names := others ++ kind.sizeNames
      return (kind, ← (Json.array rest).record? names)
  | v =>
      let fs ← v.fields?
      return (← Json.required fs "type" PrimitiveKind.ofJson?, fs)

/-- A primitive. -/
def PrimitiveRecord.ofJson? (v : Json) : Option (PrimitiveRecord Single) := do
  let (kind, fs) ← kindAndFields? ["x", "y"] v
  let number (name : String) := Json.required fs name Json.single?
  match kind with
  | .rect => return .rect (← number "x") (← number "y") (← number "width") (← number "height")
  | .circle => return .circle (← number "x") (← number "y") (← number "radius")

/-- A label. -/
def LabelRecord.ofJson? (v : Json) : Option (LabelRecord Single) := do
  let fs ← v.record? ["placementId", "text", "x", "y", "fontSizeMm"]
  return { placementId := ← Json.required fs "placementId" (Json.natural? 64)
           text := ← Json.required fs "text" Json.string?
           x := ← Json.required fs "x" Json.single?
           y := ← Json.required fs "y" Json.single?
           fontSize := ← Json.required fs "fontSizeMm" Json.single? }

/-- A workspace. -/
def Workspace.ofJson? (v : Json) : Option (Workspace Single) := do
  let fs ← v.record? ["schemaVersion", "savedAt", "layment", "workspaceScale",
    "baseMaterialColor", "contours", "primitives", "labels"]
  return { schemaVersion := ← Json.required fs "schemaVersion" (Json.natural? 32)
           savedAt := ← Json.optional fs "savedAt" Json.string?
           tray := ← Json.required fs "layment" TrayRecord.ofJson?
           workspaceScale := ← Json.required fs "workspaceScale" Json.single?
           material := ← Json.required fs "baseMaterialColor" Json.string?
           contours := ← Json.withDefault fs "contours" (Json.list? ContourRecord.ofJson?) []
           primitives := ← Json.withDefault fs "primitives" (Json.list? PrimitiveRecord.ofJson?) []
           labels := ← Json.withDefault fs "labels" (Json.list? LabelRecord.ofJson?) [] }

/-- A shape of a primitive. -/
def PrimitiveShape.ofJson? (v : Json) : Option (PrimitiveShape Single) := do
  let (kind, fs) ← kindAndFields? [] v
  let number (name : String) := Json.required fs name Json.single?
  match kind with
  | .rect => return .rect (← number "width") (← number "height")
  | .circle => return .circle (← number "radius")

end FoamTray
