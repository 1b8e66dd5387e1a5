import FoamTray.Document.Manifest
import FoamTray.Document.Settings

/-! # Manifests in JSON

    The kind of an outline is the field `type`, its numbers are the field `data`. If the numbers
    come first, they are held until the kind is known.
-/

namespace FoamTray

open Json (ofSingle ofNat ofOption ofList fieldIfSome)

/-! ## Writing -/

/-- An outline. -/
def ShapeRecord.toJson : ShapeRecord Single → Json
  | .rectangle xMin yMin width height =>
      .object [("type", .string "rectangle"),
        ("data", .object [("x_min", ofSingle xMin), ("y_min", ofSingle yMin),
          ("width", ofSingle width), ("height", ofSingle height)])]
  | .polygon vertices =>
      .object [("type", .string "simple_polygon"), ("data", ofList .ofPair vertices)]
  | .polygons outlines =>
      .object [("type", .string "multi_polygon"), ("data", ofList (ofList .ofPair) outlines)]

/-- The files of an item. -/
def AssetsRecord.toJson (a : AssetsRecord) : Json :=
  .object ([("svg", .string a.drawing)] ++ fieldIfSome "preview" .string a.preview)

/-- An item. -/
def ItemRecord.toJson (r : ItemRecord Single) : Json :=
  .object ([("id", .string r.id), ("article", .string r.article), ("name", .string r.name)] ++
    fieldIfSome "category" .string r.category ++
    [("enabled", .bool r.enabled), ("cuttingLengthMeters", ofSingle r.cuttingLength)] ++
    fieldIfSome "scaleOverride" ofSingle r.scaleOverride ++
    [("assets", r.assets.toJson)] ++
    fieldIfSome "shape" ShapeRecord.toJson r.shape ++
    fieldIfSome "width" ofSingle r.width ++
    fieldIfSome "height" ofSingle r.height)

/-- A manifest. -/
def Manifest.toJson (m : Manifest Single) : Json :=
  .object [("items", ofList ItemRecord.toJson m.items), ("categories", m.categories.toJson .string)]

/-! ## Reading -/

/-- The numbers of a rectangle. -/
def rectangleOfJson? (v : Json) : Option (ShapeRecord Single) := do
  let fs ← v.fields?
  let number (name : String) := Json.required fs name Json.single?
  return .rectangle (← number "x_min") (← number "y_min") (← number "width") (← number "height")

/-- The vertices of a closed outline. -/
def verticesOfJson? (v : Json) : Option (List (Single × Single)) := Json.list? Json.pair? v

/-- Whether the numbers of an outline come before its kind. -/
def dataFirst (fs : List (String × Json)) : Bool :=
  match fs.find? fun (name, _) => name == "type" || name == "data" with
  | some (name, _) => name == "data"
  | none => false

/-- An outline. -/
def ShapeRecord.ofJson? (v : Json) : Option (ShapeRecord Single) := do
  let fs ← v.record? ["type", "data"]
  let kind ← Json.required fs "type" Json.choice?
  let data ← Json.required fs "data" fun v => if dataFirst fs then v.held? else some v
  match kind with
  | "rectangle" => rectangleOfJson? data
  | "simple_polygon" => return .polygon (← verticesOfJson? data)
  | "multi_polygon" => return .polygons (← Json.list? verticesOfJson? data)
  | _ => none

/-- The files of an item. -/
def AssetsRecord.ofJson? (v : Json) : Option AssetsRecord := do
  let fs ← v.record? ["svg", "preview"]
  return { drawing := ← Json.withDefault fs "svg" Json.string? ""
           preview := ← Json.optional fs "preview" Json.string? }

/-- An item. -/
def ItemRecord.ofJson? (v : Json) : Option (ItemRecord Single) := do
  let fs ← v.record? ["id", "article", "name", "category", "enabled", "cuttingLengthMeters",
    "scaleOverride", "assets", "shape", "width", "height"]
  return { id := ← Json.required fs "id" Json.string?
           article := ← Json.withDefault fs "article" Json.string? ""
           name := ← Json.withDefault fs "name" Json.string? ""
           category := ← Json.optional fs "category" Json.string?
           enabled := ← Json.withDefault fs "enabled" Json.bool? true
           cuttingLength := ← Json.withDefault fs "cuttingLengthMeters" Json.single? 0
           scaleOverride := ← Json.optional fs "scaleOverride" Json.single?
           assets := ← Json.withDefault fs "assets" AssetsRecord.ofJson? ⟨"", none⟩
           shape := ← Json.optional fs "shape" ShapeRecord.ofJson?
           width := ← Json.optional fs "width" Json.single?
           height := ← Json.optional fs "height" Json.single? }

/-- A manifest. -/
def Manifest.ofJson? (v : Json) : Option (Manifest Single) := do
  let fs ← v.record? ["items", "categories"]
  return { items := ← Json.withDefault fs "items" (Json.list? ItemRecord.ofJson?) []
           categories := ← Json.withDefault fs "categories" (Dictionary.ofJson? Json.string?)
             .empty }

end FoamTray
