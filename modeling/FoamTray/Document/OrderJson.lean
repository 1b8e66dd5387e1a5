import FoamTray.Document.Order
import FoamTray.Document.WorkspaceJson

/-! # Orders in JSON -/

namespace FoamTray

open Json (ofSingle ofDouble ofNat ofOption ofList fieldIfSome)

/-! ## Writing -/

/-- A price; contours left out are listed only if there are any. -/
def PricePreview.toJson (p : PricePreview) : Json :=
  .object ([("material", .integer p.material), ("cutting", .integer p.cutting),
      ("total", .integer p.total), ("cuttingMeters", ofDouble p.cuttingMeters),
      ("areaM2", ofDouble p.area)] ++
    if p.missingItems.isEmpty then [] else [("missingContourIds", ofList .string p.missingItems)])

/-- Whether anything is cut out. -/
def TrayKind.toJson : TrayKind → Json
  | .empty => .string "empty"
  | .withTools => .string "with-tools"

/-- What is ordered. -/
def OrderMeta.toJson (m : OrderMeta) : Json :=
  .object [("width", ofSingle m.width), ("height", ofSingle m.height), ("units", .string m.units),
    ("coordinateSystem", .string m.coordinateSystem), ("baseMaterialColor", .string m.material),
    ("laymentType", m.trayKind.toJson), ("pricePreview", m.price.toJson),
    ("workspaceSnapshot", m.workspace.toJson)]

/-- An order. -/
def OrderDocument.toJson (d : OrderDocument) : Json :=
  .object ([("orderMeta", d.orderMeta.toJson)] ++ fieldIfSome "layoutSvg" .string d.drawing ++
    [("contours", ofList ContourRecord.toJson d.contours),
      ("primitives", ofList PrimitiveRecord.toJson d.primitives),
      ("labels", ofList LabelRecord.toJson d.labels)])

/-- An answer of the order service. -/
def OrderResponse.toJson (r : OrderResponse) : Json :=
  .object [("orderId", ofOption .string r.orderId),
    ("pricePreview", ofOption (fun t => .object [("total", ofOption .integer t)]) r.price)]

/-- How many entities break each rule. -/
def LayoutIssues.toJson (i : LayoutIssues) : Json :=
  .object [("outOfBoundsContours", ofNat i.outOfBoundsContours),
    ("collisionContours", ofNat i.collisionContours),
    ("outOfBoundsPrimitives", ofNat i.outOfBoundsPrimitives)]

/-! ## Reading -/

/-- A price. -/
def PricePreview.ofJson? (v : Json) : Option PricePreview := do
  let fs ← v.record? ["material", "cutting", "total", "cuttingMeters", "areaM2",
    "missingContourIds"]
  return { material := ← Json.required fs "material" Json.integer64?
           cutting := ← Json.required fs "cutting" Json.integer64?
           total := ← Json.required fs "total" Json.integer64?
           cuttingMeters := ← Json.required fs "cuttingMeters" Json.double?
           area := ← Json.required fs "areaM2" Json.double?
           missingItems := ← Json.withDefault fs "missingContourIds" (Json.list? Json.string?) [] }

/-- Whether anything is cut out. -/
def TrayKind.ofJson? (v : Json) : Option TrayKind := do
  match ← v.choice? with
  | "empty" => some .empty
  | "with-tools" => some .withTools
  | _ => none

/-- What is ordered. -/
def OrderMeta.ofJson? (v : Json) : Option OrderMeta := do
  let fs ← v.record? ["width", "height", "units", "coordinateSystem", "baseMaterialColor",
    "laymentType", "pricePreview", "workspaceSnapshot"]
  return { width := ← Json.required fs "width" Json.single?
           height := ← Json.required fs "height" Json.single?
           units := ← Json.required fs "units" Json.string?
           coordinateSystem := ← Json.required fs "coordinateSystem" Json.string?
           material := ← Json.required fs "baseMaterialColor" Json.string?
           trayKind := ← Json.required fs "laymentType" TrayKind.ofJson?
           price := ← Json.required fs "pricePreview" PricePreview.ofJson?
           workspace := ← Json.required fs "workspaceSnapshot" Workspace.ofJson? }

/-- An order. -/
def OrderDocument.ofJson? (v : Json) : Option OrderDocument := do
  let fs ← v.record? ["orderMeta", "layoutSvg", "contours", "primitives", "labels"]
  return { orderMeta := ← Json.required fs "orderMeta" OrderMeta.ofJson?
           drawing := ← Json.optional fs "layoutSvg" Json.string?
           contours := ← Json.required fs "contours" (Json.list? ContourRecord.ofJson?)
           primitives := ← Json.required fs "primitives" (Json.list? PrimitiveRecord.ofJson?)
           labels := ← Json.required fs "labels" (Json.list? LabelRecord.ofJson?) }

/-- An answer of the order service. -/
def OrderResponse.ofJson? (v : Json) : Option OrderResponse := do
  let fs ← v.record? ["orderId", "pricePreview"]
  let price (v : Json) : Option (Option Int) := do
    Json.optional (← v.record? ["total"]) "total" Json.integer64?
  return { orderId := ← Json.optional fs "orderId" Json.string?
           price := ← Json.optional fs "pricePreview" price }

end FoamTray
