import FoamTray.Drawing.Preview
import FoamTray.Json.Value

/-! # Drawing options in JSON

    Options that are left out are off; a theme that is left out is that of dark foam. A theme has
    all its fields.
-/

namespace FoamTray

open Json (ofSingle)

/-! ## Writing -/

/-- A theme. -/
def Theme.toJson (t : Theme) : Json :=
  let color (c : Color) : Json := .string c.text
  .object [("stroke_width_multiplier", ofSingle t.strokeFactor),
    ("layment_fill", color t.trayFill), ("contour_fill", color t.contourFill),
    ("primitive_fill", color t.primitiveFill), ("label_color", color t.labelColor),
    ("highlight_color", color t.highlightColor)]

/-- Options. -/
def DrawOptions.toJson (o : DrawOptions) : Json :=
  .object [("theme", o.theme.toJson), ("safe_area", .bool o.safeArea),
    ("bboxes", .bool o.boundingBoxes), ("labels", .bool o.labels),
    ("highlight_offenders", .bool o.highlightOffenders)]

/-! ## Reading -/

/-- A colour. -/
def Color.ofJson? (v : Json) : Option Color := do
  (Color.parse (← v.string?)).toOption

/-- A theme. -/
def Theme.ofJson? (v : Json) : Option Theme := do
  let fs ← v.record? ["stroke_width_multiplier", "layment_fill", "contour_fill", "primitive_fill",
    "label_color", "highlight_color"]
  return { strokeFactor := ← Json.required fs "stroke_width_multiplier" Json.single?
           trayFill := ← Json.required fs "layment_fill" Color.ofJson?
           contourFill := ← Json.required fs "contour_fill" Color.ofJson?
           primitiveFill := ← Json.required fs "primitive_fill" Color.ofJson?
           labelColor := ← Json.required fs "label_color" Color.ofJson?
           highlightColor := ← Json.required fs "highlight_color" Color.ofJson? }

/-- Options. -/
def DrawOptions.ofJson? (v : Json) : Option DrawOptions := do
  let fs ← v.record? ["theme", "safe_area", "bboxes", "labels", "highlight_offenders"]
  return { theme := ← Json.withDefault fs "theme" Theme.ofJson? .foam
           safeArea := ← Json.withDefault fs "safe_area" Json.bool? false
           boundingBoxes := ← Json.withDefault fs "bboxes" Json.bool? false
           labels := ← Json.withDefault fs "labels" Json.bool? false
           highlightOffenders := ← Json.withDefault fs "highlight_offenders" Json.bool? false }

end FoamTray
