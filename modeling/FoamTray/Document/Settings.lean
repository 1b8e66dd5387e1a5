import FoamTray.Json.Value
import FoamTray.Settings

/-! # Settings as documents

    A settings file names only what it changes; whatever it leaves out keeps its default.
-/

namespace FoamTray

open Json (ofSingle ofNat ofOption ofList)

/-! ## Writing -/

/-- An orientation is written as its angle. -/
def Rotation.toJson (r : Rotation) : Json := ofSingle r.angle

/-- A size with its two sides. -/
def Size.toJson (s : Size Single) : Json :=
  .object [("width", ofSingle s.width), ("height", ofSingle s.height)]

/-- A dictionary as an object. -/
def Dictionary.toJson {β : Type} (f : β → Json) (d : Dictionary β) : Json :=
  .object (d.entries.map fun (name, v) => (name, f v))

/-- The settings of trays. -/
def TraySettings.toJson (s : TraySettings Single) : Json :=
  .object [("default_width", ofSingle s.defaultWidth), ("default_height", ofSingle s.defaultHeight),
    ("min_size", ofSingle s.minSize), ("offset", ofSingle s.offset),
    ("padding", ofSingle s.padding), ("presets", s.presets.toJson Size.toJson)]

/-- The settings of zooming. -/
def ZoomSettings.toJson (s : ZoomSettings Single) : Json :=
  .object [("default", ofSingle s.default), ("min", ofSingle s.min), ("max", ofSingle s.max),
    ("step", ofSingle s.step), ("coarse_step", ofSingle s.coarseStep)]

/-- The settings of labels. -/
def LabelSettings.toJson (s : LabelSettings Single) : Json :=
  .object [("font_size_mm", ofSingle s.fontSize), ("default_offset", .ofPair s.defaultOffset),
    ("bounds_padding", ofOption ofSingle s.boundsPadding),
    ("advance_ratio", ofSingle s.advanceRatio), ("line_height", ofSingle s.lineHeight)]

/-- The limits of primitives. -/
def PrimitiveLimits.toJson (s : PrimitiveLimits Single) : Json :=
  .object [("rect_min_width", ofSingle s.rectMinWidth), ("rect_max_width", ofSingle s.rectMaxWidth),
    ("rect_min_height", ofSingle s.rectMinHeight), ("rect_max_height", ofSingle s.rectMaxHeight),
    ("circle_min_radius", ofSingle s.circleMinRadius),
    ("circle_max_radius", ofSingle s.circleMaxRadius)]

/-- The settings of drawing. -/
def RasterSettings.toJson (s : RasterSettings) : Json :=
  .object [("alpha_threshold", ofNat s.alphaThreshold), ("anti_alias", .bool s.antiAlias)]

/-- The settings of prices. -/
def PricingSettings.toJson (s : PricingSettings Single) : Json :=
  .object [("waste_k", ofSingle s.wasteFactor), ("material_price_per_m2", ofSingle s.materialPrice),
    ("cutting_price_per_meter", ofSingle s.cuttingPrice),
    ("rrc_multiplier", ofSingle s.retailFactor), ("layment_passes", ofNat s.trayPasses),
    ("tool_diameter_mm", ofSingle s.toolDiameter)]

/-- All settings. -/
def Settings.toJson (s : Settings Single) : Json :=
  .object [("layment", s.tray.toJson), ("scale", s.zoom.toJson),
    ("clearance", ofSingle s.clearance), ("labels", s.labels.toJson),
    ("primitives", s.primitives.toJson),
    ("allowed_rotations", ofList Rotation.toJson s.allowedRotations),
    ("raster", s.raster.toJson), ("pricing", s.pricing.toJson),
    ("autosave_delay_ms", ofNat s.autosaveDelay)]

/-! ## Reading -/

/-- An orientation is read from any angle that comes to one. -/
def Rotation.ofJson? (v : Json) : Option Rotation := do
  Rotation.normalize? (← v.single?)

/-- A size has both its sides. -/
def Size.ofJson? (v : Json) : Option (Size Single) := do
  let fs ← v.record? ["width", "height"]
  return { width := ← Json.required fs "width" Json.single?
           height := ← Json.required fs "height" Json.single? }

/-- An object as a dictionary; of several fields of one name the last one counts. -/
def Dictionary.ofJson? {β : Type} (f : Json → Option β) (v : Json) : Option (Dictionary β) := do
  let fs ← v.fields?
  return .ofList (← fs.mapM fun (name, v) => (f v).map (name, ·))

/-- The settings of trays. -/
def TraySettings.ofJson? (v : Json) : Option (TraySettings Single) := do
  let fs ← v.record? ["default_width", "default_height", "min_size", "offset", "padding",
    "presets"]
  let d := TraySettings.standard
  let number (name : String) (default : Single) := Json.withDefault fs name Json.single? default
  return { defaultWidth := ← number "default_width" d.defaultWidth
           defaultHeight := ← number "default_height" d.defaultHeight
           minSize := ← number "min_size" d.minSize
           offset := ← number "offset" d.offset
           padding := ← number "padding" d.padding
           presets := ← Json.withDefault fs "presets" (Dictionary.ofJson? Size.ofJson?) d.presets }

/-- The settings of zooming. -/
def ZoomSettings.ofJson? (v : Json) : Option (ZoomSettings Single) := do
  let fs ← v.record? ["default", "min", "max", "step", "coarse_step"]
  let d := ZoomSettings.standard
  let number (name : String) (default : Single) := Json.withDefault fs name Json.single? default
  return { default := ← number "default" d.default
           min := ← number "min" d.min
           max := ← number "max" d.max
           step := ← number "step" d.step
           coarseStep := ← number "coarse_step" d.coarseStep }

/-- The settings of labels. -/
def LabelSettings.ofJson? (v : Json) : Option (LabelSettings Single) := do
  let fs ← v.record? ["font_size_mm", "default_offset", "bounds_padding", "advance_ratio",
    "line_height"]
  let d := LabelSettings.standard
  let number (name : String) (default : Single) := Json.withDefault fs name Json.single? default
  return { fontSize := ← number "font_size_mm" d.fontSize
           defaultOffset := ← Json.withDefault fs "default_offset" Json.pair? d.defaultOffset
           boundsPadding := ← Json.optional fs "bounds_padding" Json.single?
           advanceRatio := ← number "advance_ratio" d.advanceRatio
           lineHeight := ← number "line_height" d.lineHeight }

/-- The limits of primitives. -/
def PrimitiveLimits.ofJson? (v : Json) : Option (PrimitiveLimits Single) := do
  let fs ← v.record? ["rect_min_width", "rect_max_width", "rect_min_height", "rect_max_height",
    "circle_min_radius", "circle_max_radius"]
  let d := PrimitiveLimits.standard
  let number (name : String) (default : Single) := Json.withDefault fs name Json.single? default
  return { rectMinWidth := ← number "rect_min_width" d.rectMinWidth
           rectMaxWidth := ← number "rect_max_width" d.rectMaxWidth
           rectMinHeight := ← number "rect_min_height" d.rectMinHeight
           rectMaxHeight := ← number "rect_max_height" d.rectMaxHeight
           circleMinRadius := ← number "circle_min_radius" d.circleMinRadius
           circleMaxRadius := ← number "circle_max_radius" d.circleMaxRadius }

/-- The settings of drawing. -/
def RasterSettings.ofJson? (v : Json) : Option RasterSettings := do
  let fs ← v.record? ["alpha_threshold", "anti_alias"]
  let d := RasterSettings.standard
  return { alphaThreshold := ← Json.withDefault fs "alpha_threshold" (Json.natural? 8)
             d.alphaThreshold
           antiAlias := ← Json.withDefault fs "anti_alias" Json.bool? d.antiAlias }

/-- The settings of prices. -/
def PricingSettings.ofJson? (v : Json) : Option (PricingSettings Single) := do
  let fs ← v.record? ["waste_k", "material_price_per_m2", "cutting_price_per_meter",
    "rrc_multiplier", "layment_passes", "tool_diameter_mm"]
  let d := PricingSettings.standard
  let number (name : String) (default : Single) := Json.withDefault fs name Json.single? default
  return { wasteFactor := ← number "waste_k" d.wasteFactor
           materialPrice := ← number "material_price_per_m2" d.materialPrice
           cuttingPrice := ← number "cutting_price_per_meter" d.cuttingPrice
           retailFactor := ← number "rrc_multiplier" d.retailFactor
           trayPasses := ← Json.withDefault fs "layment_passes" (Json.natural? 32) d.trayPasses
           toolDiameter := ← number "tool_diameter_mm" d.toolDiameter }

/-- All settings. -/
def Settings.ofJson? (v : Json) : Option (Settings Single) := do
  let fs ← v.record? ["layment", "scale", "clearance", "labels", "primitives",
    "allowed_rotations", "raster", "pricing", "autosave_delay_ms"]
  let d := Settings.standard
  return { tray := ← Json.withDefault fs "layment" TraySettings.ofJson? d.tray
           zoom := ← Json.withDefault fs "scale" ZoomSettings.ofJson? d.zoom
           clearance := ← Json.withDefault fs "clearance" Json.single? d.clearance
           labels := ← Json.withDefault fs "labels" LabelSettings.ofJson? d.labels
           primitives := ← Json.withDefault fs "primitives" PrimitiveLimits.ofJson? d.primitives
           allowedRotations := ← Json.withDefault fs "allowed_rotations"
             (Json.list? Rotation.ofJson?) d.allowedRotations
           raster := ← Json.withDefault fs "raster" RasterSettings.ofJson? d.raster
           pricing := ← Json.withDefault fs "pricing" PricingSettings.ofJson? d.pricing
           autosaveDelay := ← Json.withDefault fs "autosave_delay_ms" (Json.natural? 64)
             d.autosaveDelay }

end FoamTray
