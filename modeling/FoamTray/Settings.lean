import FoamTray.Dictionary
import FoamTray.Geometry.Rotation

/-! # Settings

    What an editing session is set up with: limits, defaults and prices. All lengths are
    millimetres. `Settings.check` refuses bounds that are inverted, zero or negative.
-/

namespace FoamTray

/-! ## The settings -/

/-- A width and a height. -/
structure Size (α : Type) where
  /-- The extent from left to right. -/
  width : α
  /-- The extent from top to bottom. -/
  height : α
  deriving DecidableEq, Repr

/-- How trays are made. -/
structure TraySettings (α : Type) where
  /-- The width of a new tray. -/
  defaultWidth : α
  /-- The height of a new tray. -/
  defaultHeight : α
  /-- No side of a tray is shorter. -/
  minSize : α
  /-- The distance of the tray's upper left corner from the origin of the workspace. -/
  offset : α
  /-- The margin along the sides of the tray that nothing may reach into. -/
  padding : α
  /-- Sizes with a name. -/
  presets : Dictionary (Size α)
  deriving DecidableEq, Repr

/-- How far and in which steps the workspace is zoomed. -/
structure ZoomSettings (α : Type) where
  /-- The zoom of a new session. -/
  default : α
  /-- The least zoom. -/
  min : α
  /-- The greatest zoom. -/
  max : α
  /-- The increment of a step. -/
  step : α
  /-- The increment of a coarse step. -/
  coarseStep : α
  deriving DecidableEq, Repr

/-- How labels are set. -/
structure LabelSettings (α : Type) where
  /-- The size of the font. -/
  fontSize : α
  /-- Where a new label begins, seen from the upper right corner of its contour. -/
  defaultOffset : α × α
  /-- How far around its contour a label may be; the clearance if it is not given. -/
  boundsPadding : Option α
  /-- The width of a character as a fraction of the font size. -/
  advanceRatio : α
  /-- The height of a line as a multiple of the font size. -/
  lineHeight : α
  deriving DecidableEq, Repr

/-- The sizes that primitives may have. -/
structure PrimitiveLimits (α : Type) where
  /-- The least width of a rectangle. -/
  rectMinWidth : α
  /-- The greatest width of a rectangle. -/
  rectMaxWidth : α
  /-- The least height of a rectangle. -/
  rectMinHeight : α
  /-- The greatest height of a rectangle. -/
  rectMaxHeight : α
  /-- The least radius of a circle. -/
  circleMinRadius : α
  /-- The greatest radius of a circle. -/
  circleMaxRadius : α
  deriving DecidableEq, Repr

/-- How silhouettes are drawn for comparison. -/
structure RasterSettings where
  /-- Pixels with more alpha than this are ink. -/
  alphaThreshold : Nat
  /-- Whether pixels on an edge are partly covered. -/
  antiAlias : Bool
  deriving DecidableEq, Repr

/-- What an order costs. -/
structure PricingSettings (α : Type) where
  /-- The factor for material that is cut off. -/
  wasteFactor : α
  /-- The price of a square metre of foam. -/
  materialPrice : α
  /-- The price of a metre of cutting. -/
  cuttingPrice : α
  /-- The factor from cost to price. -/
  retailFactor : α
  /-- How often the outside of the tray is cut along. -/
  trayPasses : Nat
  /-- The diameter of the tool that mills pockets. -/
  toolDiameter : α
  deriving DecidableEq, Repr

/-- Everything that a session is set up with. -/
structure Settings (α : Type) where
  /-- How trays are made. -/
  tray : TraySettings α
  /-- How far and in which steps the workspace is zoomed. -/
  zoom : ZoomSettings α
  /-- The least gap between two cuts. -/
  clearance : α
  /-- How labels are set. -/
  labels : LabelSettings α
  /-- The sizes that primitives may have. -/
  primitives : PrimitiveLimits α
  /-- The orientations that a contour may take. -/
  allowedRotations : List Rotation
  /-- How silhouettes are drawn for comparison. -/
  raster : RasterSettings
  /-- What an order costs. -/
  pricing : PricingSettings α
  /-- How long after the last edit the workspace is saved, in milliseconds. -/
  autosaveDelay : Nat
  deriving DecidableEq, Repr

/-- How far around its contour a label may be. -/
def Settings.labelPadding {α : Type} (s : Settings α) : α :=
  s.labels.boundsPadding.getD s.clearance

/-! ## Defaults -/

/-- The default for trays. -/
def TraySettings.standard : TraySettings Single where
  defaultWidth := 565
  defaultHeight := 375
  minSize := 100
  offset := 20
  padding := 8
  presets := .ofList [("SMALL", ⟨190, 375⟩), ("MEDIUM", ⟨380, 375⟩), ("LARGE", ⟨565, 375⟩)]

/-- The default for zooming. -/
def ZoomSettings.standard : ZoomSettings Single where
  default := 1
  min := 0.5
  max := 10
  step := 0.1
  coarseStep := 0.2

/-- The default for labels. -/
def LabelSettings.standard : LabelSettings Single where
  fontSize := 5
  defaultOffset := (6, 0)
  boundsPadding := none
  advanceRatio := 0.6
  lineHeight := 1.16

/-- The default for primitives. -/
def PrimitiveLimits.standard : PrimitiveLimits Single where
  rectMinWidth := 8
  rectMaxWidth := 800
  rectMinHeight := 8
  rectMaxHeight := 400
  circleMinRadius := 4
  circleMaxRadius := 200

/-- The default for drawing. -/
def RasterSettings.standard : RasterSettings where
  alphaThreshold := 64
  antiAlias := true

/-- The default for prices. -/
def PricingSettings.standard : PricingSettings Single where
  wasteFactor := 1.2
  materialPrice := 2500
  cuttingPrice := 15
  retailFactor := 1.5
  trayPasses := 3
  toolDiameter := 6

/-- The defaults. -/
def Settings.standard : Settings Single where
  tray := .standard
  zoom := .standard
  clearance := 6
  labels := .standard
  primitives := .standard
  allowedRotations := Rotation.all
  raster := .standard
  pricing := .standard
  autosaveDelay := 400

/-! ## Checking -/

/-- A side of a primitive that has limits. -/
inductive LimitedSide where
  /-- The width of a rectangle. -/
  | rectWidth
  /-- The height of a rectangle. -/
  | rectHeight
  /-- The radius of a circle. -/
  | circleRadius
  deriving DecidableEq, Repr

/-- The name of a limited side. -/
def LimitedSide.text : LimitedSide → String
  | .rectWidth => "rect width"
  | .rectHeight => "rect height"
  | .circleRadius => "circle radius"

/-- What is wrong with settings. -/
inductive SettingsError (α : Type) where
  /-- The least size of a tray is not positive. -/
  | minSize (value : α)
  /-- The offset or the padding of the tray is negative. -/
  | trayMargins (offset padding : α)
  /-- The zoom bounds are not in order. -/
  | zoomBounds (min default max : α)
  /-- A zoom increment is not positive. -/
  | zoomSteps
  /-- The clearance is negative or not finite. -/
  | clearance (value : α)
  /-- No orientation is allowed. -/
  | noRotation
  /-- A measure of the font is not positive. -/
  | labelMeasures
  /-- The padding of labels is negative. -/
  | labelPadding
  /-- The limits of a primitive are not in order. -/
  | primitiveLimits (side : LimitedSide) (min max : α)
  /-- The tool has no diameter. -/
  | toolDiameter (value : α)
  deriving DecidableEq, Repr

/-- The text that explains what is wrong with settings. -/
def SettingsError.message : SettingsError Single → String
  | .minSize v => "layment.min_size must be positive: " ++ plainText v
  | .trayMargins offset padding =>
      "layment offset and padding cannot be negative: " ++ plainText offset ++ " / " ++
        plainText padding
  | .zoomBounds min default max =>
      "scale bounds must satisfy 0 < min <= default <= max: " ++ plainText min ++ " / " ++
        plainText default ++ " / " ++ plainText max
  | .zoomSteps => "zoom steps must be positive"
  | .clearance v => "clearance cannot be negative: " ++ plainText v
  | .noRotation => "at least one rotation must be allowed"
  | .labelMeasures => "label font size, advance ratio and line height must be positive"
  | .labelPadding => "labels.bounds_padding cannot be negative"
  | .primitiveLimits side min max =>
      side.text ++ " limits must satisfy 0 < min <= max: " ++ plainText min ++ " / " ++
        plainText max
  | .toolDiameter v => "pricing.tool_diameter_mm must be positive: " ++ plainText v

namespace Settings

variable {α : Type} [Scalar α]

/-- Everything that is wrong, in the order in which it is looked for. A comparison with what is
    not a number fails, so such a value is wrong wherever a bound is asked for. -/
def faults (s : Settings α) : List (SettingsError α) :=
  let zero := ((0 : Nat) : α)
  let demand (ok : Bool) (e : SettingsError α) : List (SettingsError α) := if ok then [] else [e]
  let ordered (side : LimitedSide) (min max : α) :=
    demand (zero < min && min ≤ max) (.primitiveLimits side min max)
  demand (zero < s.tray.minSize) (.minSize s.tray.minSize) ++
  demand (zero ≤ s.tray.offset && zero ≤ s.tray.padding)
    (.trayMargins s.tray.offset s.tray.padding) ++
  demand (zero < s.zoom.min && s.zoom.min ≤ s.zoom.default && s.zoom.default ≤ s.zoom.max)
    (.zoomBounds s.zoom.min s.zoom.default s.zoom.max) ++
  demand (zero < s.zoom.step && zero < s.zoom.coarseStep) .zoomSteps ++
  demand (Scalar.isFinite s.clearance && zero ≤ s.clearance) (.clearance s.clearance) ++
  demand (!s.allowedRotations.isEmpty) .noRotation ++
  demand (zero < s.labels.fontSize && zero < s.labels.advanceRatio && zero < s.labels.lineHeight)
    .labelMeasures ++
  demand (s.labels.boundsPadding.all (zero ≤ ·)) .labelPadding ++
  ordered .rectWidth s.primitives.rectMinWidth s.primitives.rectMaxWidth ++
  ordered .rectHeight s.primitives.rectMinHeight s.primitives.rectMaxHeight ++
  ordered .circleRadius s.primitives.circleMinRadius s.primitives.circleMaxRadius ++
  demand (zero < s.pricing.toolDiameter) (.toolDiameter s.pricing.toolDiameter)

/-- The first thing that is wrong with settings; `none` if they are accepted. -/
def fault? (s : Settings α) : Option (SettingsError α) := s.faults.head?

/-- Whether settings are accepted. -/
def Accepted (s : Settings α) : Prop := s.fault? = none

end Settings

end FoamTray
