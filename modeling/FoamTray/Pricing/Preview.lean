import FoamTray.Catalog
import FoamTray.Document.Workspace
import FoamTray.Pricing.Toolpath

/-! # Prices

    What an order is going to cost: foam by area, cutting by length. The length is that of the
    outside of the tray, of the contours and of the pockets.
-/

namespace FoamTray

/-- The price shown before ordering. -/
structure PricePreview where
  /-- The price of the foam. -/
  material : Int
  /-- The price of cutting. -/
  cutting : Int
  /-- The price of the order. -/
  total : Int
  /-- The length of all cuts in metres. -/
  cuttingMeters : Float
  /-- The area of the tray in square metres. -/
  area : Float
  /-- Contours with a cut of unknown length; they are left out. -/
  missingItems : List String
  deriving DecidableEq, Repr

/-- The nearest whole number, a half away from zero. -/
def wholePrice (x : Float) : Float := (BinaryValue.ofDouble x).roundHalfAway.toDouble

/-- A whole price as an integer of 64 bits. -/
def priceUnits (x : Float) : Int :=
  (BinaryValue.ofDouble x).toIntSaturating int64Min int64Max

namespace PrimitiveRecord

/-- The toolpath of a saved primitive. -/
def toolpath (toolDiameter : Float) : PrimitiveRecord Single → Float
  | .rect _ _ w h => Toolpath.rect (widen w) (widen h) toolDiameter
  | .circle _ _ r => Toolpath.circle (widen r) toolDiameter

end PrimitiveRecord

namespace PricePreview

/-- The price of a tray with contours (each by its item and the length of its cut, if that is
    known) and primitives. -/
def compute (width height : Single) (contours : List (String × Option Single))
    (primitives : List (PrimitiveRecord Single)) (s : PricingSettings Single) : PricePreview :=
  let w := widen width
  let h := widen height
  let area := w * h / 1000000
  let material := wholePrice (area * widen s.wasteFactor * widen s.materialPrice)
  let perimeter := 2 * (w + h) / 1000
  let contourMeters :=
    (contours.filterMap (·.2)).foldl (fun sum length => sum + widen length) 0
  let primitiveMeters :=
    (primitives.map (·.toolpath (widen s.toolDiameter))).foldl (· + ·) (-0.0)
  let passes : Float := ((s.trayPasses : Nat) : Float)
  let meters := passes * perimeter + contourMeters + primitiveMeters
  let cutting := wholePrice (meters * widen s.cuttingPrice)
  let total := wholePrice ((material + cutting) * widen s.retailFactor)
  { material := priceUnits material
    cutting := priceUnits cutting
    total := priceUnits total
    cuttingMeters := meters
    area := area
    missingItems := (contours.filter (·.2.isNone)).map (·.1) }

end PricePreview

end FoamTray
