import FoamTray.Raster.Bitmap
import FoamTray.Raster.Fill
import FoamTray.Raster.Growth
import FoamTray.Settings

/-! # Drawing by coverage

    The rasterizer of the editor. A pixel covers a unit square, the first one at the upper left
    corner of the viewport, and its alpha is the covered fraction of the square. Covered is the
    inside of the outlines and, if the silhouette is grown, every point that is near enough to an
    edge. The inside is exact (`Fill.row`); where more is covered because the silhouette is grown,
    strips of a row show how much (`Growth.row`).
-/

namespace FoamTray

namespace Coverage

/-- The edges that cover points of the row of pixels that is `y` from the top. -/
def edgesNear (es : List Edge) (dilation : Float) (y : Nat) : List Edge :=
  let reach := if 0 < dilation then dilation else 0
  es.filter (Edge.reaches (y.toFloat - reach) (y.toFloat + 1 + reach))

/-- Whether the middle of a pixel is in one of the intervals of the middle line of its row. -/
def coversMiddle (spans : List Growth.Span) (x : Nat) : Bool :=
  let middle := x.toFloat + 0.5
  spans.any fun s => s.left ≤ middle && middle < s.right

/-- Appends the alpha of each pixel of a row. Without shades a pixel is covered if its middle is. -/
def pushRow (edges : List Edge) (dilation : Float) (shades : Bool) (width : Nat)
    (alpha : Array UInt8) (y : Nat) : Array UInt8 :=
  let es := edgesNear edges dilation y
  if shades then
    let grown := if 0 < dilation then Growth.row es dilation width y else .empty 0
    (Fill.row es width y).pushAlpha grown 0 0 0 alpha width
  else
    let spans := Growth.spansAt es (Growth.margins es dilation) (y.toFloat + 0.5)
    (List.range width).foldl
      (fun alpha x => alpha.push (if coversMiddle spans x then 255 else 0)) alpha

/-- A row has one value for each pixel. -/
theorem size_pushRow (edges : List Edge) (dilation : Float) (shades : Bool) (width : Nat)
    (alpha : Array UInt8) (y : Nat) :
    (pushRow edges dilation shades width alpha y).size = alpha.size + width := by
  unfold pushRow
  split
  · exact PixelRow.size_pushAlpha ..
  · simp

/-- Rows have one value for each pixel. -/
theorem size_pushRows (edges : List Edge) (dilation : Float) (shades : Bool) (width : Nat)
    (ys : List Nat) (alpha : Array UInt8) :
    (ys.foldl (pushRow edges dilation shades width) alpha).size =
      alpha.size + width * ys.length := by
  induction ys generalizing alpha with
  | nil => rfl
  | cons y ys ih => simp [ih, size_pushRow, Nat.mul_add]; omega

/-- The bitmap of a silhouette that lies in pixels. -/
def draw (s : Silhouette Single) (dilation : Float) (shades : Bool) (width height : Nat) :
    Bitmap where
  width := width
  height := height
  alpha := (List.range height).foldl
    (pushRow (s.outlines.flatMap Edge.ofOutline) dilation shades width) #[]
  size_alpha := by simp [size_pushRows]

/-- No side of a bitmap is as long. -/
def sideLimit : Nat := Nat.pow 2 29

/-- Draws silhouettes by coverage. A bitmap too large to be held, and a silhouette with a
    coordinate or an extent that is not finite, are not drawn. -/
def rasterizer (r : RasterSettings) : Rasterizer Single := fun request =>
  let (width, height) := Bitmap.dimensions request.viewport
  let placed := request.silhouette.transform
    (request.placement.translate (-request.viewport.xMin) (-request.viewport.yMin))
  if sideLimit ≤ width ∨ sideLimit ≤ height then none
  else if !placed.outlines.flatten.all (·.isFinite) then none
  else if !(placed.width.isFinite && placed.height.isFinite) then none
  else some (draw placed (widen request.dilation) r.antiAlias width height)

end Coverage

end FoamTray
