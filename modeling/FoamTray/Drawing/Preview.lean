import FoamTray.Drawing.Color
import FoamTray.Drawing.Svg
import FoamTray.Layout.Basic

/-! # Previews

    A drawing of a layout as it is, in workspace units: the tray, primitives, contours, labels and
    a headline.
-/

namespace FoamTray

/-- The colours of a drawing. -/
structure Theme where
  /-- A factor for the width of all strokes. -/
  strokeFactor : Single
  /-- The colour of the foam. -/
  trayFill : Color
  /-- The colour of contours. -/
  contourFill : Color
  /-- The colour of primitives. -/
  primitiveFill : Color
  /-- The colour of labels. -/
  labelColor : Color
  /-- The colour of what breaks a rule. -/
  highlightColor : Color
  deriving DecidableEq, Repr

namespace Theme

/-- Dark foam. -/
def foam : Theme where
  strokeFactor := 2
  trayFill := ⟨0x2D, 0x2D, 0x2D⟩
  contourFill := ⟨0xFF, 0xC8, 0x79⟩
  primitiveFill := ⟨0x9E, 0xC9, 0xE2⟩
  labelColor := ⟨0xFF, 0xFF, 0xFF⟩
  highlightColor := ⟨0xD0, 0x00, 0x00⟩

/-- Shades of grey. -/
def gray : Theme where
  strokeFactor := 2.5
  trayFill := ⟨0xD3, 0xD3, 0xD3⟩
  contourFill := ⟨0x7A, 0x7A, 0x7A⟩
  primitiveFill := ⟨0x63, 0x63, 0x63⟩
  labelColor := ⟨0x00, 0x00, 0x00⟩
  highlightColor := ⟨0xD0, 0x00, 0x00⟩

end Theme

/-- What is drawn. -/
structure DrawOptions where
  /-- The colours. -/
  theme : Theme
  /-- Whether the safe area is drawn. -/
  safeArea : Bool
  /-- Whether the bounding boxes of contours are drawn. -/
  boundingBoxes : Bool
  /-- Whether labels are drawn. -/
  labels : Bool
  /-- Whether what breaks a rule is drawn in another colour. -/
  highlightOffenders : Bool
  deriving DecidableEq, Repr

namespace DrawOptions

/-- Everything but bounding boxes, in dark foam. -/
def standard : DrawOptions := ⟨.foam, true, false, true, true⟩

end DrawOptions

namespace Preview

/-- The corners of a rectangle. -/
def corners (r : Rect Single) : List (Single × Single) :=
  [(r.xMin, r.yMin), (r.xMax, r.yMin), (r.xMax, r.yMax), (r.xMin, r.yMax)]

/-- A float in whole units. -/
def wholeText (x : Single) : String := (BinaryValue.ofSingle x).renderWhole

/-- The smaller side of a rectangle. -/
def smallerSide (r : Rect Single) : Single := Scalar.min r.width r.height

/-- The part of the workspace that is drawn: the tray with its offset all around. -/
def viewBox (l : Layout Single) : Rect Single :=
  (l.tray.rect l.zoom).inflate (l.zoom.toWorkspace l.tray.offset)

/-- The width of strokes. -/
def strokeWidth (l : Layout Single) (o : DrawOptions) : Single :=
  smallerSide (viewBox l) * 0.001 * o.theme.strokeFactor

/-- The colour of an entity. -/
def fillOf (o : DrawOptions) (highlighted : Bool) (normal : Color) : String :=
  if highlighted && o.highlightOffenders then o.theme.highlightColor.text else normal.text

/-- The line above the tray. -/
def headline (l : Layout Single) (title : String) : SvgElement :=
  let r := l.tray.rect l.zoom
  let fontSize := smallerSide r * 0.025
  .text
    [("x", plainText r.xMin), ("y", plainText (r.yMin - 0.5 * fontSize)),
      ("font-size", plainText fontSize), ("font-family", "monospace"), ("font-weight", "500")]
    ("width: " ++ wholeText l.tray.width ++ " mm | height: " ++ wholeText l.tray.height ++
      " mm | contours: " ++ toString l.placements.contours.length ++ " | primitives: " ++
      toString l.primitives.size ++ " | " ++ title)

/-- The tray, with its safe area. -/
def trayGroup (l : Layout Single) (s : Settings Single) (o : DrawOptions) : SvgElement :=
  let stroke := strokeWidth l o
  let sheet := SvgElement.path [corners (l.tray.rect l.zoom)]
    [("fill", o.theme.trayFill.text), ("stroke", "black"), ("stroke-width", plainText (2 * stroke))]
    []
  let title := SvgElement.title ("layment, " ++ plainText l.tray.width ++ " x " ++
    plainText l.tray.height ++ " mm, material: " ++ l.material)
  let safe := if o.safeArea then
      [SvgElement.path [corners (l.tray.safeArea s.tray.padding l.zoom)]
        [("fill", "none"), ("stroke", "white"), ("stroke-opacity", "0.4"),
          ("stroke-width", plainText stroke), ("stroke-dasharray", plainText (5 * stroke))]
        []]
    else []
  .node "g" [("id", "layment")] ([sheet, title] ++ safe)

/-- A contour, with its bounding box. -/
def contourElements (l : Layout Single) (o : DrawOptions) (c : Contour Single)
    (item : CatalogItem Single) : List SvgElement :=
  let stroke := strokeWidth l o
  let box := corners (c.bounds l.zoom)
  let parts := match item.silhouette with
    | some s =>
        let t := c.placement s l.zoom
        s.outlines.map fun outline => outline.map fun p => let q := t.apply p; (q.x, q.y)
    | none => [box]
  let title := SvgElement.title ("contour #" ++ toString c.id ++ ", item: " ++ c.itemId ++
    ", article: " ++ item.article ++ ", rotation: " ++ c.rotation.text)
  let shape := SvgElement.path parts
    [("fill", fillOf o c.highlighted o.theme.contourFill), ("fill-rule", "nonzero"),
      ("fill-opacity", "0.8"), ("stroke", "black"), ("stroke-width", plainText stroke)]
    [title]
  let frame := SvgElement.path [box]
    [("fill", "none"), ("stroke", "black"), ("stroke-opacity", "0.3"),
      ("stroke-width", plainText (0.5 * stroke)),
      ("stroke-dasharray", plainText (1 * stroke) ++ " " ++ plainText (2 * stroke))]
    []
  if o.boundingBoxes then [shape, frame] else [shape]

/-- A primitive. -/
def primitiveElement (l : Layout Single) (o : DrawOptions) (p : Primitive Single) :
    SvgElement :=
  let style :=
    [("fill", fillOf o p.highlighted o.theme.primitiveFill), ("fill-opacity", "0.8"),
      ("stroke", "black"), ("stroke-width", plainText (strokeWidth l o))]
  match p.shape with
  | .rect _ _ => SvgElement.path [corners p.bounds] style []
  | .circle r =>
      .node "circle"
        ([("cx", plainText p.position.x), ("cy", plainText p.position.y), ("r", plainText r)] ++
          style) []

/-- The lines of a label. -/
def labelElements (l : Layout Single) (s : Settings Single) (o : DrawOptions)
    (label : Label Single) : List SvgElement :=
  let fontSize := l.zoom.toWorkspace label.fontSize
  let lineHeight := fontSize * s.labels.lineHeight
  (Text.lines label.text).mapIdx fun i line =>
    .text
      [("x", plainText label.position.x),
        ("y", plainText (label.position.y + fontSize + ((i : Nat) : Single) * lineHeight)),
        ("font-size", plainText fontSize), ("font-family", "monospace"),
        ("fill", o.theme.labelColor.text)]
      (String.ofList line)

end Preview

/-- The drawing of a layout as it is. -/
def Layout.drawing (l : Layout Single) (s : Settings Single) (o : DrawOptions)
    (title : String) : String :=
  let box := Preview.viewBox l
  let contours := l.placements.withItems.flatMap fun (c, item) => Preview.contourElements l o c item
  let primitives := l.primitives.values.map (Preview.primitiveElement l o)
  let labels := if o.labels then
      [SvgElement.node "g" [("id", "labels")]
        (l.labels.values.flatMap (Preview.labelElements l s o))]
    else []
  SvgElement.render <| .node "svg"
    [("xmlns", "http://www.w3.org/2000/svg"),
      ("viewBox", " ".intercalate ([box.xMin, box.yMin, box.width, box.height].map plainText))]
    ([Preview.trayGroup l s o, .node "g" [("id", "primitives")] primitives,
      .node "g" [("id", "contours")] contours] ++ labels ++ [Preview.headline l title])

end FoamTray
