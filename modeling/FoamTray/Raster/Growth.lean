import FoamTray.Raster.Edge
import FoamTray.Raster.PixelRow

/-! # Grown silhouettes

    A grown silhouette covers its inside and every point that is near enough to an edge.

    A row of pixels is cut into thin strips. The covered part of the middle line of a strip is a
    list of intervals, found exactly: one for each turn in which the outlines wind around the line,
    and one for each edge that is near it. No point is farther than half a strip from a middle line,
    so a row shows at least the silhouette that is grown by half a strip less, and at most the one
    that is grown by half a strip more.
-/

namespace FoamTray

namespace Growth

/-- An interval of a line. -/
structure Span where
  /-- Where it starts. -/
  left : Float
  /-- Where it ends. -/
  right : Float

/-- The intervals between crossings, from left to right, in which the turns add up to other than
    zero. -/
def windingSpans (turns : Int) : List (Float × Int) → List Span
  | (x, t) :: (x', t') :: rest =>
      let spans := windingSpans (turns + t) ((x', t') :: rest)
      if turns + t = 0 then spans else ⟨x, x'⟩ :: spans
  | _ => []

/-- The part of the line at height `y` that the outlines wind around. -/
def insideSpans (es : List Edge) (y : Float) : List Span :=
  windingSpans 0 ((es.filterMap (Edge.crossing? y)).mergeSort fun a b => a.1 ≤ b.1)

/-- The interval of both, if there are two. -/
def hull? : Option Span → Option Span → Option Span
  | none, s => s
  | s, none => s
  | some s, some t =>
      some ⟨if t.left < s.left then t.left else s.left,
        if s.right < t.right then t.right else s.right⟩

/-- The part of the line at height `y` within `r` of a point. -/
def diskSpan? (x y₀ r y : Float) : Option Span :=
  let h := y - y₀
  if h * h < r * r then
    let w := (r * r - h * h).sqrt
    some ⟨x - w, x + w⟩
  else none

/-- What is near enough to an edge: a disk around each end, and the rectangle along it. -/
structure Margin where
  /-- The edge. -/
  edge : Edge
  /-- How far the margin reaches. -/
  reach : Float
  /-- The sides of the rectangle; none if the edge is a point. -/
  sides : List Edge

/-- The points within `r` of an edge. -/
def Margin.ofEdge (r : Float) (e : Edge) : Margin :=
  let dx := e.x₁ - e.x₀
  let dy := e.y₁ - e.y₀
  let length := (dx * dx + dy * dy).sqrt
  let nx := -dy / length * r
  let ny := dx / length * r
  let sides : List Edge := if 0 < length then
    [⟨e.x₀ + nx, e.y₀ + ny, e.x₁ + nx, e.y₁ + ny⟩, ⟨e.x₁ + nx, e.y₁ + ny, e.x₁ - nx, e.y₁ - ny⟩,
      ⟨e.x₁ - nx, e.y₁ - ny, e.x₀ - nx, e.y₀ - ny⟩, ⟨e.x₀ - nx, e.y₀ - ny, e.x₀ + nx, e.y₀ + ny⟩]
    else []
  ⟨e, r, sides⟩

/-- The part of the line at height `y` that is in a margin. -/
def Margin.spanAt? (y : Float) (m : Margin) : Option Span :=
  if m.edge.reaches (y - m.reach) (y + m.reach) then
    let disks := hull? (diskSpan? m.edge.x₀ m.edge.y₀ m.reach y)
      (diskSpan? m.edge.x₁ m.edge.y₁ m.reach y)
    m.sides.foldl
      (fun span side => match side.crossing? y with
        | some (x, _) => hull? span (some ⟨x, x⟩)
        | none => span)
      disks
  else none

/-- The margins of edges; none unless the silhouette is grown. -/
def margins (es : List Edge) (dilation : Float) : List Margin :=
  if 0 < dilation then es.map (Margin.ofEdge dilation) else []

/-- Intervals from left to right without overlaps. -/
def merged : List Span → List Span
  | s :: t :: rest =>
      if t.left ≤ s.right then
        merged (⟨s.left, if s.right < t.right then t.right else s.right⟩ :: rest)
      else s :: merged (t :: rest)
  | spans => spans
termination_by spans => spans.length

/-- The covered part of the line at height `y`. -/
def spansAt (es : List Edge) (ms : List Margin) (y : Float) : List Span :=
  let spans := insideSpans es y ++ ms.filterMap (Margin.spanAt? y)
  merged (spans.mergeSort fun s t => s.left ≤ t.left)

/-- Adds an interval that counts with a weight. -/
def addSpan (weight : Float) (row : PixelRow) (s : Span) : PixelRow :=
  if s.left < s.right then
    (row.addSide weight s.left s.left).addSide (-weight) s.right s.right
  else row

/-- The number of strips that a row of pixels is cut into. -/
def strips : Nat := 16

/-- The grown silhouette in the row of pixels that is `y` from the top. -/
def row (es : List Edge) (dilation : Float) (width y : Nat) : PixelRow :=
  let weight := 1 / strips.toFloat
  let ms := margins es dilation
  (List.range strips).foldl
    (fun row i =>
      (spansAt es ms (y.toFloat + (i.toFloat + 0.5) * weight)).foldl (addSpan weight) row)
    (.empty width)

end Growth

end FoamTray
