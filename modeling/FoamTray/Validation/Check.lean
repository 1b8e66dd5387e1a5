import FoamTray.Layout.Edit
import FoamTray.Raster.Bitmap
import FoamTray.Validation.Report

/-! # Validation

    Whether a layout can be produced.

    * Every contour and primitive has to lie inside the safe area of the tray.
    * Every two contours have to keep the clearance. Their boxes, each grown by the clearance, are
      compared first; if these have a common part, both silhouettes, each grown by half the
      clearance, are drawn into it and may not share a pixel of ink.

    A contour without a silhouette, or one that the rasterizer does not draw, is reported as
    unchecked. Validation needs a layout in millimetres; `Layout.check` and `Layout.exportWith`
    see to that.
-/

namespace FoamTray

/-- What comparing two contours came to. -/
inductive PairVerdict where
  /-- The grown boxes have no common part. -/
  | separated
  /-- The silhouettes share no ink. -/
  | apart
  /-- The silhouettes share ink. -/
  | colliding
  /-- A contour could not be drawn. -/
  | unchecked (id : Nat)
  deriving DecidableEq, Repr

/-- A comparison of two contours. -/
structure PairCheck (α : Type) where
  /-- The contour placed first. -/
  first : Nat
  /-- The contour placed second. -/
  second : Nat
  /-- What was found. -/
  verdict : PairVerdict
  /-- What the rasterizer was asked to draw, in order. -/
  requests : List (RenderRequest α)

/-- All pairs of a list, in order. -/
def pairsOf {β : Type} : List β → List (β × β)
  | [] => []
  | a :: rest => rest.map (a, ·) ++ pairsOf rest

namespace Layout

variable {α : Type} [Coordinate α]

/-- The part of the workspace in which two contours may be too close. -/
def commonRegion? (l : Layout α) (a b : Contour α) (s : Settings α) : Option (Rect α) :=
  let clearance := l.zoom.toWorkspace s.clearance
  let grownA := (a.bounds l.zoom).inflate clearance
  let grownB := (b.bounds l.zoom).inflate clearance
  if grownA.collides grownB then Rect.intersection grownA grownB else none

/-- What the rasterizer is asked to draw of a contour; nothing without a silhouette. -/
def renderRequest? (l : Layout α) (c : Contour α) (viewport : Rect α) (s : Settings α) :
    Option (RenderRequest α) := do
  let item ← l.placements.item? c.id
  let silhouette ← item.silhouette
  return { silhouette := silhouette
           placement := c.placement silhouette l.zoom
           dilation := l.zoom.toWorkspace s.clearance / ((2 : Nat) : α)
           viewport := viewport }

/-- Compares two contours. The second one is drawn only if the first one could be. -/
def checkPair (l : Layout α) (rasterizer : Rasterizer α) (s : Settings α) (a b : Contour α) :
    PairCheck α :=
  let answer := PairCheck.mk a.id b.id
  match l.commonRegion? a b s with
  | none => answer .separated []
  | some region =>
      match l.renderRequest? a region s with
      | none => answer (.unchecked a.id) []
      | some requestA =>
          match rasterizer requestA with
          | none => answer (.unchecked a.id) [requestA]
          | some bitmapA =>
              match l.renderRequest? b region s with
              | none => answer (.unchecked b.id) [requestA]
              | some requestB =>
                  match rasterizer requestB with
                  | none => answer (.unchecked b.id) [requestA, requestB]
                  | some bitmapB =>
                      let shared := bitmapA.overlaps bitmapB s.raster.alphaThreshold
                      answer (if shared then .colliding else .apart) [requestA, requestB]

/-- The comparisons of all pairs of contours. -/
def pairChecks (l : Layout α) (rasterizer : Rasterizer α) (s : Settings α) : List (PairCheck α) :=
  (pairsOf l.placements.contours).map fun (a, b) => l.checkPair rasterizer s a b

/-- Where everything has to lie. -/
def safeArea (l : Layout α) (s : Settings α) : Rect α := l.tray.safeArea s.tray.padding l.zoom

/-- The findings about a layout in millimetres. -/
def report (l : Layout α) (rasterizer : Rasterizer α) (s : Settings α) : Report :=
  let safe := l.safeArea s
  let checks := l.pairChecks rasterizer s
  { outOfBoundsContours :=
      (l.placements.contours.filter fun c => !safe.almostContains (c.bounds l.zoom)).map (·.id)
    outOfBoundsPrimitives :=
      (l.primitives.entries.filter fun (_, p) => !safe.almostContains p.bounds).map (·.1)
    collidingPairs := checks.filterMap fun c =>
      if c.verdict = .colliding then some (c.first, c.second) else none
    uncheckedContours := (checks.filterMap fun c =>
      match c.verdict with
      | .unchecked id => some id
      | _ => none).eraseDups }

/-- What the rasterizer is asked to draw in a validation, in order. -/
def renderRequests (l : Layout α) (rasterizer : Rasterizer α) (s : Settings α) :
    List (RenderRequest α) :=
  if l.zoom.isUnit then (l.pairChecks rasterizer s).flatMap (·.requests) else []

/-- The layout with exactly the offenders of a report highlighted. -/
def highlight (l : Layout α) (r : Report) : Layout α :=
  let offenders := r.offendingContours
  { l with
    placements := { l.placements with
      contours := l.placements.contours.map fun c => { c with highlighted := c.id ∈ offenders } }
    primitives := l.primitives.map fun k p =>
      { p with highlighted := k ∈ r.outOfBoundsPrimitives } }

/-- Validates a layout in millimetres and highlights the offenders. -/
def validate (l : Layout α) (rasterizer : Rasterizer α) (s : Settings α) : Attempt α Report :=
  if l.zoom.isUnit then
    let r := l.report rasterizer s
    (.ok r, l.highlight r)
  else (.error (.zoomNotUnit l.zoom.factor), l)

/-- Validates a layout at any zoom. -/
def check (l : Layout α) (rasterizer : Rasterizer α) (s : Settings α) : Attempt α Report :=
  l.atUnitZoom fun l => l.validate rasterizer s

/-- Validates a layout and, if it can be produced, builds a document of it in millimetres. -/
def exportWith {β : Type} (l : Layout α) (rasterizer : Rasterizer α) (s : Settings α)
    (build : Layout α → β) : Attempt α β :=
  l.atUnitZoom fun l =>
    Attempt.andThen (l.validate rasterizer s) fun r l =>
      if r.isOk then (.ok (build l), l) else (.error (.notProducible r.issues), l)

end Layout

end FoamTray
