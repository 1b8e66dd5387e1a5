import FoamTray.Geometry.Silhouette
import FoamTray.Numeric.Machine

/-! # Edges

    A silhouette that lies in pixels is bounded by edges, straight lines from one vertex of an
    outline to the next. Heights are measured from the top and places from the left.
-/

namespace FoamTray

/-- An edge of an outline, in pixels. -/
structure Edge where
  /-- Where it starts, from the left. -/
  x₀ : Float
  /-- Where it starts, from the top. -/
  y₀ : Float
  /-- Where it ends, from the left. -/
  x₁ : Float
  /-- Where it ends, from the top. -/
  y₁ : Float

namespace Edge

/-- The edges of a closed outline. -/
def ofOutline (outline : List (Point Single)) : List Edge :=
  let ends := outline.drop 1 ++ outline.take 1
  (outline.zip ends).map fun (p, q) => ⟨widen p.x, widen p.y, widen q.x, widen q.y⟩

/-- The same edge from its other end. -/
def reversed (e : Edge) : Edge := ⟨e.x₁, e.y₁, e.x₀, e.y₀⟩

/-- The place of an edge at a height between those of its ends. -/
def placeAt (e : Edge) (y : Float) : Float :=
  if y == e.y₀ then e.x₀
  else if y == e.y₁ then e.x₁
  else e.x₀ + (y - e.y₀) / (e.y₁ - e.y₀) * (e.x₁ - e.x₀)

/-- Where an edge crosses the line at height `y`: the place, and one turn down or up. -/
def crossing? (y : Float) (e : Edge) : Option (Float × Int) :=
  if e.y₀ ≤ y ∧ y < e.y₁ then some (e.placeAt y, 1)
  else if e.y₁ ≤ y ∧ y < e.y₀ then some (e.placeAt y, -1)
  else none

/-- Whether some point of an edge is from height `top` to height `bottom`. -/
def reaches (top bottom : Float) (e : Edge) : Bool :=
  (e.y₀ ≤ bottom || e.y₁ ≤ bottom) && (top ≤ e.y₀ || top ≤ e.y₁)

end Edge

end FoamTray
