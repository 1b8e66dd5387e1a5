import FoamTray.Geometry.Silhouette

/-! # Bitmaps

    Silhouettes are compared pixel by pixel. A rasterizer draws a silhouette into a viewport and
    answers a bitmap of alpha values, or nothing if it cannot.
-/

namespace FoamTray

/-- Alpha values, row by row. -/
structure Bitmap where
  /-- The number of columns. -/
  width : Nat
  /-- The number of rows. -/
  height : Nat
  /-- One value for each pixel. -/
  alpha : Array UInt8
  /-- There are as many values as pixels. -/
  size_alpha : alpha.size = width * height
  deriving DecidableEq

namespace Bitmap

/-- The bitmap with the given values, if there are as many as pixels. -/
def make? (width height : Nat) (alpha : Array UInt8) : Option Bitmap :=
  if h : alpha.size = width * height then some ⟨width, height, alpha, h⟩ else none

/-- The alpha of a pixel; outside of the bitmap there is none. -/
def alphaAt? (b : Bitmap) (x y : Nat) : Option UInt8 :=
  if x < b.width ∧ y < b.height then b.alpha[y * b.width + x]? else none

/-- Whether a pixel is ink. -/
def isInk (threshold : Nat) (a : UInt8) : Bool := threshold < a.toNat

/-- The number of pixels that are ink. -/
def inkCount (b : Bitmap) (threshold : Nat) : Nat :=
  b.alpha.foldl (fun n a => if isInk threshold a then n + 1 else n) 0

/-- Whether some pixel is ink in both of two bitmaps of one size. -/
def overlaps (a b : Bitmap) (threshold : Nat) : Bool :=
  a.width == b.width && a.height == b.height &&
    (a.alpha.zip b.alpha).any fun (p, q) => isInk threshold p && isInk threshold q

/-- How many pixels cover an extent: at least one, a pixel that is begun counts. -/
def pixels (extent : Single) : Nat :=
  Nat.max 1 ((BinaryValue.ofSingle extent).ceilSaturating (Nat.pow 2 32 - 1))

/-- The columns and rows of a bitmap that shows a viewport. -/
def dimensions (viewport : Rect Single) : Nat × Nat :=
  (pixels viewport.width, pixels viewport.height)

end Bitmap

/-- What a rasterizer is asked to draw. -/
structure RenderRequest (α : Type) where
  /-- The shape, as drawn in the catalog. -/
  silhouette : Silhouette α
  /-- Where it lies on the workspace. -/
  placement : Transform α
  /-- By how much it is grown on all sides; not at all unless positive. -/
  dilation : α
  /-- The part of the workspace that the bitmap shows. -/
  viewport : Rect α

/-- Draws what it is asked, if it can. -/
abbrev Rasterizer (α : Type) := RenderRequest α → Option Bitmap

namespace Rasterizer

/-- Covers every viewport with a single pixel of ink. -/
def flood {α : Type} : Rasterizer α := fun _ => some ⟨1, 1, #[255], rfl⟩

/-- Draws nothing at all. -/
def nothing {α : Type} : Rasterizer α := fun _ => none

end Rasterizer

end FoamTray
