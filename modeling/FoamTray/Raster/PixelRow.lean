/-! # Rows of pixels

    The covered fraction of each pixel of a row. What is covered is added side by side: all that is
    to the right of a left side is covered, and all that is to the right of a right side is not.
    Far from a side all pixels change by the same amount, so a row is held as what each pixel has
    more than the one on its left, and a side changes only the pixels that it runs through and one
    more.
-/

namespace FoamTray

/-- The coverage of a row of pixels. -/
structure PixelRow where
  /-- By how much more each pixel is covered than the one on its left. -/
  rises : FloatArray

namespace PixelRow

/-- A row of which nothing is covered. -/
def empty (width : Nat) : PixelRow := ⟨⟨Array.replicate width 0⟩⟩

/-- Adds to a pixel and all on its right. -/
def riseAt (row : PixelRow) (i : Nat) (v : Float) : PixelRow :=
  if i < row.rises.size then ⟨row.rises.set! i (row.rises.get! i + v)⟩ else row

/-- The fraction of the pixel that begins at place `left` to the right of a straight side that runs
    through the row from place `low` to place `high`, not left of `low`. -/
def rightOf (low high left : Float) : Float :=
  let right := left + 1
  if high ≤ left then 1
  else if right ≤ low then 0
  else if low < high then
    let p := if low < left then left else low
    let q := if right < high then right else high
    ((p - low) + (q - p) * (right - (p + q) / 2)) / (high - low)
  else right - low

/-- Adds what is to the right of a side to `count` pixels, from pixel `i` at place `left` on. The
    pixel on its left has the fraction `before` to the right of the side. -/
def addFrom (row : PixelRow) (weight low high : Float) (i : Nat) (left before : Float) :
    Nat → PixelRow
  | 0 => row
  | count + 1 =>
      let part := rightOf low high left
      addFrom (row.riseAt i (weight * (part - before))) weight low high (i + 1) (left + 1) part
        count

/-- The pixel at a place; the first one if the place is left of the row, the one after the last if
    it is right of it. -/
def pixelAt (row : PixelRow) (x : Float) : Nat :=
  if x < 0 then 0
  else if row.rises.size.toFloat ≤ x then row.rises.size
  else x.floor.toUInt64.toNat

/-- Adds what is to the right of a straight side between two places, with the height of the side as
    weight, negative to take it away. -/
def addSide (row : PixelRow) (weight x x' : Float) : PixelRow :=
  let low := if x' < x then x' else x
  let high := if x' < x then x else x'
  let i := row.pixelAt low
  row.addFrom weight low high i i.toFloat 0 (row.pixelAt high + 2 - i)

/-! ## Shades -/

/-- The alpha of a covered fraction. -/
def alphaOf (fraction : Float) : UInt8 :=
  let scaled := (fraction * 255).round
  if scaled < 0 then 0 else if 255 < scaled then 255 else scaled.toUInt8

/-- The rise of a pixel; none outside of the row. -/
def riseOf (row : PixelRow) (i : Nat) : Float :=
  if i < row.rises.size then row.rises.get! i else 0

/-- Appends the alpha of `count` pixels from pixel `i` on, each for the greater fraction of two
    rows. The fractions of the pixels on the left of pixel `i` are given. -/
def pushAlpha (a b : PixelRow) (i : Nat) (fraction fraction' : Float) (alpha : Array UInt8) :
    Nat → Array UInt8
  | 0 => alpha
  | count + 1 =>
      let fraction := fraction + a.riseOf i
      let fraction' := fraction' + b.riseOf i
      let greater := if fraction < fraction' then fraction' else fraction
      pushAlpha a b (i + 1) fraction fraction' (alpha.push (alphaOf greater)) count

/-- As many values are appended as there are pixels. -/
theorem size_pushAlpha (a b : PixelRow) (i : Nat) (fraction fraction' : Float)
    (alpha : Array UInt8) (count : Nat) :
    (pushAlpha a b i fraction fraction' alpha count).size = alpha.size + count := by
  induction count generalizing i fraction fraction' alpha with
  | zero => rfl
  | succ count ih => simp [pushAlpha, ih]; omega

end PixelRow

end FoamTray
