import FoamTray.Numeric.Machine

/-! # Toolpaths of pockets

    The way of the tool that mills a pocket, in metres. The tool clears a pocket in turns half its
    diameter apart: those of a rectangle shrink from the outside until they have no inside, those
    of a circle grow from the centre. A last turn runs along the side of the pocket.

    The number of turns is bounded by `fuel`; a pocket that needs more has no toolpath. With
    machine numbers a turn can be too small to change anything, and then no fuel suffices: the
    program goes round without end and never answers. `toolpaths_end_iff` tells for which pockets.
-/

namespace FoamTray

namespace Toolpath

variable {α : Type} [Scalar α]

/-- The turns of a rectangle between the given sides, on top of `total`; each is smaller than the
    one before by `step` on every side. -/
def rectTurns (step : α) : Nat → (xMin yMin xMax yMax total : α) → Option α
  | 0, _, _, _, _, _ => none
  | fuel + 1, xMin, yMin, xMax, yMax, total =>
      if xMin < xMax ∧ yMin < yMax then
        rectTurns step fuel (xMin + step) (yMin + step) (xMax - step) (yMax - step)
          (total + ((2 : Nat) : α) * ((xMax - xMin) + (yMax - yMin)) / ((1000 : Nat) : α))
      else some total

/-- The toolpath of a rectangular pocket. -/
def rect? (fuel : Nat) (width height toolDiameter : α) : Option α :=
  let zero := ((0 : Nat) : α)
  let two := ((2 : Nat) : α)
  let step := toolDiameter / two
  if width ≤ zero ∨ height ≤ zero ∨ ¬ zero < step then some zero
  else do
    let start := step + ((1 : Nat) : α)
    let total ← rectTurns step fuel start start (width - start) (height - start) zero
    let w := width - two * step
    let h := height - two * step
    return if zero < w ∧ zero < h then total + two * (w + h) / ((1000 : Nat) : α) else total

/-- The turns of a circle from a radius on, on top of `total`, each larger than the one before by
    `step`, as long as they leave both margins. -/
def circleTurns (pi step roughLimit finish : α) : Nat → (radius total : α) → Option α
  | 0, _, _ => none
  | fuel + 1, radius, total =>
      if radius ≤ roughLimit ∧ radius ≤ finish then
        circleTurns pi step roughLimit finish fuel (radius + step)
          (total + ((2 : Nat) : α) * pi * radius / ((1000 : Nat) : α))
      else some total

/-- The toolpath of a circular pocket. -/
def circle? (pi : α) (fuel : Nat) (radius toolDiameter : α) : Option α :=
  let zero := ((0 : Nat) : α)
  let two := ((2 : Nat) : α)
  let step := toolDiameter / two
  let finish := radius - step
  if radius ≤ zero ∨ finish ≤ zero ∨ ¬ zero < step then some zero
  else do
    let total ← circleTurns pi step (radius - ((3 : Nat) : α)) finish fuel step zero
    return total + two * pi * finish / ((1000 : Nat) : α)

/-! ## Machine numbers -/

/-- More turns than any machine makes. -/
def maxTurns : Nat := Nat.pow 2 62

/-- The ratio of a circle's circumference to its diameter. -/
def pi : Float := 3.141592653589793

/-- The toolpath of a rectangular pocket. Without one the program never returns; the zero that
    stands here for it is not an answer of the program. Prices are those of the program for the
    pockets whose toolpath ends, which `toolpaths_end_iff` tells. -/
def rect (width height toolDiameter : Float) : Float :=
  (rect? maxTurns width height toolDiameter).getD 0

/-- The toolpath of a circular pocket; zero where the program never returns, as for a rectangle. -/
def circle (radius toolDiameter : Float) : Float :=
  (circle? pi maxTurns radius toolDiameter).getD 0

end Toolpath

end FoamTray
