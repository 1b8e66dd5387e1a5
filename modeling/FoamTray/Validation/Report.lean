import FoamTray.Layout.Basic

/-! # Reports

    What a validation found: entities that reach out of the safe area, pairs of contours that are
    too close, and contours that could not be compared.
-/

namespace FoamTray

/-- The findings of a validation. -/
structure Report where
  /-- Contours that reach out of the safe area, in the order of placing. -/
  outOfBoundsContours : List Nat
  /-- Primitives that reach out of the safe area, in the order of their slots. -/
  outOfBoundsPrimitives : List Key
  /-- Pairs of contours that are too close, in the order of placing. -/
  collidingPairs : List (Nat × Nat)
  /-- Contours that could not be drawn. -/
  uncheckedContours : List Nat
  deriving DecidableEq, Repr

/-- Numbers in order, each once. -/
def sortedIds (ids : List Nat) : List Nat := (ids.mergeSort (· ≤ ·)).eraseDups

namespace Report

/-- The contours that are too close to another one, in order. -/
def collidingContours (r : Report) : List Nat :=
  sortedIds (r.collidingPairs.flatMap fun (a, b) => [a, b])

/-- The contours that break a rule, in order. -/
def offendingContours (r : Report) : List Nat :=
  sortedIds (r.collidingContours ++ r.outOfBoundsContours)

/-- How many entities break each rule. -/
def issues (r : Report) : LayoutIssues where
  outOfBoundsContours := r.outOfBoundsContours.length
  collisionContours := r.collidingContours.length
  outOfBoundsPrimitives := r.outOfBoundsPrimitives.length

/-- Whether no rule is broken. -/
def isOk (r : Report) : Bool := r.issues.isEmpty

end Report

end FoamTray
