import FoamTray.Proofs.Layout.Consistency

/-! # Validation in closed form

    A validation reads the layout in millimetres and leaves behind the same layout with other
    highlights; an order is made of the highlighted layout. Both stretch the layout back in the
    end.

    * `millimetres` : the layout that is looked at.
    * `validate_eq`, `check_eq`, `exportWith_eq` : the answers and the layouts left behind.
    * `LooksLike.issues_eq` : layouts that show a validation the same have the same issues.
-/

namespace FoamTray

/-! ## Section 1: Answers and layouts left behind -/

namespace Layout

variable {α : Type}

/-- The layout stretched to millimetres. -/
def millimetres [Scalar α] (l : Layout α) : Layout α := l.rescaleTo .unit

theorem Consistent.millimetres [Scalar α] {l : Layout α} (h : l.Consistent) :
    l.millimetres.Consistent :=
  h.rescaleTo .unit

variable [Coordinate α] {l : Layout α} {rasterizer : Rasterizer α} {s : Settings α}

theorem validate_eq (h : l.zoom.isUnit = true) (rasterizer : Rasterizer α) (s : Settings α) :
    l.validate rasterizer s =
      (.ok (l.report rasterizer s), l.highlight (l.report rasterizer s)) := by
  unfold validate
  rw [if_pos h]

theorem validate_of_not_isUnit (h : l.zoom.isUnit = false) (rasterizer : Rasterizer α)
    (s : Settings α) : l.validate rasterizer s = (.error (.zoomNotUnit l.zoom.factor), l) := by
  unfold validate
  rw [h]
  rfl

/-- What a validation leaves behind differs in the highlights only. -/
theorem validate_snd_cases (l : Layout α) (rasterizer : Rasterizer α) (s : Settings α) :
    (l.validate rasterizer s).2 = l ∨ ∃ r, (l.validate rasterizer s).2 = l.highlight r := by
  cases h : l.zoom.isUnit with
  | true => exact .inr ⟨_, by rw [validate_eq h]⟩
  | false => exact .inl (by rw [validate_of_not_isUnit h])

/-- The check of a layout that is in millimetres once it is stretched to unit zoom. -/
theorem check_eq (h : l.millimetres.zoom.isUnit = true) (rasterizer : Rasterizer α)
    (s : Settings α) :
    l.check rasterizer s = (.ok (l.millimetres.report rasterizer s),
      (l.millimetres.highlight (l.millimetres.report rasterizer s)).rescaleTo l.zoom) := by
  unfold check atUnitZoom
  dsimp only
  rw [show l.rescaleTo .unit = l.millimetres from rfl, validate_eq h]

/-- An order is made if the report finds nothing wrong. -/
theorem exportWith_eq {β : Type} (h : l.millimetres.zoom.isUnit = true)
    (rasterizer : Rasterizer α) (s : Settings α) (build : Layout α → β) :
    l.exportWith rasterizer s build =
      (if (l.millimetres.report rasterizer s).isOk then
          .ok (build (l.millimetres.highlight (l.millimetres.report rasterizer s)))
        else .error (.notProducible (l.millimetres.report rasterizer s).issues),
        (l.millimetres.highlight (l.millimetres.report rasterizer s)).rescaleTo l.zoom) := by
  unfold exportWith atUnitZoom
  dsimp only
  rw [show l.rescaleTo .unit = l.millimetres from rfl, validate_eq h, Attempt.andThen_ok]
  split <;> rfl

/-- What an order leaves behind is what a check would. -/
theorem exportWith_snd {β : Type} (l : Layout α) (rasterizer : Rasterizer α) (s : Settings α)
    (build : Layout α → β) :
    (l.exportWith rasterizer s build).2 = (l.check rasterizer s).2 := by
  unfold exportWith check atUnitZoom
  dsimp only
  cases l.rescaleTo .unit |>.validate rasterizer s with
  | mk outcome after =>
    cases outcome with
    | error e => rfl
    | ok r =>
      rw [Attempt.andThen_ok]
      split <;> rfl

/-- A document is built of the highlighted layout in millimetres, and only of a good one. -/
theorem exportWith_ok {β : Type} {build : Layout α → β} {b : β} {after : Layout α}
    (h : l.exportWith rasterizer s build = (.ok b, after)) :
    l.millimetres.zoom.isUnit = true ∧ (l.millimetres.report rasterizer s).isOk = true ∧
      b = build (l.millimetres.highlight (l.millimetres.report rasterizer s)) := by
  cases hz : l.millimetres.zoom.isUnit with
  | false =>
    unfold exportWith atUnitZoom at h
    dsimp only at h
    rw [show l.rescaleTo .unit = l.millimetres from rfl, validate_of_not_isUnit hz] at h
    cases h
  | true =>
    rw [exportWith_eq hz] at h
    have hb := (Prod.mk.inj h).1
    split at hb
    · rename_i hok
      exact ⟨rfl, hok, (Except.ok.inj hb).symm⟩
    · cases hb

theorem Consistent.validate (h : l.Consistent) (rasterizer : Rasterizer α) (s : Settings α) :
    (l.validate rasterizer s).2.Consistent := by
  rcases l.validate_snd_cases rasterizer s with he | ⟨r, he⟩
  · rw [he]
    exact h
  · rw [he]
    exact h.highlight r

theorem Consistent.check (h : l.Consistent) (rasterizer : Rasterizer α) (s : Settings α) :
    (l.check rasterizer s).2.Consistent :=
  (h.millimetres.validate rasterizer s).rescaleTo l.zoom

end Layout

/-! ## Section 2: What a validation sees -/

/-- A contour without its last move and its mark. -/
def Contour.plain {α : Type} (c : Contour α) : Contour α :=
  { c with lastPosition := c.position, highlighted := false }

/-- Pairs of images are images of pairs. -/
theorem pairsOf_map {β γ : Type} (f : β → γ) (bs : List β) :
    pairsOf (bs.map f) = (pairsOf bs).map fun (a, b) => (f a, f b) := by
  induction bs with
  | nil => rfl
  | cons b rest ih =>
    simp only [List.map_cons, pairsOf, ih, List.map_append, List.map_map]
    rfl

namespace Layout

variable {α : Type} [Coordinate α] {l l' : Layout α}

/-- Two layouts that a validation cannot tell apart: moves and marks of contours, keys and marks of
    primitives, labels and the selection may differ. -/
structure LooksLike (l l' : Layout α) : Prop where
  /-- The same zoom. -/
  zoom : l'.zoom = l.zoom
  /-- The same tray. -/
  tray : l'.tray = l.tray
  /-- The same contours, in order. -/
  contours : l'.placements.contours.map Contour.plain = l.placements.contours.map Contour.plain
  /-- With the same items. -/
  items : l'.placements.items = l.placements.items
  /-- Primitives with the same boxes, in order. -/
  primitives : l'.primitives.values.map Primitive.bounds = l.primitives.values.map Primitive.bounds

theorem LooksLike.checkPair (h : l.LooksLike l') (rasterizer : Rasterizer α) (s : Settings α)
    (a b : Contour α) : l'.checkPair rasterizer s a b = l.checkPair rasterizer s a b := by
  unfold Layout.checkPair commonRegion? renderRequest? Placements.item?
  rw [h.zoom, h.items]

/-- The same pairs are compared, with the same outcomes. -/
theorem LooksLike.pairChecks (h : l.LooksLike l') (rasterizer : Rasterizer α) (s : Settings α) :
    l'.pairChecks rasterizer s = l.pairChecks rasterizer s := by
  -- a comparison reads nothing of a contour that its plain form has not
  have hplain : ∀ m : Layout α, m.pairChecks rasterizer s =
      (pairsOf (m.placements.contours.map Contour.plain)).map
        fun e => m.checkPair rasterizer s e.1 e.2 := by
    intro m
    rw [pairsOf_map, List.map_map]
    rfl
  rw [hplain l', hplain l, h.contours]
  refine List.map_congr_left fun e _ => ?_
  exact h.checkPair rasterizer s e.1 e.2

/-- The same contours lie outside of the safe area. -/
theorem LooksLike.outOfBoundsContours (h : l.LooksLike l') (rasterizer : Rasterizer α)
    (s : Settings α) : (l'.report rasterizer s).outOfBoundsContours =
      (l.report rasterizer s).outOfBoundsContours := by
  have hplain : ∀ m : Layout α, (m.report rasterizer s).outOfBoundsContours =
      ((m.placements.contours.map Contour.plain).filter fun c =>
        !(m.safeArea s).almostContains (c.bounds m.zoom)).map (·.id) := by
    intro m
    rw [List.filter_map, List.map_map]
    rfl
  rw [hplain l', hplain l, h.contours]
  unfold safeArea
  rw [h.tray, h.zoom]

/-- As many primitives lie outside of it. -/
theorem LooksLike.outOfBoundsPrimitives (h : l.LooksLike l') (rasterizer : Rasterizer α)
    (s : Settings α) : (l'.report rasterizer s).outOfBoundsPrimitives.length =
      (l.report rasterizer s).outOfBoundsPrimitives.length := by
  have hboxes : ∀ m : Layout α, (m.report rasterizer s).outOfBoundsPrimitives.length =
      ((m.primitives.values.map Primitive.bounds).filter fun box =>
        !(m.safeArea s).almostContains box).length := by
    intro m
    unfold SlotTable.values
    rw [List.map_map, List.filter_map, List.length_map]
    exact List.length_map _
  rw [hboxes l', hboxes l, h.primitives]
  unfold safeArea
  rw [h.tray, h.zoom]

/-- Layouts that look alike have the same issues. -/
theorem LooksLike.issues_eq (h : l.LooksLike l') (rasterizer : Rasterizer α) (s : Settings α) :
    (l'.report rasterizer s).issues = (l.report rasterizer s).issues := by
  have hpairs : (l'.report rasterizer s).collidingPairs =
      (l.report rasterizer s).collidingPairs := by
    unfold report
    dsimp only
    rw [h.pairChecks]
  unfold Report.issues Report.collidingContours
  rw [h.outOfBoundsContours, h.outOfBoundsPrimitives, hpairs]

end Layout

end FoamTray
