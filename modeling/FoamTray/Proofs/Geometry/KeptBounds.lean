import FoamTray.Proofs.Catalog.Import
import FoamTray.Proofs.Numeric.Exact

/-! # Boxes that are kept

    A silhouette keeps the box of its vertices beside them. The box is computed when a silhouette
    is made of outlines and when it is mapped, but taken over from the rectangle when it is made of
    one. It is the same box in all three cases, down to the signs of zeros, so it can stand for the
    vertices wherever they are finite.

    * `Drawn` : the silhouettes that a shape is drawn as.
    * `Current` : the box that is kept is the one that would be computed.
    * `Snug` : the box that is kept holds all vertices, and none of its sides could be moved inwards.
    * `bounds_stay_snug` : after any maps the box is snug, and the outlines are as long as before.
-/

namespace FoamTray.Silhouette

/-! ## Section 1: Silhouettes that are drawn -/

/-- The silhouettes that a shape is drawn as: made of outlines, or of a rectangle with an inside and
    finite sides. -/
inductive Drawn : Silhouette Single → Prop where
  | make {outlines : List (List (Point Single))} {s : Silhouette Single}
      (h : make outlines = .ok s) : Drawn s
  | ofRect {xMin yMin xMax yMax : Single} {r : Rect Single}
      (h : Rect.make xMin yMin xMax yMax = .ok r)
      (hfinite : ∀ side ∈ [xMin, yMin, xMax, yMax], side.isFinite = true) : Drawn (ofRect r)

/-- There are vertices, and the box that is kept is the one that would be computed. -/
structure Current (s : Silhouette Single) : Prop where
  vertices : s.outlines.flatten ≠ []
  bounds : s.bounds = boundsOf s.outlines.flatten

/-- The corners of a rectangle have the sides of the rectangle as their ends. -/
theorem extent_corners {a b : Single} (h : a.lineIndex < b.lineIndex) :
    extent [a, b, b, a] = (a, b) ∧ extent [a, a, b, b] = (a, b) := by
  have hab : Coordinate.precedes a b = true := (Single.precedes_iff a b).mpr h
  have hba : Coordinate.precedes b a = false := by
    rw [Bool.eq_false_iff, Ne, Single.precedes_iff]
    exact h.not_gt
  have hself : ∀ x : Single, Coordinate.precedes x x = false := by
    intro x
    rw [Bool.eq_false_iff, Ne, Single.precedes_iff]
    exact lt_irrefl _
  simp [extent, hab, hba, hself]

theorem Drawn.current {s : Silhouette Single} (h : s.Drawn) : s.Current := by
  cases h with
  | make h =>
    obtain ⟨rfl, hsome, hlong, -, -, -⟩ := make_eq_ok h
    refine ⟨?_, rfl⟩
    obtain ⟨o, rest, rfl⟩ := List.exists_cons_of_ne_nil hsome
    have hvertices : 3 ≤ o.length := hlong o List.mem_cons_self
    intro hnone
    rw [List.flatten_cons, List.append_eq_nil_iff] at hnone
    rw [hnone.1] at hvertices
    cases hvertices
  | @ofRect xMin yMin xMax yMax r h hfinite =>
    obtain ⟨rfl, hwidth, hheight⟩ := Rect.make_eq_ok h
    refine ⟨List.cons_ne_nil _ _, ?_⟩
    have hx := extent_corners (Single.lineIndex_lt_of_lt (hfinite xMin (by simp))
      (hfinite xMax (by simp)) hwidth)
    have hy := extent_corners (Single.lineIndex_lt_of_lt (hfinite yMin (by simp))
      (hfinite yMax (by simp)) hheight)
    show _ = Rect.mk (extent [xMin, xMax, xMax, xMin]).1 (extent [yMin, yMin, yMax, yMax]).1
      (extent [xMin, xMax, xMax, xMin]).2 (extent [yMin, yMin, yMax, yMax]).2
    rw [hx.1, hy.2]
    rfl

/-! ## Section 2: Maps -/

/-- A map that is applied computes the box anew. -/
theorem Current.transform {s : Silhouette Single} (h : s.Current) (t : Transform Single) :
    (s.transform t).Current := by
  refine ⟨?_, rfl⟩
  show (s.outlines.map (·.map t.apply)).flatten ≠ []
  rw [← List.map_flatten]
  simpa using h.vertices

theorem Current.foldl_transform {s : Silhouette Single} (h : s.Current)
    (maps : List (Transform Single)) : (maps.foldl Silhouette.transform s).Current := by
  induction maps generalizing s with
  | nil => exact h
  | cons t rest ih => exact ih (h.transform t)

/-- A map takes every vertex somewhere. -/
theorem lengths_transform {α : Type} [Coordinate α] (s : Silhouette α) (t : Transform α) :
    (s.transform t).outlines.map List.length = s.outlines.map List.length := by
  show (s.outlines.map (·.map t.apply)).map List.length = _
  rw [List.map_map]
  exact List.map_congr_left fun _ _ => List.length_map _

theorem lengths_foldl_transform {α : Type} [Coordinate α] (s : Silhouette α)
    (maps : List (Transform α)) :
    (maps.foldl transform s).outlines.map List.length = s.outlines.map List.length := by
  induction maps generalizing s with
  | nil => rfl
  | cons t rest ih => exact (ih (s.transform t)).trans (s.lengths_transform t)

/-! ## Section 3: Boxes that fit -/

/-- The box that is kept holds every vertex of every outline, and on each of its sides there is one
    of them. -/
structure Snug (s : Silhouette Single) : Prop where
  inside : ∀ o ∈ s.outlines, ∀ p ∈ o, s.bounds.collidesPoint p = true
  left : ∃ o ∈ s.outlines, ∃ p ∈ o, p.x = s.bounds.xMin
  upper : ∃ o ∈ s.outlines, ∃ p ∈ o, p.y = s.bounds.yMin
  right : ∃ o ∈ s.outlines, ∃ p ∈ o, p.x = s.bounds.xMax
  lower : ∃ o ∈ s.outlines, ∃ p ∈ o, p.y = s.bounds.yMax

/-- Finite coordinates are between their ends for the machine as well. -/
theorem extent_le {vs : List Single} (hfinite : ∀ v ∈ vs, v.isFinite = true) {v : Single}
    (hv : v ∈ vs) : (extent vs).1 ≤ v ∧ v ≤ (extent vs).2 := by
  obtain ⟨hlow, hhigh⟩ := extent_between Single.precedes_iff hv
  obtain ⟨hlow', hhigh'⟩ := extent_mem (List.ne_nil_of_mem hv)
  exact ⟨Single.le_of_lineIndex_le (hfinite _ hlow') (hfinite v hv) hlow,
    Single.le_of_lineIndex_le (hfinite v hv) (hfinite _ hhigh') hhigh⟩

/-- Where all vertices are finite, the box that would be computed is snug. -/
theorem Current.snug {s : Silhouette Single} (h : s.Current)
    (hfinite : ∀ p ∈ s.outlines.flatten, p.isFinite = true) : s.Snug := by
  have hx : ∀ v ∈ s.outlines.flatten.map (·.x), v.isFinite = true := by
    intro v hv
    obtain ⟨p, hp, rfl⟩ := List.mem_map.mp hv
    exact (Bool.and_eq_true_iff.mp (hfinite p hp)).1
  have hy : ∀ v ∈ s.outlines.flatten.map (·.y), v.isFinite = true := by
    intro v hv
    obtain ⟨p, hp, rfl⟩ := List.mem_map.mp hv
    exact (Bool.and_eq_true_iff.mp (hfinite p hp)).2
  -- an end of the coordinates is the coordinate of a vertex, which is on some outline
  have hattained : ∀ {f : Point Single → Single} {v : Single}, v ∈ s.outlines.flatten.map f →
      ∃ o ∈ s.outlines, ∃ p ∈ o, f p = v := by
    intro f v hv
    obtain ⟨p, hp, heq⟩ := List.mem_map.mp hv
    obtain ⟨o, ho, hpo⟩ := List.mem_flatten.mp hp
    exact ⟨o, ho, p, hpo, heq⟩
  have hne : ∀ f : Point Single → Single, s.outlines.flatten.map f ≠ [] := by
    intro f
    simpa using h.vertices
  have hxEnds := extent_mem (hne (·.x))
  have hyEnds := extent_mem (hne (·.y))
  constructor
  case inside =>
    intro o ho p hp
    have hmem : p ∈ s.outlines.flatten := List.mem_flatten.mpr ⟨o, ho, hp⟩
    obtain ⟨hleft, hright⟩ := extent_le hx (List.mem_map_of_mem hmem)
    obtain ⟨hupper, hlower⟩ := extent_le hy (List.mem_map_of_mem hmem)
    rw [h.bounds]
    unfold Rect.collidesPoint
    simp only [Bool.and_eq_true, decide_eq_true_eq]
    exact ⟨⟨⟨hleft, hright⟩, hupper⟩, hlower⟩
  all_goals rw [h.bounds]
  case left => exact hattained hxEnds.1
  case upper => exact hattained hyEnds.1
  case right => exact hattained hxEnds.2
  case lower => exact hattained hyEnds.2

/-- A silhouette that was drawn, after any maps, one after the other: it has as many outlines as
    before, with as many vertices each; and if the vertices are finite then, the box that it keeps
    holds all of them and has one on each of its sides. -/
theorem bounds_stay_snug {s : Silhouette Single} (h : s.Drawn) (maps : List (Transform Single)) :
    let mapped := maps.foldl transform s
    mapped.outlines.map List.length = s.outlines.map List.length ∧
      ((∀ p ∈ mapped.outlines.flatten, p.isFinite = true) → mapped.Snug) :=
  ⟨s.lengths_foldl_transform maps, (h.current.foldl_transform maps).snug⟩

/-- Two triangles that overlap, the second one reaching further to the left and further down. -/
def twoTriangles : Silhouette Single :=
  ⟨[[⟨0, 0⟩, ⟨10, 0⟩, ⟨0, 10⟩], [⟨-2, 4⟩, ⟨3, 4⟩, ⟨3, 12⟩]], ⟨-2, 0, 10, 12⟩⟩

/-- They are turned, turned over by a negative stretching, and shifted: the box is computed three
    times and ends at the vertices. -/
theorem bounds_stay_snug_twoTriangles :
    let maps : List (Transform Single) := [.rotation .deg90, .stretching (-3), .shift 100 50]
    let mapped := maps.foldl transform twoTriangles
    mapped.bounds = ⟨100, 20, 136, 56⟩ ∧ mapped.outlines.map List.length = [3, 3] ∧
      (∀ p ∈ mapped.outlines.flatten, p.isFinite = true) ∧ mapped.Snug := by
  intro maps mapped
  have hmake : make twoTriangles.outlines = .ok twoTriangles := by decide +kernel
  have hbounds : mapped.bounds = ⟨100, 20, 136, 56⟩ := by decide +kernel
  have hfinite : ∀ p ∈ mapped.outlines.flatten, p.isFinite = true := by decide +kernel
  obtain ⟨hlengths, hsnug⟩ := bounds_stay_snug (.make hmake) maps
  exact ⟨hbounds, hlengths, hfinite, hsnug hfinite⟩

end FoamTray.Silhouette
