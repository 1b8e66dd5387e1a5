import FoamTray.Proofs.Catalog.Import
import FoamTray.Proofs.Geometry.Stretching
import Mathlib.Algebra.Order.Field.Basic
import Mathlib.Order.Bounds.Image
import Mathlib.Tactic.Linarith

/-! # Outlines and their boxes

    A silhouette covers what its outlines wind around, and when it is grown also what is near to
    that. Its box is that of the vertices alone; here it is shown to hold everything covered.

    * `extent_map_mono`, `extent_map_anti` : the ends of coordinates that were mapped.
    * `Silhouette.Tight` : the box that is kept is that of the vertices, as for all silhouettes
      that are made or imported.
    * `Silhouette.winding`, `Silhouette.Covers` : what is covered, grown by a reach.
    * `Tight.reaches_of_covers` : everything covered is within reach of the box.
-/

namespace FoamTray

/-! ## Section 1: The ends of a list of coordinates -/

section Extent

variable {vs : List Rat}

/-- The extent of coordinates is the least and the greatest of them. -/
theorem extent_spec (vs : List Rat) (h : vs ≠ []) :
    IsLeast {v | v ∈ vs} (extent vs).1 ∧ IsGreatest {v | v ∈ vs} (extent vs).2 := by
  have hprecedes : ∀ x y : Rat, Coordinate.precedes x y = true ↔ x < y :=
    fun _ _ => decide_eq_true_iff
  obtain ⟨hlow, hhigh⟩ := extent_mem h
  exact ⟨⟨hlow, fun v hv => (extent_between hprecedes hv).1⟩,
    ⟨hhigh, fun v hv => (extent_between hprecedes hv).2⟩⟩

/-- Two of the values between which all others lie are the ends. -/
theorem extent_eq {low high : Rat} (hlow : low ∈ vs) (hhigh : high ∈ vs)
    (h : ∀ v ∈ vs, low ≤ v ∧ v ≤ high) : extent vs = (low, high) := by
  obtain ⟨hleast, hgreatest⟩ := extent_spec vs (List.ne_nil_of_mem hlow)
  have hleast' : IsLeast {v | v ∈ vs} low := ⟨hlow, fun v hv => (h v hv).1⟩
  have hgreatest' : IsGreatest {v | v ∈ vs} high := ⟨hhigh, fun v hv => (h v hv).2⟩
  exact Prod.ext (hleast.unique hleast') (hgreatest.unique hgreatest')

theorem setOf_mem_map (f : Rat → Rat) (vs : List Rat) :
    {v | v ∈ vs.map f} = f '' {v | v ∈ vs} := by
  ext v
  simp

/-- A map that keeps the order maps the ends. -/
theorem extent_map_mono {f : Rat → Rat} (hf : Monotone f) (h : vs ≠ []) :
    extent (vs.map f) = (f (extent vs).1, f (extent vs).2) := by
  have hmap := extent_spec (vs.map f) (by simpa using h)
  rw [setOf_mem_map] at hmap
  obtain ⟨hleast, hgreatest⟩ := extent_spec vs h
  exact Prod.ext (hmap.1.unique (hf.map_isLeast hleast))
    (hmap.2.unique (hf.map_isGreatest hgreatest))

/-- A map that turns the order around exchanges them. -/
theorem extent_map_anti {f : Rat → Rat} (hf : Antitone f) (h : vs ≠ []) :
    extent (vs.map f) = (f (extent vs).2, f (extent vs).1) := by
  have hmap := extent_spec (vs.map f) (by simpa using h)
  rw [setOf_mem_map] at hmap
  obtain ⟨hleast, hgreatest⟩ := extent_spec vs h
  exact Prod.ext (hmap.1.unique (hf.map_isGreatest hgreatest))
    (hmap.2.unique (hf.map_isLeast hleast))

end Extent

/-! ## Section 2: Boxes of vertices -/

/-- A rectangle contains a point in both coordinates. -/
theorem Rect.collidesPoint_iff {r : Rect Rat} {p : Point Rat} :
    r.collidesPoint p = true ↔ (r.xMin ≤ p.x ∧ p.x ≤ r.xMax) ∧ r.yMin ≤ p.y ∧ p.y ≤ r.yMax := by
  unfold collidesPoint
  simp only [Bool.and_eq_true, decide_eq_true_eq, and_assoc]

/-- The box of points contains them. -/
theorem collidesPoint_boundsOf {points : List (Point Rat)} {p : Point Rat} (hp : p ∈ points) :
    (boundsOf points).collidesPoint p = true := by
  have hne : points ≠ [] := List.ne_nil_of_mem hp
  obtain ⟨hxMin, hxMax⟩ := extent_spec (points.map (·.x)) (by simpa using hne)
  obtain ⟨hyMin, hyMax⟩ := extent_spec (points.map (·.y)) (by simpa using hne)
  have hx : p.x ∈ points.map (·.x) := List.mem_map_of_mem hp
  have hy : p.y ∈ points.map (·.y) := List.mem_map_of_mem hp
  rw [Rect.collidesPoint_iff]
  exact ⟨⟨hxMin.2 hx, hxMax.2 hx⟩, hyMin.2 hy, hyMax.2 hy⟩

namespace Silhouette

/-- There are vertices, and the box that is kept is that of the vertices. -/
structure Tight (s : Silhouette Rat) : Prop where
  vertices : s.outlines.flatten ≠ []
  bounds : s.bounds = boundsOf s.outlines.flatten

theorem tight_make {outlines : List (List (Point Rat))} {s : Silhouette Rat}
    (h : make outlines = .ok s) : s.Tight := by
  obtain ⟨rfl, -, -, -, hwidth, -⟩ := make_eq_ok h
  refine ⟨?_, rfl⟩
  -- without vertices the box would have no area
  intro hnone
  dsimp only at hnone
  rw [hnone] at hwidth
  have hempty : ¬ ((0 : Nat) : Rat) < (boundsOf ([] : List (Point Rat))).width := by
    decide +kernel
  exact hempty hwidth

theorem tight_ofRect {xMin yMin xMax yMax : Rat} {r : Rect Rat}
    (h : Rect.make xMin yMin xMax yMax = .ok r) : (ofRect r).Tight := by
  obtain ⟨rfl, hwidth, hheight⟩ := Rect.make_eq_ok h
  refine ⟨by simp [ofRect], ?_⟩
  have hx : extent [xMin, xMax, xMax, xMin] = (xMin, xMax) :=
    extent_eq (by simp) (by simp) (by simp [hwidth.le])
  have hy : extent [yMin, yMin, yMax, yMax] = (yMin, yMax) :=
    extent_eq (by simp) (by simp) (by simp [hheight.le])
  show _ = Rect.mk (extent [xMin, xMax, xMax, xMin]).1 (extent [yMin, yMin, yMax, yMax]).1
    (extent [xMin, xMax, xMax, xMin]).2 (extent [yMin, yMin, yMax, yMax]).2
  rw [hx, hy]
  rfl

theorem Tight.transform {s : Silhouette Rat} (h : s.Tight) (t : Transform Rat) :
    (s.transform t).Tight := by
  refine ⟨?_, rfl⟩
  show (s.outlines.map (·.map t.apply)).flatten ≠ []
  rw [← List.map_flatten]
  simpa using h.vertices

end Silhouette

/-- The silhouette of an outline that is written down has a tight box. -/
theorem ShapeRecord.tight_silhouette {record : ShapeRecord Rat} {s : Silhouette Rat}
    (h : record.silhouette = .ok s) : s.Tight := by
  rcases silhouette_eq_ok h with ⟨xMin, yMin, width, height, -, hrect, heq⟩ | ⟨hmake, -⟩
  · rw [heq]
    exact Silhouette.tight_ofRect hrect
  · exact Silhouette.tight_make hmake

/-! ## Section 3: What is covered -/

/-- The edges of a closed outline, from each vertex to the next one. -/
def closedEdges (outline : List (Point Rat)) : List (Point Rat × Point Rat) :=
  outline.zip (outline.drop 1 ++ outline.take 1)

/-- The place of an edge at a height. -/
def edgePlace (e : Point Rat × Point Rat) (y : Rat) : Rat :=
  e.1.x + (y - e.1.y) / (e.2.y - e.1.y) * (e.2.x - e.1.x)

/-- How an edge turns around a point: once if it leads down past the point on the left of it, and
    once back if it leads up there. -/
def edgeTurn (p : Point Rat) (e : Point Rat × Point Rat) : Int :=
  if e.1.y ≤ p.y ∧ p.y < e.2.y then if edgePlace e p.y ≤ p.x then 1 else 0
  else if e.2.y ≤ p.y ∧ p.y < e.1.y then if edgePlace e p.y ≤ p.x then -1 else 0
  else 0

/-- A point between the ends of an edge, ends included. -/
def OnEdge (p : Point Rat) (e : Point Rat × Point Rat) : Prop :=
  ∃ t : Rat, (0 ≤ t ∧ t ≤ 1) ∧
    p = ⟨e.1.x + t * (e.2.x - e.1.x), e.1.y + t * (e.2.y - e.1.y)⟩

namespace Silhouette

/-- The edges of all outlines. -/
def edges (s : Silhouette Rat) : List (Point Rat × Point Rat) := s.outlines.flatMap closedEdges

/-- How often the outlines wind around a point. -/
def winding (s : Silhouette Rat) (p : Point Rat) : Int := (s.edges.map (edgeTurn p)).sum

/-- What a silhouette that is grown by a reach covers: every point that is near enough to one that
    the outlines wind around, or to one on an edge. -/
def Covers (s : Silhouette Rat) (reach : Rat) (z : Point Rat) : Prop :=
  ∃ p, (s.winding p ≠ 0 ∨ ∃ e ∈ s.edges, OnEdge p e) ∧ p.squaredDistance z ≤ reach * reach

end Silhouette

/-- A value between two others on an interval is on the interval. -/
theorem between_mem {low high a b t : Rat} (ha : low ≤ a ∧ a ≤ high) (hb : low ≤ b ∧ b ≤ high)
    (ht : 0 ≤ t ∧ t ≤ 1) : low ≤ a + t * (b - a) ∧ a + t * (b - a) ≤ high := by
  obtain ⟨ht0, ht1⟩ := ht
  have hmix : a + t * (b - a) = (1 - t) * a + t * b := by ring
  have hrest : 0 ≤ 1 - t := by linarith
  rw [hmix]
  constructor
  · have h1 := mul_le_mul_of_nonneg_left ha.1 hrest
    have h2 := mul_le_mul_of_nonneg_left hb.1 ht0
    linarith
  · have h1 := mul_le_mul_of_nonneg_left ha.2 hrest
    have h2 := mul_le_mul_of_nonneg_left hb.2 ht0
    linarith

/-- Where an edge passes a height between its ends. -/
theorem edgePlace_mem {low high y : Rat} {e : Point Rat × Point Rat}
    (h1 : low ≤ e.1.x ∧ e.1.x ≤ high) (h2 : low ≤ e.2.x ∧ e.2.x ≤ high)
    (hy : e.1.y ≤ y ∧ y < e.2.y ∨ e.2.y ≤ y ∧ y < e.1.y) :
    low ≤ edgePlace e y ∧ edgePlace e y ≤ high := by
  refine between_mem h1 h2 ?_
  rcases hy with ⟨hfrom, hto⟩ | ⟨hto, hfrom⟩
  · have hheight : 0 < e.2.y - e.1.y := by linarith
    refine ⟨div_nonneg (by linarith) hheight.le, ?_⟩
    rw [div_le_one hheight]
    linarith
  · have hheight : e.2.y - e.1.y < 0 := by linarith
    refine ⟨div_nonneg_of_nonpos (by linarith) hheight.le, ?_⟩
    rw [div_le_one_of_neg hheight]
    linarith

theorem sum_zip_sub {β : Type} (f : β → Int) {as bs : List β} (h : as.length = bs.length) :
    ((as.zip bs).map fun e => f e.1 - f e.2).sum = (as.map f).sum - (bs.map f).sum := by
  induction as generalizing bs with
  | nil =>
    cases bs with
    | nil => rfl
    | cons b bs => cases h
  | cons a as ih =>
    cases bs with
    | nil => cases h
    | cons b bs =>
      have hrest := ih (Nat.succ.inj h)
      simp only [List.zip_cons_cons, List.map_cons, List.sum_cons, hrest]
      omega

/-- Around a closed outline every difference is made up for. -/
theorem sum_closedEdges (f : Point Rat → Int) (outline : List (Point Rat)) :
    ((closedEdges outline).map fun e => f e.1 - f e.2).sum = 0 := by
  have hlength : outline.length = (outline.drop 1 ++ outline.take 1).length := by
    simp
    omega
  have hperm : (outline.drop 1 ++ outline.take 1).Perm outline := by
    have hcomm : (outline.drop 1 ++ outline.take 1).Perm (outline.take 1 ++ outline.drop 1) :=
      List.perm_append_comm
    rwa [List.take_append_drop] at hcomm
  unfold closedEdges
  rw [sum_zip_sub f hlength, (hperm.map f).sum_eq, sub_self]

theorem Silhouette.sum_edges (f : Point Rat → Int) (s : Silhouette Rat) :
    (s.edges.map fun e => f e.1 - f e.2).sum = 0 := by
  unfold edges
  induction s.outlines with
  | nil => rfl
  | cons outline rest ih =>
    rw [List.flatMap_cons, List.map_append, List.sum_append, sum_closedEdges, ih, add_zero]

/-- The ends of an edge are vertices. -/
theorem Silhouette.mem_vertices_of_edge {s : Silhouette Rat} {e : Point Rat × Point Rat}
    (he : e ∈ s.edges) : e.1 ∈ s.outlines.flatten ∧ e.2 ∈ s.outlines.flatten := by
  obtain ⟨outline, houtline, hedge⟩ := List.mem_flatMap.mp he
  obtain ⟨hfirst, hsecond⟩ := List.of_mem_zip (a := e.1) (b := e.2) hedge
  have hsecond' : e.2 ∈ outline := by
    rcases List.mem_append.mp hsecond with h | h
    · exact List.mem_of_mem_drop h
    · exact List.mem_of_mem_take h
  exact ⟨List.mem_flatten_of_mem houtline hfirst, List.mem_flatten_of_mem houtline hsecond'⟩

section Inside

variable {s : Silhouette Rat} {p : Point Rat}

/-- An edge beside which the point is not, or that lies to the right of it, does not turn around
    it. -/
theorem edgeTurn_eq_zero {e : Point Rat × Point Rat}
    (h : ¬ ((e.1.y ≤ p.y ∧ p.y < e.2.y ∨ e.2.y ≤ p.y ∧ p.y < e.1.y) ∧ edgePlace e p.y ≤ p.x)) :
    edgeTurn p e = 0 := by
  unfold edgeTurn
  by_cases hplace : edgePlace e p.y ≤ p.x
  · have hno : ¬ (e.1.y ≤ p.y ∧ p.y < e.2.y ∨ e.2.y ≤ p.y ∧ p.y < e.1.y) :=
      fun hbeside => h ⟨hbeside, hplace⟩
    rw [not_or] at hno
    rw [if_neg hno.1, if_neg hno.2]
  · simp [hplace]

/-- All edges that a point is beside turn around it if it is far enough to the right. -/
theorem edgeTurn_eq_sub {e : Point Rat × Point Rat}
    (h : e.1.y ≤ p.y ∧ p.y < e.2.y ∨ e.2.y ≤ p.y ∧ p.y < e.1.y → edgePlace e p.y ≤ p.x) :
    edgeTurn p e = (if e.1.y ≤ p.y then 1 else 0) - if e.2.y ≤ p.y then 1 else 0 := by
  unfold edgeTurn
  by_cases h1 : e.1.y ≤ p.y <;> by_cases h2 : e.2.y ≤ p.y
  · have h1' : ¬ p.y < e.1.y := not_lt.mpr h1
    have h2' : ¬ p.y < e.2.y := not_lt.mpr h2
    simp [h1, h2, h1', h2']
  · have hplace := h (.inl ⟨h1, not_le.mp h2⟩)
    simp [h1, h2, not_le.mp h2, hplace]
  · have hplace := h (.inr ⟨h2, not_le.mp h1⟩)
    simp [h1, h2, not_le.mp h1, hplace]
  · simp [h1, h2]

/-- Outlines wind around no point outside of the box of their vertices. -/
theorem winding_inside (h : s.winding p ≠ 0) :
    (boundsOf s.outlines.flatten).collidesPoint p = true := by
  have hbox : ∀ e ∈ s.edges, ((boundsOf s.outlines.flatten).collidesPoint e.1 = true) ∧
      (boundsOf s.outlines.flatten).collidesPoint e.2 = true := by
    intro e he
    obtain ⟨h1, h2⟩ := Silhouette.mem_vertices_of_edge he
    exact ⟨collidesPoint_boundsOf h1, collidesPoint_boundsOf h2⟩
  simp only [Rect.collidesPoint_iff] at hbox
  rw [Rect.collidesPoint_iff]
  set box := boundsOf s.outlines.flatten with hboxDef
  -- outside the box no edge turns around the point, or all that are beside it do
  have hnone : (∀ e ∈ s.edges, edgeTurn p e = 0) → False := by
    intro hzero
    apply h
    unfold Silhouette.winding
    rw [List.map_congr_left hzero]
    simp
  have hplace : ∀ e ∈ s.edges,
      (e.1.y ≤ p.y ∧ p.y < e.2.y ∨ e.2.y ≤ p.y ∧ p.y < e.1.y) →
      box.xMin ≤ edgePlace e p.y ∧ edgePlace e p.y ≤ box.xMax := by
    intro e he hbeside
    exact edgePlace_mem (hbox e he).1.1 (hbox e he).2.1 hbeside
  refine ⟨⟨?_, ?_⟩, ?_, ?_⟩
  · by_contra hleft
    refine hnone fun e he => edgeTurn_eq_zero ?_
    rintro ⟨hbeside, hle⟩
    have := (hplace e he hbeside).1
    linarith
  · by_contra hright
    apply h
    have hall : ∀ e ∈ s.edges, edgeTurn p e =
        (if e.1.y ≤ p.y then 1 else 0) - if e.2.y ≤ p.y then 1 else 0 := by
      intro e he
      refine edgeTurn_eq_sub fun hbeside => ?_
      have := (hplace e he hbeside).2
      linarith
    unfold Silhouette.winding
    rw [List.map_congr_left hall]
    exact s.sum_edges fun v => if v.y ≤ p.y then 1 else 0
  · by_contra habove
    refine hnone fun e he => edgeTurn_eq_zero ?_
    obtain ⟨⟨-, h1⟩, -, h2⟩ := hbox e he
    rintro ⟨hbeside | hbeside, -⟩ <;> linarith [h1.1, h2.1]
  · by_contra hbelow
    refine hnone fun e he => edgeTurn_eq_zero ?_
    obtain ⟨⟨-, h1⟩, -, h2⟩ := hbox e he
    rintro ⟨hbeside | hbeside, -⟩ <;> linarith [h1.2, h2.2]

/-- The points of an edge are in the box as well. -/
theorem onEdge_inside {e : Point Rat × Point Rat} (he : e ∈ s.edges) (hp : OnEdge p e) :
    (boundsOf s.outlines.flatten).collidesPoint p = true := by
  obtain ⟨hfirst, hsecond⟩ := Silhouette.mem_vertices_of_edge he
  have h1 := collidesPoint_boundsOf hfirst
  have h2 := collidesPoint_boundsOf hsecond
  rw [Rect.collidesPoint_iff] at h1 h2 ⊢
  obtain ⟨t, ht, rfl⟩ := hp
  exact ⟨between_mem h1.1 h2.1 ht, between_mem h1.2 h2.2 ht⟩

end Inside

/-- A point within reach of some point of a rectangle, in both coordinates. -/
def Rect.Reaches (r : Rect Rat) (reach : Rat) (z : Point Rat) : Prop :=
  ∃ p, r.collidesPoint p = true ∧ |z.x - p.x| ≤ reach ∧ |z.y - p.y| ≤ reach

/-- What a grown silhouette covers is within reach of its box. -/
theorem Silhouette.Tight.reaches_of_covers {s : Silhouette Rat} (h : s.Tight) {reach : Rat}
    (hreach : 0 ≤ reach) {z : Point Rat} (hz : s.Covers reach z) : s.bounds.Reaches reach z := by
  obtain ⟨p, hp, hnear⟩ := hz
  unfold Point.squaredDistance at hnear
  refine ⟨p, ?_, ?_, ?_⟩
  · rw [h.bounds]
    rcases hp with hwinding | ⟨e, he, hedge⟩
    · exact winding_inside hwinding
    · exact onEdge_inside he hedge
  -- a leg is no longer than the hypotenuse
  · refine abs_le_of_sq_le_sq ?_ hreach
    nlinarith [mul_self_nonneg (p.y - z.y)]
  · refine abs_le_of_sq_le_sq ?_ hreach
    nlinarith [mul_self_nonneg (p.x - z.x)]

end FoamTray
