import FoamTray.Catalog.Import
import FoamTray.Proofs.Numeric.Single
import Mathlib.Data.List.Destutter

/-! # Imported outlines

    An outline is imported in three passes: a last vertex that is the same as the first one is
    dropped, then each vertex that coincides with the last one kept, and what is left of fewer than
    three vertices is refused. The first pass is made once, and before the second one, so the last
    vertex that is kept can be the first one again.

    * `withoutRepeats_eq` : the second pass is the greedy one that leaves no two neighbours which
      are not apart.
    * `isChain_of_importOutline`, `importOutline_written` : importing an outline, and once more.
    * `NormalForm` : an outline of three distinct vertices, all apart from the next one around the
      outline, that is imported as it is.
    * `normalForm_iff` : an imported outline is in normal form unless its ends coincide or it only
      goes back and forth.
    * `thereAndBack_not_normalForm` : an outline that does both.
-/

namespace FoamTray

/-! ## Section 1: The passes -/

section Passes

variable {α : Type} [Coordinate α] {points : List (Point α)}

/-- The vertices that are written down. -/
def cornersOf (vertices : List (α × α)) : List (Point α) := vertices.map fun (x, y) => ⟨x, y⟩

/-- The outline as it is written down. -/
def written (points : List (Point α)) : List (α × α) := points.map fun p => (p.x, p.y)

omit [Coordinate α] in
theorem cornersOf_written (points : List (Point α)) : cornersOf (written points) = points := by
  unfold cornersOf written
  rw [List.map_map]
  exact List.map_id points

/-- A vertex that is not merged into the one before it. -/
def Point.Apart (p q : Point α) : Prop := q.coincides p = false

instance : DecidableRel (Point.Apart (α := α)) := fun p q =>
  inferInstanceAs (Decidable (q.coincides p = false))

theorem withoutRepeats_cons (p : Point α) (rest : List (Point α)) :
    withoutRepeats (p :: rest) = rest.destutter' Point.Apart p := by
  induction rest generalizing p with
  | nil =>
    unfold withoutRepeats
    rfl
  | cons q rest ih =>
    rw [withoutRepeats, List.destutter'_cons]
    by_cases h : Point.Apart p q
    · rw [if_pos h, if_neg (by rw [Point.Apart] at h; rw [h]; exact Bool.false_ne_true), ih]
    · rw [if_neg h, if_pos (Bool.not_eq_false _ ▸ h), ih]

/-- Vertices are merged greedily. -/
theorem withoutRepeats_eq (points : List (Point α)) :
    withoutRepeats points = points.destutter Point.Apart := by
  cases points with
  | nil =>
    unfold withoutRepeats
    rfl
  | cons p rest => exact withoutRepeats_cons p rest

theorem head?_destutter (points : List (Point α)) :
    (points.destutter Point.Apart).head? = points.head? := by
  cases points with
  | nil => rfl
  | cons p rest =>
    rw [List.destutter_cons']
    induction rest with
    | nil => rfl
    | cons q rest ih =>
      rw [List.destutter'_cons]
      split
      · rfl
      · exact ih

/-- Only the last vertex is dropped as the closing one, and only if another one is left. -/
theorem withoutClosing_cases (points : List (Point α)) :
    withoutClosing points = points ∨
      withoutClosing points = points.dropLast ∧ 1 < points.length := by
  unfold withoutClosing
  split
  · split
    · rename_i h
      rw [Bool.and_eq_true, decide_eq_true_iff] at h
      exact .inr ⟨rfl, h.1⟩
    · exact .inl rfl
  · exact .inl rfl

theorem importOutline_eq (vertices : List (α × α)) :
    importOutline vertices =
      if (withoutRepeats (withoutClosing (cornersOf vertices))).length < 3 then
        .error .fewDistinctVertices
      else .ok (withoutRepeats (withoutClosing (cornersOf vertices))) := rfl

theorem importOutline_eq_ok {vertices : List (α × α)} :
    importOutline vertices = .ok points ↔
      withoutRepeats (withoutClosing (cornersOf vertices)) = points ∧ 3 ≤ points.length := by
  rw [importOutline_eq]
  split
  · rename_i hshort
    constructor
    · exact nofun
    · rintro ⟨rfl, hlong⟩
      omega
  · rename_i hlong
    rw [Except.ok.injEq]
    constructor
    · rintro rfl
      exact ⟨rfl, Nat.not_lt.mp hlong⟩
    · exact And.left

/-- An imported outline takes some of the vertices, the first one among them, and each of them is
    apart from the next one. -/
theorem isChain_of_importOutline {vertices : List (α × α)}
    (h : importOutline vertices = .ok points) :
    points.Sublist (cornersOf vertices) ∧ points.head? = (cornersOf vertices).head? ∧
      points.IsChain Point.Apart ∧ 3 ≤ points.length := by
  obtain ⟨hpoints, hlength⟩ := importOutline_eq_ok.mp h
  rw [withoutRepeats_eq] at hpoints
  rw [← hpoints] at hlength ⊢
  refine ⟨(List.destutter_sublist _ _).trans ?_, ?_, List.isChain_destutter _ _, hlength⟩
  · rcases withoutClosing_cases (cornersOf vertices) with heq | ⟨heq, -⟩
    · rw [heq]
    · rw [heq]
      exact List.dropLast_sublist _
  · rw [head?_destutter]
    rcases withoutClosing_cases (cornersOf vertices) with heq | ⟨heq, hlong⟩
    · rw [heq]
    · rw [heq, List.head?_dropLast, if_pos hlong]

/-- Importing an imported outline again takes nothing from it but a last vertex that is the same as
    the first one. -/
theorem importOutline_written {a b z : Point α} {rest : List (Point α)}
    (hchain : (a :: b :: rest).IsChain Point.Apart) (hlast : rest.getLast? = some z) :
    importOutline (written (a :: b :: rest)) =
      if a.same z then
        if 2 ≤ rest.length then .ok (a :: b :: rest.dropLast) else .error .fewDistinctVertices
      else .ok (a :: b :: rest) := by
  have hne : rest ≠ [] := by
    rintro rfl
    cases hlast
  have hlength : 1 ≤ rest.length := List.length_pos_of_ne_nil hne
  have hdrop : (a :: b :: rest).dropLast = a :: b :: rest.dropLast := by
    rw [List.dropLast_cons_of_ne_nil (List.cons_ne_nil b rest),
       List.dropLast_cons_of_ne_nil hne]
  have hclosing : withoutClosing (a :: b :: rest) =
      if a.same z then (a :: b :: rest).dropLast else a :: b :: rest := by
    unfold withoutClosing
    rw [List.getLast?_cons_cons, List.getLast?_cons, hlast]
    show (if (decide (1 < rest.length + 2) && a.same z) = true then _ else _) = _
    rw [decide_eq_true (Nat.lt_of_lt_of_le one_lt_two (Nat.le_add_left 2 _)), Bool.true_and]
  have hkept : ∀ l : List (Point α), l.IsChain Point.Apart → withoutRepeats l = l := by
    intro l hl
    rw [withoutRepeats_eq, List.destutter_of_isChain _ _ hl]
  rw [importOutline_eq, cornersOf_written, hclosing]
  cases a.same z with
  | true =>
    rw [if_pos rfl, if_pos rfl, hkept _ hchain.dropLast, hdrop, List.length_cons, List.length_cons,
      List.length_dropLast]
    by_cases hlong : 2 ≤ rest.length
    · rw [if_pos hlong, if_neg (by omega)]
    · rw [if_neg hlong, if_pos (by omega)]
  | false =>
    rw [if_neg Bool.false_ne_true, if_neg Bool.false_ne_true, hkept _ hchain, List.length_cons,
      List.length_cons, if_neg (by omega)]

end Passes

/-! ## Section 2: The same vertex -/

/-- One vertex, also where a coordinate is written in two ways or is no number. -/
def Point.Alike (p q : Point Single) : Prop := p = q ∨ p.same q = true

instance (p q : Point Single) : Decidable (p.Alike q) :=
  inferInstanceAs (Decidable (p = q ∨ p.same q = true))

namespace Point

variable {p q r : Point Single}

theorem same_iff : p.same q = true ↔ (p.x == q.x) = true ∧ (p.y == q.y) = true := by
  unfold same
  rw [Bool.and_eq_true]

theorem Alike.symm (h : p.Alike q) : q.Alike p := by
  rcases h with rfl | h
  · exact .inl rfl
  · rw [same_iff] at h
    exact .inr (same_iff.mpr ⟨Single.beq_symm h.1, Single.beq_symm h.2⟩)

theorem Alike.trans (h : p.Alike q) (h' : q.Alike r) : p.Alike r := by
  rcases h with rfl | h
  · exact h'
  · rcases h' with rfl | h'
    · exact .inr h
    · rw [same_iff] at h h'
      exact .inr (same_iff.mpr ⟨Single.beq_trans h.1 h'.1, Single.beq_trans h.2 h'.2⟩)

/-- One vertex coincides with itself. -/
theorem Alike.coincides (h : p.Alike q) : p.coincides q = true := by
  have hself : ∀ x : Single, Coordinate.coincide x x = true := by
    intro x
    show Single.approxEqual Single.epsilon 4 x x = true
    unfold Single.approxEqual
    rw [Int.sub_self, Int.zero_bmod]
    exact Bool.or_true _
  have hequal : ∀ x y : Single, (x == y) = true → Coordinate.coincide x y = true := by
    intro x y hxy
    show Single.approxEqual Single.epsilon 4 x y = true
    unfold Single.approxEqual
    rw [hxy, Bool.true_or, Bool.true_or]
  unfold Point.coincides
  rw [Bool.and_eq_true]
  rcases h with rfl | h
  · exact ⟨hself p.x, hself p.y⟩
  · rw [same_iff] at h
    exact ⟨hequal _ _ h.1, hequal _ _ h.2⟩

end Point

/-! ## Section 3: Normal forms -/

/-- An outline with three distinct vertices, each apart from the next one around the outline, that
    is imported as it is. -/
structure NormalForm (points : List (Point Single)) : Prop where
  /-- Three of the vertices are distinct. -/
  distinct : ∃ p ∈ points, ∃ q ∈ points, ∃ r ∈ points, ¬ p.Alike q ∧ ¬ p.Alike r ∧ ¬ q.Alike r
  /-- Neighbours do not coincide. -/
  apart : points.IsChain Point.Apart
  /-- The first vertex does not coincide with the last one. -/
  seam : ∀ a ∈ points.head?, ∀ z ∈ points.getLast?, Point.Apart z a
  /-- Importing the outline again changes nothing. -/
  stable : importOutline (written points) = .ok points

section Distinct

variable {p q r a b : Point Single}

/-- Of three distinct vertices one is neither of two given ones. -/
theorem exists_third (hpq : ¬ p.Alike q) (hpr : ¬ p.Alike r) (hqr : ¬ q.Alike r) :
    ∃ c, (c = p ∨ c = q ∨ c = r) ∧ ¬ a.Alike c ∧ ¬ b.Alike c := by
  by_contra hnone
  have htwo : ∀ c, c = p ∨ c = q ∨ c = r → a.Alike c ∨ b.Alike c := by
    intro c hc
    by_contra h
    exact hnone ⟨c, hc, not_or.mp h⟩
  -- two of the three are the same as one of the given ones
  rcases htwo p (.inl rfl) with hp | hp <;> rcases htwo q (.inr (.inl rfl)) with hq | hq <;>
    rcases htwo r (.inr (.inr rfl)) with hr | hr
  · exact hpq (hp.symm.trans hq)
  · exact hpq (hp.symm.trans hq)
  · exact hpr (hp.symm.trans hr)
  · exact hqr (hq.symm.trans hr)
  · exact hqr (hq.symm.trans hr)
  · exact hpr (hp.symm.trans hr)
  · exact hpq (hp.symm.trans hq)
  · exact hpq (hp.symm.trans hq)

end Distinct

/-- What an imported outline is like, and what is missing from the normal form: its first and last
    vertices may coincide, and then importing it again drops the last one or refuses it; and it may
    go back and forth between two vertices. -/
theorem normalForm_iff {vertices : List (Single × Single)} {points : List (Point Single)}
    (h : importOutline vertices = .ok points) :
    points.Sublist (cornersOf vertices) ∧ points.head? = (cornersOf vertices).head? ∧
      points.IsChain Point.Apart ∧
      ∃ a b rest z, points = a :: b :: rest ∧ rest.getLast? = some z ∧
        importOutline (written points) =
          (if a.same z then
            if 2 ≤ rest.length then .ok (a :: b :: rest.dropLast) else .error .fewDistinctVertices
          else .ok points) ∧
        (NormalForm points ↔
          Point.Apart z a ∧ ∃ c ∈ rest, ¬ a.Alike c ∧ ¬ b.Alike c) := by
  obtain ⟨hsublist, hhead, hchain, hlength⟩ := isChain_of_importOutline h
  obtain ⟨a, b, c, rest, rfl⟩ : ∃ a b c rest, points = a :: b :: c :: rest := by
    match points, hlength with
    | a :: b :: c :: rest, _ => exact ⟨a, b, c, rest, rfl⟩
  obtain ⟨z, hz⟩ : ∃ z, (c :: rest).getLast? = some z :=
    ⟨_, List.getLast?_eq_some_getLast (List.cons_ne_nil c rest)⟩
  refine ⟨hsublist, hhead, hchain, a, b, c :: rest, z, rfl, hz, importOutline_written hchain hz, ?_⟩
  have hlast : (a :: b :: c :: rest).getLast? = some z := hz
  have hnext : ¬ a.Alike b := by
    intro halike
    have hapart : b.coincides a = false := (List.isChain_cons_cons.mp hchain).1
    rw [halike.symm.coincides] at hapart
    cases hapart
  constructor
  · rintro ⟨⟨p, hp, q, hq, r, hr, hpq, hpr, hqr⟩, -, hseam, -⟩
    refine ⟨hseam a rfl z hlast, ?_⟩
    obtain ⟨d, hd, had, hbd⟩ := exists_third (a := a) (b := b) hpq hpr hqr
    have hmem : d ∈ a :: b :: c :: rest := by
      rcases hd with rfl | rfl | rfl
      · exact hp
      · exact hq
      · exact hr
    rcases List.mem_cons.mp hmem with rfl | hmem
    · exact absurd (.inl rfl) had
    rcases List.mem_cons.mp hmem with rfl | hmem
    · exact absurd (.inl rfl) hbd
    exact ⟨d, hmem, had, hbd⟩
  · rintro ⟨hseam, d, hd, had, hbd⟩
    refine ⟨⟨a, List.mem_cons_self, b, List.mem_cons_of_mem _ List.mem_cons_self, d,
      List.mem_cons_of_mem _ (List.mem_cons_of_mem _ hd), hnext, had, hbd⟩, hchain, ?_, ?_⟩
    · intro first hfirst last hlast'
      cases hfirst
      rw [hlast] at hlast'
      cases hlast'
      exact hseam
    · rw [importOutline_written hchain hz, if_neg]
      intro hsame
      have hseam' : a.coincides z = false := hseam
      rw [Point.Alike.coincides (.inr hsame)] at hseam'
      cases hseam'

/-- A triangle whose first vertex is written once more at the end. -/
def closedTriangle : List (Single × Single) := [(0, 0), (40, 0), (0, 30), (0, 0)]

theorem normalForm_iff_closedTriangle :
    importOutline closedTriangle = .ok [⟨0, 0⟩, ⟨40, 0⟩, ⟨0, 30⟩] ∧
      NormalForm [⟨0, 0⟩, ⟨40, 0⟩, ⟨0, 30⟩] := by
  have h : importOutline closedTriangle = .ok [⟨0, 0⟩, ⟨40, 0⟩, ⟨0, 30⟩] := by
    rw [importOutline_eq, withoutRepeats_eq]
    decide +kernel
  obtain ⟨-, -, -, a, b, rest, z, hpoints, hz, -, hnormal⟩ := normalForm_iff h
  cases hpoints
  cases hz
  refine ⟨h, hnormal.mpr ⟨by decide +kernel, ⟨0, 30⟩, List.mem_singleton_self _, ?_⟩⟩
  decide +kernel

/-- A way there and back, with its first vertex written once more at the end. -/
def thereAndBack : List (Single × Single) := [(0, 0), (40, 30), (0, 0), (0, 0)]

/-- One of the two closing vertices is dropped and the other one merged, so that two vertices are
    left, the first one of them again at the end. -/
theorem thereAndBack_not_normalForm :
    importOutline thereAndBack = .ok [⟨0, 0⟩, ⟨40, 30⟩, ⟨0, 0⟩] ∧
      ¬ NormalForm [⟨0, 0⟩, ⟨40, 30⟩, ⟨0, 0⟩] ∧
      importOutline (written [⟨0, 0⟩, ⟨40, 30⟩, ⟨0, 0⟩]) =
        (.error .fewDistinctVertices : Except (ShapeError Single) (List (Point Single))) := by
  refine ⟨?_, fun h => ?_, ?_⟩
  · rw [importOutline_eq, withoutRepeats_eq]
    decide +kernel
  · exact absurd (h.seam ⟨0, 0⟩ rfl ⟨0, 0⟩ rfl) (by decide +kernel)
  · rw [importOutline_eq, withoutRepeats_eq]
    decide +kernel

end FoamTray
