import FoamTray.Catalog.Import
import Mathlib.Data.List.Induction
import Mathlib.Order.Lattice

/-! # What an import has checked

    An item is imported only if all its parts are. Here the imports are turned around: what is
    known of the parts of a record once there is an item.

    * `extent_mem`, `extent_between` : the box of vertices is spanned by some of them, and all of
      them lie in it.
    * `Silhouette.make_eq_ok`, `Rect.make_eq_ok` : what is known of a silhouette or a rectangle.
    * `ShapeRecord.silhouette_eq_ok` : a silhouette is that of a rectangle, or of imported outlines.
    * `ItemRecord.toItem_eq_ok` : an item, and where its geometry comes from.
-/

namespace FoamTray

variable {α : Type} [Coordinate α]

/-! ## Section 1: Boxes -/

/-- The ends of coordinates are among them. -/
theorem extent_mem {vs : List α} (h : vs ≠ []) : (extent vs).1 ∈ vs ∧ (extent vs).2 ∈ vs := by
  obtain ⟨v, rest, rfl⟩ := List.exists_cons_of_ne_nil h
  -- whatever has been read so far, both ends are among the values
  refine List.foldlRecOn rest _
    (motive := fun ends : α × α => ends.1 ∈ v :: rest ∧ ends.2 ∈ v :: rest)
    ⟨List.mem_cons_self, List.mem_cons_self⟩ ?_
  intro ends hends x hx
  have hx' : x ∈ v :: rest := List.mem_cons_of_mem v hx
  dsimp only
  constructor
  · split
    · exact hx'
    · exact hends.1
  · split
    · exact hx'
    · exact hends.2

/-- A further coordinate takes the place of an end that it goes beyond. -/
theorem extent_concat {vs : List α} (h : vs ≠ []) (x : α) :
    extent (vs ++ [x]) =
      (if Coordinate.precedes x (extent vs).1 then x else (extent vs).1,
        if Coordinate.precedes (extent vs).2 x then x else (extent vs).2) := by
  obtain ⟨v, rest, rfl⟩ := List.exists_cons_of_ne_nil h
  unfold extent
  rw [List.cons_append]
  dsimp only
  rw [List.foldl_append]
  rfl

/-- Every coordinate is between the ends, in the order by which they were compared. -/
theorem extent_between {κ : Type} [LinearOrder κ] {key : α → κ}
    (hkey : ∀ x y : α, Coordinate.precedes x y = true ↔ key x < key y) {vs : List α} {v : α}
    (hv : v ∈ vs) : key (extent vs).1 ≤ key v ∧ key v ≤ key (extent vs).2 := by
  induction vs using List.reverseRecOn with
  | nil => cases hv
  | append_singleton vs x ih =>
    by_cases hvs : vs = []
    · subst hvs
      rw [List.mem_singleton.mp hv]
      exact ⟨le_refl _, le_refl _⟩
    rw [extent_concat hvs]
    simp only [hkey]
    -- each end is the better one of the end so far and the last coordinate
    have hlow : ∀ low : α, key (if key x < key low then x else low) ≤ key low ∧
        key (if key x < key low then x else low) ≤ key x := by
      intro low
      split
      · rename_i hlt
        exact ⟨hlt.le, le_refl _⟩
      · rename_i hge
        exact ⟨le_refl _, not_lt.mp hge⟩
    have hhigh : ∀ high : α, key high ≤ key (if key high < key x then x else high) ∧
        key x ≤ key (if key high < key x then x else high) := by
      intro high
      split
      · rename_i hlt
        exact ⟨hlt.le, le_refl _⟩
      · rename_i hge
        exact ⟨le_refl _, not_lt.mp hge⟩
    rcases List.mem_append.mp hv with hold | hnew
    · obtain ⟨h1, h2⟩ := ih hold
      exact ⟨(hlow _).1.trans h1, h2.trans (hhigh _).1⟩
    · rw [List.mem_singleton.mp hnew]
      exact ⟨(hlow _).2, (hhigh _).2⟩

theorem Rect.make_eq_ok {xMin yMin xMax yMax : α} {r : Rect α}
    (h : Rect.make xMin yMin xMax yMax = .ok r) :
    r = ⟨xMin, yMin, xMax, yMax⟩ ∧ xMin < xMax ∧ yMin < yMax := by
  unfold Rect.make at h
  split at h
  · rename_i hsides
    exact ⟨(Except.ok.inj h).symm, hsides⟩
  · cases h

/-! ## Section 2: Silhouettes -/

/-- A silhouette has outlines of three vertices or more, all finite, and its box has an area. -/
theorem Silhouette.make_eq_ok {outlines : List (List (Point α))} {s : Silhouette α}
    (h : make outlines = .ok s) :
    s = ⟨outlines, boundsOf outlines.flatten⟩ ∧ outlines ≠ [] ∧ (∀ o ∈ outlines, 3 ≤ o.length) ∧
      (∀ p ∈ outlines.flatten, p.isFinite = true) ∧ ((0 : Nat) : α) < s.width ∧
      ((0 : Nat) : α) < s.height := by
  unfold make at h
  dsimp only at h
  split at h
  · cases h
  rename_i hsome
  split at h
  · cases h
  rename_i hlong
  split at h
  · cases h
  rename_i hfinite
  split at h
  · rename_i harea
    obtain rfl := Except.ok.inj h
    refine ⟨rfl, ?_, ?_, ?_, harea⟩
    · rintro rfl
      exact hsome rfl
    · intro o ho
      refine Nat.not_lt.mp fun hshort => hlong ?_
      exact List.any_eq_true.mpr ⟨o, ho, decide_eq_true hshort⟩
    · rw [Bool.not_eq_true, Bool.not_eq_false'] at hfinite
      exact List.all_eq_true.mp hfinite
  · cases h

/-- What has been made of a list has been made of its members. -/
theorem mem_of_mapM_eq_ok {β γ ε : Type} {f : β → Except ε γ} {items : List β} {answers : List γ}
    (h : items.mapM f = .ok answers) {c : γ} (hc : c ∈ answers) : ∃ b ∈ items, f b = .ok c := by
  induction items generalizing answers with
  | nil =>
    cases h
    cases hc
  | cons b items ih =>
    rw [List.mapM_cons] at h
    cases hfirst : f b with
    | error e =>
      rw [hfirst] at h
      cases h
    | ok first =>
      cases hrest : items.mapM f with
      | error e =>
        rw [hfirst, hrest] at h
        cases h
      | ok rest =>
        rw [hfirst, hrest] at h
        cases h
        rcases List.mem_cons.mp hc with rfl | hc
        · exact ⟨b, List.mem_cons_self, hfirst⟩
        · obtain ⟨b', hb', heq⟩ := ih hrest hc
          exact ⟨b', List.mem_cons_of_mem _ hb', heq⟩

namespace ShapeRecord

/-- The outlines that are written down vertex by vertex. -/
def outlines : ShapeRecord α → List (List (α × α))
  | .rectangle _ _ _ _ => []
  | .polygon vertices => [vertices]
  | .polygons outlines => outlines

/-- A silhouette is that of a rectangle, or is made of the outlines after each was imported. -/
theorem silhouette_eq_ok {record : ShapeRecord α} {s : Silhouette α}
    (h : record.silhouette = .ok s) :
    (∃ xMin yMin width height, record = .rectangle xMin yMin width height ∧
      Rect.make xMin yMin (xMin + width) (yMin + height) = .ok s.bounds ∧
      s = Silhouette.ofRect s.bounds) ∨
    Silhouette.make s.outlines = .ok s ∧
      ∀ o ∈ s.outlines, ∃ vertices ∈ record.outlines, importOutline vertices = .ok o := by
  unfold silhouette at h
  cases record with
  | rectangle xMin yMin width height =>
    left
    dsimp only at h
    cases hr : Rect.make xMin yMin (xMin + width) (yMin + height) with
    | error e =>
      rw [hr] at h
      cases h
    | ok r =>
      rw [hr] at h
      cases h
      exact ⟨xMin, yMin, width, height, rfl, hr, rfl⟩
  | polygon vertices =>
    right
    dsimp only at h
    cases ho : importOutline vertices with
    | error e =>
      rw [ho] at h
      cases h
    | ok outline =>
      rw [ho] at h
      replace h : Silhouette.make [outline] = .ok s := h
      have houtlines := (Silhouette.make_eq_ok h).1
      rw [houtlines]
      rw [houtlines] at h
      refine ⟨h, fun o hmem => ?_⟩
      rw [List.mem_singleton.mp hmem]
      exact ⟨vertices, List.mem_singleton_self _, ho⟩
  | polygons outlines =>
    right
    dsimp only at h
    cases ho : outlines.mapM importOutline with
    | error e =>
      rw [ho] at h
      cases h
    | ok imported =>
      rw [ho] at h
      replace h : Silhouette.make imported = .ok s := h
      have houtlines := (Silhouette.make_eq_ok h).1
      rw [houtlines]
      rw [houtlines] at h
      exact ⟨h, fun o => mem_of_mapM_eq_ok ho⟩

end ShapeRecord

/-! ## Section 3: Items -/

namespace ItemRecord

variable {r : ItemRecord α}

theorem importSilhouette_eq_ok {silhouette : Option (Silhouette α)}
    (h : r.importSilhouette = .ok silhouette) :
    r.shape = none ∧ silhouette = none ∨
      ∃ shape s, r.shape = some shape ∧ shape.silhouette = .ok s ∧ silhouette = some s := by
  unfold importSilhouette at h
  split at h
  · rename_i hshape
    exact .inl ⟨hshape, (Except.ok.inj h).symm⟩
  · rename_i shape hshape
    split at h
    · rename_i s hs
      exact .inr ⟨shape, s, hshape, hs, (Except.ok.inj h).symm⟩
    · cases h

/-- The size is that of the silhouette, or without one the sides that are written down, which are
    positive. -/
theorem importSize_eq_ok {silhouette : Option (Silhouette α)} {size : Size α}
    (h : r.importSize silhouette = .ok size) :
    (∃ s, silhouette = some s ∧ size = ⟨s.width, s.height⟩) ∨
      silhouette = none ∧ r.width = some size.width ∧ r.height = some size.height ∧
        ((0 : Nat) : α) < size.width ∧ ((0 : Nat) : α) < size.height := by
  unfold importSize at h
  cases silhouette with
  | some s => exact .inl ⟨s, rfl, (Except.ok.inj h).symm⟩
  | none =>
    right
    cases hwidth : r.width with
    | none =>
      rw [hwidth] at h
      cases h
    | some w =>
      cases hheight : r.height with
      | none =>
        rw [hwidth, hheight] at h
        cases h
      | some v =>
        rw [hwidth, hheight] at h
        dsimp only at h
        split at h
        · rename_i hpositive
          cases h
          exact ⟨rfl, rfl, rfl, hpositive⟩
        · cases h

theorem importScale_eq_ok {factor : α} (h : r.importScale = .ok factor) :
    Scalar.isFinite factor = true ∧ ((0 : Nat) : α) < factor := by
  unfold importScale at h
  dsimp only at h
  split at h
  · rename_i husable
    rw [← Except.ok.inj h]
    rw [Bool.and_eq_true, decide_eq_true_iff] at husable
    exact husable
  · cases h

/-- An item has a silhouette, a size and a factor that were imported. -/
theorem toItem_eq_ok {item : CatalogItem α} (h : r.toItem = .ok item) :
    r.importSilhouette = .ok item.silhouette ∧ r.importSize item.silhouette = .ok item.size ∧
      r.importScale = .ok item.scaleOverride := by
  unfold toItem at h
  cases hsilhouette : r.importSilhouette with
  | error e =>
    rw [hsilhouette] at h
    cases h
  | ok silhouette =>
    cases hsize : r.importSize silhouette with
    | error e =>
      simp only [hsilhouette, hsize, bind, Except.bind] at h
      cases h
    | ok size =>
      cases hfactor : r.importScale with
      | error e =>
        simp only [hsilhouette, hsize, hfactor, bind, Except.bind] at h
        cases h
      | ok factor =>
        simp only [hsilhouette, hsize, hfactor, bind, Except.bind] at h
        cases h
        exact ⟨rfl, hsize, rfl⟩

end ItemRecord

end FoamTray
