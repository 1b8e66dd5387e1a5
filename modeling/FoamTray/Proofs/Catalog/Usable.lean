import FoamTray.Proofs.Catalog.Import
import FoamTray.Proofs.Geometry.NormalForm
import FoamTray.Proofs.Layout.Sources
import FoamTray.Proofs.Numeric.Overflow

/-! # Usable items

    The geometry of an item comes from a rectangle, from outlines or from two sides. Each of them
    is checked in its own way, so that sizes are positive whatever is written down; but no check
    looks at what becomes of a size that is too large for a number.

    * `CatalogItem.Sound` : what holds of all items of a catalog.
    * `CatalogItem.Usable` : geometry that can be calculated with, which is finite.
    * `ShapeRecord.isFinite_of_moderate` : moderate numbers give a finite size.
    * `usable_iff` : items are sound, and usable if their size is finite.
    * `hugeManifest_not_usable` : items without a finite size.
-/

namespace FoamTray

/-! ## Section 1: Silhouettes -/

/-- What holds of every silhouette that is imported: its box has an area, and it is the only thing
    that can be infinite. -/
structure Silhouette.Sound (s : Silhouette Single) : Prop where
  /-- There is an outline. -/
  nonempty : s.outlines ≠ []
  /-- Every outline has three vertices. -/
  length : ∀ o ∈ s.outlines, 3 ≤ o.length
  /-- The width is positive. -/
  width : ((0 : Nat) : Single) < s.width
  /-- The height is positive. -/
  height : ((0 : Nat) : Single) < s.height
  /-- With a finite size all vertices are finite. -/
  finite : s.width.isFinite = true → s.height.isFinite = true →
    ∀ o ∈ s.outlines, ∀ p ∈ o, p.isFinite = true

namespace Silhouette

variable {s : Silhouette Single}

theorem sound_make {outlines : List (List (Point Single))} (h : make outlines = .ok s) :
    s.Sound := by
  obtain ⟨heq, hne, hlength, hfinite, hwidth, hheight⟩ := make_eq_ok h
  refine ⟨?_, ?_, hwidth, hheight, ?_⟩ <;> rw [heq]
  · exact hne
  · exact hlength
  · exact fun _ _ o ho p hp => hfinite p (List.mem_flatten.mpr ⟨o, ho, hp⟩)

/-- The sides of a rectangle are in order, and a finite width or height leaves both of them
    finite. -/
theorem sound_ofRect {xMin yMin xMax yMax : Single} {r : Rect Single}
    (h : Rect.make xMin yMin xMax yMax = .ok r) : (ofRect r).Sound := by
  obtain ⟨rfl, hx, hy⟩ := Rect.make_eq_ok h
  refine ⟨List.cons_ne_nil _ _, ?_, Single.zero_lt_sub hx, Single.zero_lt_sub hy, ?_⟩
  · intro o ho
    rw [List.mem_singleton.mp ho]
    exact Nat.le_succ 3
  · intro hwidth hheight o ho p hp
    obtain ⟨hxMax, hxMin⟩ := Single.isFinite_of_sub hwidth
    obtain ⟨hyMax, hyMin⟩ := Single.isFinite_of_sub hheight
    rw [List.mem_singleton.mp ho] at hp
    simp only [List.mem_cons, List.not_mem_nil, or_false] at hp
    unfold Point.isFinite
    rw [Bool.and_eq_true]
    rcases hp with rfl | rfl | rfl | rfl
    · exact ⟨hxMin, hyMin⟩
    · exact ⟨hxMax, hyMin⟩
    · exact ⟨hxMax, hyMax⟩
    · exact ⟨hxMin, hyMax⟩

end Silhouette

namespace ShapeRecord

variable {record : ShapeRecord Single} {s : Silhouette Single}

theorem sound_silhouette (h : record.silhouette = .ok s) : s.Sound := by
  rcases silhouette_eq_ok h with ⟨xMin, yMin, width, height, -, hrect, heq⟩ | ⟨hmake, -⟩
  · rw [heq]
    exact Silhouette.sound_ofRect hrect
  · exact Silhouette.sound_make hmake

end ShapeRecord

/-! ## Section 2: Items -/

/-- What holds of all items of a catalog. -/
structure CatalogItem.Sound (item : CatalogItem Single) : Prop where
  /-- The factor is finite and positive. -/
  factor : item.scaleOverride.isFinite = true ∧ ((0 : Nat) : Single) < item.scaleOverride
  /-- The size is positive. -/
  size : ((0 : Nat) : Single) < item.size.width ∧ ((0 : Nat) : Single) < item.size.height
  /-- A silhouette has an outline. -/
  outline : ∀ s, item.silhouette = some s → s.outlines ≠ []
  /-- All outlines have three vertices. -/
  length : ∀ s, item.silhouette = some s → ∀ o ∈ s.outlines, 3 ≤ o.length
  /-- The size is that of the silhouette. -/
  box : ∀ s, item.silhouette = some s → item.size = ⟨s.width, s.height⟩

/-- Geometry that can be calculated with: what holds of all items, and all of it finite. -/
structure CatalogItem.Usable (item : CatalogItem Single) : Prop extends item.Sound where
  /-- The size is finite. -/
  finite : item.size.width.isFinite = true ∧ item.size.height.isFinite = true
  /-- All vertices are finite. -/
  vertices : ∀ s, item.silhouette = some s → ∀ o ∈ s.outlines, ∀ p ∈ o, p.isFinite = true

namespace ItemRecord

variable {r : ItemRecord Single} {item : CatalogItem Single}

/-- The silhouette of an imported item is sound. -/
theorem sound_of_toItem (h : r.toItem = .ok item) {s : Silhouette Single}
    (hs : item.silhouette = some s) : s.Sound := by
  obtain ⟨hsilhouette, -, -⟩ := toItem_eq_ok h
  rw [hs] at hsilhouette
  rcases importSilhouette_eq_ok hsilhouette with ⟨-, hnone⟩ | ⟨shape, s', -, hs', hsome⟩
  · cases hnone
  · cases hsome
    exact ShapeRecord.sound_silhouette hs'

theorem sound_toItem (h : r.toItem = .ok item) : item.Sound := by
  obtain ⟨-, hsize, hfactor⟩ := toItem_eq_ok h
  refine ⟨importScale_eq_ok hfactor, ?_, fun s hs => (sound_of_toItem h hs).nonempty,
    fun s hs => (sound_of_toItem h hs).length, ?_⟩
  · rcases importSize_eq_ok hsize with ⟨s, hs, heq⟩ | ⟨-, -, -, hpositive⟩
    · rw [heq]
      exact ⟨(sound_of_toItem h hs).width, (sound_of_toItem h hs).height⟩
    · exact hpositive
  · intro s hs
    rcases importSize_eq_ok hsize with ⟨s', hs', heq⟩ | ⟨hnone, -⟩
    · obtain rfl : s' = s := Option.some.inj (hs'.symm.trans hs)
      exact heq
    · rw [hnone] at hs
      cases hs

/-- Nothing but the size decides whether an item is usable. -/
theorem usable_toItem_iff (h : r.toItem = .ok item) :
    item.Usable ↔ item.size.width.isFinite = true ∧ item.size.height.isFinite = true := by
  refine ⟨CatalogItem.Usable.finite, fun hfinite => ⟨sound_toItem h, hfinite, fun s hs => ?_⟩⟩
  rw [(sound_toItem h).box s hs] at hfinite
  exact (sound_of_toItem h hs).finite hfinite.1 hfinite.2

end ItemRecord

/-! ## Section 3: Moderate numbers -/

/-- A number so small that sums and differences of two such numbers are finite. -/
def Single.Moderate (x : Single) : Prop := x.isFinite = true ∧ |x.toRat| ≤ 2 ^ 125

section Moderate

variable {x y : Single}

theorem Single.Moderate.sub (hx : x.Moderate) (hy : y.Moderate) : (x - y).isFinite = true := by
  refine (sub_roundsTo hx.1 hy.1 ?_).finite
  calc |x.toRat - y.toRat| ≤ |x.toRat| + |y.toRat| := abs_sub _ _
    _ ≤ 2 ^ 125 + 2 ^ 125 := add_le_add hx.2 hy.2
    _ ≤ 2 ^ 127 := by norm_num

/-- A side of a rectangle is calculated from where it begins and ends. -/
theorem Single.Moderate.add_sub (hx : x.Moderate) (hy : y.Moderate) :
    (x + y - x).isFinite = true := by
  have hsum : |x.toRat + y.toRat| ≤ 2 ^ 126 := by
    calc |x.toRat + y.toRat| ≤ |x.toRat| + |y.toRat| := abs_add_le _ _
      _ ≤ 2 ^ 125 + 2 ^ 125 := add_le_add hx.2 hy.2
      _ = 2 ^ 126 := by norm_num
  have hround := add_roundsTo hx.1 hy.1 (hsum.trans (by norm_num))
  have herror : |(x + y).toRat - (x.toRat + y.toRat)| ≤ 2 ^ 125 := by
    refine hround.abs_sub_le.trans ?_
    linarith
  refine (sub_roundsTo hround.finite hx.1 ?_).finite
  have hsplit : (x + y).toRat - x.toRat = ((x + y).toRat - (x.toRat + y.toRat)) + y.toRat := by
    ring
  rw [hsplit]
  calc |(x + y).toRat - (x.toRat + y.toRat) + y.toRat|
      ≤ |(x + y).toRat - (x.toRat + y.toRat)| + |y.toRat| := abs_add_le _ _
    _ ≤ 2 ^ 125 + 2 ^ 125 := add_le_add herror hy.2
    _ ≤ 2 ^ 127 := by norm_num

/-- The box of moderate vertices has a finite size. -/
theorem isFinite_boundsOf {points : List (Point Single)} (hne : points ≠ [])
    (h : ∀ p ∈ points, p.x.Moderate ∧ p.y.Moderate) :
    (boundsOf points).width.isFinite = true ∧ (boundsOf points).height.isFinite = true := by
  have hside : ∀ f : Point Single → Single, (∀ p ∈ points, (f p).Moderate) →
      ((extent (points.map f)).2 - (extent (points.map f)).1).isFinite = true := by
    intro f hf
    have hne' : points.map f ≠ [] := fun hnil => hne (List.map_eq_nil_iff.mp hnil)
    obtain ⟨hlow, hhigh⟩ := extent_mem hne'
    have hmoderate := List.forall_mem_map.mpr hf
    exact (hmoderate _ hhigh).sub (hmoderate _ hlow)
  exact ⟨hside (·.x) fun p hp => (h p hp).1, hside (·.y) fun p hp => (h p hp).2⟩

end Moderate

namespace ShapeRecord

/-- The coordinates and the sides that are written down in a shape. -/
def numbers : ShapeRecord Single → List Single
  | .rectangle xMin yMin width height => [xMin, yMin, width, height]
  | .polygon vertices => vertices.flatMap fun v => [v.1, v.2]
  | .polygons outlines => outlines.flatten.flatMap fun v => [v.1, v.2]

variable {record : ShapeRecord Single} {s : Silhouette Single}

theorem mem_numbers {vertices : List (Single × Single)} {v : Single × Single}
    (hvertices : vertices ∈ record.outlines) (hv : v ∈ vertices) :
    v.1 ∈ record.numbers ∧ v.2 ∈ record.numbers := by
  have hmem : ∀ l : List (Single × Single), v ∈ l →
      v.1 ∈ l.flatMap (fun v => [v.1, v.2]) ∧ v.2 ∈ l.flatMap (fun v => [v.1, v.2]) := by
    intro l hl
    exact ⟨List.mem_flatMap.mpr ⟨v, hl, by simp⟩, List.mem_flatMap.mpr ⟨v, hl, by simp⟩⟩
  cases record with
  | rectangle xMin yMin width height => cases hvertices
  | polygon vertices' =>
    rw [List.mem_singleton.mp hvertices] at hv
    exact hmem _ hv
  | polygons outlines => exact hmem _ (List.mem_flatten.mpr ⟨vertices, hvertices, hv⟩)

/-- Moderate numbers give a silhouette of a finite size. -/
theorem isFinite_of_moderate (h : record.silhouette = .ok s)
    (hmoderate : ∀ x ∈ record.numbers, x.Moderate) :
    s.width.isFinite = true ∧ s.height.isFinite = true := by
  rcases silhouette_eq_ok h with ⟨xMin, yMin, width, height, rfl, hrect, -⟩ | ⟨hmake, himported⟩
  · obtain ⟨hxMin, hyMin, hwidth, hheight⟩ : xMin.Moderate ∧ yMin.Moderate ∧ width.Moderate ∧
        height.Moderate := by
      simpa [numbers] using hmoderate
    unfold Silhouette.width Silhouette.height
    rw [(Rect.make_eq_ok hrect).1]
    exact ⟨hxMin.add_sub hwidth, hyMin.add_sub hheight⟩
  · obtain ⟨hbounds, hne, hlength, -⟩ := Silhouette.make_eq_ok hmake
    have hvertices : ∀ p ∈ s.outlines.flatten, p.x.Moderate ∧ p.y.Moderate := by
      intro p hp
      obtain ⟨o, ho, hp⟩ := List.mem_flatten.mp hp
      obtain ⟨vertices, hmem, houtline⟩ := himported o ho
      -- each vertex that is kept is one that is written down
      have hcorner := (isChain_of_importOutline houtline).1.subset hp
      obtain ⟨v, hv, rfl⟩ := List.mem_map.mp hcorner
      obtain ⟨hx, hy⟩ := mem_numbers hmem hv
      exact ⟨hmoderate _ hx, hmoderate _ hy⟩
    have hsome : s.outlines.flatten ≠ [] := by
      obtain ⟨o, ho⟩ := List.exists_mem_of_ne_nil _ hne
      intro hnone
      have hempty := List.flatten_eq_nil_iff.mp hnone o ho
      have hlong := hlength o ho
      rw [hempty] at hlong
      exact absurd hlong (by decide)
    unfold Silhouette.width Silhouette.height
    rw [show s.bounds = boundsOf s.outlines.flatten from congrArg Silhouette.bounds hbounds]
    exact isFinite_boundsOf hsome hvertices

end ShapeRecord

/-- The coordinates and the sides that are written down for an item. -/
def ItemRecord.numbers (r : ItemRecord Single) : List Single :=
  (r.shape.map ShapeRecord.numbers).getD [] ++ r.width.toList ++ r.height.toList

/-- Moderate numbers give an item of a finite size. -/
theorem ItemRecord.isFinite_of_moderate {r : ItemRecord Single} {item : CatalogItem Single}
    (h : r.toItem = .ok item) (hmoderate : ∀ x ∈ r.numbers, x.Moderate) :
    item.size.width.isFinite = true ∧ item.size.height.isFinite = true := by
  obtain ⟨hsilhouette, hsize, -⟩ := toItem_eq_ok h
  unfold numbers at hmoderate
  rcases importSize_eq_ok hsize with ⟨s, hs, heq⟩ | ⟨-, hwidth, hheight, -⟩
  · rw [hs] at hsilhouette
    rcases importSilhouette_eq_ok hsilhouette with ⟨-, hnone⟩ | ⟨shape, s', hshape, hs', hsome⟩
    · cases hnone
    · cases hsome
      rw [heq]
      rw [hshape] at hmoderate
      exact ShapeRecord.isFinite_of_moderate hs' fun x hx =>
        hmoderate x (List.mem_append_left _ (List.mem_append_left _ hx))
  · rw [hwidth, hheight] at hmoderate
    refine ⟨(hmoderate _ ?_).1, (hmoderate _ ?_).1⟩
    · exact List.mem_append_left _ (List.mem_append_right _ (List.mem_singleton_self _))
    · exact List.mem_append_right _ (List.mem_singleton_self _)

/-! ## Section 4: Catalogs -/

/-- All items of a catalog have a finite, positive factor, a positive size and, in a silhouette,
    outlines of three vertices or more that the size is taken from. Such an item is usable if its
    size is finite, as it is if the numbers that are written down for it are moderate. -/
theorem usable_iff {m : Manifest Single} {id : String} {item : CatalogItem Single}
    (h : m.catalog.find? id = some item) :
    item.Sound ∧
      (item.Usable ↔ item.size.width.isFinite = true ∧ item.size.height.isFinite = true) ∧
      ∃ r ∈ m.items, r.toItem = .ok item ∧
        ((∀ x ∈ r.numbers, x.Moderate) → item.Usable) := by
  obtain ⟨r, hr, hitem⟩ := List.mem_filterMap.mp (Catalog.find?_ofItems h).1
  cases himport : r.toItem with
  | error e =>
    rw [himport] at hitem
    cases hitem
  | ok imported =>
    rw [himport] at hitem
    cases hitem
    have hiff := ItemRecord.usable_toItem_iff himport
    exact ⟨ItemRecord.sound_toItem himport, hiff, r, hr, himport,
      fun hmoderate => hiff.mpr (ItemRecord.isFinite_of_moderate himport hmoderate)⟩

/-- An item of which nothing but its geometry is written down. -/
def geometryRecord (id : String) (shape : Option (ShapeRecord Single))
    (width height : Option Single) : ItemRecord Single :=
  { id := id, article := "", name := "", category := none, enabled := true, cuttingLength := 0
    scaleOverride := none, assets := ⟨"", none⟩, shape := shape, width := width, height := height }

/-- A single item, a rectangle away from the origin. -/
def plateManifest : Manifest Single :=
  ⟨[geometryRecord "plate" (some (.rectangle 20 10 40 30)) none none], .empty⟩

theorem usable_iff_plate : ∃ item, plateManifest.catalog.find? "plate" = some item ∧
    item.size = ⟨40, 30⟩ ∧ item.Usable := by
  obtain ⟨item, hitem, hsize⟩ : ∃ item, plateManifest.catalog.find? "plate" = some item ∧
      item.size = ⟨40, 30⟩ := by
    rw [← Option.map_eq_some_iff]
    decide +kernel
  refine ⟨item, hitem, hsize, (usable_iff hitem).2.1.mpr ?_⟩
  rw [hsize]
  decide +kernel

/-- Two items of finite numbers whose widths are too large for one: a rectangle that ends too far to
    the right, and a wedge whose ends lie too far apart. -/
def hugeManifest : Manifest Single :=
  ⟨[geometryRecord "strip" (some (.rectangle 3e38 0 3e38 30)) none none,
    geometryRecord "wedge" (some (.polygon [(-3e38, 0), (3e38, 0), (3e38, 10)])) none none], .empty⟩

/-- Both are items of the catalog, and infinitely wide. -/
theorem hugeManifest_not_usable :
    (∃ item, hugeManifest.catalog.find? "strip" = some item ∧
      item.size = ⟨.infinity, 30⟩ ∧ ¬ item.Usable) ∧
    ∃ item, hugeManifest.catalog.find? "wedge" = some item ∧
      item.size = ⟨.infinity, 10⟩ ∧ ¬ item.Usable := by
  have hwide : ∀ (item : CatalogItem Single) (height : Single), item.size = ⟨.infinity, height⟩ →
      ¬ item.Usable := by
    intro item height hsize husable
    have hfinite := husable.finite.1
    rw [hsize] at hfinite
    exact absurd (show Single.infinity.isFinite = true from hfinite) (by decide)
  constructor
  · obtain ⟨item, hitem, hsize⟩ : ∃ item, hugeManifest.catalog.find? "strip" = some item ∧
        item.size = ⟨.infinity, 30⟩ := by
      rw [← Option.map_eq_some_iff]
      decide +kernel
    exact ⟨item, hitem, hsize, hwide item 30 hsize⟩
  · obtain ⟨item, hitem, hsize⟩ : ∃ item, hugeManifest.catalog.find? "wedge" = some item ∧
        item.size = ⟨.infinity, 10⟩ := by
      rw [← Option.map_eq_some_iff]
      decide +kernel
    exact ⟨item, hitem, hsize, hwide item 10 hsize⟩

end FoamTray
