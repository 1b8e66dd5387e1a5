import FoamTray.Layout.Run
import FoamTray.Proofs.Layout.Zoom
import FoamTray.Proofs.Numeric.Exact
import Mathlib.Data.List.Basic
import Mathlib.Data.List.Nodup
import Mathlib.Data.List.Permutation
import Mathlib.Data.Prod.Lex

/-! # What a report lists

    A validation compares every two contours once, the one placed first with the one placed
    second. It gives up on a pair at the first contour that cannot be drawn.

    * `mem_pairsOf`, `pairwise_pairsOf` : all pairs of a list, each once and in order.
    * `Bitmap.overlaps_iff` : what it means that two bitmaps overlap.
    * `Layout.Compared` : the outcomes of a comparison with the circumstances that lead to each.
    * `mem_collidingPairs`, `accounted`, `undrawn_of_mem_uncheckedContours` : the findings told from
      these circumstances.
    * `Report.AccountsFor`, `every_pair_accounted` : the findings of a validation, all together.
-/

namespace FoamTray

/-! ## Section 1: Pairs of a list -/

section Pairs

variable {β : Type} {a b : β} {bs : List β}

/-- A pair is listed if its first member comes before its second one. -/
theorem mem_pairsOf : (a, b) ∈ pairsOf bs ↔ [a, b].Sublist bs := by
  induction bs with
  | nil => simp [pairsOf]
  | cons c rest ih =>
    rw [pairsOf, List.mem_append, ih, List.mem_map, List.sublist_cons_iff]
    constructor
    · rintro (⟨b', hb', he⟩ | h)
      · obtain ⟨rfl, rfl⟩ := Prod.mk.inj he
        exact .inr ⟨[b'], rfl, List.singleton_sublist.mpr hb'⟩
      · exact .inl h
    · rintro (h | ⟨tail, he, h⟩)
      · exact .inr h
      · obtain ⟨rfl, rfl⟩ := List.cons.inj he
        exact .inl ⟨b, List.singleton_sublist.mp h, rfl⟩

/-- Of two members of a list one comes before the other. -/
theorem sublist_pair_or (ha : a ∈ bs) (hb : b ∈ bs) (hne : a ≠ b) :
    [a, b].Sublist bs ∨ [b, a].Sublist bs := by
  induction bs with
  | nil => cases ha
  | cons c rest ih =>
    rcases List.mem_cons.mp ha with rfl | ha'
    · have hb' := (List.mem_cons.mp hb).resolve_left hne.symm
      exact .inl ((List.singleton_sublist.mpr hb').cons_cons a)
    · rcases List.mem_cons.mp hb with rfl | hb'
      · exact .inr ((List.singleton_sublist.mpr ha').cons_cons b)
      · rcases ih ha' hb' with h | h
        · exact .inl (h.cons c)
        · exact .inr (h.cons c)

theorem mem_of_sublist_pair (h : [a, b].Sublist bs) : a ∈ bs ∧ b ∈ bs :=
  ⟨h.subset List.mem_cons_self, h.subset (List.mem_cons_of_mem a List.mem_cons_self)⟩

/-- In another order the same two members are a pair, one way around or the other. -/
theorem sublist_pair_of_perm {bs' : List β} (hperm : bs.Perm bs') (h : [a, b].Sublist bs) :
    [a, b].Sublist bs' ∨ [b, a].Sublist bs' := by
  obtain ⟨pair, hpair, hsub⟩ := h.subperm.trans hperm.subperm
  rcases List.perm_pair.mp hpair with rfl | rfl
  · exact .inl hsub
  · exact .inr hsub

/-- Pairs are listed in the order of their first members, those with one first member in the order
    of their second ones. -/
theorem pairwise_pairsOf {place : β → Nat} (h : bs.Pairwise fun a b => place a < place b) :
    (pairsOf bs).Pairwise fun p q =>
      Prod.Lex (· < ·) (· < ·) (place p.1, place p.2) (place q.1, place q.2) := by
  induction bs with
  | nil => exact List.Pairwise.nil
  | cons c rest ih =>
    obtain ⟨hfirst, hrest⟩ := List.pairwise_cons.mp h
    rw [pairsOf, List.pairwise_append]
    refine ⟨?_, ih hrest, ?_⟩
    -- pairs that begin with `c`
    · rw [List.pairwise_map]
      exact hrest.imp fun hlt => .right _ hlt
    -- these come before all others
    · intro p hp q hq
      obtain ⟨b, -, rfl⟩ := List.mem_map.mp hp
      have hmem := (mem_pairsOf (a := q.1) (b := q.2)).mp hq
      exact .left _ _ (hfirst q.1 (hmem.subset List.mem_cons_self))

end Pairs

/-- Members that are listed once each are listed without repetition. -/
theorem nodup_eraseDups (ids : List Nat) : ids.eraseDups.Nodup := by
  induction hn : ids.length using Nat.strong_induction_on generalizing ids with
  | _ n ih =>
    cases ids with
    | nil => exact List.nodup_nil
    | cons id rest =>
      -- the first member is taken out of the rest before that is looked at
      have hlength : (rest.filter fun b => !b == id).length < n := by
        have hle := List.length_filter_le (fun b => !b == id) rest
        rw [List.length_cons] at hn
        omega
      rw [List.eraseDups_cons, List.nodup_cons]
      exact ⟨by simp, ih _ hlength _ rfl⟩

/-- The place of a number in a list without repetition grows along the list. -/
theorem pairwise_idxOf {β : Type} {f : β → Nat} {bs : List β} (h : (bs.map f).Nodup) :
    bs.Pairwise fun a b => (bs.map f).idxOf (f a) < (bs.map f).idxOf (f b) := by
  rw [List.pairwise_iff_getElem]
  intro i j hi hj hij
  have hplace : ∀ k (hk : k < bs.length), (bs.map f).idxOf (f bs[k]) = k := by
    intro k hk
    have hk' : k < (bs.map f).length := by rwa [List.length_map]
    have hidx := h.idxOf_getElem k hk'
    rwa [List.getElem_map] at hidx
  rw [hplace i hi, hplace j hj]
  exact hij

/-! ## Section 2: Ink that bitmaps share -/

namespace Bitmap

/-- Two bitmaps of one size have ink at one pixel. -/
def SharesInk (a b : Bitmap) (threshold : Nat) : Prop :=
  a.width = b.width ∧ a.height = b.height ∧ ∃ x y p q,
    a.alphaAt? x y = some p ∧ b.alphaAt? x y = some q ∧
      threshold < p.toNat ∧ threshold < q.toNat

variable {a b : Bitmap} {threshold : Nat}

/-- Pixels lie row by row. -/
theorem alphaAt?_eq_some {x y : Nat} {p : UInt8} :
    a.alphaAt? x y = some p ↔
      (x < a.width ∧ y < a.height) ∧ a.alpha[y * a.width + x]? = some p := by
  unfold alphaAt?
  split
  · rename_i h
    simp [h]
  · rename_i h
    simp [h]

/-- Every value is that of a pixel. -/
theorem exists_pixel {i : Nat} (h : i < a.alpha.size) :
    ∃ x y, (x < a.width ∧ y < a.height) ∧ y * a.width + x = i := by
  rw [a.size_alpha] at h
  have hwidth : 0 < a.width := Nat.pos_of_ne_zero fun h0 => by simp [h0] at h
  exact ⟨i % a.width, i / a.width, ⟨Nat.mod_lt _ hwidth, Nat.div_lt_of_lt_mul h⟩,
    Nat.div_add_mod' i a.width⟩

/-- Some place of two lists of values holds ink in both. -/
theorem any_zip_iff {v w : Array UInt8} :
    ((v.zip w).any fun (p, q) => isInk threshold p && isInk threshold q) = true ↔
      ∃ (i : Nat) (p q : UInt8), v[i]? = some p ∧ w[i]? = some q ∧
        threshold < p.toNat ∧ threshold < q.toNat := by
  rw [Array.any_eq_true]
  unfold isInk
  constructor
  · rintro ⟨i, hi, hink⟩
    rw [Array.size_zip, Nat.lt_min] at hi
    rw [Array.getElem_zip, Bool.and_eq_true, decide_eq_true_iff, decide_eq_true_iff] at hink
    exact ⟨i, v[i], w[i], Array.getElem?_eq_getElem hi.1, Array.getElem?_eq_getElem hi.2, hink⟩
  · rintro ⟨i, p, q, hp, hq, hink⟩
    obtain ⟨hv, rfl⟩ := Array.getElem?_eq_some_iff.mp hp
    obtain ⟨hw, rfl⟩ := Array.getElem?_eq_some_iff.mp hq
    refine ⟨i, by rw [Array.size_zip, Nat.lt_min]; exact ⟨hv, hw⟩, ?_⟩
    rw [Array.getElem_zip, Bool.and_eq_true, decide_eq_true_iff, decide_eq_true_iff]
    exact hink

theorem overlaps_iff : a.overlaps b threshold = true ↔ a.SharesInk b threshold := by
  unfold overlaps SharesInk
  rw [Bool.and_eq_true, Bool.and_eq_true, beq_iff_eq, beq_iff_eq, and_assoc, any_zip_iff]
  refine and_congr_right fun hwidth => and_congr_right fun hheight => ?_
  constructor
  · rintro ⟨i, p, q, hp, hq, hink⟩
    obtain ⟨x, y, hxy, rfl⟩ := exists_pixel (Array.getElem?_eq_some_iff.mp hp).1
    refine ⟨x, y, p, q, alphaAt?_eq_some.mpr ⟨hxy, hp⟩, alphaAt?_eq_some.mpr ⟨?_, ?_⟩, hink⟩
    · rw [← hwidth, ← hheight]
      exact hxy
    · rw [← hwidth]
      exact hq
  · rintro ⟨x, y, p, q, hp, hq, hink⟩
    obtain ⟨-, hp'⟩ := alphaAt?_eq_some.mp hp
    obtain ⟨-, hq'⟩ := alphaAt?_eq_some.mp hq
    rw [← hwidth] at hq'
    exact ⟨y * a.width + x, p, q, hp', hq', hink⟩

end Bitmap

/-! ## Section 3: Comparing two contours -/

namespace Layout

variable {l : Layout Single} {rasterizer : Rasterizer Single} {s : Settings Single}
  {a b c : Contour Single} {region : Rect Single}

/-- The box of a contour grown by the clearance. -/
def grownBounds (l : Layout Single) (s : Settings Single) (c : Contour Single) : Rect Single :=
  (c.bounds l.zoom).inflate (l.zoom.toWorkspace s.clearance)

/-- A contour has a silhouette, and this, grown by half the clearance, is drawn as a bitmap. -/
def DrawnAs (l : Layout Single) (rasterizer : Rasterizer Single) (s : Settings Single)
    (region : Rect Single) (c : Contour Single) (bitmap : Bitmap) : Prop :=
  ∃ item silhouette, l.placements.item? c.id = some item ∧ item.silhouette = some silhouette ∧
    rasterizer { silhouette := silhouette
                 placement := c.placement silhouette l.zoom
                 dilation := l.zoom.toWorkspace s.clearance / ((2 : Nat) : Single)
                 viewport := region } = some bitmap

/-- A contour has no silhouette, or it is not drawn. -/
def Undrawn (l : Layout Single) (rasterizer : Rasterizer Single) (s : Settings Single)
    (region : Rect Single) (c : Contour Single) : Prop :=
  ∀ bitmap, ¬ l.DrawnAs rasterizer s region c bitmap

/-- Boxes that have a part with an inside in common touch. -/
theorem commonRegion?_eq (l : Layout Single) (a b : Contour Single) (s : Settings Single) :
    l.commonRegion? a b s = Rect.intersection (l.grownBounds s a) (l.grownBounds s b) := by
  show (if (l.grownBounds s a).collides (l.grownBounds s b) then
    Rect.intersection (l.grownBounds s a) (l.grownBounds s b) else none) = _
  split
  · rfl
  · rename_i h
    unfold Rect.intersection
    dsimp only
    split
    · rename_i hlt
      refine absurd ?_ h
      unfold Rect.collides
      rw [decide_eq_true (Single.le_of_lt hlt.1), decide_eq_true (Single.le_of_lt hlt.2)]
      rfl
    · rfl

/-- What a comparison comes to, and from what. -/
inductive Compared (l : Layout Single) (rasterizer : Rasterizer Single) (s : Settings Single)
    (a b : Contour Single) : PairVerdict → Prop where
  /-- The grown boxes have no common part. -/
  | separated (h : Rect.intersection (l.grownBounds s a) (l.grownBounds s b) = none) :
      Compared l rasterizer s a b .separated
  /-- The first contour could not be drawn. -/
  | firstUndrawn {region : Rect Single}
      (h : Rect.intersection (l.grownBounds s a) (l.grownBounds s b) = some region)
      (ha : l.Undrawn rasterizer s region a) : Compared l rasterizer s a b (.unchecked a.id)
  /-- The second contour could not be drawn. -/
  | secondUndrawn {region : Rect Single}
      (h : Rect.intersection (l.grownBounds s a) (l.grownBounds s b) = some region)
      (hb : l.Undrawn rasterizer s region b) : Compared l rasterizer s a b (.unchecked b.id)
  /-- Both were drawn, and the bitmaps share ink. -/
  | colliding {region : Rect Single} {p q : Bitmap}
      (h : Rect.intersection (l.grownBounds s a) (l.grownBounds s b) = some region)
      (ha : l.DrawnAs rasterizer s region a p) (hb : l.DrawnAs rasterizer s region b q)
      (hink : p.SharesInk q s.raster.alphaThreshold) : Compared l rasterizer s a b .colliding
  /-- Both were drawn, and the bitmaps share no ink. -/
  | apart {region : Rect Single} {p q : Bitmap}
      (h : Rect.intersection (l.grownBounds s a) (l.grownBounds s b) = some region)
      (ha : l.DrawnAs rasterizer s region a p) (hb : l.DrawnAs rasterizer s region b q)
      (hink : ¬ p.SharesInk q s.raster.alphaThreshold) : Compared l rasterizer s a b .apart

/-- A contour is drawn if there is something to ask for and the answer is a bitmap. -/
theorem bind_renderRequest?_eq_some {bitmap : Bitmap} :
    (l.renderRequest? c region s).bind rasterizer = some bitmap ↔
      l.DrawnAs rasterizer s region c bitmap := by
  unfold renderRequest? DrawnAs
  cases l.placements.item? c.id with
  | none => simp
  | some item => cases h : item.silhouette <;> simp [h]

theorem undrawn_of_bind_eq_none (h : (l.renderRequest? c region s).bind rasterizer = none) :
    l.Undrawn rasterizer s region c := by
  intro bitmap hdrawn
  rw [← bind_renderRequest?_eq_some, h] at hdrawn
  cases hdrawn

/-- Every comparison comes to one of these outcomes. -/
theorem compared_checkPair (l : Layout Single) (rasterizer : Rasterizer Single)
    (s : Settings Single) (a b : Contour Single) :
    Compared l rasterizer s a b (l.checkPair rasterizer s a b).verdict := by
  unfold checkPair
  rw [commonRegion?_eq]
  dsimp only
  cases h : Rect.intersection (l.grownBounds s a) (l.grownBounds s b) with
  | none => exact .separated h
  | some region =>
    dsimp only
    cases hra : l.renderRequest? a region s with
    | none => exact .firstUndrawn h (undrawn_of_bind_eq_none (by rw [hra]; rfl))
    | some requestA =>
      dsimp only
      cases hba : rasterizer requestA with
      | none => exact .firstUndrawn h (undrawn_of_bind_eq_none (by rw [hra]; exact hba))
      | some p =>
        dsimp only
        have ha : l.DrawnAs rasterizer s region a p :=
          bind_renderRequest?_eq_some.mp (by rw [hra]; exact hba)
        cases hrb : l.renderRequest? b region s with
        | none => exact .secondUndrawn h (undrawn_of_bind_eq_none (by rw [hrb]; rfl))
        | some requestB =>
          dsimp only
          cases hbb : rasterizer requestB with
          | none => exact .secondUndrawn h (undrawn_of_bind_eq_none (by rw [hrb]; exact hbb))
          | some q =>
            dsimp only
            have hb : l.DrawnAs rasterizer s region b q :=
              bind_renderRequest?_eq_some.mp (by rw [hrb]; exact hbb)
            split
            · rename_i hink
              exact .colliding h ha hb (Bitmap.overlaps_iff.mp hink)
            · rename_i hink
              exact .apart h ha hb fun hs => hink (Bitmap.overlaps_iff.mpr hs)

/-- A contour is drawn as one bitmap. -/
theorem DrawnAs.eq {p q : Bitmap} (hp : l.DrawnAs rasterizer s region c p)
    (hq : l.DrawnAs rasterizer s region c q) : p = q := by
  rw [← bind_renderRequest?_eq_some] at hp hq
  rw [hp] at hq
  exact Option.some.inj hq

/-- Two contours are found too close: their grown boxes have a common part, both are drawn in it,
    and the bitmaps share ink. -/
def TooClose (l : Layout Single) (rasterizer : Rasterizer Single) (s : Settings Single)
    (a b : Contour Single) : Prop :=
  ∃ region p q, Rect.intersection (l.grownBounds s a) (l.grownBounds s b) = some region ∧
    l.DrawnAs rasterizer s region a p ∧ l.DrawnAs rasterizer s region b q ∧
    p.SharesInk q s.raster.alphaThreshold

theorem verdict_eq_colliding_iff :
    (l.checkPair rasterizer s a b).verdict = .colliding ↔ l.TooClose rasterizer s a b := by
  have hcompared := compared_checkPair l rasterizer s a b
  constructor
  · intro h
    rw [h] at hcompared
    cases hcompared with
    | colliding h ha hb hink => exact ⟨_, _, _, h, ha, hb, hink⟩
  · rintro ⟨region, p, q, h, ha, hb, hink⟩
    generalize (l.checkPair rasterizer s a b).verdict = verdict at hcompared
    -- no other outcome goes with these circumstances
    cases hcompared with
    | separated h' => rw [h] at h'; cases h'
    | firstUndrawn h' ha' => rw [h] at h'; cases h'; exact absurd ha (ha' p)
    | secondUndrawn h' hb' => rw [h] at h'; cases h'; exact absurd hb (hb' q)
    | colliding => rfl
    | apart h' ha' hb' hink' =>
      rw [h] at h'
      cases h'
      rw [ha.eq ha', hb.eq hb'] at hink
      exact absurd hink hink'

/-! ## Section 4: The lists of a report -/

theorem ids_checkPair (l : Layout Single) (rasterizer : Rasterizer Single) (s : Settings Single)
    (a b : Contour Single) : (l.checkPair rasterizer s a b).first = a.id ∧
      (l.checkPair rasterizer s a b).second = b.id := by
  unfold checkPair
  dsimp only
  repeat' split
  all_goals exact ⟨rfl, rfl⟩

/-- The pairs that are too close are taken from all pairs, in their order. -/
theorem collidingPairs_eq (l : Layout Single) (rasterizer : Rasterizer Single)
    (s : Settings Single) : (l.report rasterizer s).collidingPairs =
      ((pairsOf l.placements.contours).filter fun p =>
        (l.checkPair rasterizer s p.1 p.2).verdict = .colliding).map fun p => (p.1.id, p.2.id) := by
  show (((pairsOf l.placements.contours).map _).filterMap _) = _
  rw [List.filterMap_map, ← List.filterMap_eq_filter, List.map_filterMap]
  refine List.filterMap_congr fun p _ => ?_
  obtain ⟨hfirst, hsecond⟩ := ids_checkPair l rasterizer s p.1 p.2
  simp only [Function.comp, hfirst, hsecond, Option.guard]
  by_cases h : (l.checkPair rasterizer s p.1 p.2).verdict = .colliding <;> simp [h]

/-- A pair of numbers is listed if it is that of two contours that are too close. -/
theorem mem_collidingPairs {i j : Nat} :
    (i, j) ∈ (l.report rasterizer s).collidingPairs ↔
      ∃ a b, [a, b].Sublist l.placements.contours ∧ (a.id = i ∧ b.id = j) ∧
        l.TooClose rasterizer s a b := by
  rw [collidingPairs_eq, List.mem_map]
  constructor
  · rintro ⟨⟨a, b⟩, hp, he⟩
    obtain ⟨hmem, hverdict⟩ := List.mem_filter.mp hp
    exact ⟨a, b, mem_pairsOf.mp hmem, Prod.mk.inj he,
      verdict_eq_colliding_iff.mp (of_decide_eq_true hverdict)⟩
  · rintro ⟨a, b, hsub, ⟨rfl, rfl⟩, hclose⟩
    exact ⟨(a, b), List.mem_filter.mpr ⟨mem_pairsOf.mpr hsub,
      decide_eq_true (verdict_eq_colliding_iff.mpr hclose)⟩, rfl⟩

/-- Pairs that are too close are listed by the places of their contours. -/
theorem pairwise_collidingPairs (hids : l.placements.ids.Nodup) :
    (l.report rasterizer s).collidingPairs.Pairwise fun p q => Prod.Lex (· < ·) (· < ·)
      (l.placements.ids.idxOf p.1, l.placements.ids.idxOf p.2)
      (l.placements.ids.idxOf q.1, l.placements.ids.idxOf q.2) := by
  rw [collidingPairs_eq, List.pairwise_map]
  exact (pairwise_pairsOf (pairwise_idxOf hids)).filter _

/-- A contour is listed as unchecked if a comparison came to that. -/
theorem mem_uncheckedContours {i : Nat} :
    i ∈ (l.report rasterizer s).uncheckedContours ↔
      ∃ a b, [a, b].Sublist l.placements.contours ∧
        (l.checkPair rasterizer s a b).verdict = .unchecked i := by
  show i ∈ (((pairsOf l.placements.contours).map _).filterMap _).eraseDups ↔ _
  rw [List.mem_eraseDups, List.filterMap_map, List.mem_filterMap]
  constructor
  · rintro ⟨⟨a, b⟩, hmem, h⟩
    refine ⟨a, b, mem_pairsOf.mp hmem, ?_⟩
    dsimp only [Function.comp] at h
    split at h
    · rename_i id hverdict
      rw [hverdict, Option.some.inj h]
    · cases h
  · rintro ⟨a, b, hsub, hverdict⟩
    refine ⟨(a, b), mem_pairsOf.mpr hsub, ?_⟩
    dsimp only [Function.comp]
    rw [hverdict]

/-- A pair of contours is accounted for: the boxes are far apart, or both contours were drawn, or
    one of them is listed as unchecked. -/
def Accounted (l : Layout Single) (rasterizer : Rasterizer Single) (s : Settings Single)
    (unchecked : List Nat) (a b : Contour Single) : Prop :=
  Rect.intersection (l.grownBounds s a) (l.grownBounds s b) = none ∨
    (∃ region p q, Rect.intersection (l.grownBounds s a) (l.grownBounds s b) = some region ∧
      l.DrawnAs rasterizer s region a p ∧ l.DrawnAs rasterizer s region b q) ∨
    a.id ∈ unchecked ∨ b.id ∈ unchecked

/-- No pair is skipped silently. -/
theorem accounted (h : [a, b].Sublist l.placements.contours) :
    l.Accounted rasterizer s (l.report rasterizer s).uncheckedContours a b := by
  have hunchecked : ∀ i, (l.checkPair rasterizer s a b).verdict = .unchecked i →
      i ∈ (l.report rasterizer s).uncheckedContours :=
    fun i hv => mem_uncheckedContours.mpr ⟨a, b, h, hv⟩
  have hcompared := compared_checkPair l rasterizer s a b
  generalize (l.checkPair rasterizer s a b).verdict = verdict at hcompared hunchecked
  cases hcompared with
  | separated hnone => exact .inl hnone
  | firstUndrawn => exact .inr (.inr (.inl (hunchecked _ rfl)))
  | secondUndrawn => exact .inr (.inr (.inr (hunchecked _ rfl)))
  | colliding hsome ha hb => exact .inr (.inl ⟨_, _, _, hsome, ha, hb⟩)
  | apart hsome ha hb => exact .inr (.inl ⟨_, _, _, hsome, ha, hb⟩)

/-- A contour that is listed as unchecked could not be drawn next to another one. -/
theorem undrawn_of_mem_uncheckedContours {i : Nat}
    (h : i ∈ (l.report rasterizer s).uncheckedContours) :
    ∃ a b region, [a, b].Sublist l.placements.contours ∧
      Rect.intersection (l.grownBounds s a) (l.grownBounds s b) = some region ∧
      ∃ c ∈ [a, b], c.id = i ∧ l.Undrawn rasterizer s region c := by
  obtain ⟨a, b, hsub, hverdict⟩ := mem_uncheckedContours.mp h
  have hcompared := compared_checkPair l rasterizer s a b
  rw [hverdict] at hcompared
  cases hcompared with
  | firstUndrawn hsome ha => exact ⟨a, b, _, hsub, hsome, a, by simp, rfl, ha⟩
  | secondUndrawn hsome hb => exact ⟨a, b, _, hsub, hsome, b, by simp, rfl, hb⟩

/-! ## Section 5: All findings together -/

/-- Members that fail a test, listed by a name of their own each. -/
theorem listed_by_name {β γ : Type} {name : β → γ} {bs : List β} (hnd : (bs.map name).Nodup)
    (test : β → Bool) :
    ((bs.filter (!test ·)).map name).Sublist (bs.map name) ∧
      ((bs.filter (!test ·)).map name).Nodup ∧
      ∀ b ∈ bs, name b ∈ (bs.filter (!test ·)).map name ↔ test b = false := by
  have hsub : ((bs.filter (!test ·)).map name).Sublist (bs.map name) := List.filter_sublist.map _
  refine ⟨hsub, hnd.sublist hsub, fun b hb => ?_⟩
  rw [List.mem_map]
  constructor
  · rintro ⟨b', hb', he⟩
    obtain ⟨hmem, htest⟩ := List.mem_filter.mp hb'
    rw [List.inj_on_of_nodup_map hnd hmem hb he] at htest
    simpa using htest
  · intro htest
    exact ⟨b, List.mem_filter.mpr ⟨hb, by rw [htest]; rfl⟩, rfl⟩

end Layout

/-- A report says of a layout in millimetres what it should: all of it, once, and in order. -/
structure Report.AccountsFor (r : Report) (l : Layout Single) (rasterizer : Rasterizer Single)
    (s : Settings Single) : Prop where
  /-- The pairs listed as colliding are those of two contours that are too close, the one placed
      first named first. -/
  mem_collidingPairs : ∀ i j, (i, j) ∈ r.collidingPairs ↔
    ∃ a b, [a, b].Sublist l.placements.contours ∧ (a.id = i ∧ b.id = j) ∧
      l.TooClose rasterizer s a b
  /-- They are listed in the order of placing, by their first contours and then by their second. -/
  pairwise_collidingPairs : r.collidingPairs.Pairwise fun p q => Prod.Lex (· < ·) (· < ·)
    (l.placements.ids.idxOf p.1, l.placements.ids.idxOf p.2)
    (l.placements.ids.idxOf q.1, l.placements.ids.idxOf q.2)
  /-- None is listed twice. -/
  nodup_collidingPairs : r.collidingPairs.Nodup
  /-- Every two contours are far apart, or were compared, or one of them is listed as unchecked. -/
  accounted : ∀ a ∈ l.placements.contours, ∀ b ∈ l.placements.contours, a ≠ b →
    [a, b].Sublist l.placements.contours ∧ l.Accounted rasterizer s r.uncheckedContours a b ∨
    [b, a].Sublist l.placements.contours ∧ l.Accounted rasterizer s r.uncheckedContours b a
  /-- No contour is listed as unchecked twice. -/
  nodup_uncheckedContours : r.uncheckedContours.Nodup
  /-- One that is could not be drawn next to another one. -/
  undrawn : ∀ i ∈ r.uncheckedContours, ∃ a b region, [a, b].Sublist l.placements.contours ∧
    Rect.intersection (l.grownBounds s a) (l.grownBounds s b) = some region ∧
    ∃ c ∈ [a, b], c.id = i ∧ l.Undrawn rasterizer s region c
  /-- The contours outside are listed in the order of placing, each once. -/
  outOfBoundsContours : r.outOfBoundsContours.Sublist l.placements.ids ∧
    r.outOfBoundsContours.Nodup ∧ ∀ c ∈ l.placements.contours,
      c.id ∈ r.outOfBoundsContours ↔ (l.safeArea s).almostContains (c.bounds l.zoom) = false
  /-- The primitives outside are listed in the order of their slots, each once. -/
  outOfBoundsPrimitives : r.outOfBoundsPrimitives.Sublist l.primitives.keys ∧
    r.outOfBoundsPrimitives.Nodup ∧ ∀ e ∈ l.primitives.entries,
      e.1 ∈ r.outOfBoundsPrimitives ↔ (l.safeArea s).almostContains e.2.bounds = false

namespace Layout

/-- A validation of a layout in millimetres answers a report that accounts for every pair of
    contours, once and in order, and for every entity outside of the safe area. -/
theorem every_pair_accounted {l : Layout Single} (hz : l.zoom.isUnit = true)
    (hids : l.placements.ids.Nodup) (rasterizer : Rasterizer Single) (s : Settings Single) :
    ∃ r after, l.validate rasterizer s = (.ok r, after) ∧ r.AccountsFor l rasterizer s := by
  have hordered : (l.report rasterizer s).collidingPairs.Pairwise _ := pairwise_collidingPairs hids
  refine ⟨l.report rasterizer s, _, validate_eq hz rasterizer s, ?_⟩
  exact {
    mem_collidingPairs := fun _ _ => mem_collidingPairs
    pairwise_collidingPairs := hordered
    nodup_collidingPairs := by
      -- what comes strictly later is not the same
      refine hordered.imp fun hlt he => ?_
      subst he
      rcases Prod.lex_def.mp hlt with h | ⟨-, h⟩
      · exact lt_irrefl _ h
      · exact lt_irrefl _ h
    accounted := by
      intro a ha b hb hne
      rcases sublist_pair_or ha hb hne with h | h
      · exact .inl ⟨h, accounted h⟩
      · exact .inr ⟨h, accounted h⟩
    nodup_uncheckedContours := nodup_eraseDups _
    undrawn := fun _ hi => undrawn_of_mem_uncheckedContours hi
    outOfBoundsContours := listed_by_name hids fun c =>
      (l.safeArea s).almostContains (c.bounds l.zoom)
    outOfBoundsPrimitives := listed_by_name l.primitives.nodup_keys fun e =>
      (l.safeArea s).almostContains e.2.bounds }

/-- A catalog of a plate with a silhouette and of a rod without one. -/
def plateCatalog : Catalog Single :=
  let plate : Rect Single := ⟨0, 0, 30, 20⟩
  let item : CatalogItem Single :=
    { id := "plate", article := "P-30", name := "Plate", category := none, enabled := true
      cuttingLength := 0, scaleOverride := 1, drawing := "plate.svg", preview := none
      silhouette := some (.ofRect plate), size := ⟨30, 20⟩ }
  .ofItems [item, { item with id := "rod", silhouette := none }] .empty

/-- A tray with two plates close to one another, a rod beside them, and a pocket at the edge. -/
def crowdedTray : Layout Single :=
  (make (.default .standard)).run plateCatalog .standard .flood
    [.command (.place "plate" (some ⟨60, 60⟩)), .command (.place "plate" (some ⟨85, 60⟩)),
      .command (.place "rod" (some ⟨60, 80⟩)), .command (.addPrimitive (.circle 10) (some ⟨20, 50⟩))]

theorem every_pair_accounted_crowdedTray :
    crowdedTray.zoom.isUnit = true ∧ crowdedTray.placements.ids.Nodup ∧
    ∃ r after, crowdedTray.validate .flood .standard = (.ok r, after) ∧
      r.AccountsFor crowdedTray .flood .standard ∧
      r = ⟨[], [⟨1, 1⟩], [(0, 1)], [2]⟩ := by
  have hz : crowdedTray.zoom.isUnit = true := by decide +kernel
  have hids : crowdedTray.placements.ids.Nodup := by decide +kernel
  obtain ⟨r, after, hvalidate, hr⟩ := every_pair_accounted hz hids .flood .standard
  refine ⟨hz, hids, r, after, hvalidate, hr, ?_⟩
  have hreport : (crowdedTray.validate .flood .standard).1.toOption =
      some ⟨[], [⟨1, 1⟩], [(0, 1)], [2]⟩ := by decide +kernel
  rw [hvalidate] at hreport
  exact Option.some.inj hreport

end Layout

end FoamTray
