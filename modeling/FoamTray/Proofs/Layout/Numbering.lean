import FoamTray.Layout.Save
import FoamTray.Proofs.Layout.History

/-! # Numbers of placements

    Removing a contour, clearing a layout and restoring another one forget which numbers were in
    use. The counter is what remembers them: it is above the number of every contour that is there
    (`Placements.Consistent`), and no step lowers it. So it stays above the number of every
    contour that was ever there, and a contour that is placed gets the counter's value.

    * `le_nextId_act` : no step lowers the counter.
    * `LeadsTo.le_nextId` : nor does a history.
    * `numbers_never_reused` : a new number is that of a new contour, and above all numbers of the
      past.
-/

namespace FoamTray

/-! ## Section 1: The counter -/

namespace Layout

variable {α : Type} [Coordinate α] {l m : Layout α}

theorem nextId_rescaleTo (l : Layout α) (z : Zoom α) :
    (l.rescaleTo z).placements.nextId = l.placements.nextId := by
  unfold rescaleTo
  split <;> rfl

theorem nextId_validate (l : Layout α) (rasterizer : Rasterizer α) (s : Settings α) :
    (l.validate rasterizer s).2.placements.nextId = l.placements.nextId := by
  rcases l.validate_snd_cases rasterizer s with he | ⟨r, he⟩
  · rw [he]
  · rw [he]
    rfl

theorem nextId_check (l : Layout α) (rasterizer : Rasterizer α) (s : Settings α) :
    (l.check rasterizer s).2.placements.nextId = l.placements.nextId := by
  show (((l.rescaleTo .unit).validate rasterizer s).2.rescaleTo l.zoom).placements.nextId = _
  rw [nextId_rescaleTo, nextId_validate, nextId_rescaleTo]

/-- Only a contour that comes in moves the counter. -/
theorem le_nextId_change {catalog : Catalog α} {s : Settings α} (hc : l.Change catalog s m) :
    l.placements.nextId ≤ m.placements.nextId := by
  cases hc with
  | rescaled z => exact Nat.le_of_eq (nextId_rescaleTo l z).symm
  | placed position hi => exact Placements.le_nextId_insert _ _ _ _ _ _
  | unchanged => exact Nat.le_refl _
  | contourEdited hc hf hg => exact Nat.le_refl _
  | contourErased hc => exact Nat.le_refl _
  | primitiveAdded p => exact Nat.le_refl _
  | primitiveEdited k p => exact Nat.le_refl _
  | primitiveErased k => exact Nat.le_refl _
  | labelAttached hc ho => exact Nat.le_refl _
  | labelEdited hk ho => exact Nat.le_refl _
  | labelErased k => exact Nat.le_refl _
  | trayResized tray => exact Nat.le_refl _

/-- The contours of a document are numbered from the counter on, or lift it above their own
    numbers. -/
theorem le_nextId_restore (l : Layout α) (doc : Workspace α) (catalog : Catalog α)
    (s : Settings α) : l.placements.nextId ≤ (l.restore doc catalog s).2.placements.nextId := by
  by_cases hv : doc.schemaVersion = schemaVersion
  · rw [restore_eq l hv]
    dsimp only
    rw [nextId_rescaleTo]
    exact (Placements.lt_nextId_ofContours _ _).1
  · have hsame : (l.restore doc catalog s).2 = l := by rw [restore_of_ne l hv]
    exact Nat.le_of_eq (by rw [hsame])

/-- No step lowers the counter. -/
theorem le_nextId_act (h : l.Consistent) (catalog : Catalog α) (s : Settings α)
    (rasterizer : Rasterizer α) (a : Action α) :
    l.placements.nextId ≤ (l.act catalog s rasterizer a).placements.nextId := by
  unfold Layout.act
  cases a with
  | command c => exact le_nextId_change (atomic_apply h c catalog s).change
  | restore doc => exact le_nextId_restore l doc catalog s
  | clear => exact Nat.le_refl _
  | validate => exact Nat.le_of_eq (nextId_validate l rasterizer s).symm
  | check => exact Nat.le_of_eq (nextId_check l rasterizer s).symm
  | order =>
    dsimp only
    rw [exportWith_snd]
    exact Nat.le_of_eq (nextId_check l rasterizer s).symm

/-! ## Section 2: Histories -/

/-- What a history makes of a layout. The catalog, the settings and the rasterizer may be others
    at each step. -/
inductive LeadsTo (l : Layout α) : Layout α → Prop where
  | refl : LeadsTo l l
  | act {m : Layout α} (catalog : Catalog α) (s : Settings α) (rasterizer : Rasterizer α)
      (a : Action α) (h : LeadsTo l m) : LeadsTo l (m.act catalog s rasterizer a)

theorem Attainable.leadsTo (hl : l.Attainable) (h : l.LeadsTo m) : m.Attainable := by
  induction h with
  | refl => exact hl
  | act catalog s rasterizer a _ ih => exact .act catalog s rasterizer a ih

theorem LeadsTo.run (h : l.LeadsTo m) (catalog : Catalog α) (s : Settings α)
    (rasterizer : Rasterizer α) (actions : List (Action α)) :
    l.LeadsTo (m.run catalog s rasterizer actions) := by
  induction actions generalizing m with
  | nil => exact h
  | cons a rest ih => exact ih (.act catalog s rasterizer a h)

/-- The counter never goes down. -/
theorem LeadsTo.le_nextId (h : l.LeadsTo m) (hl : l.Attainable) :
    l.placements.nextId ≤ m.placements.nextId := by
  induction h with
  | refl => exact Nat.le_refl _
  | @act m catalog s rasterizer a hm ih =>
    have hstep := le_nextId_act (hl.leadsTo hm).consistent catalog s rasterizer a
    exact Nat.le_trans ih hstep

/-- A contour that is placed is answered with its number, the counter's value, and is there then. -/
theorem apply_place_ok {catalog : Catalog α} {s : Settings α} {itemId : String}
    {position : Option (Point α)} {outcome : CommandOutcome} {after : Layout α}
    (h : m.apply (.place itemId position) catalog s = (.ok outcome, after)) :
    outcome.created = some (.contour m.placements.nextId) ∧
      m.placements.nextId ∈ after.placements.ids := by
  unfold apply placeContour at h
  dsimp only at h
  cases hi : catalog.find? itemId with
  | none =>
    rw [hi] at h
    cases h
  | some item =>
    rw [hi] at h
    obtain ⟨houtcome, hafter⟩ := Prod.mk.inj h
    rw [← Except.ok.inj houtcome, ← hafter]
    refine ⟨rfl, ?_⟩
    show _ ∈ (m.placements.contours ++ [_]).map Contour.id
    rw [List.map_append]
    exact List.mem_append_right _ List.mem_cons_self

/-- A contour that is placed is there then, with a number above those of all contours of the past. -/
theorem LeadsTo.place_above (h : l.LeadsTo m) (hl : l.Attainable) {catalog : Catalog α}
    {s : Settings α} {itemId : String} {position : Option (Point α)} {outcome : CommandOutcome}
    {after : Layout α} (ho : m.apply (.place itemId position) catalog s = (.ok outcome, after)) :
    ∃ id, outcome.created = some (.contour id) ∧ id ∈ after.placements.ids ∧
      ∀ old ∈ l.placements.ids, old < id := by
  refine ⟨m.placements.nextId, (apply_place_ok ho).1, (apply_place_ok ho).2, ?_⟩
  intro old hold
  have hlt : old < l.placements.nextId := hl.consistent.placements.lt_nextId old hold
  have hle : l.placements.nextId ≤ m.placements.nextId := h.le_nextId hl
  omega

end Layout

/-! ## Section 3: Sessions -/

namespace Session

variable {α : Type} [Coordinate α]

/-- What happens in a session happens to its layout. -/
theorem leadsTo_run (rasterizer : Rasterizer α) (x : Session α) (actions : List (Action α))
    {l : Layout α} (h : l.LeadsTo x.layout) : l.LeadsTo (x.run rasterizer actions).layout := by
  induction actions generalizing x with
  | nil => exact h
  | cons a rest ih =>
    refine ih (x.act rasterizer a) ?_
    rcases layout_act rasterizer x a with he | ⟨b, he⟩
    · rw [he]
      exact h
    · rw [he]
      exact .act x.catalog x.settings rasterizer b h

/-- An accepted command is one that the layout accepted. -/
theorem submit_ok {x y : Session α} {c : Command α} {now : Nat} {outcome : CommandOutcome}
    (h : x.submit c now = (.ok outcome, y)) :
    x.layout.apply c x.catalog x.settings = (.ok outcome, y.layout) := by
  unfold submit at h
  split at h
  · cases (Prod.mk.inj h).1
  · rename_i outcome' l happly
    obtain ⟨ho, hy⟩ := Prod.mk.inj h
    rw [happly, Except.ok.inj ho, ← hy]

end Session

/-- Of two moments `l` and `m` of a history, `l` the earlier one: the counter is not lower at `m`,
    and the number that a contour placed at `m` gets, under which it is there afterwards, is above
    those of all contours at `l`, whatever became of them. The same holds of two moments `x` and `y`
    of a session. -/
theorem numbers_never_reused {α : Type} [Coordinate α] :
    (∀ l m : Layout α, l.Attainable → l.LeadsTo m →
      l.placements.nextId ≤ m.placements.nextId ∧
      ∀ (itemId : String) (position : Option (Point α)) (catalog : Catalog α) (s : Settings α)
        (outcome : CommandOutcome) (after : Layout α),
        m.apply (.place itemId position) catalog s = (.ok outcome, after) →
          ∃ id, outcome.created = some (.contour id) ∧ id ∈ after.placements.ids ∧
            ∀ old ∈ l.placements.ids, old < id) ∧
    (∀ (catalog : Catalog α) (s : Settings α) (rasterizer : Rasterizer α) (x y : Session α)
      (actions : List (Session.Action α)), Session.Reachable catalog s rasterizer x →
      y = x.run rasterizer actions →
      x.layout.placements.nextId ≤ y.layout.placements.nextId ∧
      ∀ (itemId : String) (position : Option (Point α)) (now : Nat) (outcome : CommandOutcome)
        (after : Session α), y.submit (.place itemId position) now = (.ok outcome, after) →
          ∃ id, outcome.created = some (.contour id) ∧ id ∈ after.layout.placements.ids ∧
            ∀ old ∈ x.layout.placements.ids, old < id) := by
  constructor
  · intro l m hl hm
    refine ⟨hm.le_nextId hl, ?_⟩
    intro itemId position catalog s outcome after ho
    exact hm.place_above hl ho
  · rintro catalog s rasterizer x y actions hx rfl
    have hattainable := hx.attainable
    have hlater := Session.leadsTo_run rasterizer x actions .refl
    refine ⟨hlater.le_nextId hattainable, ?_⟩
    intro itemId position now outcome after ho
    exact hlater.place_above hattainable (Session.submit_ok ho)

/-- A document with two wrenches, the one placed last first. -/
def numberedWrenches : Workspace Single :=
  { (Layout.make (.default .standard)).save with
    contours := [⟨7, "wrench", "W-10", 40, 30, 0, 1⟩, ⟨3, "wrench", "W-10", 40, 90, 0, 1⟩] }

/-- Wrenches that were restored with the numbers 7 and 3, and are then removed or replaced, leave
    a greater number for the next one. -/
theorem numbers_never_reused_numberedWrenches :
    (let l := (Layout.make (.default .standard)).run Layout.wrenchCatalog .standard
        (fun _ => none) [.command (.place "wrench" none), .restore numberedWrenches]
      let m := l.run Layout.wrenchCatalog .standard (fun _ => none)
        [.command (.delete (.contour 7)), .clear]
      l.placements.ids = [7, 3] ∧ m.placements.ids = [] ∧ ∃ outcome after id,
        m.apply (.place "wrench" none) Layout.wrenchCatalog .standard = (.ok outcome, after) ∧
          outcome.created = some (.contour id) ∧ id ∈ after.placements.ids ∧ 7 < id) ∧
    (let x := (Session.make Layout.wrenchCatalog .standard).run (fun _ => none)
        [.restore numberedWrenches]
      let y := x.run (fun _ => none)
        [.submit (.delete (.contour 7)) 1, .restore { numberedWrenches with contours := [] }]
      x.layout.placements.ids = [7, 3] ∧ y.layout.placements.ids = [] ∧ ∃ outcome after id,
        y.submit (.place "wrench" none) 2 = (.ok outcome, after) ∧
          outcome.created = some (.contour id) ∧ id ∈ after.layout.placements.ids ∧ 7 < id) := by
  constructor
  · intro l m
    have hids : l.placements.ids = [7, 3] := by decide +kernel
    have hattainable : l.Attainable :=
      (Layout.Attainable.make (.default .standard)).run Layout.wrenchCatalog .standard _ _
    have hlater : l.LeadsTo m := Layout.LeadsTo.refl.run Layout.wrenchCatalog .standard _ _
    obtain ⟨-, hplace⟩ := numbers_never_reused.1 l m hattainable hlater
    refine ⟨hids, rfl, ?_⟩
    -- that the wrench is placed is computed, that its number is a new one is the theorem
    have hyes : (m.apply (.place "wrench" none) Layout.wrenchCatalog
        .standard).1.toOption.isSome = true := by decide +kernel
    cases h : m.apply (.place "wrench" none) Layout.wrenchCatalog .standard with
    | mk result after =>
      cases result with
      | error e =>
        rw [h] at hyes
        cases hyes
      | ok outcome =>
        obtain ⟨id, hid, hthere, habove⟩ := hplace _ _ _ _ outcome after h
        rw [hids] at habove
        exact ⟨outcome, after, id, rfl, hid, hthere, habove 7 List.mem_cons_self⟩
  · intro x y
    have hids : x.layout.placements.ids = [7, 3] := by decide +kernel
    have hreachable : Session.Reachable Layout.wrenchCatalog .standard (fun _ => none) x :=
      .act (.restore numberedWrenches) .make
    obtain ⟨-, hplace⟩ := numbers_never_reused.2 _ _ _ x y _ hreachable rfl
    refine ⟨hids, by decide +kernel, ?_⟩
    have hyes : (y.submit (.place "wrench" none) 2).1.toOption.isSome = true := by decide +kernel
    cases h : y.submit (.place "wrench" none) 2 with
    | mk result after =>
      cases result with
      | error e =>
        rw [h] at hyes
        cases hyes
      | ok outcome =>
        obtain ⟨id, hid, hthere, habove⟩ := hplace _ _ _ outcome after h
        rw [hids] at habove
        exact ⟨outcome, after, id, rfl, hid, hthere, habove 7 List.mem_cons_self⟩

end FoamTray
