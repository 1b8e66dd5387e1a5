import FoamTray.Layout.Invariants
import FoamTray.Proofs.Autosave
import FoamTray.Proofs.Geometry.Snapping
import FoamTray.Proofs.Layout.Locality
import FoamTray.Proofs.Layout.Structure
import FoamTray.Proofs.Settings

/-! # Orientations

    Settings list the orientations that a contour may take. All commands that turn a contour keep
    to the list, but placing does not look at it: what is placed is not turned, whether that is
    allowed or not.

    * `nextAllowed_mem` : the orientation that a turn comes to.
    * `Layout.Orients` : where the orientation of each contour comes from.
    * `orients_apply`, `orients_act` : one command, one action.
    * `Action.Turns` : the actions that have turned a contour.
    * `orientations_settled` : after a run without restorations only contours that were never
      turned can have an orientation that is not allowed.
-/

namespace FoamTray

/-! ## Section 1: The orientation that a turn comes to -/

namespace Rotation

variable {allowed : List Rotation}

/-- All four orientations are tried, so one that is allowed is found. -/
theorem nextAllowed_mem (r : Rotation) (h : allowed ≠ []) : r.nextAllowed allowed ∈ allowed := by
  obtain ⟨a, ha⟩ := List.exists_mem_of_ne_nil allowed h
  have hturns : a ∈ [r.next, r.next.next, r.next.next.next, r] := by
    cases r <;> cases a <;> simp [next]
  unfold nextAllowed
  cases hfind : [r.next, r.next.next, r.next.next.next, r].find? (· ∈ allowed) with
  | none =>
    have hno := List.find?_eq_none.mp hfind a hturns
    exact absurd (decide_eq_true ha) hno
  | some b =>
    have hb := List.find?_some hfind
    simpa using hb

end Rotation

/-! ## Section 2: Where an orientation comes from -/

namespace Layout

variable {α : Type} [Coordinate α] {l l' : Layout α} {catalog : Catalog α} {s : Settings α}

/-- How a contour came to its orientation in a step from a layout. -/
inductive Orientation (catalog : Catalog α) (s : Settings α) (l : Layout α) (c' : Contour α) :
    Prop where
  /-- It had it before. -/
  | kept {c : Contour α} (hc : c ∈ l.placements.contours) (hid : c'.id = c.id)
      (hr : c'.rotation = c.rotation)
  /-- It was there before, and was turned to an allowed one. -/
  | turned (hid : c'.id ∈ l.placements.ids) (hr : c'.rotation ∈ s.allowedRotations)
  /-- It came in, not turned. -/
  | placed {name : String} {item : CatalogItem α} (hi : catalog.find? name = some item)
      (hid : c'.id = l.placements.nextId) (hr : c'.rotation = .deg0)

/-- All contours came to their orientations in one of these ways. -/
def Orients (catalog : Catalog α) (s : Settings α) (l l' : Layout α) : Prop :=
  ∀ c' ∈ l'.placements.contours, l.Orientation catalog s c'

/-- A step that leaves contours out, or changes neither numbers nor orientations. -/
theorem orients_of_kept
    (h : ∀ c' ∈ l'.placements.contours,
      ∃ c ∈ l.placements.contours, c'.id = c.id ∧ c'.rotation = c.rotation) :
    Orients catalog s l l' := by
  intro c' hc'
  obtain ⟨c, hc, hid, hr⟩ := h c' hc'
  exact .kept hc hid hr

theorem orients_of_contours_eq (h : l'.placements.contours = l.placements.contours) :
    Orients catalog s l l' := by
  apply orients_of_kept
  intro c' hc'
  rw [h] at hc'
  exact ⟨c', hc', rfl, rfl⟩

theorem orients_self (catalog : Catalog α) (s : Settings α) (l : Layout α) :
    Orients catalog s l l := orients_of_contours_eq rfl

/-- A step that keeps what is saved of contours without rounding keeps their orientations. -/
theorem orients_of_map_kept
    (h : l'.placements.contours.map Contour.kept = l.placements.contours.map Contour.kept) :
    Orients catalog s l l' := by
  apply orients_of_kept
  intro c' hc'
  have hmem := List.mem_map_of_mem (f := Contour.kept) hc'
  rw [h] at hmem
  obtain ⟨c, hc, heq⟩ := List.mem_map.mp hmem
  unfold Contour.kept at heq
  simp only [Prod.mk.injEq] at heq
  exact ⟨c, hc, heq.1.symm, heq.2.2.1.symm⟩

/-- Every contour has an allowed orientation or is not turned, and with a contour there is
    something to place. -/
def Settled (catalog : Catalog α) (s : Settings α) (l : Layout α) : Prop :=
  ∀ c ∈ l.placements.contours,
    (c.rotation ∈ s.allowedRotations ∨ c.rotation = .deg0) ∧
      ∃ name item, catalog.find? name = some item

theorem Settled.orients (h : l.Settled catalog s) (ho : Orients catalog s l l') :
    l'.Settled catalog s := by
  intro c' hc'
  cases ho c' hc' with
  | kept hc hid hr =>
    rw [hr]
    exact h _ hc
  | turned hid hr =>
    obtain ⟨c, hc, -⟩ := List.mem_map.mp hid
    exact ⟨.inl hr, (h c hc).2⟩
  | placed hi hid hr => exact ⟨.inr hr, _, _, hi⟩

end Layout

/-! ## Section 3: One step -/

/-- The contour that a command is to turn. -/
def Command.turned? {α : Type} : Command α → Option Nat
  | .rotate id _ | .rotateStep id | .snap id _ => some id
  | _ => none

namespace Layout

section Steps

variable {α : Type} [Coordinate α] {l l' : Layout α} {catalog : Catalog α} {s : Settings α}

theorem contours_turnContour {id : Nat} {c : Contour α} (hc : l.placements.find? id = some c)
    (rotation : Rotation) : (l.turnContour id rotation s).2.placements.contours =
      l.placements.contours.map fun c => if c.id = id then c.rotateTo rotation l.zoom else c := by
  rw [turnContour_eq hc]
  rfl

/-- A command to turn a contour changes nothing and says so, or it turns the contour to an allowed
    orientation. -/
theorem apply_turned (hs : s.allowedRotations ≠ []) {cmd : Command α} {id : Nat}
    (ht : cmd.turned? = some id) {outcome : CommandOutcome}
    (h : l.apply cmd catalog s = (.ok outcome, l')) :
    outcome.persist = false ∧ l' = l ∨
      ∃ c rotation, l.placements.find? id = some c ∧ rotation ∈ s.allowedRotations ∧
        l' = (l.turnContour id rotation s).2 := by
  unfold apply at h
  cases cmd with
  | rotate id' angle =>
    cases ht
    obtain ⟨applied, hturn, rfl⟩ := Attempt.of_andThen_ok h
    unfold rotateContour at hturn
    cases hc : l.placements.find? id with
    | none =>
      rw [hc] at hturn
      cases hturn
    | some c =>
      rw [hc] at hturn
      dsimp only at hturn
      cases hr : (Rotation.ofDegrees? angle).filter (· ∈ s.allowedRotations) with
      | none =>
        rw [hr] at hturn
        cases hturn
        exact .inl ⟨rfl, rfl⟩
      | some rotation =>
        rw [hr] at hturn
        have hallowed : rotation ∈ s.allowedRotations := by
          simpa using (Option.filter_eq_some_iff.mp hr).2
        refine .inr ⟨c, rotation, rfl, hallowed, ?_⟩
        obtain ⟨u, hturned, -⟩ := Attempt.of_andThen_ok hturn
        rw [hturned]
  | rotateStep id' =>
    cases ht
    obtain ⟨u, hturn, rfl⟩ := Attempt.of_andThen_ok h
    unfold rotateContourStep at hturn
    split at hturn
    · cases hturn
    · rename_i c hc
      exact .inr ⟨c, _, hc, Rotation.nextAllowed_mem _ hs, by rw [hturn]⟩
  | snap id' angle =>
    cases ht
    obtain ⟨u, hturn, rfl⟩ := Attempt.of_andThen_ok h
    unfold snapContour at hturn
    split at hturn
    · cases hturn
    · rename_i c hc
      exact .inr ⟨c, _, hc, Rotation.snap_mem angle hs, by rw [hturn]⟩
  | _ => cases ht

theorem orients_turnContour {id : Nat} {c : Contour α} {rotation : Rotation}
    (hc : l.placements.find? id = some c) (hr : rotation ∈ s.allowedRotations) :
    Orients catalog s l (l.turnContour id rotation s).2 := by
  intro c' hc'
  rw [contours_turnContour hc] at hc'
  obtain ⟨old, hold, rfl⟩ := List.mem_map.mp hc'
  by_cases hid : old.id = id
  · rw [if_pos hid]
    have hmem : old.id ∈ l.placements.ids := List.mem_map_of_mem hold
    exact .turned hmem hr
  · rw [if_neg hid]
    exact .kept hold rfl rfl

theorem orients_moveContour (l : Layout α) (catalog : Catalog α) (id : Nat) (dx dy : α)
    (s : Settings α) : Orients catalog s l (l.moveContour id dx dy s).2 := by
  cases hc : l.placements.find? id with
  | none =>
    unfold moveContour
    rw [hc]
    exact orients_self catalog s l
  | some c =>
    rw [moveContour_eq hc]
    apply orients_of_kept
    intro c' hc'
    obtain ⟨old, hold, rfl⟩ := List.mem_map.mp hc'
    refine ⟨old, hold, ?_, ?_⟩ <;> dsimp only <;> split <;> rfl

theorem orients_placeContour (l : Layout α) (catalog : Catalog α) (name : String)
    (position : Option (Point α)) (s : Settings α) :
    Orients catalog s l (l.placeContour catalog name position).2 := by
  unfold placeContour
  cases hi : catalog.find? name with
  | none => exact orients_self catalog s l
  | some item =>
    intro c' hc'
    rcases List.mem_append.mp hc' with hold | hnew
    · exact .kept hold rfl rfl
    · rw [List.mem_singleton.mp hnew]
      exact .placed hi rfl rfl

/-- Commands that do not place, move or turn a contour leave numbers and orientations alone. -/
theorem orients_of_effect {cmd : Command α} {created : Option Target}
    (h : cmd.Effect l created l') (hplace : ∀ name position, cmd ≠ .place name position)
    (hmove : ∀ id dx dy, cmd ≠ .move (.contour id) dx dy) (hturn : cmd.turned? = none) :
    Orients catalog s l l' := by
  cases cmd with
  | place name position => exact absurd rfl (hplace name position)
  | rotate id angle => cases hturn
  | rotateStep id => cases hturn
  | snap id angle => cases hturn
  | move t dx dy =>
    cases t with
    | contour id => exact absurd rfl (hmove id dx dy)
    | primitive k =>
      obtain ⟨-, old, new, -, rfl⟩ := h
      exact orients_of_contours_eq rfl
    | label k =>
      obtain ⟨-, old, new, -, -, rfl⟩ := h
      exact orients_of_contours_eq rfl
  | delete t =>
    cases t with
    | contour id =>
      obtain ⟨-, -, labels, -, rfl⟩ := h
      apply orients_of_kept
      intro c' hc'
      exact ⟨c', (List.mem_filter.mp hc').1, rfl, rfl⟩
    | primitive k =>
      obtain ⟨-, -, primitives, -, rfl⟩ := h
      exact orients_of_contours_eq rfl
    | label k =>
      obtain ⟨-, -, labels, -, rfl⟩ := h
      exact orients_of_contours_eq rfl
  | setZoom factor =>
    obtain ⟨-, z, place, last, pocket, shape, text, rfl⟩ := h
    apply orients_of_kept
    intro c' hc'
    obtain ⟨c, hc, rfl⟩ := List.mem_map.mp hc'
    exact ⟨c, hc, rfl, rfl⟩
  | addPrimitive shape position =>
    obtain ⟨k, p, primitives, -, -, rfl⟩ := h
    exact orients_of_contours_eq rfl
  | resizePrimitive k size =>
    obtain ⟨-, old, new, -, rfl⟩ := h
    exact orients_of_contours_eq rfl
  | attachLabel owner text offset =>
    obtain ⟨k, label, labels, -, -, -, rfl⟩ := h
    exact orients_of_contours_eq rfl
  | setLabelText k text =>
    obtain ⟨-, old, new, -, -, rfl⟩ := h
    exact orients_of_contours_eq rfl
  | resizeTray width height =>
    obtain ⟨-, w, h, rfl⟩ := h
    exact orients_of_contours_eq rfl
  | applyPreset name =>
    obtain ⟨-, w, h, rfl⟩ := h
    exact orients_of_contours_eq rfl

/-- Every contour that a command leaves behind has an orientation of before, an allowed one, or is
    new. -/
theorem orients_apply (hl : l.Consistent) (hs : s.allowedRotations ≠ []) (cmd : Command α)
    (catalog : Catalog α) : Orients catalog s l (l.apply cmd catalog s).2 := by
  cases h : l.apply cmd catalog s with
  | mk result after =>
    cases result with
    | error e =>
      have heq : after = l := (atomic_apply hl cmd catalog s).eq_of_error h
      rw [heq]
      exact orients_self catalog s l
    | ok outcome =>
      cases hturn : cmd.turned? with
      | some id =>
        rcases apply_turned hs hturn h with ⟨-, rfl⟩ | ⟨c, rotation, hc, hr, rfl⟩
        · exact orients_self catalog s after
        · exact orients_turnContour hc hr
      | none =>
        have heffect := effect_apply hl h
        -- what is placed or moved is not told by the effect alone
        by_cases hplace : ∃ name position, cmd = .place name position
        · obtain ⟨name, position, rfl⟩ := hplace
          obtain ⟨id, hplaced, -⟩ := Attempt.of_andThen_ok h
          have horients := orients_placeContour l catalog name position s
          rw [hplaced] at horients
          exact horients
        by_cases hmove : ∃ id dx dy, cmd = .move (.contour id) dx dy
        · obtain ⟨id, dx, dy, rfl⟩ := hmove
          obtain ⟨u, hmoved, -⟩ := Attempt.of_andThen_ok h
          have horients := orients_moveContour l catalog id dx dy s
          rw [show l.moveContour id dx dy s = _ from hmoved] at horients
          exact horients
        exact orients_of_effect heffect (fun name position he => hplace ⟨name, position, he⟩)
          (fun id dx dy he => hmove ⟨id, dx, dy, he⟩) hturn

theorem kept_check (l : Layout α) (rasterizer : Rasterizer α) (s : Settings α) :
    (l.check rasterizer s).2.placements.contours.map Contour.kept =
      l.placements.contours.map Contour.kept := by
  have hvalidate : ∀ m : Layout α, (m.validate rasterizer s).2.placements.contours.map
      Contour.kept = m.placements.contours.map Contour.kept := by
    intro m
    rcases m.validate_snd_cases rasterizer s with he | ⟨r, he⟩ <;> rw [he]
    show (m.placements.contours.map _).map _ = _
    rw [List.map_map]
    rfl
  show (((l.rescaleTo .unit).validate rasterizer s).2.rescaleTo l.zoom).placements.contours.map
    Contour.kept = _
  rw [(sameStructure_rescaleTo _ l.zoom).contours, hvalidate,
    (sameStructure_rescaleTo l .unit).contours]

end Steps

end Layout

namespace Session

variable {α : Type} [Coordinate α] {x : Session α} {s : Settings α} {catalog : Catalog α}

/-- Every contour that an action leaves behind, other than a restoration, has an orientation of
    before, an allowed one, or is new. -/
theorem orients_act (hx : x.layout.Consistent) (hs : x.settings.allowedRotations ≠ [])
    (rasterizer : Rasterizer α) {a : Action α} (ha : ∀ doc, a ≠ .restore doc) :
    Layout.Orients x.catalog x.settings x.layout (x.act rasterizer a).layout := by
  cases a with
  | submit c now =>
    unfold act
    dsimp only
    rw [layout_submit]
    exact Layout.orients_apply hx hs c x.catalog
  | poll now => exact Layout.orients_self _ _ _
  | save => exact Layout.orients_self _ _ _
  | restore doc => exact absurd rfl (ha doc)
  | zoom steps coarse =>
    have hzoom := Layout.orients_apply hx hs (.setZoom (x.zoomTarget steps coarse)) x.catalog
    unfold Layout.apply at hzoom
    rw [Attempt.andThen_snd] at hzoom
    unfold act
    dsimp only
    rw [layout_zoom]
    exact hzoom
  | check => exact Layout.orients_of_map_kept (Layout.kept_check x.layout rasterizer x.settings)
  | order =>
    apply Layout.orients_of_map_kept
    show (x.layout.exportWith rasterizer x.settings fun _ => ()).2.placements.contours.map _ = _
    rw [Layout.exportWith_snd]
    exact Layout.kept_check x.layout rasterizer x.settings

/-! ## Section 4: Runs without restorations -/

/-- An action has turned a contour: a command to turn it, which is answered as a change. -/
def Action.Turns (x : Session α) (a : Action α) (id : Nat) : Prop :=
  ∃ c now outcome y, a = .submit c now ∧ c.turned? = some id ∧
    x.submit c now = (.ok outcome, y) ∧ outcome.persist = true

/-- A contour that was turned is there and has an allowed orientation. -/
theorem allowed_of_turns (hs : x.settings.allowedRotations ≠ []) (rasterizer : Rasterizer α)
    {a : Action α} {id : Nat} (h : a.Turns x id) : id ∈ x.layout.placements.ids ∧
      ∀ c ∈ (x.act rasterizer a).layout.placements.contours, c.id = id →
        c.rotation ∈ x.settings.allowedRotations := by
  obtain ⟨cmd, now, outcome, y, rfl, hturned, hsubmit, hpersist⟩ := h
  have hlayout : (x.act rasterizer (.submit cmd now)).layout =
      (x.layout.apply cmd x.catalog x.settings).2 := layout_submit x cmd now
  obtain ⟨l', happly⟩ : ∃ l', x.layout.apply cmd x.catalog x.settings = (.ok outcome, l') := by
    unfold submit at hsubmit
    split at hsubmit
    · cases hsubmit
    · rename_i outcome' l' happly
      rw [← Except.ok.inj (Prod.mk.inj hsubmit).1]
      exact ⟨l', happly⟩
  rw [hlayout, happly]
  rcases Layout.apply_turned hs hturned happly with ⟨hno, -⟩ | ⟨c, rotation, hc, hr, rfl⟩
  · rw [hpersist] at hno
    cases hno
  · refine ⟨Placements.mem_ids_of_find? hc, ?_⟩
    intro c' hc' hid
    rw [Layout.contours_turnContour hc] at hc'
    obtain ⟨old, -, rfl⟩ := List.mem_map.mp hc'
    by_cases hold : old.id = id
    · rw [if_pos hold]
      exact hr
    · rw [if_neg hold] at hid
      exact absurd hid hold

theorem le_nextId_act (hx : x.layout.Consistent) (rasterizer : Rasterizer α) (a : Action α) :
    x.layout.placements.nextId ≤ (x.act rasterizer a).layout.placements.nextId := by
  rcases layout_act rasterizer x a with he | ⟨b, he⟩ <;> rw [he]
  exact Layout.le_nextId_act hx x.catalog x.settings rasterizer b

/-- A contour that has an allowed orientation keeps one: its number is not given out again. -/
theorem allowed_run {rasterizer : Rasterizer α} (hx : Reachable catalog s rasterizer x)
    (hs : s.allowedRotations ≠ []) {id : Nat} (hid : id < x.layout.placements.nextId)
    (hallowed : ∀ c ∈ x.layout.placements.contours, c.id = id → c.rotation ∈ s.allowedRotations)
    (actions : List (Action α)) (hno : ∀ doc, .restore doc ∉ actions) :
    ∀ c ∈ (x.run rasterizer actions).layout.placements.contours, c.id = id →
      c.rotation ∈ s.allowedRotations := by
  induction actions generalizing x with
  | nil => exact hallowed
  | cons a rest ih =>
    have hl := hx.attainable.consistent
    have hsettings := hx.settings_eq
    have ha : ∀ doc, a ≠ .restore doc := by
      rintro doc rfl
      exact hno doc List.mem_cons_self
    have horients := orients_act hl (by rw [hsettings]; exact hs) rasterizer ha
    rw [hsettings] at horients
    refine ih (hx.act a) (Nat.lt_of_lt_of_le hid (le_nextId_act hl rasterizer a)) ?_ ?_
    · intro c' hc' hid'
      cases horients c' hc' with
      | kept hc hsame hr =>
        rw [hr]
        exact hallowed _ hc (hsame.symm.trans hid')
      | turned _ hr => exact hr
      | placed _ hnew _ => omega
    · intro doc hdoc
      exact hno doc (List.mem_cons_of_mem a hdoc)

/-- Placing does not look at the allowed orientations. -/
theorem not_rotationsAllowed_place {name : String} {item : CatalogItem α}
    (hi : x.catalog.find? name = some item) (hno : .deg0 ∉ x.settings.allowedRotations)
    (rasterizer : Rasterizer α) :
    ¬ (x.act rasterizer (.submit (.place name none) 0)).layout.rotationsAllowed x.settings =
      true := by
  intro hlegal
  unfold act at hlegal
  dsimp only at hlegal
  rw [layout_submit] at hlegal
  unfold Layout.apply Layout.rotationsAllowed at hlegal
  dsimp only at hlegal
  rw [Attempt.andThen_snd] at hlegal
  unfold Layout.placeContour at hlegal
  rw [hi, List.all_eq_true] at hlegal
  have hnew := hlegal _ (List.mem_append_right _ (List.mem_singleton_self _))
  exact hno (of_decide_eq_true hnew)

/-- A run keeps all orientations settled. -/
theorem settled_run (hs : s.allowedRotations ≠ []) (catalog : Catalog α)
    (rasterizer : Rasterizer α) (actions : List (Action α))
    (hno : ∀ doc, .restore doc ∉ actions) :
    ((make catalog s).run rasterizer actions).layout.Settled catalog s := by
  induction actions using List.reverseRecOn with
  | nil =>
    show (make catalog s).layout.Settled catalog s
    rw [layout_make catalog s rasterizer]
    have hempty : (Layout.make (.default s.tray) : Layout α).Settled catalog s :=
      fun c hc => absurd hc List.not_mem_nil
    exact hempty.orients (Layout.orients_apply (Layout.consistent_make _) hs _ catalog)
  | append_singleton actions a ih =>
    have hx : Reachable catalog s rasterizer ((make catalog s).run rasterizer actions) :=
      Reachable.make.run actions
    have ha : ∀ doc, a ≠ .restore doc := by
      rintro doc rfl
      exact hno doc (by simp)
    have horients := orients_act hx.attainable.consistent (by rw [hx.settings_eq]; exact hs)
      rasterizer ha
    rw [hx.settings_eq, hx.catalog_eq] at horients
    rw [run_concat]
    exact (ih fun doc hdoc => hno doc (List.mem_append_left _ hdoc)).orients horients

/-- In a session with accepted settings, as long as no document is restored: a contour whose
    orientation is not among the allowed ones is not turned, as it was placed, and no action so far
    has turned it. So all orientations are allowed throughout all such sessions exactly if leaving
    a contour as drawn is allowed, or nothing can be placed. -/
theorem orientations_settled (catalog : Catalog α) {s : Settings α} (h : s.Accepted)
    (rasterizer : Rasterizer α) :
    (∀ actions, (∀ doc, .restore doc ∉ actions) →
      ∀ c ∈ ((make catalog s).run rasterizer actions).layout.placements.contours,
        c.rotation ∈ s.allowedRotations ∨ c.rotation = .deg0 ∧
          ∀ before a after, actions = before ++ a :: after →
            ¬ a.Turns ((make catalog s).run rasterizer before) c.id) ∧
    ((∀ actions, (∀ doc, .restore doc ∉ actions) →
        ((make catalog s).run rasterizer actions).layout.rotationsAllowed s = true) ↔
      .deg0 ∈ s.allowedRotations ∨ ∀ name, catalog.find? name = none) := by
  have hs : s.allowedRotations ≠ [] := (Settings.accepted_iff.mp h).rotations
  have hsettled := settled_run hs catalog rasterizer
  refine ⟨?_, ?_, ?_⟩
  · intro actions hno c hc
    by_cases hallowed : c.rotation ∈ s.allowedRotations
    · exact .inl hallowed
    refine .inr ⟨((hsettled actions hno c hc).1).resolve_left hallowed, ?_⟩
    -- a contour that was turned once would have an allowed orientation ever since
    rintro before a after rfl hturns
    have hx : Reachable catalog s rasterizer ((make catalog s).run rasterizer before) :=
      Reachable.make.run before
    obtain ⟨hid, hturned⟩ := allowed_of_turns (by rw [hx.settings_eq]; exact hs) rasterizer hturns
    rw [hx.settings_eq] at hturned
    have hbelow := hx.attainable.consistent.placements.lt_nextId c.id hid
    have hbelow' := Nat.lt_of_lt_of_le hbelow (le_nextId_act hx.attainable.consistent rasterizer a)
    have hafter := allowed_run (hx.act a) hs hbelow' hturned after
      fun doc hdoc => hno doc (by simp [hdoc])
    unfold run at hc hafter
    rw [List.foldl_append] at hc
    exact hallowed (hafter c hc rfl)
  · intro hall
    by_cases hupright : Rotation.deg0 ∈ s.allowedRotations
    · exact .inl hupright
    refine .inr fun name => ?_
    -- otherwise the item could be placed, and would not be turned
    by_contra hsome
    obtain ⟨item, hi⟩ := Option.ne_none_iff_exists'.mp hsome
    have hplaced := not_rotationsAllowed_place (x := make catalog s) hi hupright rasterizer
    have hlegal := hall [.submit (.place name none) 0] (by simp)
    unfold run at hlegal
    rw [List.foldl_cons, List.foldl_nil] at hlegal
    exact hplaced hlegal
  · intro hcase actions hno
    unfold Layout.rotationsAllowed
    rw [List.all_eq_true]
    intro c hc
    obtain ⟨hr, name, item, hi⟩ := hsettled actions hno c hc
    rcases hcase with hupright | hnone
    · rcases hr with hr | hr
      · exact decide_eq_true hr
      · rw [hr]
        exact decide_eq_true hupright
    · rw [hnone name] at hi
      cases hi

/-- Settings in which contours have to lie on their side. -/
def sideways : Settings Single := { Settings.standard with allowedRotations := [.deg90] }

theorem accepted_sideways : sideways.Accepted := by
  unfold Settings.Accepted
  decide +kernel

/-- A wrench that is placed in such a session lies as drawn. -/
theorem placedWrench_upright : sideways.Accepted ∧
    ((make Layout.wrenchCatalog sideways).run (fun _ => none)
      [.submit (.place "wrench" (some ⟨100, 100⟩)) 0]).layout.rotationsAllowed sideways = false :=
  ⟨accepted_sideways, by decide +kernel⟩

/-- Two wrenches are placed in such a session and the second one is turned: it was settled then,
    and the first one was never turned. -/
theorem orientations_settled_sideways :
    let x := (make Layout.wrenchCatalog sideways).run (fun _ => none)
      [.submit (.place "wrench" (some ⟨100, 100⟩)) 0,
        .submit (.place "wrench" (some ⟨200, 200⟩)) 1, .submit (.rotateStep 1) 2]
    x.layout.placements.contours.map (·.rotation) = [.deg0, .deg90] ∧
      ∀ c ∈ x.layout.placements.contours,
        c.rotation ∈ sideways.allowedRotations ∨ c.rotation = .deg0 := by
  intro x
  refine ⟨by decide +kernel, ?_⟩
  intro c hc
  have hsettled := (orientations_settled Layout.wrenchCatalog accepted_sideways
    fun _ => none).1 _ (by simp) c hc
  exact hsettled.imp_right (·.1)

end Session

end FoamTray
