import FoamTray.Proofs.Layout.Locality
import Mathlib.Data.List.Induction

/-! # Where the contours of a run come from

    Two kinds of actions bring a contour in: a command that places an item of the catalog, and the
    restoration of a document. Both look items up in the same way, and neither asks whether the
    item is on offer.

    * `Action.BringsIn` : the actions that bring in a contour of an item.
    * `item?_act` : an item that an action leaves behind was kept before, or came in with it.
    * `item?_run` : it goes back to one action of the run, and was kept ever since.
    * `contours_brought_in` : all items of the catalog can be placed, and each contour was placed
      or restored.
-/

namespace FoamTray.Layout

variable {α : Type} [Coordinate α] {l l' : Layout α} {catalog : Catalog α} {s : Settings α}
  {rasterizer : Rasterizer α} {id : Nat} {item : CatalogItem α}

/-! ## Section 1: Bringing contours in -/

/-- The actions that bring in a contour of an item under a number. -/
inductive Action.BringsIn (catalog : Catalog α) (l : Layout α) (id : Nat) (item : CatalogItem α) :
    Action α → Prop where
  /-- The item is placed, and gets the next number. -/
  | placed {name : String} {position : Option (Point α)} (hi : catalog.find? name = some item)
      (hid : id = l.placements.nextId) : BringsIn catalog l id item (.command (.place name position))
  /-- A document is restored with a contour of the item. -/
  | restored {doc : Workspace α} {a : AcceptedContour α} (hv : doc.schemaVersion = schemaVersion)
      (ha : a ∈ doc.accepted catalog) (hid : a.record.placementId = id) (hitem : a.item = item) :
      BringsIn catalog l id item (.restore doc)

/-- Placing fails for names that the catalog does not have, and only for these. -/
theorem apply_place (l : Layout α) (catalog : Catalog α) (s : Settings α) (name : String)
    (position : Option (Point α)) :
    (catalog.find? name = none →
      l.apply (.place name position) catalog s = (.error (.itemNotFound name), l)) ∧
    ∀ item, catalog.find? name = some item → ∃ position' : Point α,
      l.apply (.place name position) catalog s =
        (.ok (.ofNew (.contour l.placements.nextId)),
          { l with placements := l.placements.place item position' }) := by
  unfold apply placeContour
  dsimp only
  constructor
  · intro hi
    rw [hi]
    rfl
  · intro item hi
    rw [hi]
    exact ⟨_, rfl⟩

/-! ## Section 2: One action -/

theorem item?_congr (hitems : l'.placements.items = l.placements.items) (id : Nat) :
    l'.placements.item? id = l.placements.item? id := by
  unfold Placements.item?
  rw [hitems]

/-- A command that places nothing brings in no item. -/
theorem item?_of_effect {cmd : Command α} {created : Option Target}
    (heffect : cmd.Effect l created l') (hplace : ∀ name position, cmd ≠ .place name position)
    (h : l'.placements.item? id = some item) : l.placements.item? id = some item := by
  cases cmd with
  | place name position => exact absurd rfl (hplace name position)
  | delete t =>
    cases t with
    | contour erased =>
      obtain ⟨-, -, labels, -, rfl⟩ := heffect
      have herase : (l.placements.erase erased).item? id = some item := h
      rw [Placements.item?_erase] at herase
      split at herase
      · cases herase
      · exact herase
    | primitive k =>
      obtain ⟨-, -, primitives, -, rfl⟩ := heffect
      exact h
    | label k =>
      obtain ⟨-, -, labels, -, rfl⟩ := heffect
      exact h
  | move t dx dy =>
    cases t with
    | contour moved =>
      obtain ⟨-, -, edit, place, -, rfl⟩ := heffect
      exact h
    | primitive k =>
      obtain ⟨-, old, new, -, rfl⟩ := heffect
      exact h
    | label k =>
      obtain ⟨-, old, new, -, -, rfl⟩ := heffect
      exact h
  | rotate turned angle =>
    obtain ⟨-, -, edit, place, -, rfl⟩ := heffect
    exact h
  | rotateStep turned =>
    obtain ⟨-, -, edit, place, -, rfl⟩ := heffect
    exact h
  | snap turned angle =>
    obtain ⟨-, -, edit, place, -, rfl⟩ := heffect
    exact h
  | setZoom factor =>
    obtain ⟨-, z, place, last, pocket, shape, text, rfl⟩ := heffect
    exact h
  | addPrimitive shape position =>
    obtain ⟨k, p, primitives, -, -, rfl⟩ := heffect
    exact h
  | resizePrimitive k size =>
    obtain ⟨-, old, new, -, rfl⟩ := heffect
    exact h
  | attachLabel owner text offset =>
    obtain ⟨k, label, labels, -, -, -, rfl⟩ := heffect
    exact h
  | setLabelText k text =>
    obtain ⟨-, old, new, -, -, rfl⟩ := heffect
    exact h
  | resizeTray width height =>
    obtain ⟨-, w, h', rfl⟩ := heffect
    exact h
  | applyPreset name =>
    obtain ⟨-, w, h', rfl⟩ := heffect
    exact h

theorem item?_apply (hl : l.Consistent) (cmd : Command α)
    (h : (l.apply cmd catalog s).2.placements.item? id = some item) :
    l.placements.item? id = some item ∨ Action.BringsIn catalog l id item (.command cmd) := by
  by_cases hplace : ∃ name position, cmd = .place name position
  · obtain ⟨name, position, rfl⟩ := hplace
    obtain ⟨hunknown, hknown⟩ := l.apply_place catalog s name position
    cases hi : catalog.find? name with
    | none =>
      rw [hunknown hi] at h
      exact .inl h
    | some placed =>
      obtain ⟨position', happly⟩ := hknown placed hi
      rw [happly] at h
      unfold Placements.place at h
      dsimp only at h
      rw [Placements.item?_insert] at h
      split at h
      · rename_i hid
        cases h
        exact .inr (.placed hi hid)
      · exact .inl h
  · left
    cases happly : l.apply cmd catalog s with
    | mk result after =>
      rw [happly] at h
      cases result with
      | error e =>
        have heq : after = l := (atomic_apply hl cmd catalog s).eq_of_error happly
        rw [← heq]
        exact h
      | ok outcome =>
        exact item?_of_effect (effect_apply hl happly)
          (fun name position he => hplace ⟨name, position, he⟩) h

theorem items_rescaleTo (l : Layout α) (z : Zoom α) :
    (l.rescaleTo z).placements.items = l.placements.items := by
  unfold rescaleTo
  split <;> rfl

theorem items_validate (l : Layout α) (rasterizer : Rasterizer α) (s : Settings α) :
    (l.validate rasterizer s).2.placements.items = l.placements.items := by
  rcases l.validate_snd_cases rasterizer s with he | ⟨r, he⟩ <;> rw [he]
  rfl

theorem items_check (l : Layout α) (rasterizer : Rasterizer α) (s : Settings α) :
    (l.check rasterizer s).2.placements.items = l.placements.items := by
  show (((l.rescaleTo .unit).validate rasterizer s).2.rescaleTo l.zoom).placements.items = _
  rw [items_rescaleTo, items_validate, items_rescaleTo]

/-- What is there after a restoration came with the document, unless that was refused. -/
theorem item?_restore (doc : Workspace α)
    (h : (l.restore doc catalog s).2.placements.item? id = some item) :
    l.placements.item? id = some item ∨ Action.BringsIn catalog l id item (.restore doc) := by
  by_cases hv : doc.schemaVersion = schemaVersion
  · right
    rw [restore_eq l hv, item?_congr (items_rescaleTo _ l.zoom)] at h
    obtain ⟨e, he, hitem⟩ := Option.map_eq_some_iff.mp h
    have hid : e.1 = id := by simpa using List.find?_some he
    -- each item is listed with a contour of the document that was accepted
    obtain ⟨c, hc, rfl⟩ := List.mem_map.mp (List.mem_of_find?_eq_some he)
    obtain ⟨a, ha, rfl⟩ := List.mem_map.mp hc
    exact .restored hv ha hid hitem
  · rw [restore_of_ne l hv] at h
    exact .inl h

/-- An item that an action leaves behind was kept before, or the action brought it in. -/
theorem item?_act (hl : l.Consistent) (a : Action α)
    (h : (l.act catalog s rasterizer a).placements.item? id = some item) :
    l.placements.item? id = some item ∨ a.BringsIn catalog l id item := by
  unfold Layout.act at h
  cases a with
  | command cmd => exact item?_apply hl cmd h
  | restore doc => exact item?_restore doc h
  | clear => cases h
  | validate =>
    rw [item?_congr (items_validate l rasterizer s)] at h
    exact .inl h
  | check =>
    rw [item?_congr (items_check l rasterizer s)] at h
    exact .inl h
  | order =>
    dsimp only at h
    rw [exportWith_snd, item?_congr (items_check l rasterizer s)] at h
    exact .inl h

/-! ## Section 3: Runs -/

theorem run_concat (catalog : Catalog α) (s : Settings α) (rasterizer : Rasterizer α)
    (l : Layout α) (actions : List (Action α)) (a : Action α) :
    l.run catalog s rasterizer (actions ++ [a]) =
      (l.run catalog s rasterizer actions).act catalog s rasterizer a := by
  unfold run
  rw [List.foldl_append]
  rfl

/-- An action of a run brought a contour of an item in, and the item was kept ever since. -/
def CameIn (catalog : Catalog α) (s : Settings α) (rasterizer : Rasterizer α) (l : Layout α)
    (id : Nat) (item : CatalogItem α) (actions : List (Action α)) : Prop :=
  ∃ before a after, actions = before ++ a :: after ∧
    a.BringsIn catalog (l.run catalog s rasterizer before) id item ∧
    ∀ since, since <+: after →
      (l.run catalog s rasterizer (before ++ a :: since)).placements.item? id = some item

/-- An item that is kept after a run was kept before it, or came in during it. -/
theorem item?_run (hl : l.Attainable) (actions : List (Action α))
    (h : (l.run catalog s rasterizer actions).placements.item? id = some item) :
    l.placements.item? id = some item ∨ CameIn catalog s rasterizer l id item actions := by
  -- induction from the end, as the last action that brings it in is the one to name
  induction actions using List.reverseRecOn with
  | nil => exact .inl h
  | append_singleton actions b ih =>
    have hattainable := hl.run catalog s rasterizer actions
    have hlast := h
    rw [run_concat] at hlast
    rcases item?_act hattainable.consistent b hlast with hbefore | hbrings
    · rcases ih hbefore with hstart | ⟨before, a, after, rfl, ha, hsince⟩
      · exact .inl hstart
      · refine .inr ⟨before, a, after ++ [b], by simp, ha, ?_⟩
        intro since hprefix
        rcases List.prefix_concat_iff.mp hprefix with rfl | hprefix
        · simpa using h
        · exact hsince since hprefix
    · refine .inr ⟨actions, b, [], rfl, hbrings, ?_⟩
      intro since hprefix
      rw [List.prefix_nil.mp hprefix]
      exact h

/-- From an empty tray on, with any catalog and settings: every item of the catalog can be placed,
    whether it is on offer or not, and nothing else can. Each contour shows an item that came in
    at one action of the run and was kept ever since: a command to place it, or the restoration
    of a document. So as long as no command names an item that is not on offer, contours of such
    items have all been restored. -/
theorem contours_brought_in (catalog : Catalog α) (s : Settings α) (rasterizer : Rasterizer α)
    (tray : Tray α) (actions : List (Action α)) :
    let l := (make tray).run catalog s rasterizer actions
    (∀ name position,
      (catalog.find? name = none →
        l.apply (.place name position) catalog s = (.error (.itemNotFound name), l)) ∧
      ∀ item, catalog.find? name = some item → ∃ position' : Point α,
        l.apply (.place name position) catalog s =
          (.ok (.ofNew (.contour l.placements.nextId)),
            { l with placements := l.placements.place item position' })) ∧
    (∀ c ∈ l.placements.contours, ∃ item, l.placements.item? c.id = some item ∧ c.Shows item ∧
      CameIn catalog s rasterizer (make tray) c.id item actions) ∧
    ((∀ name position item, .command (.place name position) ∈ actions →
        catalog.find? name = some item → item.enabled = true) →
      ∀ c ∈ l.placements.contours, ∀ item, l.placements.item? c.id = some item →
        item.enabled = false →
          ∃ before doc after, actions = before ++ .restore doc :: after ∧
            doc.schemaVersion = schemaVersion ∧
            ∃ a ∈ doc.accepted catalog, a.record.placementId = c.id ∧ a.item = item) := by
  intro l
  have hempty : (make tray).Attainable := .make tray
  have hl : l.Consistent := (hempty.run catalog s rasterizer actions).consistent
  have hcame : ∀ id item, l.placements.item? id = some item →
      CameIn catalog s rasterizer (make tray) id item actions := by
    intro id item h
    rcases item?_run hempty actions h with hnone | hcame
    · cases hnone
    · exact hcame
  refine ⟨l.apply_place catalog s, ?_, ?_⟩
  · intro c hc
    obtain ⟨item, hitem, hshows⟩ := hl.placements.shows c hc
    exact ⟨item, hitem, hshows, hcame c.id item hitem⟩
  · intro hoffered c hc item hitem hdisabled
    obtain ⟨before, a, after, rfl, hbrings, -⟩ := hcame c.id item hitem
    cases hbrings with
    | @placed name position hi hid =>
      have henabled := hoffered name position item (by simp) hi
      rw [hdisabled] at henabled
      cases henabled
    | restored hv ha hid hshown => exact ⟨before, _, after, rfl, hv, _, ha, hid, hshown⟩

/-- A catalog whose only wrench is not on offer. -/
def shelvedCatalog : Catalog Single :=
  .ofItems (wrenchCatalog.items.values.map ({ · with enabled := false })) .empty

/-- The wrench that is not on offer is placed all the same, without any restoration. -/
theorem shelvedWrench_placed :
    let l := (make (.default .standard)).run shelvedCatalog .standard (fun _ => none)
      [.command (.place "wrench" (some ⟨100, 100⟩))]
    shelvedCatalog.enabled = [] ∧
      ((make (.default .standard)).apply (.place "wrench" (some ⟨100, 100⟩)) shelvedCatalog
        .standard).1 = .ok (.ofNew (.contour 0)) ∧
      l.placements.contours.map (·.itemId) = ["wrench"] ∧
      (l.placements.item? 0).map (·.enabled) = some false := by
  decide +kernel

/-- A wrench that is not on offer is restored with a document, and checked: the document is where
    it comes from. -/
theorem contours_brought_in_shelvedWrench :
    let doc : Workspace Single := { (make (.default .standard)).save with
      contours := [⟨7, "wrench", "W-10", 40, 30, 0, 1⟩] }
    let l := (make (.default .standard)).run shelvedCatalog .standard (fun _ => none)
      [.restore doc, .check]
    ∃ item, l.placements.item? 7 = some item ∧ item.enabled = false ∧
      ∃ before doc' after, [.restore doc, .check] = before ++ Action.restore doc' :: after ∧
        ∃ a ∈ doc'.accepted shelvedCatalog, a.record.placementId = 7 ∧ a.item = item := by
  intro doc l
  obtain ⟨-, hcontours, horigin⟩ := contours_brought_in shelvedCatalog .standard (fun _ => none)
    (.default .standard) [.restore doc, .check]
  have hids : l.placements.ids = [7] := by decide +kernel
  have hdisabled : ∀ item, l.placements.item? 7 = some item → item.enabled = false := by
    have heval : (l.placements.item? 7).all (·.enabled = false) = true := by decide +kernel
    intro item hitem
    rw [hitem] at heval
    simpa using heval
  obtain ⟨c, hc, hid⟩ : ∃ c ∈ l.placements.contours, c.id = 7 :=
    List.mem_map.mp (show 7 ∈ l.placements.ids from hids ▸ List.mem_singleton_self 7)
  obtain ⟨item, hitem, -⟩ := hcontours c hc
  rw [hid] at hitem
  obtain ⟨before, doc', after, hactions, -, a, ha, hplaced, hshown⟩ :=
    horigin (by simp) c hc item (hid ▸ hitem) (hdisabled item hitem)
  exact ⟨item, hitem, hdisabled item hitem, before, doc', after, hactions, a, ha,
    hid ▸ hplaced, hshown⟩

end FoamTray.Layout
