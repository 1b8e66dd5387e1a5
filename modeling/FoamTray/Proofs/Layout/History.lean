import FoamTray.Proofs.Layout.Command
import FoamTray.Proofs.Layout.Validate
import FoamTray.Session.Run

/-! # Histories

    What holds after anything that can happen to a layout, in any order and any number of times.

    * `Layout.Attainable` : the layouts that histories lead to. The catalog, the settings and the
      rasterizer may be others at each step.
    * `Session.Reachable.attainable` : the layout of a session has such a history.
    * `Attainable.consistent` : every layout with a history is consistent.
    * `references_intact`, `refusal_leaves_no_trace` : what follows for orders and for commands
      that are refused.
-/

namespace FoamTray

/-! ## Section 1: Layouts with a history -/

/-- The layouts that some history leads to from an empty tray. -/
inductive Layout.Attainable {α : Type} [Coordinate α] : Layout α → Prop where
  /-- An empty tray. -/
  | make (tray : Tray α) : Attainable (.make tray)
  /-- What an action leaves behind, whatever is at hand for it. -/
  | act {l : Layout α} (catalog : Catalog α) (s : Settings α) (rasterizer : Rasterizer α)
      (a : Layout.Action α) (h : Attainable l) : Attainable (l.act catalog s rasterizer a)

namespace Session

variable {α : Type} [Coordinate α]

theorem layout_submit (x : Session α) (c : Command α) (now : Nat) :
    (x.submit c now).2.layout = (x.layout.apply c x.catalog x.settings).2 := by
  unfold submit
  split <;> rename_i h <;> rw [h]

theorem layout_restore (x : Session α) (doc : Workspace α) :
    (x.restore doc).2.layout = (x.layout.restore doc x.catalog x.settings).2 := by
  unfold restore
  split <;> rename_i h <;> rw [h]

theorem layout_zoom (x : Session α) (steps : Int) (coarse : Bool) :
    (x.zoom steps coarse).2.layout =
      (x.layout.setZoom (x.zoomTarget steps coarse) x.settings).2 := by
  unfold zoom
  split <;> rename_i h <;> rw [h]

/-- A step of a session is a step of its layout, or none. -/
theorem layout_act (rasterizer : Rasterizer α) (x : Session α) (a : Action α) :
    (x.act rasterizer a).layout = x.layout ∨
      ∃ b, (x.act rasterizer a).layout = x.layout.act x.catalog x.settings rasterizer b := by
  -- saving and polling leave the layout alone, everything else is an action on it
  cases a with
  | submit c now => exact .inr ⟨.command c, layout_submit x c now⟩
  | poll now => exact .inl rfl
  | save => exact .inl rfl
  | restore doc => exact .inr ⟨.restore doc, layout_restore x doc⟩
  | zoom steps coarse =>
    refine .inr ⟨.command (.setZoom (x.zoomTarget steps coarse)), ?_⟩
    unfold Layout.act Layout.apply
    dsimp only
    rw [Attempt.andThen_snd]
    exact layout_zoom x steps coarse
  | check => exact .inr ⟨.check, rfl⟩
  | order => exact .inr ⟨.order, rfl⟩

/-- A new session has a layout that was zoomed once. -/
theorem layout_make (catalog : Catalog α) (s : Settings α) (rasterizer : Rasterizer α) :
    (make catalog s).layout = (Layout.make (.default s.tray)).act catalog s rasterizer
      (.command (.setZoom s.zoom.default)) := by
  unfold Layout.act Layout.apply
  dsimp only
  rw [Attempt.andThen_snd]
  rfl

theorem Reachable.run {catalog : Catalog α} {s : Settings α} {rasterizer : Rasterizer α}
    {x : Session α} (h : Reachable catalog s rasterizer x) (actions : List (Action α)) :
    Reachable catalog s rasterizer (x.run rasterizer actions) := by
  induction actions generalizing x with
  | nil => exact h
  | cons a rest ih => exact ih (h.act a)

/-- The layout of a session has a history. -/
theorem Reachable.attainable {catalog : Catalog α} {s : Settings α} {rasterizer : Rasterizer α}
    {x : Session α} (h : Reachable catalog s rasterizer x) : x.layout.Attainable := by
  induction h with
  -- a new session has been zoomed already
  | make =>
    rw [layout_make catalog s rasterizer]
    exact .act catalog s rasterizer _ (.make _)
  | @act x a _ ih =>
    rcases layout_act rasterizer x a with he | ⟨b, he⟩
    · rw [he]
      exact ih
    · rw [he]
      exact .act x.catalog x.settings rasterizer b ih

end Session

/-- A run goes on with the history. -/
theorem Layout.Attainable.run {α : Type} [Coordinate α] {l : Layout α} (h : l.Attainable)
    (catalog : Catalog α) (s : Settings α) (rasterizer : Rasterizer α)
    (actions : List (Layout.Action α)) : (l.run catalog s rasterizer actions).Attainable := by
  induction actions generalizing l with
  | nil => exact h
  | cons a rest ih => exact ih (.act catalog s rasterizer a h)

/-! ## Section 2: References -/

namespace Layout

section Consistency

variable {α : Type} [Coordinate α] {l : Layout α}

/-- A restored layout is consistent; a refused document leaves the layout as it was. -/
theorem Consistent.restore (h : l.Consistent) (doc : Workspace α) (catalog : Catalog α)
    (s : Settings α) : (l.restore doc catalog s).2.Consistent := by
  by_cases hv : doc.schemaVersion = schemaVersion
  · rw [restore_eq l hv]
    exact (consistent_document doc catalog s _ _).rescaleTo l.zoom
  · rw [restore_of_ne l hv]
    exact h

/-- No action breaks a reference, accepted or refused. -/
theorem Consistent.act (h : l.Consistent) (catalog : Catalog α) (s : Settings α)
    (rasterizer : Rasterizer α) (a : Action α) : (l.act catalog s rasterizer a).Consistent := by
  unfold Layout.act
  cases a with
  | command c => exact h.change (atomic_apply h c catalog s).change
  | restore doc => exact h.restore doc catalog s
  | clear => exact consistent_clear l
  | validate => exact h.validate rasterizer s
  | check => exact h.check rasterizer s
  | order =>
    dsimp only
    rw [exportWith_snd]
    exact h.check rasterizer s

/-- Every layout with a history is consistent. -/
theorem Attainable.consistent (h : l.Attainable) : l.Consistent := by
  induction h with
  | make tray => exact consistent_make tray
  | act catalog s rasterizer a _ ih => exact ih.act catalog s rasterizer a

/-- Without contours there are no labels: each label needs an owner. -/
theorem Consistent.labels_eq_nil (h : l.Consistent) (hempty : l.placements.contours = []) :
    l.labels.values = [] := by
  refine List.eq_nil_iff_forall_not_mem.mpr fun label hlabel => ?_
  obtain ⟨k, hk⟩ := SlotTable.mem_values.mp hlabel
  have hmem := h.owner_mem k label hk
  unfold Placements.ids at hmem
  rw [hempty] at hmem
  cases hmem

end Consistency

/-- An order of a consistent layout that says nothing is cut out lists nothing. -/
theorem Consistent.orderDocument_empty {l : Layout Single} (h : l.Consistent) {s : Settings Single}
    {drawing : Option String}
    (hempty : (l.orderDocument s drawing).orderMeta.trayKind = .empty) :
    (l.orderDocument s drawing).contours = [] ∧ (l.orderDocument s drawing).primitives = [] ∧
      (l.orderDocument s drawing).labels = [] := by
  -- the kind of the order is told by contours and primitives, so the labels need an argument
  have hnothing : l.isEmpty = true := by
    by_contra hne
    have hkind : (l.orderDocument s drawing).orderMeta.trayKind = .withTools := if_neg hne
    rw [hkind] at hempty
    cases hempty
  obtain ⟨hcontours, hprimitives⟩ := Bool.and_eq_true_iff.mp hnothing
  rw [List.isEmpty_iff] at hcontours hprimitives
  refine ⟨?_, ?_, ?_⟩
  · show l.placements.withItems.map _ = []
    unfold Placements.withItems
    rw [hcontours]
    rfl
  · show l.primitives.values.map _ = []
    unfold SlotTable.values
    rw [hprimitives]
    rfl
  · show l.labels.values.map _ = []
    rw [h.labels_eq_nil hcontours]
    rfl

/-- Whatever happened to a layout, on its own or in a session: its contours have distinct numbers
    below the counter, and the items and sizes that belong to them; its labels have owners; what
    is selected is there. So a layout without contours has no labels, and an order that says
    nothing is cut out lists no contour, no primitive and no label. -/
theorem references_intact {l : Layout Single}
    (h : l.Attainable ∨ ∃ catalog s rasterizer x,
      Session.Reachable catalog s rasterizer x ∧ x.layout = l) :
    l.Consistent ∧ (l.placements.contours = [] → l.labels.values = []) ∧
      ∀ rasterizer s order after, l.export rasterizer s = (.ok order, after) →
        order.orderMeta.trayKind = .empty →
          order.contours = [] ∧ order.primitives = [] ∧ order.labels = [] := by
  have hc : l.Consistent := by
    rcases h with h | ⟨catalog, s, rasterizer, x, hx, rfl⟩
    · exact h.consistent
    · exact hx.attainable.consistent
  refine ⟨hc, hc.labels_eq_nil, fun rasterizer s order after ho hempty => ?_⟩
  obtain ⟨-, -, rfl⟩ := exportWith_ok ho
  exact (hc.millimetres.highlight _).orderDocument_empty hempty

/-- A catalog of one wrench. -/
def wrenchCatalog : Catalog Single :=
  .ofItems [{
    id := "wrench", article := "W-10", name := "Wrench", category := none, enabled := true
    cuttingLength := 0, scaleOverride := 1, drawing := "wrench.svg", preview := none
    silhouette := none, size := ⟨30, 10⟩ }] .empty

/-- A tray with a wrench and a label beside it. -/
def labelledWrench : Layout Single :=
  (make (.default .standard)).run wrenchCatalog .standard (fun _ => none)
    [.command (.place "wrench" none), .command (.attachLabel 0 "10 mm" none)]

theorem attainable_labelledWrench : labelledWrench.Attainable :=
  (Attainable.make (.default .standard)).run wrenchCatalog .standard (fun _ => none) _

theorem references_intact_labelledWrench :
    labelledWrench.labels.values.length = 1 ∧ labelledWrench.Consistent :=
  ⟨by decide +kernel, (references_intact (.inl attainable_labelledWrench)).1⟩

end Layout

/-! ## Section 3: Refusals -/

/-- A refused command leaves the layout as it was, whatever happened to the layout before; in a
    session it leaves the session as it was, and with it what waits to be saved. -/
theorem refusal_leaves_no_trace {α : Type} [Coordinate α] :
    (∀ (l : Layout α), l.Attainable → ∀ (c : Command α) (catalog : Catalog α) (s : Settings α)
      (e : LayoutError α) (after : Layout α), l.apply c catalog s = (.error e, after) → after = l) ∧
    (∀ (catalog : Catalog α) (s : Settings α) (rasterizer : Rasterizer α) (x : Session α),
      Session.Reachable catalog s rasterizer x → ∀ (c : Command α) (now : Nat)
      (e : LayoutError α) (after : Session α), x.submit c now = (.error e, after) → after = x) := by
  have hlayout : ∀ (l : Layout α), l.Attainable → ∀ (c : Command α) (catalog : Catalog α)
      (s : Settings α) (e : LayoutError α) (after : Layout α),
      l.apply c catalog s = (.error e, after) → after = l := by
    intro l hl c catalog s e after he
    exact (Layout.atomic_apply hl.consistent c catalog s).eq_of_error he
  refine ⟨hlayout, ?_⟩
  intro catalog s rasterizer x hx c now e after he
  -- a refused command hands back the session with the layout that the command left behind
  unfold Session.submit at he
  split at he
  · rename_i e' l' happly
    have hl : l' = x.layout := hlayout x.layout hx.attainable c x.catalog x.settings e' l' happly
    rw [hl] at he
    exact (Prod.mk.inj he).2.symm
  · cases (Prod.mk.inj he).1

/-- The text of a label that was never there cannot be changed, and a contour that was never
    placed cannot be deleted. -/
theorem refusal_leaves_no_trace_labelledWrench :
    (∃ e, Layout.labelledWrench.apply (.setLabelText ⟨1, 3⟩ "") Layout.wrenchCatalog .standard =
      (.error e, Layout.labelledWrench)) ∧
    ∃ e, (Session.make Layout.wrenchCatalog .standard).submit (.delete (.contour 0)) 5 =
      (.error e, Session.make Layout.wrenchCatalog .standard) := by
  constructor
  -- the refusal is computed, that nothing changed is the theorem
  · have hno : (Layout.labelledWrench.apply (.setLabelText ⟨1, 3⟩ "") Layout.wrenchCatalog
        .standard).1.toOption = none := by decide +kernel
    cases h : Layout.labelledWrench.apply (.setLabelText ⟨1, 3⟩ "") Layout.wrenchCatalog
        .standard with
    | mk outcome after =>
      cases outcome with
      | ok o =>
        rw [h] at hno
        cases hno
      | error e =>
        have hafter := refusal_leaves_no_trace.1 _ Layout.attainable_labelledWrench _ _ _ e after h
        exact ⟨e, by rw [hafter]⟩
  · have hno : ((Session.make Layout.wrenchCatalog .standard).submit (.delete (.contour 0))
        5).1.toOption = none := by decide +kernel
    cases h : (Session.make Layout.wrenchCatalog .standard).submit (.delete (.contour 0)) 5 with
    | mk outcome after =>
      cases outcome with
      | ok o =>
        rw [h] at hno
        cases hno
      | error e =>
        have hafter := refusal_leaves_no_trace.2 Layout.wrenchCatalog .standard (fun _ => none) _
          .make _ 5 e after h
        exact ⟨e, by rw [hafter]⟩

end FoamTray
