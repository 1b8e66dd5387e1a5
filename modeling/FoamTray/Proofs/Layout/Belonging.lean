import FoamTray.Layout.Invariants
import FoamTray.Proofs.Geometry.Fitting
import FoamTray.Proofs.Layout.Drift
import FoamTray.Proofs.Layout.Frames

/-! # Labels stay with their contours

    An edit brings the labels that it concerns back to their contours. A change of the zoom does
    not: it stretches a label and its contour alike. Over the rationals that is enough. With
    machine numbers both are rounded on their own, so a label that lies at the side of its area
    leaves it, a little further with each change of the zoom, until an edit brings it back.

    * `Endures` : conditions that hold after an edit and go over to another zoom.
    * `Session.Stays`, `Endures.run` : they hold after a run of a session.
    * `endures_exact` : over the rationals no label ever leaves its area.
    * `Belongs`, `endures_measured` : with machine numbers each change of the zoom adds to an error.
    * `Session.Reachable.labelsWithinOwners_exact`, `labels_stay_with_owners` : labels are with
      their owners, exactly over the rationals, and up to the drift with machine numbers.
    * `stretchedLabel_escapes` : five changes of the zoom that a label does not withstand.
-/

namespace FoamTray

/-! ## Section 1: Conditions that endure -/

section Endurance

variable {α : Type} [Coordinate α]

/-- A condition holds of labels together with the boxes of their contours, at the zoom of the
    layout. -/
def Layout.Spanned (l : Layout α) (Q : Zoom α → Frame α → Label α → Prop)
    (labels : List (Label α)) : Prop :=
  ∀ label ∈ labels, ∀ f ∈ l.frame? label.owner, Q l.zoom f label

instance (l : Layout α) (Q : Zoom α → Frame α → Label α → Prop)
    [∀ z f label, Decidable (Q z f label)] (labels : List (Label α)) :
    Decidable (l.Spanned Q labels) :=
  inferInstanceAs (Decidable (∀ label ∈ labels, ∀ f ∈ l.frame? label.owner, Q l.zoom f label))

/-- A condition `P n` on labels that were brought back to their contours, and then went through `n`
    changes of the zoom, as long as `Q` held of them all the while. -/
structure Endures (s : Settings α) (Q : Zoom α → Frame α → Label α → Prop)
    (P : Nat → Zoom α → Frame α → Label α → Prop) : Prop where
  /-- More changes of the zoom ask for less. -/
  succ : ∀ {n z f label}, P n z f label → P (n + 1) z f label
  /-- It holds of a label that is brought back. -/
  settled : ∀ {n z f label}, Q z f label →
    P n z f (label.movedInto (f.area z s.labelPadding) s.labels z)
  /-- It goes over to another zoom. -/
  zoomed : ∀ {n z t f label}, P n z f label → Q z f label →
    Q t (f.rescale (z.ratioTo t)) (label.rescale (z.ratioTo t)) →
      P (n + 1) t (f.rescale (z.ratioTo t)) (label.rescale (z.ratioTo t))

variable {s : Settings α} {Q : Zoom α → Frame α → Label α → Prop}
  {P : Nat → Zoom α → Frame α → Label α → Prop} {n : Nat} {l : Layout α}

namespace Layout

/-- What holds of the labels holds of them together with what holds of the spanned ones. -/
theorem Labelled.and {R : Frame α → Label α → Prop} (h : l.Labelled R)
    (hQ : l.Spanned Q l.labels.values) :
    l.Labelled fun f label => R f label ∧ Q l.zoom f label := by
  intro label hlabel
  obtain ⟨f, hf, hR⟩ := h label hlabel
  exact ⟨f, hf, hR, hQ label hlabel f hf⟩

/-- A change of the zoom stretches the layout, or is refused. -/
theorem setZoom_cases (l : Layout α) (factor : α) (s : Settings α) :
    (l.setZoom factor s).2 = l ∨ ∃ z, (l.setZoom factor s).2 = l.rescaleTo z := by
  unfold setZoom
  split
  · split
    · exact .inr ⟨_, rfl⟩
    · exact .inl rfl
  · exact .inl rfl

end Layout

namespace Endures

/-- An edit, which brings back the labels that it concerns. -/
theorem command (h : Endures s Q P) (hl : l.Consistent) {c : Command α}
    (hc : ∀ factor, c ≠ .setZoom factor) (catalog : Catalog α) (hP : l.Labelled (P n l.zoom))
    (hQ : (l.apply c catalog s).2.Spanned Q (l.loose s c)) :
    (l.apply c catalog s).2.Labelled (P n (l.apply c catalog s).2.zoom) := by
  have hresettles := Layout.resettles_apply hl hc catalog s
  have hzoom := hresettles.zoom
  rw [hzoom]
  refine hP.resettles hresettles ?_
  intro label hlabel f hf
  apply h.settled
  rw [← hzoom]
  exact hQ label hlabel f hf

/-- A document, of which all labels are brought back. -/
theorem document (h : Endures s Q P) (doc : Workspace α) (catalog : Catalog α)
    (z : Zoom α) (nextId : Nat)
    (hQ : (doc.layout catalog s z nextId).Spanned Q
      (doc.labels.map (·.restored ((doc.restoredTray s).origin z)))) :
    (doc.layout catalog s z nextId).Labelled (P n z) := by
  apply Layout.labelled_document
  intro r hr f hf
  exact h.settled (hQ _ (List.mem_map_of_mem hr) f hf)

/-- A change of the zoom, which brings back none. -/
theorem rescaleTo (h : Endures s Q P)
    (hP : l.Labelled fun f label => P n l.zoom f label ∧ Q l.zoom f label) (z : Zoom α)
    (hQ : (l.rescaleTo z).Spanned Q (l.rescaleTo z).labels.values) :
    (l.rescaleTo z).Labelled (P (n + 1) (l.rescaleTo z).zoom) := by
  cases hne : z.factor == l.zoom.factor with
  -- the zoom of before is no change
  | true =>
    have hsame : l.rescaleTo z = l := if_pos hne
    rw [hsame]
    exact hP.mono fun f label hPQ => h.succ hPQ.1
  | false =>
    have hzoom : (l.rescaleTo z).zoom = z := by
      unfold Layout.rescaleTo
      rw [if_neg (by rw [hne]; exact Bool.false_ne_true)]
    have hstretched : (l.rescaleTo z).Labelled fun f' label' =>
        Q z f' label' → P (n + 1) z f' label' := by
      apply hP.rescaleTo hne
      intro f label hPQ hQ'
      exact h.zoomed hPQ.1 hPQ.2 hQ'
    rw [hzoom]
    intro label hlabel
    obtain ⟨f, hf, hstretched'⟩ := hstretched label hlabel
    have hQ' := hQ label hlabel f hf
    rw [hzoom] at hQ'
    exact ⟨f, hf, hstretched' hQ'⟩

/-- A check stretches a layout to millimetres and back. -/
theorem check (h : Endures s Q P) (rasterizer : Rasterizer α) (s' : Settings α)
    (hP : l.Labelled (P n l.zoom)) (hQ : l.Spanned Q l.labels.values)
    (hunit : (l.rescaleTo .unit).Spanned Q (l.rescaleTo .unit).labels.values)
    (hQ' : (l.check rasterizer s').2.Spanned Q (l.check rasterizer s').2.labels.values) :
    (l.check rasterizer s').2.Labelled (P (n + 2) (l.check rasterizer s').2.zoom) := by
  have hmillimetres := (h.rescaleTo (hP.and hQ) .unit hunit).and hunit
  have hvalidated := hmillimetres.validate rasterizer s'
  have hzoom : ((l.rescaleTo .unit).validate rasterizer s').2.zoom = (l.rescaleTo .unit).zoom := by
    rcases (l.rescaleTo .unit).validate_snd_cases rasterizer s' with he | ⟨r, he⟩
    · rw [he]
    · rw [he]
      rfl
  rw [← hzoom] at hvalidated
  exact h.rescaleTo hvalidated l.zoom hQ'

end Endures

/-! ## Section 2: Runs of a session -/

namespace Session

variable {x : Session α}

/-- How often an action changes the zoom, at most. A check is made in millimetres, a document is
    read in millimetres. -/
def Action.zoomings : Action α → Nat
  | .submit (.setZoom _) _ | .zoom _ _ | .restore _ => 1
  | .check | .order => 2
  | .submit _ _ | .poll _ | .save => 0

/-- A condition holds of the labels that an action brings back, before they are, and of all labels
    while the layout is in millimetres. -/
def Allows (x : Session α) (Q : Zoom α → Frame α → Label α → Prop) : Action α → Prop
  | .submit c now => (x.submit c now).2.layout.Spanned Q (x.layout.loose x.settings c)
  | .restore doc =>
      doc.schemaVersion = schemaVersion →
        let l := doc.layout x.catalog x.settings (x.layout.rescaleTo .unit).zoom
          x.layout.placements.nextId
        l.Spanned Q (doc.labels.map (·.restored ((doc.restoredTray x.settings).origin l.zoom))) ∧
          l.Spanned Q l.labels.values
  | .check | .order =>
      (x.layout.rescaleTo .unit).Spanned Q (x.layout.rescaleTo .unit).labels.values
  | .zoom _ _ | .poll _ | .save => True

/-- A condition holds of all labels during a run. -/
def Stays (Q : Zoom α → Frame α → Label α → Prop) (rasterizer : Rasterizer α) :
    Session α → List (Action α) → Prop
  | x, [] => x.layout.Spanned Q x.layout.labels.values
  | x, a :: rest => x.layout.Spanned Q x.layout.labels.values ∧ x.Allows Q a ∧
      Stays Q rasterizer (x.act rasterizer a) rest

theorem Stays.spanned {Q : Zoom α → Frame α → Label α → Prop} {rasterizer : Rasterizer α}
    {actions : List (Action α)} (h : Stays Q rasterizer x actions) :
    x.layout.Spanned Q x.layout.labels.values := by
  cases actions with
  | nil => exact h
  | cons a rest => exact h.1

instance (x : Session α) (Q : Zoom α → Frame α → Label α → Prop)
    [∀ z f label, Decidable (Q z f label)] : ∀ a, Decidable (x.Allows Q a)
  | .submit _ _ => inferInstanceAs (Decidable (Layout.Spanned _ _ _))
  | .restore _ => inferInstanceAs (Decidable (_ → Layout.Spanned _ _ _ ∧ Layout.Spanned _ _ _))
  | .check | .order => inferInstanceAs (Decidable (Layout.Spanned _ _ _))
  | .zoom _ _ | .poll _ | .save => inferInstanceAs (Decidable True)

instance (Q : Zoom α → Frame α → Label α → Prop) [∀ z f label, Decidable (Q z f label)]
    (rasterizer : Rasterizer α) : ∀ x actions, Decidable (Stays Q rasterizer x actions)
  | _, [] => inferInstanceAs (Decidable (Layout.Spanned _ _ _))
  | x, a :: rest =>
      have := instDecidableStays Q rasterizer (x.act rasterizer a) rest
      inferInstanceAs (Decidable (Layout.Spanned _ _ _ ∧ x.Allows Q a ∧ Stays Q rasterizer _ rest))

/-- A new session has no labels. -/
theorem labels_make (catalog : Catalog α) (s : Settings α) :
    (make catalog s).layout.labels.values = [] := by
  unfold make
  dsimp only
  rcases (Layout.make (.default s.tray)).setZoom_cases s.zoom.default s with he | ⟨z, he⟩
  · rw [he]
    rfl
  · rw [he]
    unfold Layout.rescaleTo
    split <;> rfl

end Session

namespace Endures

variable {x : Session α} {rasterizer : Rasterizer α}

theorem setZoom (h : Endures s Q P) (hP : l.Labelled (P n l.zoom))
    (hQ : l.Spanned Q l.labels.values) (factor : α) (s' : Settings α)
    (hQ' : (l.setZoom factor s').2.Spanned Q (l.setZoom factor s').2.labels.values) :
    (l.setZoom factor s').2.Labelled (P (n + 1) (l.setZoom factor s').2.zoom) := by
  rcases l.setZoom_cases factor s' with he | ⟨z, he⟩
  · rw [he]
    exact hP.mono fun f label hf => h.succ hf
  · rw [he] at hQ' ⊢
    exact h.rescaleTo (hP.and hQ) z hQ'

/-- One step of a session. -/
theorem act (h : Endures x.settings Q P) (hc : x.layout.Consistent)
    (hP : x.layout.Labelled (P n x.layout.zoom)) (a : Session.Action α)
    (hQ : x.layout.Spanned Q x.layout.labels.values) (ha : x.Allows Q a)
    (hQ' : (x.act rasterizer a).layout.Spanned Q (x.act rasterizer a).layout.labels.values) :
    (x.act rasterizer a).layout.Labelled (P (n + a.zoomings) (x.act rasterizer a).layout.zoom) := by
  unfold Session.act at hQ' ⊢
  unfold Session.Allows at ha
  cases a with
  | poll now => exact hP
  | save => exact hP
  | submit c now =>
    dsimp only at hQ' ha ⊢
    rw [Session.layout_submit] at hQ' ha ⊢
    by_cases hzoom : ∃ factor, c = .setZoom factor
    · obtain ⟨factor, rfl⟩ := hzoom
      unfold Layout.apply at hQ' ⊢
      dsimp only at hQ' ⊢
      rw [Attempt.andThen_snd] at hQ' ⊢
      exact h.setZoom hP hQ factor x.settings hQ'
    · have hc' : ∀ factor, c ≠ .setZoom factor := fun factor he => hzoom ⟨factor, he⟩
      have hcount : (Session.Action.submit c now).zoomings = 0 := by
        cases c with
        | setZoom factor => exact absurd rfl (hc' factor)
        | _ => rfl
      rw [hcount]
      exact h.command hc hc' x.catalog hP ha
  | restore doc =>
    dsimp only at hQ' ha ⊢
    rw [Session.layout_restore] at hQ' ⊢
    by_cases hv : doc.schemaVersion = schemaVersion
    · obtain ⟨hloose, hdoc⟩ := ha hv
      rw [Layout.restore_eq x.layout hv] at hQ' ⊢
      exact h.rescaleTo ((h.document doc x.catalog _ _ hloose).and hdoc) x.layout.zoom hQ'
    · rw [Layout.restore_of_ne x.layout hv]
      exact hP.mono fun f label hf => h.succ hf
  | zoom steps coarse =>
    dsimp only at hQ' ⊢
    rw [Session.layout_zoom] at hQ' ⊢
    exact h.setZoom hP hQ _ x.settings hQ'
  | check => exact h.check rasterizer x.settings hP hQ ha hQ'
  | order =>
    unfold Session.exportWith at hQ' ⊢
    dsimp only at hQ' ⊢
    rw [Layout.exportWith_snd] at hQ' ⊢
    exact h.check rasterizer x.settings hP hQ ha hQ'

/-- It holds after every step of a run. -/
theorem run {catalog : Catalog α} (h : Endures s Q P) {actions : List (Session.Action α)}
    (hx : Session.Reachable catalog s rasterizer x) (hP : x.layout.Labelled (P n x.layout.zoom))
    (hstays : Session.Stays Q rasterizer x actions) :
    let l := (x.run rasterizer actions).layout
    l.Spanned Q l.labels.values ∧
      l.Labelled (P (n + (actions.map (·.zoomings)).sum) l.zoom) := by
  induction actions generalizing x n with
  | nil => exact ⟨hstays, hP⟩
  | cons a rest ih =>
    obtain ⟨hQ, ha, hrest⟩ := hstays
    have h' := h
    rw [← hx.settings_eq] at h'
    have hstep := h'.act hx.attainable.consistent hP a hQ ha hrest.spanned
    have hrun := ih (hx.act a) hstep hrest
    rw [List.map_cons, List.sum_cons, ← Nat.add_assoc]
    exact hrun

end Endures

end Endurance

/-! ## Section 3: Over the rationals -/

theorem Frame.area_rescale (f : Frame Rat) (z t : Zoom Rat) (padding : Rat) :
    (f.rescale (z.ratioTo t)).area t padding = (f.area z padding).scale (z.ratioTo t) := by
  unfold area
  rw [← z.toWorkspace_mul_ratioTo t, ← z.toWorkspace_mul_ratioTo t,
    ← z.toWorkspace_mul_ratioTo t padding, ← Rect.inflate_scale (z.ratioTo_pos t),
    ← Rect.ofTopLeft_rescale]
  rfl

/-- A label stays in its area at every zoom. -/
theorem endures_exact (s : Settings Rat) :
    Endures s (fun _ _ _ => True) fun _ z f label =>
      (f.area z s.labelPadding).Keeps 0 (label.bounds s.labels z) where
  succ h := h
  settled _ := Label.keeps_movedInto _ _ _ _
  zoomed {_ z t f label} h _ _ := by
    rw [f.area_rescale, label.bounds_rescale]
    exact h.scale (z.ratioTo_pos t)

section Tests

variable {α : Type} [Coordinate α]

/-- Where every label has a contour, the tests of the labels decide. -/
theorem Layout.labelsWithinOwners_of_labelled {l : Layout α} {s : Settings α}
    (h : l.Labelled fun f label =>
      axisFits (f.area l.zoom s.labelPadding).xMin (f.area l.zoom s.labelPadding).xMax
          (label.bounds s.labels l.zoom).xMin (label.bounds s.labels l.zoom).xMax = true ∧
        axisFits (f.area l.zoom s.labelPadding).yMin (f.area l.zoom s.labelPadding).yMax
          (label.bounds s.labels l.zoom).yMin (label.bounds s.labels l.zoom).yMax = true) :
    l.labelsWithinOwners s = true := by
  unfold labelsWithinOwners
  rw [List.all_eq_true]
  intro label hlabel
  obtain ⟨f, hf, hfits⟩ := h label hlabel
  rw [labelArea?_eq, hf]
  exact Bool.and_eq_true_iff.mpr hfits

end Tests

/-- No run over the rationals takes a label away from its contour. -/
theorem Session.Reachable.labelled_exact {catalog : Catalog Rat} {s : Settings Rat}
    {rasterizer : Rasterizer Rat} {x : Session Rat} (h : Reachable catalog s rasterizer x) :
    x.layout.Labelled fun f label =>
      (f.area x.layout.zoom s.labelPadding).Keeps 0 (label.bounds s.labels x.layout.zoom) := by
  induction h with
  | make => exact Layout.labelled_of_empty (labels_make catalog s)
  | @act x a hx ih =>
    have hendures := endures_exact s
    rw [← hx.settings_eq] at hendures ih ⊢
    have hall : ∀ (l : Layout Rat) (labels : List (Label Rat)),
        l.Spanned (fun _ _ _ => True) labels := fun _ _ _ _ _ _ => trivial
    refine hendures.act (n := 0) hx.attainable.consistent ih a (hall _ _) ?_ (hall _ _)
    cases a with
    | restore doc => exact fun _ => ⟨hall _ _, hall _ _⟩
    | submit c now => exact hall _ _
    | check => exact hall _ _
    | order => exact hall _ _
    | _ => trivial

/-! ## Section 4: With machine numbers -/

/-- The box of a contour in millimetres. -/
def Frame.exact (f : Frame Single) (z : Zoom Single) : Frame Rat where
  position := ⟨z.millimetres f.position.x, z.millimetres f.position.y⟩
  size := ⟨f.size.width.toRat, f.size.height.toRat⟩

/-- The box of a label in millimetres. -/
def Label.exactBounds (label : Label Single) (s : LabelSettings Single) (z : Zoom Single) :
    Rect Rat :=
  let x := z.millimetres label.position.x
  let y := z.millimetres label.position.y
  ⟨x, y, x + (label.size s).width.toRat, y + (label.size s).height.toRat⟩

/-- A label, its contour and the padding around that are finite and reach no more than so many
    millimetres from the origin, at a moderate zoom. -/
structure Measured (s : Settings Single) (bound : Rat) (z : Zoom Single) (f : Frame Single)
    (label : Label Single) : Prop where
  zoom : z.Moderate
  padding : s.labelPadding.isFinite = true
  contour_x : z.SpansSide (bound - |s.labelPadding.toRat|) f.position.x f.size.width
  contour_y : z.SpansSide (bound - |s.labelPadding.toRat|) f.position.y f.size.height
  label_x : z.SpansSide bound label.position.x (label.size s.labels).width
  label_y : z.SpansSide bound label.position.y (label.size s.labels).height

instance (s : Settings Single) (bound : Rat) (z : Zoom Single) (f : Frame Single)
    (label : Label Single) : Decidable (Measured s bound z f label) :=
  decidable_of_iff
    (z.Moderate ∧ s.labelPadding.isFinite = true ∧
      z.SpansSide (bound - |s.labelPadding.toRat|) f.position.x f.size.width ∧
      z.SpansSide (bound - |s.labelPadding.toRat|) f.position.y f.size.height ∧
      z.SpansSide bound label.position.x (label.size s.labels).width ∧
      z.SpansSide bound label.position.y (label.size s.labels).height)
    ⟨fun ⟨h₁, h₂, h₃, h₄, h₅, h₆⟩ => ⟨h₁, h₂, h₃, h₄, h₅, h₆⟩,
      fun ⟨h₁, h₂, h₃, h₄, h₅, h₆⟩ => ⟨h₁, h₂, h₃, h₄, h₅, h₆⟩⟩

section Machine

variable {s : Settings Single} {bound e : Rat} {z t : Zoom Single} {f : Frame Single}
  {label : Label Single}

/-- The label is where it should be in millimetres, up to an error. -/
def Belongs (s : Settings Single) (e : Rat) (z : Zoom Single) (f : Frame Single)
    (label : Label Single) : Prop :=
  ((f.exact z).area .unit s.labelPadding.toRat).Keeps e (label.exactBounds s.labels z)

/-- A label that the machine brings back. -/
theorem Measured.settled (h : Measured s bound z f label) (hbound : bound ≤ 2 ^ 19) :
    Belongs s (13 * grain bound) z f
      (label.movedInto (f.area z s.labelPadding) s.labels z) := by
  obtain ⟨hz, hp, hcx, hcy, hlx, hly⟩ := h
  obtain ⟨hdx, hfitx⟩ := hlx.settled hcx hz hp hbound
  obtain ⟨hdy, hfity⟩ := hly.settled hcy hz hp hbound
  unfold Label.movedInto
  dsimp only
  split
  -- a shift by nothing is left out
  · rename_i hzero
    obtain ⟨hzerox, hzeroy⟩ := Bool.and_eq_true_iff.mp hzero
    have hx : |z.millimetres label.position.x| ≤ 2 ^ 23 := by
      linarith [hlx.reach, abs_nonneg (label.size s.labels).width.toRat]
    have hy : |z.millimetres label.position.y| ≤ 2 ^ 23 := by
      linarith [hly.reach, abs_nonneg (label.size s.labels).height.toRat]
    rw [hz.millimetres_add_zero hlx.finite hdx hx hzerox] at hfitx
    rw [hz.millimetres_add_zero hly.finite hdy hy hzeroy] at hfity
    exact ⟨hfitx, hfity⟩
  · exact ⟨hfitx, hfity⟩

/-- A label that is stretched with its contour. -/
theorem Measured.zoomed (h : Measured s bound z f label) (ht : t.Moderate) (hbound : bound ≤ 2 ^ 19)
    (hfit : Belongs s e z f label) :
    Belongs s (e + 4 * grain bound) t (f.rescale (z.ratioTo t)) (label.rescale (z.ratioTo t)) :=
  ⟨h.label_x.zoomed h.contour_x h.zoom ht hbound hfit.horizontal,
    h.label_y.zoomed h.contour_y h.zoom ht hbound hfit.vertical⟩

/-- Every change of the zoom takes a label a little further away. -/
theorem endures_measured (s : Settings Single) (hlow : 0 ≤ bound) (hbound : bound ≤ 2 ^ 19) :
    Endures s (Measured s bound) fun n => Belongs s (drift (n + 4) bound) := by
  have hgrain0 := grain_nonneg hlow
  have hsucc : ∀ n, drift (n + 1) bound = drift n bound + 4 * grain bound := by
    intro n
    unfold drift grain
    push_cast
    ring
  have hleast : ∀ n, 13 * grain bound ≤ drift (n + 4) bound := by
    intro n
    have hnonneg := drift_nonneg n hlow
    rw [hsucc, hsucc, hsucc, hsucc]
    linarith
  refine ⟨?_, ?_, ?_⟩
  · intro n z f label hfit
    refine Rect.Keeps.mono hfit ?_
    rw [Nat.add_right_comm n 1 4, hsucc (n + 4)]
    linarith
  · intro n z f label hQ
    exact (hQ.settled hbound).mono (hleast n)
  · intro n z t f label hfit hQ hQ'
    have hzoomed := hQ.zoomed hQ'.zoom hbound hfit
    rw [← hsucc, Nat.add_right_comm n 4 1] at hzoomed
    exact hzoomed

/-- The machine finds a label where it should be if the error is small at this zoom. -/
theorem Measured.axisFits (h : Measured s bound z f label) (hbound : bound ≤ 2 ^ 19)
    (hfit : Belongs s e z f label)
    (he : (e + 12 * grain bound) * z.factor.toRat ≤ 1 / 1000) :
    Layout.axisFits (f.area z s.labelPadding).xMin (f.area z s.labelPadding).xMax
        (label.bounds s.labels z).xMin (label.bounds s.labels z).xMax = true ∧
      Layout.axisFits (f.area z s.labelPadding).yMin (f.area z s.labelPadding).yMax
        (label.bounds s.labels z).yMin (label.bounds s.labels z).yMax = true :=
  ⟨h.label_x.axisFits h.contour_x h.zoom h.padding hbound hfit.horizontal he,
    h.label_y.axisFits h.contour_y h.zoom h.padding hbound hfit.vertical he⟩

end Machine

/-! ## Section 5: Labels and their owners -/

namespace Session

/-- Over the rationals every label is with its owner in every session. -/
theorem Reachable.labelsWithinOwners_exact {catalog : Catalog Rat} {s : Settings Rat}
    {rasterizer : Rasterizer Rat} {x : Session Rat} (h : Reachable catalog s rasterizer x) :
    x.layout.labelsWithinOwners s = true := by
  apply Layout.labelsWithinOwners_of_labelled
  exact h.labelled_exact.mono fun f label hkeeps =>
    ⟨hkeeps.horizontal.axisFits, hkeeps.vertical.axisFits⟩

/-- With machine numbers a change of the zoom rounds a label and its contour, and does not bring
    the label back. After a run with `n` changes of the zoom, during which what concerns the labels
    reached no more than `bound` millimetres, every label lies within the padded box of its owner,
    or is aligned to it, up to `drift (n + 4) bound` millimetres, that is
    `(n + 4) * (bound + 1) / 2 ^ 22`. Where three such units more are within the tolerance of a
    thousandth at the zoom of the layout, the test of the labels succeeds. -/
theorem labels_stay_with_owners (catalog : Catalog Single) (s : Settings Single)
    (rasterizer : Rasterizer Single) (actions : List (Action Single)) {bound : Rat}
    (hlow : 0 ≤ bound) (hbound : bound ≤ 2 ^ 19)
    (hstays : Stays (Measured s bound) rasterizer (make catalog s) actions) :
    let l := ((make catalog s).run rasterizer actions).layout
    let n := (actions.map (·.zoomings)).sum
    l.Labelled (Belongs s (drift (n + 4) bound) l.zoom) ∧
      (drift (n + 7) bound * l.zoom.factor.toRat ≤ 1 / 1000 →
        l.labelsWithinOwners s = true) := by
  intro l n
  obtain ⟨hspanned, hlabelled⟩ := (endures_measured s hlow hbound).run (n := 0) .make
    (Layout.labelled_of_empty (labels_make catalog s)) hstays
  rw [Nat.zero_add] at hlabelled
  refine ⟨hlabelled, ?_⟩
  intro hsmall
  have herror : drift (n + 7) bound = drift (n + 4) bound + 12 * grain bound := by
    unfold drift grain
    push_cast
    ring
  rw [herror] at hsmall
  apply Layout.labelsWithinOwners_of_labelled
  exact (hlabelled.and hspanned).mono fun f label h => h.2.axisFits hbound h.1 hsmall

/-- A wrench with a label at the right side of its area. -/
def stretchedLabel (corner : Point Single) : List (Action Single) :=
  [.submit (.place "wrench" (some corner)) 0, .submit (.attachLabel 0 "10 mm" none) 1,
    .submit (.move (.label ⟨1, 1⟩) 40 0) 2]

theorem labels_stay_with_owners_stretchedLabel :
    let actions := stretchedLabel ⟨60, 40⟩ ++ [.check, .submit (.setZoom 2) 3]
    ((make Layout.wrenchCatalog .standard).run (fun _ => none)
      actions).layout.labelsWithinOwners .standard = true := by
  intro actions
  have hstays : Stays (Measured .standard 200) (fun _ => none)
      (make Layout.wrenchCatalog .standard) actions := by decide +kernel
  exact (labels_stay_with_owners Layout.wrenchCatalog .standard (fun _ => none) actions
    (by norm_num) (by norm_num) hstays).2 (by decide +kernel)

/-- Near the other end of the tray five changes of the zoom take the label out of its area. -/
theorem stretchedLabel_escapes :
    let x := (make Layout.wrenchCatalog .standard).run (fun _ => none) (stretchedLabel ⟨549, 100⟩)
    let zoomed := x.run (fun _ => none) [.submit (.setZoom 2.6) 3, .submit (.setZoom 7.3) 4,
      .submit (.setZoom 4.5) 5, .submit (.setZoom 2.9) 6, .submit (.setZoom 6.9) 7]
    x.layout.labelsWithinOwners .standard = true ∧
      zoomed.layout.labelsWithinOwners .standard = false := by
  decide +kernel

end Session

end FoamTray
