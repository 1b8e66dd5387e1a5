import FoamTray.Proofs.Layout.Handles
import FoamTray.Proofs.SlotTable.Log

/-! # Labels in the order of attaching

    A contour may have several labels, and one of them stands for all where only one is asked for.
    It is the one in the first slot. Slots are taken in the order of attaching until a label of
    any contour is deleted; the next label that is attached takes the slot of that one, also if it
    belongs to another contour.

    * `Layout.attachLog` : the keys of the labels in the order of attaching, as the answers to the
      commands of a run name them.
    * `Layout.labels_change`, `labels_apply` : what a command does to the labels, and what it says
      about that.
    * `logged_act`, `logged_run` : no action and no run makes the log wrong.
    * `label_found_after_run` : which label is found, and when it is not the one attached first.
-/

namespace FoamTray.Layout

/-! ## Section 1: The log of a run -/

section Log

variable {α : Type}

/-- The key of the label that came in, if the answer to a command names one. -/
def newLabel? : Except (LayoutError α) CommandOutcome → Option Key
  | .ok ⟨_, some (.label k)⟩ => some k
  | _ => none

theorem newLabel?_eq_some {answer : Except (LayoutError α) CommandOutcome} {k : Key} :
    newLabel? answer = some k ↔ ∃ persist, answer = .ok ⟨persist, some (.label k)⟩ := by
  unfold newLabel?
  split <;> simp_all

/-- Whether a key names a label of a contour. -/
def ownsLabel [Scalar α] (l : Layout α) (owner : Nat) (k : Key) : Bool :=
  (l.labels.get? k).any (·.owner == owner)

variable [Coordinate α]

/-- The log after a further action: a label that was attached comes last, the labels of a restored
    document come in its order, and when everything is removed the log starts again. -/
def logAct (catalog : Catalog α) (s : Settings α) (l : Layout α) (log : List Key) :
    Action α → List Key
  | .command c => log ++ (newLabel? (l.apply c catalog s).1).toList
  | .restore doc =>
    if doc.schemaVersion = schemaVersion then (l.restore doc catalog s).2.labels.keys else log
  | .clear => []
  | .validate | .check | .order => log

/-- The keys of the labels in the order in which they were attached in a run, since the layout was
    last cleared or restored. Labels that were deleted are included. -/
def attachLog (catalog : Catalog α) (s : Settings α) (rasterizer : Rasterizer α) (l : Layout α)
    (log : List Key) : List (Action α) → List Key
  | [] => log
  | a :: rest =>
    attachLog catalog s rasterizer (l.act catalog s rasterizer a) (l.logAct catalog s log a) rest

end Log

/-! ## Section 2: What actions do to the labels -/

variable {α : Type} [Coordinate α] {l l' : Layout α} {catalog : Catalog α} {s : Settings α}
  {rasterizer : Rasterizer α} {log : List Key}

theorem keeps_labels_rescaleTo (l : Layout α) (z : Zoom α) :
    l.labels.Keeps (l.rescaleTo z).labels := by
  unfold rescaleTo
  split
  · exact SlotTable.keeps_self _
  · dsimp only
    exact SlotTable.keeps_map _ _

theorem keys_labels_rescaleTo (l : Layout α) (z : Zoom α) :
    (l.rescaleTo z).labels.keys = l.labels.keys := by
  unfold rescaleTo
  split
  · rfl
  · exact SlotTable.keys_map _ _

theorem keeps_labels_validate (l : Layout α) (rasterizer : Rasterizer α) (s : Settings α) :
    l.labels.Keeps (l.validate rasterizer s).2.labels := by
  rcases l.validate_snd_cases rasterizer s with he | ⟨r, he⟩
  · rw [he]
    exact SlotTable.keeps_self _
  · rw [he]
    exact SlotTable.keeps_self _

theorem keeps_labels_check (l : Layout α) (rasterizer : Rasterizer α) (s : Settings α) :
    l.labels.Keeps (l.check rasterizer s).2.labels :=
  ((keeps_labels_rescaleTo l .unit).trans (keeps_labels_validate _ rasterizer s)).trans
    (keeps_labels_rescaleTo _ l.zoom)

/-- A change brings in one label, or none. -/
theorem labels_change (hc : l.Change catalog s l') :
    l.labels.Keeps l'.labels ∨ ∃ label, l'.labels = l.labels.insert label := by
  cases hc with
  | labelAttached hc ho => exact .inr ⟨_, rfl⟩
  | rescaled z => exact .inl (keeps_labels_rescaleTo l z)
  | contourEdited hc hf hg =>
    left
    unfold resettleLabels
    dsimp only
    exact SlotTable.keeps_map _ _
  | contourErased hc => exact .inl (SlotTable.keeps_foldl_erase _ _)
  | labelEdited hk ho => exact .inl (SlotTable.keeps_set _ _ _)
  | labelErased k => exact .inl (SlotTable.keeps_erase _ k)
  | unchanged | placed | primitiveAdded | primitiveEdited | primitiveErased | trayResized =>
    exact .inl (SlotTable.keeps_self _)

/-- Only a label that was attached is named as a label that came in. -/
theorem gains_of_created_label {cmd : Command α} {k : Key}
    (heffect : cmd.Effect l (some (.label k)) l') :
    ∃ label, l.labels.Gains l'.labels k label := by
  cases cmd with
  | attachLabel owner text offset =>
    obtain ⟨k', label, labels, hcreated, -, hgains, rfl⟩ := heffect
    cases hcreated
    exact ⟨label, hgains⟩
  | place name position =>
    obtain ⟨c, item, hcreated, -⟩ := heffect
    cases hcreated
  | addPrimitive shape position =>
    obtain ⟨k', p, primitives, hcreated, -⟩ := heffect
    cases hcreated
  | move moved dx dy => cases moved <;> cases heffect.1
  | delete deleted => cases deleted <;> cases heffect.1
  | rotate id angle => cases heffect.1
  | rotateStep id => cases heffect.1
  | snap id angle => cases heffect.1
  | resizePrimitive k size => cases heffect.1
  | setLabelText k text => cases heffect.1
  | setZoom factor => cases heffect.1
  | resizeTray width height => cases heffect.1
  | applyPreset name => cases heffect.1

/-- A command brings in a label under the next key and says so, or no label comes in. -/
theorem labels_apply (h : l.Consistent) (c : Command α) (catalog : Catalog α) (s : Settings α) :
    (newLabel? (l.apply c catalog s).1 = none ∧ l.labels.Keeps (l.apply c catalog s).2.labels) ∨
      (newLabel? (l.apply c catalog s).1 = some l.labels.nextKey ∧
        ∃ label, (l.apply c catalog s).2.labels = l.labels.insert label) := by
  have hatomic := atomic_apply h c catalog s
  cases happly : l.apply c catalog s with
  | mk answer after =>
    rw [happly] at hatomic
    rcases labels_change hatomic.change with hkeeps | ⟨label, hinsert⟩
    · refine .inl ⟨Option.eq_none_iff_forall_ne_some.mpr fun k hk => ?_, hkeeps⟩
      -- a key that is named as new would be dead before and live now
      obtain ⟨persist, rfl⟩ := newLabel?_eq_some.mp hk
      obtain ⟨label, hgains⟩ := gains_of_created_label (effect_apply h happly)
      obtain ⟨old, hold⟩ :=
        SlotTable.mem_keys.mp (hkeeps.keys (SlotTable.mem_keys.mpr ⟨label, hgains.live⟩))
      rw [hgains.dead] at hold
      cases hold
    · refine .inr ⟨?_, label, hinsert⟩
      have hnot : ¬ l.Has (.label l.labels.nextKey) := by
        intro hhas
        obtain ⟨old, hold⟩ := SlotTable.mem_keys.mp hhas
        rw [h.valid_labels.get?_nextKey] at hold
        cases hold
      have hhas : after.Has (.label l.labels.nextKey) := by
        refine SlotTable.mem_keys.mpr ⟨label, ?_⟩
        rw [hinsert]
        exact h.valid_labels.get?_insert_self label
      cases answer with
      | error e => exact absurd (hatomic.eq_of_error rfl ▸ hhas) hnot
      | ok outcome =>
        have hcreated := (has_of_effect (effect_apply h happly) hhas).resolve_left hnot
        exact newLabel?_eq_some.mpr ⟨outcome.persist, by rw [← hcreated]⟩

/-- The labels of a document come in its order. -/
theorem logged_document (doc : Workspace α) (catalog : Catalog α) (s : Settings α) (z : Zoom α)
    (nextId : Nat) : (doc.layout catalog s z nextId).labels.Logged
      (doc.layout catalog s z nextId).labels.keys :=
  SlotTable.logged_ofValues _

/-- The log of the labels stays right, whatever happens. -/
theorem logged_act (h : l.Consistent) (hlog : l.labels.Logged log) (a : Action α) :
    (l.act catalog s rasterizer a).labels.Logged (l.logAct catalog s log a) := by
  unfold act logAct
  cases a with
  | command c =>
    dsimp only
    rcases labels_apply h c catalog s with ⟨hnew, hkeeps⟩ | ⟨hnew, label, hinsert⟩
    · rw [hnew, Option.toList_none, List.append_nil]
      exact hlog.keeps hkeeps
    · rw [hnew, hinsert]
      exact hlog.insert label
  | restore doc =>
    dsimp only
    split
    · rename_i hv
      rw [restore_eq l hv]
      dsimp only
      rw [keys_labels_rescaleTo]
      exact (logged_document doc catalog s _ _).keeps (keeps_labels_rescaleTo _ l.zoom)
    · rename_i hv
      rw [restore_of_ne l hv]
      exact hlog
  | clear => exact SlotTable.logged_empty
  | validate => exact hlog.keeps (keeps_labels_validate l rasterizer s)
  | check => exact hlog.keeps (keeps_labels_check l rasterizer s)
  | order =>
    dsimp only
    rw [exportWith_snd]
    exact hlog.keeps (keeps_labels_check l rasterizer s)

theorem logged_run (h : l.Consistent) (hlog : l.labels.Logged log) (actions : List (Action α)) :
    (l.run catalog s rasterizer actions).labels.Logged
      (l.attachLog catalog s rasterizer log actions) := by
  induction actions generalizing l log with
  | nil => exact hlog
  | cons a rest ih => exact ih (h.act catalog s rasterizer a) (logged_act h hlog a)

/-! ## Section 3: The label that is found -/

/-- After any run, a search for a label of a contour
    - ends without a result exactly if the contour has no label;
    - else ends at the label of the contour in the lowest slot;
    - ends at another one than the label that was attached earliest, of those of the contour that
      are there, exactly if some label of the contour was attached later than that one, but into a
      lower slot; this slot was taken before by a label that is older than both, and is gone;
    - ends at the label that was attached earliest as long as no label is gone. -/
theorem label_found_after_run (tray : Tray α) (catalog : Catalog α) (s : Settings α)
    (rasterizer : Rasterizer α) (actions : List (Action α)) (owner : Nat) :
    let l := (make tray).run catalog s rasterizer actions
    let log := (make tray).attachLog catalog s rasterizer [] actions
    (log.Nodup ∧ ∀ k ∈ l.labels.keys, k ∈ log) ∧
    (l.labelOf? owner = none ↔ ∀ k label, l.labels.get? k = some label → label.owner ≠ owner) ∧
    (∀ k label, l.labelOf? owner = some (k, label) ↔
      l.labels.get? k = some label ∧ label.owner = owner ∧
        ∀ k', l.ownsLabel owner k' → k.slot ≤ k'.slot) ∧
    (∀ earliest, log.find? (l.ownsLabel owner) = some earliest →
      ((l.labelOf? owner).map (·.1) ≠ some earliest ↔
        ∃ gone taken, l.ownsLabel owner taken ∧ gone ∉ l.labels.keys ∧ gone.slot = taken.slot ∧
          taken.slot < earliest.slot ∧ [gone, earliest, taken].Sublist log)) ∧
    ((∀ k ∈ log, k ∈ l.labels.keys) →
      (l.labelOf? owner).map (·.1) = log.find? (l.ownsLabel owner)) := by
  intro l log
  have hlog : l.labels.Logged log := logged_run (consistent_make tray) SlotTable.logged_empty actions
  let owned : Label α → Bool := fun label => label.owner == owner
  have howned : ∀ label, owned label ↔ label.owner = owner := fun label => beq_iff_eq
  refine ⟨⟨hlog.nodup, hlog.keys⟩, ?_, ?_, ?_, hlog.found_eq_first (p := owned)⟩
  · refine (SlotTable.find?_entries_eq_none (p := owned)).trans ?_
    simp only [howned, ne_eq]
  · intro k label
    refine (SlotTable.find?_entries_eq_some (p := owned)).trans ?_
    simp only [howned]
    refine and_congr_right fun _ => and_congr_right fun _ => ⟨?_, ?_⟩
    · intro hleast k' hk'
      obtain ⟨label', hlabel', ho⟩ := SlotTable.any_get?.mp hk'
      exact hleast k' label' hlabel' ((howned label').mp ho)
    · intro hleast k' label' hlabel' ho
      exact hleast k' (SlotTable.any_get?.mpr ⟨label', hlabel', (howned label').mpr ho⟩)
  · intro earliest hearliest
    exact hlog.found_ne_first_iff (p := owned) hearliest

/-- Two wrenches with a label each; the label of the first one is deleted, and the second one gets
    another label. -/
def relabelling : List (Action Single) :=
  [.command (.place "wrench" none), .command (.place "wrench" none),
    .command (.attachLabel 0 "10 mm" none), .command (.attachLabel 1 "12 mm" none),
    .command (.delete (.label ⟨1, 1⟩)), .command (.attachLabel 1 "13 mm" none)]

/-- The second wrench has two labels, and the one that was attached last is found. -/
theorem lateLabel_found_first :
    let l := (make (.default .standard)).run wrenchCatalog .standard (fun _ => none) relabelling
    let log := (make (.default .standard)).attachLog wrenchCatalog .standard (fun _ => none) []
      relabelling
    log = [⟨1, 1⟩, ⟨2, 1⟩, ⟨1, 3⟩] ∧ log.find? (l.ownsLabel 1) = some ⟨2, 1⟩ ∧
      (l.labelOf? 1).map (·.1) = some ⟨1, 3⟩ ∧
      (l.labels.get? ⟨2, 1⟩).map (·.text) = some "12 mm" ∧
      (l.labelOf? 1).map (·.2.text) = some "13 mm" := by
  decide +kernel

end FoamTray.Layout
