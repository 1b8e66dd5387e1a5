import FoamTray.Proofs.Layout.History
import Mathlib.Data.List.Induction

/-! # When edits are saved

    The autosave remembers one time, that of the last edit that was not saved. What it does is
    told here from the history of the session instead:

    * `Action.editTime?`, `Action.settles` : the actions after which something waits to be saved,
      and those after which nothing does.
    * `WaitsSince` : the edit that waits after a history, told from the history alone.
    * `lastEdit_act`, `lastEdit_run` : one action, and with it a whole run, keeps the remembered
      time equal to this.
    * `autosave_follows_edits` : so the autosave fires for exactly these edits.
-/

namespace FoamTray.Session

variable {α : Type} [Coordinate α] {x : Session α} {t : Nat}

/-! ## Section 1: Edits that wait -/

/-- The time of an action that is an accepted edit of what is saved. -/
def Action.editTime? (x : Session α) : Action α → Option Nat
  | .submit c now =>
      match (x.submit c now).1 with
      | .ok outcome => if outcome.persist then some now else none
      | .error _ => none
  | _ => none

/-- Whether nothing waits to be saved after an action: it hands out a document to save, or a saved
    document takes the place of what was edited. -/
def Action.settles (x : Session α) : Action α → Bool
  | .poll now => (x.pollAutosave now).1.isSome
  | .save => true
  | .restore doc => (x.restore doc).1.isOk
  | _ => false

/-- An edit made at a time waits to be saved after a history: none of the actions that came later
    settled it, and none of them was such an edit itself. -/
def WaitsSince (rasterizer : Rasterizer α) (x : Session α) (actions : List (Action α))
    (t : Nat) : Prop :=
  ∃ before edit after, actions = before ++ edit :: after ∧
    edit.editTime? (x.run rasterizer before) = some t ∧
    ∀ earlier a later, after = earlier ++ a :: later →
      a.settles (x.run rasterizer (before ++ edit :: earlier)) = false ∧
      a.editTime? (x.run rasterizer (before ++ edit :: earlier)) = none

theorem not_waitsSince_nil (rasterizer : Rasterizer α) (x : Session α) (t : Nat) :
    ¬ WaitsSince rasterizer x [] t := by
  rintro ⟨before, edit, after, hsplit, -⟩
  cases before <;> cases hsplit

/-- What waits after one more action: that action if it is an edit, or else what waited before it
    if it does not settle that. -/
theorem waitsSince_concat {rasterizer : Rasterizer α} {actions : List (Action α)} {a : Action α} :
    WaitsSince rasterizer x (actions ++ [a]) t ↔
      a.editTime? (x.run rasterizer actions) = some t ∨
      a.settles (x.run rasterizer actions) = false ∧
        a.editTime? (x.run rasterizer actions) = none ∧ WaitsSince rasterizer x actions t := by
  constructor
  · rintro ⟨before, edit, after, hsplit, hedit, hafter⟩
    -- the edit that waits is the last action, or it waited before that
    rcases List.eq_nil_or_concat' after with rfl | ⟨after', b, rfl⟩
    · obtain ⟨rfl, hb⟩ := List.append_inj' hsplit rfl
      cases hb
      exact .inl hedit
    · rw [← List.cons_append, ← List.append_assoc] at hsplit
      obtain ⟨rfl, hb⟩ := List.append_inj' hsplit rfl
      cases hb
      obtain ⟨hsettles, hnone⟩ := hafter after' a [] rfl
      refine .inr ⟨hsettles, hnone, before, edit, after', rfl, hedit, ?_⟩
      rintro earlier b later rfl
      exact hafter earlier b (later ++ [a]) (by simp)
  · rintro (hedit | ⟨hsettles, hnone, before, edit, after, rfl, hedit, hafter⟩)
    · exact ⟨actions, a, [], rfl, hedit, fun earlier b later h => by cases earlier <;> cases h⟩
    · refine ⟨before, edit, after ++ [a], by simp, hedit, ?_⟩
      intro earlier b later hsplit
      rcases List.eq_nil_or_concat' later with rfl | ⟨later', c, rfl⟩
      · obtain ⟨rfl, hb⟩ := List.append_inj' hsplit rfl
        cases hb
        exact ⟨hsettles, hnone⟩
      · rw [← List.cons_append, ← List.append_assoc] at hsplit
        obtain ⟨rfl, -⟩ := List.append_inj' hsplit rfl
        exact hafter earlier b later' rfl

/-! ## Section 2: What the autosave remembers -/

/-- One action: settling forgets the time, an edit replaces it, and everything else keeps it. -/
theorem lastEdit_act (rasterizer : Rasterizer α) (x : Session α) (a : Action α) :
    (x.act rasterizer a).autosave.lastEdit =
      bif a.settles x then none else (a.editTime? x).or x.autosave.lastEdit := by
  cases a with
  | submit c now =>
    unfold act Action.settles Action.editTime? submit
    dsimp only
    split
    · rfl
    · dsimp only
      split <;> rfl
  | poll now =>
    unfold act Action.settles Action.editTime? pollAutosave
    dsimp only
    rw [Autosave.poll_snd]
    split <;> rfl
  | save => rfl
  | restore doc =>
    unfold act Action.settles Action.editTime? restore
    dsimp only
    cases x.layout.restore doc x.catalog x.settings with
    | mk result l => cases result <;> rfl
  | zoom steps coarse =>
    unfold act Action.settles Action.editTime? zoom
    dsimp only
    split <;> rfl
  | check => rfl
  | order => rfl

/-- No action changes the delay. -/
theorem delay_act (rasterizer : Rasterizer α) (x : Session α) (a : Action α) :
    (x.act rasterizer a).autosave.delay = x.autosave.delay := by
  cases a with
  | submit c now =>
    unfold act submit
    dsimp only
    split
    · rfl
    · dsimp only
      split <;> rfl
  | poll now =>
    unfold act pollAutosave
    dsimp only
    rw [Autosave.poll_snd]
    split <;> rfl
  | save => rfl
  | restore doc => unfold act restore; dsimp only; split <;> rfl
  | zoom steps coarse => unfold act zoom; dsimp only; split <;> rfl
  | check => rfl
  | order => rfl

theorem run_concat (rasterizer : Rasterizer α) (x : Session α) (actions : List (Action α))
    (a : Action α) :
    x.run rasterizer (actions ++ [a]) = (x.run rasterizer actions).act rasterizer a := by
  unfold run
  rw [List.foldl_append]
  rfl

theorem delay_run (rasterizer : Rasterizer α) (x : Session α) (actions : List (Action α)) :
    (x.run rasterizer actions).autosave.delay = x.autosave.delay := by
  induction actions using List.reverseRecOn with
  | nil => rfl
  | append_singleton actions a ih => rw [run_concat, delay_act, ih]

/-- An action that is an edit does not settle anything. -/
theorem Action.settles_of_edit {a : Action α} (h : a.editTime? x = some t) :
    a.settles x = false := by
  cases a with
  | submit c now => rfl
  | _ => cases h

/-- A run: the remembered time is that of the edit that waits. -/
theorem lastEdit_run (rasterizer : Rasterizer α) {x : Session α}
    (hnew : x.autosave.lastEdit = none) (actions : List (Action α)) (t : Nat) :
    (x.run rasterizer actions).autosave.lastEdit = some t ↔ WaitsSince rasterizer x actions t := by
  induction actions using List.reverseRecOn with
  | nil =>
    show x.autosave.lastEdit = some t ↔ _
    rw [hnew]
    exact iff_of_false nofun (not_waitsSince_nil rasterizer x t)
  | append_singleton actions a ih =>
    rw [waitsSince_concat, run_concat, lastEdit_act]
    cases hedit : a.editTime? (x.run rasterizer actions) with
    | some t' => simp [Action.settles_of_edit hedit]
    | none =>
      cases hsettles : a.settles (x.run rasterizer actions) with
      | true => simp
      | false => simpa using ih

/-! ## Section 3: When the autosave fires -/

/-- An edit that waits is due after the delay; a clock that goes back shows no time passing. -/
theorem isDue_iff (a : Autosave) (now : Nat) :
    a.isDue now = true ↔ ∃ t, a.lastEdit = some t ∧ a.delay ≤ now - t := by
  unfold Autosave.isDue
  cases a.lastEdit <;> simp

/-- A poll hands out the layout as it is saved, if an edit is due. -/
theorem pollAutosave_eq_some_iff (x : Session α) (now : Nat) (doc : Workspace α) :
    (x.pollAutosave now).1 = some doc ↔ x.autosave.isDue now = true ∧ doc = x.layout.save := by
  unfold pollAutosave Autosave.poll
  dsimp only
  cases x.autosave.isDue now <;> simp [eq_comm]

/-- In a session from its beginning on, whatever happens in it and whatever the clock shows: an
    edit is unsaved if it is an accepted edit of what is saved, and neither a poll that fires nor a
    saving nor an accepted restoration came after it. A poll hands out a document exactly if the
    last such edit was made long enough ago, and the document is the layout as it is now. All
    other actions change neither whether something is unsaved nor when it will be handed out. -/
theorem autosave_follows_edits (catalog : Catalog α) (s : Settings α) (rasterizer : Rasterizer α)
    (actions : List (Action α)) :
    let start := make catalog s
    let x := start.run rasterizer actions
    (x.hasUnsavedChanges = true ↔ ∃ t, WaitsSince rasterizer start actions t) ∧
    (∀ now doc, (x.pollAutosave now).1 = some doc ↔
      (∃ t, WaitsSince rasterizer start actions t ∧ s.autosaveDelay ≤ now - t) ∧
        doc = x.layout.save) ∧
    (∀ a : Action α, a.editTime? x = none → a.settles x = false →
      (x.act rasterizer a).hasUnsavedChanges = x.hasUnsavedChanges ∧
        ∀ now, ((x.act rasterizer a).pollAutosave now).1.isSome =
          (x.pollAutosave now).1.isSome) := by
  intro start x
  have hlast : ∀ t, x.autosave.lastEdit = some t ↔ WaitsSince rasterizer start actions t :=
    lastEdit_run rasterizer rfl actions
  have hdelay : x.autosave.delay = s.autosaveDelay := delay_run rasterizer start actions
  refine ⟨?_, ?_, ?_⟩
  · show x.autosave.lastEdit.isSome = true ↔ _
    rw [Option.isSome_iff_exists]
    exact exists_congr hlast
  · intro now doc
    rw [pollAutosave_eq_some_iff, isDue_iff, hdelay]
    simp only [hlast]
  · intro a hedit hsettles
    have hsame : (x.act rasterizer a).autosave = x.autosave := by
      have htime := lastEdit_act rasterizer x a
      rw [hsettles, hedit] at htime
      exact congrArg₂ Autosave.mk (delay_act rasterizer x a) htime
    unfold hasUnsavedChanges
    rw [hsame]
    refine ⟨rfl, fun now => ?_⟩
    unfold pollAutosave
    rw [hsame]
    dsimp only
    split <;> rfl

/-- A wrench is placed, and later there is a zoom and a command that is refused. -/
def placedWrench : List (Action Single) :=
  [.submit (.place "wrench" none) 5, .zoom 3 false, .submit (.delete (.contour 7)) 90]

/-- Only the placing waits, for the standard delay of 400: a clock that went back shows nothing,
    and the zoom and the refusal do not make it wait longer. The document has the wrench. -/
theorem autosave_follows_edits_placedWrench :
    let x := (make Layout.wrenchCatalog .standard).run (fun _ => none) placedWrench
    x.hasUnsavedChanges = true ∧ (x.pollAutosave 3).1 = none ∧
      (x.pollAutosave 405).1 = some x.layout.save ∧
      x.layout.save.contours.map (fun c => (c.placementId, c.itemId)) = [(0, "wrench")] ∧
      (x.act (fun _ => none) .check).hasUnsavedChanges = true := by
  intro x
  let start := make Layout.wrenchCatalog (.standard : Settings Single)
  obtain ⟨hunsaved, hpoll, hother⟩ :=
    autosave_follows_edits Layout.wrenchCatalog .standard (fun _ => none) placedWrench
  have hplaced : WaitsSince (fun _ => none) start [.submit (.place "wrench" none) 5] 5 :=
    ⟨[], _, [], rfl, by decide +kernel, fun earlier b later h => by cases earlier <;> cases h⟩
  have hzoomed : WaitsSince (fun _ => none) start
      ([.submit (.place "wrench" none) 5] ++ [.zoom 3 false]) 5 :=
    waitsSince_concat.mpr (.inr ⟨rfl, rfl, hplaced⟩)
  have hwaits : WaitsSince (fun _ => none) start placedWrench 5 :=
    waitsSince_concat.mpr (.inr ⟨rfl, by decide +kernel, hzoomed⟩)
  refine ⟨hunsaved.mpr ⟨5, hwaits⟩, by decide +kernel, ?_, by decide +kernel, ?_⟩
  · exact (hpoll 405 _).mpr ⟨⟨5, hwaits, by decide⟩, rfl⟩
  · rw [(hother .check rfl rfl).1]
    exact hunsaved.mpr ⟨5, hwaits⟩

end FoamTray.Session
