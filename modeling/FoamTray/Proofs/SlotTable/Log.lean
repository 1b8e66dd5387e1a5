import FoamTray.Proofs.SlotTable
import Mathlib.Data.List.Induction

/-! # The order in which values came in

    A slot table lists its values by their slots. The log of a table lists the keys that it gave
    out, the oldest first. The two orders part when a slot is taken a second time: the value that
    comes in late is then listed where the one before it was.

    * `Keeps` : a table as it may be later, nothing having come in.
    * `Logged` : a list of keys is the log of a table. A further value appends its key, everything
      else keeps the log.
    * `find?_entries_eq_some` : a search through the listed entries ends at the least slot.
    * `Logged.taken_again` : what the log tells of a value that came in late, but into a low slot.
    * `Logged.found_ne_first_iff` : when the value that is found is not the one that came in first.
-/

namespace FoamTray.SlotTable

variable {β : Type} {t t' : SlotTable β} {k k' earliest : Key} {v v' : β} {log : List Key}
  {p : β → Bool}

/-! ## Section 1: Tables that nothing comes into -/

/-- A table as it may be later, nothing having come in. -/
structure Keeps (t t' : SlotTable β) : Prop where
  valid : t.Valid → t'.Valid
  ages : t.Ages t'
  length_slots : t'.slots.length = t.slots.length
  keys : t'.keys ⊆ t.keys

theorem keeps_self (t : SlotTable β) : t.Keeps t where
  valid h := h
  ages := ages_self t
  length_slots := rfl
  keys := List.Subset.refl _

theorem Keeps.trans {t'' : SlotTable β} (h : t.Keeps t') (h' : t'.Keeps t'') : t.Keeps t'' where
  valid hv := h'.valid (h.valid hv)
  ages := h.ages.trans h'.ages
  length_slots := h'.length_slots.trans h.length_slots
  keys := List.Subset.trans h'.keys h.keys

theorem keeps_map (f : Key → β → β) (t : SlotTable β) : t.Keeps (t.map f) where
  valid h := h.map f
  ages := ages_map f t
  length_slots := length_slots_map f t
  keys := by
    rw [keys_map]
    exact List.Subset.refl _

theorem keeps_set (t : SlotTable β) (k : Key) (v : β) : t.Keeps (t.set k v) := by
  cases hk : t.get? k with
  | none =>
    have hset : t.set k v = t := by simp [set, hk]
    rw [hset]
    exact keeps_self t
  | some old =>
    rw [set_eq_map hk]
    exact keeps_map _ t

theorem keeps_erase (t : SlotTable β) (k : Key) : t.Keeps (t.erase k) where
  valid h := h.erase k
  ages := ages_erase t k
  length_slots := by
    cases hk : t.get? k with
    | none => simp [erase, hk]
    | some old => simp [erase_of_live hk]
  keys k' hk' := by
    obtain ⟨v, hv⟩ := mem_keys.mp hk'
    rw [get?_erase] at hv
    split at hv
    · cases hv
    · exact mem_keys.mpr ⟨v, hv⟩

theorem keeps_foldl_erase (ks : List Key) (t : SlotTable β) :
    t.Keeps (ks.foldl (fun t k => t.erase k) t) := by
  induction ks generalizing t with
  | nil => exact keeps_self t
  | cons k rest ih => exact (keeps_erase t k).trans (ih (t.erase k))

/-! ## Section 2: Logs -/

/-- A list of keys is the log of a table: what was given out so far, the oldest first. A slot is
    fresh only once, and fresh slots are taken in their order. -/
structure Logged (t : SlotTable β) (log : List Key) : Prop where
  valid : t.Valid
  /-- No key was given out twice. -/
  nodup : log.Nodup
  /-- What is there came in at some time. -/
  keys : t.keys ⊆ log
  used : ∀ k ∈ log, t.Used k
  /-- Every slot was fresh at some time. -/
  fresh : ∀ slot, 0 < slot → slot ≤ t.slots.length → ⟨slot, 1⟩ ∈ log
  /-- Whenever a slot was taken, all slots below it had been taken before. -/
  below : ∀ before k after, log = before ++ k :: after →
    ∀ slot, 0 < slot → slot < k.slot → ⟨slot, 1⟩ ∈ before

theorem logged_empty : (empty : SlotTable β).Logged [] where
  valid := valid_empty
  nodup := List.nodup_nil
  keys := List.Subset.refl _
  used k hk := absurd hk List.not_mem_nil
  fresh slot h0 hle := absurd (Nat.lt_of_lt_of_le h0 hle) (Nat.lt_irrefl 0)
  below before k after h := by simp at h

theorem Logged.keeps (h : t.Logged log) (hk : t.Keeps t') : t'.Logged log where
  valid := hk.valid h.valid
  nodup := h.nodup
  keys := List.Subset.trans hk.keys h.keys
  used k hmem := hk.ages.used (h.used k hmem)
  fresh slot h0 hle := h.fresh slot h0 (hk.length_slots ▸ hle)
  below := h.below

/-- The key that is announced was never given out: its slot is fresh, or has not come to its
    version. -/
theorem not_used_nextKey (t : SlotTable β) : ¬ t.Used t.nextKey := by
  rintro ⟨-, s, hs, hle⟩
  unfold nextKey at hs hle
  cases hf : t.free with
  | nil => simp [hf] at hs
  | cons place rest =>
    simp only [hf, Nat.add_sub_cancel] at hs hle
    simp only [versionAt, hs] at hle
    exact Nat.not_succ_le_self _ hle

/-- The slots below the one that is announced are no fresh ones. -/
theorem Valid.lt_slot_nextKey (h : t.Valid) {slot : Nat} (hlt : slot < t.nextKey.slot) :
    slot ≤ t.slots.length := by
  unfold SlotTable.nextKey at hlt
  cases hf : t.free with
  | nil =>
    rw [hf] at hlt
    exact Nat.le_of_lt_succ hlt
  | cons place rest =>
    rw [hf] at hlt
    obtain ⟨version, hslot⟩ := h.slot_of_free_cons hf
    have hplace : place < t.slots.length := (List.getElem?_eq_some_iff.mp hslot).1
    exact Nat.le_trans (Nat.le_of_lt_succ hlt) (Nat.le_of_lt hplace)

/-- A slot after a value came in was there before, or is the fresh one that the value took. -/
theorem slot_insert {slot : Nat} (hle : slot ≤ (t.insert v).slots.length) :
    slot ≤ t.slots.length ∨ t.nextKey = ⟨slot, 1⟩ := by
  unfold nextKey
  cases hf : t.free with
  | nil =>
    rw [insert_of_free_nil hf] at hle
    simp only [List.length_append, List.length_singleton] at hle
    rcases Nat.le_succ_iff.mp hle with hold | hnew
    · exact .inl hold
    · exact .inr (by simp [hnew])
  | cons place rest =>
    rw [insert_of_free_cons hf] at hle
    exact .inl (by simpa using hle)

/-- A further value appends its key to the log. -/
theorem Logged.insert (h : t.Logged log) (v : β) : (t.insert v).Logged (log ++ [t.nextKey]) where
  valid := h.valid.insert v
  nodup := by
    refine List.nodup_append.mpr ⟨h.nodup, List.nodup_singleton _, ?_⟩
    rintro k hk k' hk' rfl
    rw [List.mem_singleton.mp hk'] at hk
    exact t.not_used_nextKey (h.used _ hk)
  keys k hk := by
    obtain ⟨w, hw⟩ := mem_keys.mp hk
    rw [h.valid.get?_insert] at hw
    split at hw
    · rename_i hnew
      exact List.mem_append_right _ (List.mem_singleton.mpr hnew)
    · exact List.mem_append_left _ (h.keys (mem_keys.mpr ⟨w, hw⟩))
  used k hk := by
    rcases List.mem_append.mp hk with hold | hnew
    · exact (h.valid.ages_insert v).used (h.used k hold)
    · rw [List.mem_singleton.mp hnew]
      exact used_of_get? (h.valid.get?_insert_self v)
  fresh slot h0 hle := by
    rcases slot_insert hle with hold | hnew
    · exact List.mem_append_left _ (h.fresh slot h0 hold)
    · exact List.mem_append_right _ (List.mem_singleton.mpr hnew.symm)
  below before k after hlog slot h0 hlt := by
    -- the key is the new one, or the log was split there already
    rcases List.eq_nil_or_concat' after with rfl | ⟨between, last, rfl⟩
    · obtain ⟨rfl, hk⟩ := List.append_inj' hlog rfl
      rw [← List.singleton_inj.mp hk] at hlt
      exact h.fresh slot h0 (h.valid.lt_slot_nextKey hlt)
    · rw [← List.cons_append, ← List.append_assoc] at hlog
      exact h.below before k between (List.append_inj' hlog rfl).1 slot h0 hlt

/-- Without a free slot, a further value is listed last. -/
theorem keys_insert_of_free_nil (h : t.free = []) (v : β) :
    (t.insert v).keys = t.keys ++ [t.nextKey] := by
  rw [insert_of_free_nil h]
  simp [keys, entries, nextKey, h, List.zipIdx_append]

/-- Values that came in one after the other, nothing being erased, are listed as in the log. -/
theorem logged_ofValues (vs : List β) : (ofValues vs).Logged (ofValues vs).keys := by
  induction vs using List.reverseRecOn with
  | nil => exact logged_empty
  | append_singleton vs v ih =>
    rw [← insert_ofValues, keys_insert_of_free_nil rfl]
    exact ih.insert v

/-! ## Section 3: The first value of a kind -/

/-- One slot has one live key. -/
theorem eq_of_live_slot (h : t.get? k = some v) (h' : t.get? k' = some v')
    (hs : k'.slot = k.slot) : k' = k := by
  by_contra hne
  have h0' : k'.slot ≠ 0 := (get?_eq_some_iff.mp h').1
  have hdead := (get?_of_same_slot h hne h0' (by rw [hs])).2
  rw [hdead] at h'
  cases h'

/-- A search through the listed entries ends at the least slot with such a value. -/
theorem find?_entries_eq_some :
    t.entries.find? (fun e => p e.2) = some (k, v) ↔
      t.get? k = some v ∧ p v ∧ ∀ k' v', t.get? k' = some v' → p v' → k.slot ≤ k'.slot := by
  have hfound : ∀ {k v}, t.entries.find? (fun e => p e.2) = some (k, v) →
      t.get? k = some v ∧ p v ∧ ∀ k' v', t.get? k' = some v' → p v' → k.slot ≤ k'.slot := by
    intro k v h
    obtain ⟨hp, before, after, hentries, hbefore⟩ := List.find?_eq_some_iff_append.mp h
    have hmem : (k, v) ∈ t.entries := List.mem_of_find?_eq_some h
    refine ⟨mem_entries.mp hmem, hp, fun k' v' h' hp' => ?_⟩
    have hmem' := mem_entries.mpr h'
    have hsorted := t.pairwise_entries
    rw [hentries] at hmem' hsorted
    rcases List.mem_append.mp hmem' with hb | ha
    · simpa [hp'] using hbefore _ hb
    · rcases List.mem_cons.mp ha with heq | ha
      · exact Nat.le_of_eq (congrArg (fun e => e.1.slot) heq.symm)
      · exact Nat.le_of_lt ((List.pairwise_cons.mp (List.pairwise_append.mp hsorted).2.1).1 _ ha)
  refine ⟨hfound, ?_⟩
  rintro ⟨h, hp, hleast⟩
  cases hsearch : t.entries.find? (fun e => p e.2) with
  | none => exact absurd hp (List.find?_eq_none.mp hsearch (k, v) (mem_entries.mpr h))
  | some e =>
    obtain ⟨k', v'⟩ := e
    -- both are least, so they have one slot
    obtain ⟨h', hp', hleast'⟩ := hfound hsearch
    have hslot : k'.slot = k.slot := Nat.le_antisymm (hleast' k v h hp) (hleast k' v' h' hp')
    have hk : k' = k := eq_of_live_slot h h' hslot
    subst hk
    rw [h] at h'
    rw [Option.some.inj h']

theorem any_get? : (t.get? k).any p ↔ ∃ v, t.get? k = some v ∧ p v := by
  cases t.get? k <;> simp

/-- Both searches end without a result where no such value is there. -/
theorem find?_entries_eq_none :
    t.entries.find? (fun e => p e.2) = none ↔ ∀ k v, t.get? k = some v → ¬ p v := by
  rw [List.find?_eq_none]
  constructor
  · intro h k v hk
    exact h (k, v) (mem_entries.mpr hk)
  · rintro h ⟨k, v⟩ hmem
    exact h k v (mem_entries.mp hmem)

theorem Logged.find?_log_eq_none (h : t.Logged log) :
    log.find? (fun k => (t.get? k).any p) = none ↔ ∀ k v, t.get? k = some v → ¬ p v := by
  rw [List.find?_eq_none]
  constructor
  · intro hnone k v hk hp
    exact hnone k (h.keys (mem_keys.mpr ⟨v, hk⟩)) (by simp [hk, hp])
  · intro hnone k _ hany
    obtain ⟨v, hk, hp⟩ := any_get?.mp hany
    exact hnone k v hk hp

/-- A value that came in after another one and into a lower slot has the slot of a value that is
    older than both and is gone: the slot was fresh before the first of the two came in. -/
theorem Logged.taken_again (h : t.Logged log) {before after : List Key}
    (hlog : log = before ++ k :: after) (hlive : t.get? k' = some v) (hslot : k'.slot < k.slot)
    (hlate : k' ∉ before) :
    ⟨k'.slot, 1⟩ ∉ t.keys ∧ [⟨k'.slot, 1⟩, k, k'].Sublist log := by
  have hgone : ⟨k'.slot, 1⟩ ∈ before :=
    h.below before k after hlog k'.slot (Nat.pos_of_ne_zero (get?_eq_some_iff.mp hlive).1) hslot
  have hafter : k' ∈ after := by
    have hmem : k' ∈ log := h.keys (mem_keys.mpr ⟨v, hlive⟩)
    rw [hlog] at hmem
    refine (List.mem_cons.mp ((List.mem_append.mp hmem).resolve_left hlate)).resolve_left ?_
    rintro rfl
    exact Nat.lt_irrefl _ hslot
  constructor
  · intro hmem
    obtain ⟨w, hw⟩ := mem_keys.mp hmem
    -- one slot cannot hold the old value and the late one
    have hsame : (⟨k'.slot, 1⟩ : Key) = k' := eq_of_live_slot hlive hw rfl
    exact hlate (hsame ▸ hgone)
  · rw [hlog]
    exact (List.singleton_sublist.mpr hgone).append
      (.cons_cons k (List.singleton_sublist.mpr hafter))

/-- The value found in the least slot is another one than the one that came in first exactly if
    some value of the kind came in later than that one, into a lower slot. A value older than both
    had taken this slot before, and is gone. -/
theorem Logged.found_ne_first_iff (h : t.Logged log)
    (hfirst : log.find? (fun k => (t.get? k).any p) = some earliest) :
    (t.entries.find? fun e => p e.2).map (·.1) ≠ some earliest ↔
      ∃ gone taken, (t.get? taken).any p ∧ gone ∉ t.keys ∧ gone.slot = taken.slot ∧
        taken.slot < earliest.slot ∧ [gone, earliest, taken].Sublist log := by
  obtain ⟨hany, before, after, hlog, hbefore⟩ := List.find?_eq_some_iff_append.mp hfirst
  obtain ⟨v, hv, hpv⟩ := any_get?.mp hany
  constructor
  · intro hne
    cases hfound : t.entries.find? fun e => p e.2 with
    | none => exact absurd hpv (find?_entries_eq_none.mp hfound earliest v hv)
    | some e =>
      obtain ⟨taken, w⟩ := e
      rw [hfound] at hne
      obtain ⟨hw, hpw, hleast⟩ := find?_entries_eq_some.mp hfound
      have htaken : (t.get? taken).any p := any_get?.mpr ⟨w, hw, hpw⟩
      have hslot : taken.slot < earliest.slot := by
        refine Nat.lt_of_le_of_ne (hleast earliest v hv hpv) fun heq => ?_
        exact hne (congrArg some (eq_of_live_slot hv hw heq))
      -- nothing of the kind that is there came in before the first one
      have hlate : taken ∉ before := fun hmem => by simpa [htaken] using hbefore taken hmem
      obtain ⟨hgone, horder⟩ := h.taken_again hlog hw hslot hlate
      exact ⟨⟨taken.slot, 1⟩, taken, htaken, hgone, rfl, hslot, horder⟩
  · rintro ⟨gone, taken, htaken, -, -, hslot, -⟩ heq
    obtain ⟨w, hw, hpw⟩ := any_get?.mp htaken
    obtain ⟨⟨k, u⟩, hfound, rfl⟩ := Option.map_eq_some_iff.mp heq
    have hleast := (find?_entries_eq_some.mp hfound).2.2 taken w hw hpw
    exact Nat.not_le_of_lt hslot hleast

/-- As long as all that came in is there, the value found in the least slot is the one that came in
    first. -/
theorem Logged.found_eq_first (h : t.Logged log) (hall : ∀ k ∈ log, k ∈ t.keys) :
    (t.entries.find? fun e => p e.2).map (·.1) = log.find? fun k => (t.get? k).any p := by
  cases hfirst : log.find? fun k => (t.get? k).any p with
  | none =>
    rw [find?_entries_eq_none.mpr (h.find?_log_eq_none.mp hfirst)]
    rfl
  | some earliest =>
    by_contra hne
    obtain ⟨gone, taken, -, hgone, -, -, horder⟩ := (h.found_ne_first_iff hfirst).mp hne
    exact hgone (hall gone (horder.subset List.mem_cons_self))

end FoamTray.SlotTable
