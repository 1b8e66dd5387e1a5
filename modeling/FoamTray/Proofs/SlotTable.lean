import FoamTray.SlotTable
import Mathlib.Data.List.Nodup

/-! # Look-ups in slot tables

    What each operation of a slot table does to the value under a key, and to the values in the
    order of their slots.

    * `get?_set`, `get?_erase`, `get?_map`, `get?_insert` : one look-up law for each operation.
    * `mem_entries`, `eq_entries` : the listed entries are exactly the live keys with their values,
      and the listing is told by the look-ups.
    * `map_insert`, `map_set`, `map_erase` : a map goes past every operation.
    * `Valid` : the free list names the slots without a value, each once. Every operation keeps
      it, and a further value comes in under a key that was dead before.
    * `ofValues` : the table of values that came in one after the other, nothing being erased.
    * `Ages` : a table as it may be later. Keys that were handed out and are dead stay dead.
-/

namespace FoamTray.SlotTable

variable {β : Type} {t : SlotTable β} {k k' : Key} {v old : β}

/-! ## Section 1: Keys and slots -/

/-- A key is live if it names a slot in use at the version of the slot. -/
theorem get?_eq_some_iff :
    t.get? k = some v ↔ k.slot ≠ 0 ∧ t.slots[k.slot - 1]? = some ⟨k.version, some v⟩ := by
  unfold get?
  by_cases h0 : k.slot = 0
  · simp [h0]
  · rw [if_neg h0]
    cases hs : t.slots[k.slot - 1]? with
    | none => simp
    | some s =>
      obtain ⟨version, value⟩ := s
      by_cases hv : version = k.version
      · simp [hv, h0]
      · simp [hv]

/-- A look-up reads one slot. -/
theorem get?_congr {t' : SlotTable β} (h : t'.slots[k.slot - 1]? = t.slots[k.slot - 1]?) :
    t'.get? k = t.get? k := by
  unfold get?
  rw [h]

/-- A key of another version than its slot is dead. -/
theorem get?_eq_none_of_version {s : Slot β} (hs : t.slots[k.slot - 1]? = some s)
    (hv : s.version ≠ k.version) : t.get? k = none := by
  unfold get?
  split
  · rfl
  · simp [hs, hv]

theorem get?_eq_none_of_slot (h0 : k.slot = 0) : t.get? k = none := by
  simp [get?, h0]

/-- A key of a free slot is dead. -/
theorem get?_eq_none_of_free {version : Nat} (hs : t.slots[k.slot - 1]? = some ⟨version, none⟩) :
    t.get? k = none := by
  unfold get?
  split
  · rfl
  · simp [hs]

/-- Keys of one slot at one version are one key. -/
theorem eq_of_slot (h0 : k.slot ≠ 0) (h0' : k'.slot ≠ 0) (hs : k'.slot - 1 = k.slot - 1)
    (hv : k'.version = k.version) : k' = k := by
  obtain ⟨slot, version⟩ := k
  obtain ⟨slot', version'⟩ := k'
  simp only [ne_eq, Key.mk.injEq] at h0 h0' hs hv ⊢
  exact ⟨by omega, hv⟩

/-- Another key of a slot in use is dead. -/
theorem get?_of_same_slot (h : t.get? k = some old) (hk : k' ≠ k) (h0' : k'.slot ≠ 0)
    (hs : k'.slot - 1 = k.slot - 1) : k.version ≠ k'.version ∧ t.get? k' = none := by
  obtain ⟨h0, hslot⟩ := get?_eq_some_iff.mp h
  have hv : k.version ≠ k'.version := fun hv => hk (eq_of_slot h0 h0' hs hv.symm)
  exact ⟨hv, get?_eq_none_of_version (hs ▸ hslot) hv⟩

theorem set_of_live (h : t.get? k = some old) (v : β) :
    t.set k v = ⟨t.slots.set (k.slot - 1) ⟨k.version, some v⟩, t.free⟩ := by
  simp [set, h]

theorem erase_of_live (h : t.get? k = some old) :
    t.erase k = ⟨t.slots.set (k.slot - 1) ⟨k.version + 1, none⟩, (k.slot - 1) :: t.free⟩ := by
  simp [erase, h]

theorem insert_of_free_nil (h : t.free = []) (v : β) :
    t.insert v = ⟨t.slots ++ [⟨1, some v⟩], []⟩ := by
  simp [insert, h]

theorem insert_of_free_cons {place : Nat} {rest : List Nat} (h : t.free = place :: rest) (v : β) :
    t.insert v = ⟨t.slots.set place ⟨t.versionAt place + 1, some v⟩, rest⟩ := by
  simp [insert, h]

/-- The listed entries are the live keys with their values. -/
theorem mem_entries : (k, v) ∈ t.entries ↔ t.get? k = some v := by
  rw [get?_eq_some_iff]
  unfold entries
  constructor
  · intro h
    obtain ⟨⟨s, place⟩, hs, he⟩ := List.mem_filterMap.mp h
    obtain ⟨w, hw, hk⟩ := Option.map_eq_some_iff.mp he
    obtain ⟨rfl, rfl⟩ := Prod.mk.inj hk
    have hplace : t.slots[place]? = some s := List.mem_zipIdx_iff_getElem?.mp hs
    refine ⟨Nat.succ_ne_zero place, ?_⟩
    show t.slots[place + 1 - 1]? = some ⟨s.version, some w⟩
    rw [Nat.add_sub_cancel, hplace, ← hw]
  · rintro ⟨h0, hs⟩
    refine List.mem_filterMap.mpr ⟨(⟨k.version, some v⟩, k.slot - 1), ?_, ?_⟩
    · exact List.mem_zipIdx_iff_getElem?.mpr hs
    · have hk : (⟨k.slot - 1 + 1, k.version⟩ : Key) = k := by
        rw [Nat.sub_add_cancel (Nat.pos_of_ne_zero h0)]
      simp [hk]

/-- The values are those of the slots in use. -/
theorem values_eq (t : SlotTable β) : t.values = t.slots.filterMap (·.value) := by
  have h : t.values =
      (t.slots.zipIdx.map Prod.fst).filterMap (fun s : Slot β => s.value) := by
    simp only [values, entries, List.map_filterMap, List.filterMap_map]
    congr 1
    funext ⟨s, place⟩
    cases h : s.value <;> simp [h]
  rw [h, List.zipIdx_map_fst]

theorem mem_values : v ∈ t.values ↔ ∃ k, t.get? k = some v := by
  simp only [values, List.mem_map, Prod.exists]
  constructor
  · rintro ⟨k, w, h, rfl⟩
    exact ⟨k, mem_entries.mp h⟩
  · rintro ⟨k, h⟩
    exact ⟨k, v, mem_entries.mpr h, rfl⟩

theorem mem_keys : k ∈ t.keys ↔ ∃ v, t.get? k = some v := by
  simp only [keys, List.mem_map, Prod.exists]
  constructor
  · rintro ⟨k, v, h, rfl⟩
    exact ⟨v, mem_entries.mp h⟩
  · rintro ⟨v, h⟩
    exact ⟨k, v, mem_entries.mpr h, rfl⟩

/-- A table in which one look-up may be answered otherwise has that answer, and values of the other
    table. -/
theorem mem_values_of_get? {t' : SlotTable β} {answer : Option β}
    (h : ∀ k', t'.get? k' = if k' = k then answer else t.get? k') (hv : v ∈ t'.values) :
    answer = some v ∨ v ∈ t.values := by
  obtain ⟨k', hk'⟩ := mem_values.mp hv
  rw [h] at hk'
  split at hk'
  · exact .inl hk'
  · exact .inr (mem_values.mpr ⟨k', hk'⟩)

/-- The entries are listed by ascending slots, one for each slot in use. -/
theorem pairwise_entries (t : SlotTable β) :
    t.entries.Pairwise fun e e' => e.1.slot < e'.1.slot := by
  unfold entries
  rw [List.pairwise_filterMap]
  have hplaces : t.slots.zipIdx.Pairwise (fun a b => a.2 < b.2) := by
    rw [← List.pairwise_map, List.zipIdx_map_snd]
    exact List.pairwise_lt_range'
  refine hplaces.imp ?_
  rintro ⟨s, place⟩ ⟨s', place'⟩ hlt e he e' he'
  obtain ⟨w, -, rfl⟩ := Option.map_eq_some_iff.mp he
  obtain ⟨w', -, rfl⟩ := Option.map_eq_some_iff.mp he'
  exact Nat.succ_lt_succ hlt

/-- No two entries have one key. -/
theorem nodup_keys (t : SlotTable β) : t.keys.Nodup := by
  unfold keys
  rw [List.Nodup, List.pairwise_map]
  exact t.pairwise_entries.imp fun hlt hkey => Nat.ne_of_lt hlt (congrArg Key.slot hkey)

/-- A list of the live keys with their values by ascending slots is the listing: which values a
    table lists, and in which order, is told by its look-ups. -/
theorem eq_entries {es : List (Key × β)} (hsorted : es.Pairwise fun e e' => e.1.slot < e'.1.slot)
    (hmem : ∀ k v, (k, v) ∈ es ↔ t.get? k = some v) : es = t.entries := by
  have hnodup : ∀ {es : List (Key × β)}, (es.Pairwise fun e e' => e.1.slot < e'.1.slot) →
      es.Nodup := by
    intro es h
    refine h.imp ?_
    rintro e e' hlt rfl
    exact Nat.lt_irrefl _ hlt
  have hperm : es.Perm t.entries := by
    rw [List.perm_ext_iff_of_nodup (hnodup hsorted) (hnodup t.pairwise_entries)]
    rintro ⟨k, v⟩
    rw [hmem, mem_entries]
  refine hperm.eq_of_pairwise ?_ hsorted t.pairwise_entries
  intro e e' _ _ hlt hlt'
  exact absurd hlt' (Nat.lt_asymm hlt)

/-! ## Section 2: One look-up law for each operation -/

/-- A replaced value is found under its key, and no other key is touched. -/
theorem get?_set (h : t.get? k = some old) (v : β) (k' : Key) :
    (t.set k v).get? k' = if k' = k then some v else t.get? k' := by
  by_cases hk : k' = k
  · subst hk
    rw [if_pos rfl, get?_set_self h]
  rw [if_neg hk]
  obtain ⟨-, hslot⟩ := get?_eq_some_iff.mp h
  by_cases h0' : k'.slot = 0
  · rw [get?_eq_none_of_slot h0', get?_eq_none_of_slot h0']
  by_cases hs : k'.slot - 1 = k.slot - 1
  -- one slot: its version stays that of `k`, so `k'` is dead before and after
  · obtain ⟨hv, hdead⟩ := get?_of_same_slot h hk h0' hs
    have hlen : k.slot - 1 < t.slots.length := (List.getElem?_eq_some_iff.mp hslot).1
    rw [hdead, set_of_live h]
    refine get?_eq_none_of_version (s := ⟨k.version, some v⟩) ?_ hv
    rw [hs, List.getElem?_set_self hlen]
  · rw [set_of_live h]
    exact get?_congr (List.getElem?_set_ne (fun e => hs e.symm))

/-- An erased key is dead, and no other key is touched. -/
theorem get?_erase (t : SlotTable β) (k k' : Key) :
    (t.erase k).get? k' = if k' = k then none else t.get? k' := by
  by_cases hk : k' = k
  · subst hk
    rw [if_pos rfl, get?_erase_self]
  rw [if_neg hk]
  cases h : t.get? k with
  | none => simp [erase, h]
  | some old =>
    obtain ⟨-, hslot⟩ := get?_eq_some_iff.mp h
    by_cases h0' : k'.slot = 0
    · rw [get?_eq_none_of_slot h0', get?_eq_none_of_slot h0']
    by_cases hs : k'.slot - 1 = k.slot - 1
    -- one slot: it is free afterwards, whatever version a key names
    · obtain ⟨-, hdead⟩ := get?_of_same_slot h hk h0' hs
      have hlen : k.slot - 1 < t.slots.length := (List.getElem?_eq_some_iff.mp hslot).1
      rw [hdead, erase_of_live h]
      have hfree : (t.slots.set (k.slot - 1) ⟨k.version + 1, none⟩)[k'.slot - 1]? =
          some ⟨k.version + 1, none⟩ := by
        rw [hs, List.getElem?_set_self hlen]
      exact get?_eq_none_of_free hfree
    · rw [erase_of_live h]
      exact get?_congr (List.getElem?_set_ne (fun e => hs e.symm))

/-- Erasing several keys kills exactly these. -/
theorem get?_foldl_erase (ks : List Key) (t : SlotTable β) (k' : Key) :
    (ks.foldl (fun t k => t.erase k) t).get? k' = if k' ∈ ks then none else t.get? k' := by
  induction ks generalizing t with
  | nil => simp
  | cons k rest ih =>
    rw [List.foldl_cons, ih, get?_erase]
    by_cases hk : k' = k
    · simp [hk]
    · simp [hk]

/-- What is erased is no longer listed, and everything else is listed as before. -/
theorem entries_foldl_erase (ks : List Key) (t : SlotTable β) :
    (ks.foldl (fun t k => t.erase k) t).entries = t.entries.filter (·.1 ∉ ks) := by
  refine (eq_entries (t.pairwise_entries.filter _) fun k v => ?_).symm
  rw [List.mem_filter, mem_entries, get?_foldl_erase]
  by_cases hk : k ∈ ks <;> simp [hk]

theorem entries_erase (t : SlotTable β) (k : Key) :
    (t.erase k).entries = t.entries.filter (·.1 ≠ k) := by
  have h := entries_foldl_erase [k] t
  simpa only [List.foldl_cons, List.foldl_nil, List.mem_singleton] using h

@[simp] theorem get?_map (f : Key → β → β) (t : SlotTable β) (k : Key) :
    (t.map f).get? k = (t.get? k).map (f k) := by
  by_cases h0 : k.slot = 0
  · simp [get?, h0]
  · have hk : k.slot - 1 + 1 = k.slot := Nat.sub_add_cancel (Nat.pos_of_ne_zero h0)
    unfold get? map
    rw [if_neg h0, if_neg h0, List.getElem?_mapIdx]
    cases hs : t.slots[k.slot - 1]? with
    | none => rfl
    | some s =>
      by_cases hv : s.version = k.version
      · simp [hv, hk]
      · simp [hv]

/-! ## Section 3: Maps over a table -/

/-- Maps are told apart by what they do to live entries only. -/
theorem map_congr {f g : Key → β → β} (h : ∀ k v, t.get? k = some v → f k v = g k v) :
    t.map f = t.map g := by
  unfold map
  congr 1
  refine List.ext_getElem? fun place => ?_
  rw [List.getElem?_mapIdx, List.getElem?_mapIdx]
  cases hs : t.slots[place]? with
  | none => rfl
  | some s =>
    obtain ⟨version, value⟩ := s
    cases value with
    | none => rfl
    | some v =>
      have hv := h ⟨place + 1, version⟩ v (get?_eq_some_iff.mpr ⟨Nat.succ_ne_zero place, hs⟩)
      simp [hv]

@[simp] theorem map_id' (t : SlotTable β) : t.map (fun _ v => v) = t := by
  unfold map
  congr 1
  refine List.ext_getElem? fun place => ?_
  rw [List.getElem?_mapIdx]
  cases t.slots[place]? <;> simp

theorem map_id_of_forall {f : Key → β → β} (h : ∀ k v, t.get? k = some v → f k v = v) :
    t.map f = t := by
  rw [map_congr h, map_id']

@[simp] theorem map_map (f g : Key → β → β) (t : SlotTable β) :
    (t.map f).map g = t.map fun k v => g k (f k v) := by
  unfold map
  congr 1
  rw [List.mapIdx_mapIdx]
  congr 1
  funext place s
  cases h : s.value <;> simp [h]

/-- Replacing one value is a map that changes nothing else. -/
theorem set_eq_map (h : t.get? k = some old) (v : β) :
    t.set k v = t.map fun k' w => if k' = k then v else w := by
  obtain ⟨h0, hslot⟩ := get?_eq_some_iff.mp h
  rw [set_of_live h]
  unfold map
  congr 1
  refine List.ext_getElem? fun place => ?_
  rw [List.getElem?_mapIdx]
  -- only the slot of the key changes, and there only one version is live
  by_cases hp : k.slot - 1 = place
  · have hk : (⟨place + 1, k.version⟩ : Key) = k := by
      rw [← hp, Nat.sub_add_cancel (Nat.pos_of_ne_zero h0)]
    subst hp
    rw [List.getElem?_set_self (List.getElem?_eq_some_iff.mp hslot).1, hslot, Option.map_some]
    simp [hk]
  · rw [List.getElem?_set_ne hp]
    cases hs : t.slots[place]? with
    | none => rfl
    | some s =>
      have hk : (⟨place + 1, s.version⟩ : Key) ≠ k := by
        rintro rfl
        exact hp (by simp)
      cases s with
      | mk version value => cases value <;> simp_all

/-- Putting a value back where it was changes nothing. -/
theorem set_self (h : t.get? k = some v) : t.set k v = t := by
  rw [set_eq_map h]
  refine map_id_of_forall fun k' w hw => ?_
  by_cases hk : k' = k
  · subst hk
    rw [h] at hw
    simp [Option.some.inj hw]
  · simp [hk]

theorem entries_map (f : Key → β → β) (t : SlotTable β) :
    (t.map f).entries = t.entries.map fun e => (e.1, f e.1 e.2) := by
  unfold entries map
  rw [List.mapIdx_eq_zipIdx_map, List.zipIdx_map, List.map_filterMap, List.filterMap_map]
  -- the map knows the place of a slot already, and the listing numbers the slots again
  have hidx : t.slots.zipIdx.zipIdx = t.slots.zipIdx.map fun p => (p, p.2) := by
    refine List.ext_getElem? fun place => ?_
    simp only [List.getElem?_zipIdx, List.getElem?_map]
    cases t.slots[place]? <;> simp
  rw [hidx, List.filterMap_map]
  congr 1
  funext ⟨s, place⟩
  cases h : s.value <;> simp [h]

@[simp] theorem keys_map (f : Key → β → β) (t : SlotTable β) : (t.map f).keys = t.keys := by
  unfold keys
  rw [entries_map, List.map_map]
  rfl

/-- A map that is blind to keys maps the values. -/
theorem values_map (f : β → β) (t : SlotTable β) :
    (t.map fun _ v => f v).values = t.values.map f := by
  unfold values
  rw [entries_map, List.map_map, List.map_map]
  rfl

@[simp] theorem free_map (f : Key → β → β) (t : SlotTable β) : (t.map f).free = t.free := rfl

theorem length_slots_map (f : Key → β → β) (t : SlotTable β) :
    (t.map f).slots.length = t.slots.length := List.length_mapIdx

theorem versionAt_map (f : Key → β → β) (t : SlotTable β) (place : Nat) :
    (t.map f).versionAt place = t.versionAt place := by
  unfold versionAt map
  rw [List.getElem?_mapIdx]
  cases t.slots[place]? <;> rfl

/-- A map leaves the keys alone, so the next one is announced as before. -/
@[simp] theorem nextKey_map (f : Key → β → β) (t : SlotTable β) :
    (t.map f).nextKey = t.nextKey := by
  unfold nextKey
  rw [free_map]
  cases t.free with
  | nil => simp only [length_slots_map]
  | cons place rest => simp only [versionAt_map]

/-- Mapping after a value came in is mapping before, the value being mapped under its new key. -/
theorem map_insert (f : Key → β → β) (t : SlotTable β) (v : β) :
    (t.insert v).map f = (t.map f).insert (f t.nextKey v) := by
  cases hf : t.free with
  | nil =>
    rw [insert_of_free_nil hf, insert_of_free_nil (t := t.map f) hf]
    simp [map, nextKey, hf, List.mapIdx_append]
  | cons place rest =>
    rw [insert_of_free_cons hf, insert_of_free_cons (t := t.map f) hf, versionAt_map]
    simp [map, nextKey, hf, List.mapIdx_set]

theorem map_set (f : Key → β → β) (t : SlotTable β) (k : Key) (v : β) :
    (t.set k v).map f = (t.map f).set k (f k v) := by
  cases hk : t.get? k with
  | none => simp [set, hk]
  | some old =>
    have hk' : (t.map f).get? k = some (f k old) := by rw [get?_map, hk]; rfl
    obtain ⟨h0, -⟩ := get?_eq_some_iff.mp hk
    rw [set_of_live hk, set_of_live hk']
    simp [map, List.mapIdx_set, Nat.sub_add_cancel (Nat.pos_of_ne_zero h0)]

theorem map_erase (f : Key → β → β) (t : SlotTable β) (k : Key) :
    (t.erase k).map f = (t.map f).erase k := by
  cases hk : t.get? k with
  | none => simp [erase, hk]
  | some old =>
    have hk' : (t.map f).get? k = some (f k old) := by rw [get?_map, hk]; rfl
    rw [erase_of_live hk, erase_of_live hk']
    simp [map, List.mapIdx_set]

theorem map_foldl_erase (f : Key → β → β) (ks : List Key) (t : SlotTable β) :
    (ks.foldl (fun t k => t.erase k) t).map f = ks.foldl (fun t k => t.erase k) (t.map f) := by
  induction ks generalizing t with
  | nil => rfl
  | cons k rest ih => rw [List.foldl_cons, List.foldl_cons, ih, map_erase]

/-! ## Section 4: Free slots -/

/-- The free list names the slots without a value, each once. -/
structure Valid (t : SlotTable β) : Prop where
  /-- No slot is free twice. -/
  nodup_free : t.free.Nodup
  /-- The free slots are those without a value. -/
  mem_free : ∀ place, place ∈ t.free ↔ ∃ version, t.slots[place]? = some ⟨version, none⟩

theorem valid_empty : (empty : SlotTable β).Valid := by
  refine ⟨List.nodup_nil, fun place => ?_⟩
  simp [empty]

theorem Valid.map (h : t.Valid) (f : Key → β → β) : (t.map f).Valid := by
  refine ⟨h.nodup_free, fun place => ?_⟩
  rw [free_map, h.mem_free]
  unfold SlotTable.map
  simp only [List.getElem?_mapIdx]
  cases t.slots[place]? with
  | none => simp
  | some s =>
    obtain ⟨version, value⟩ := s
    cases value <;> simp

/-- There is a first free slot, and it has no value. -/
theorem Valid.slot_of_free_cons {place : Nat} {rest : List Nat} (h : t.Valid)
    (hf : t.free = place :: rest) : ∃ version, t.slots[place]? = some ⟨version, none⟩ := by
  refine (h.mem_free place).mp ?_
  rw [hf]
  exact List.mem_cons_self

theorem Valid.set (h : t.Valid) (k : Key) (v : β) : (t.set k v).Valid := by
  cases hk : t.get? k with
  | none =>
    have hset : t.set k v = t := by
      unfold SlotTable.set
      rw [hk]
    rw [hset]
    exact h
  | some old =>
    rw [set_eq_map hk]
    exact h.map _

theorem Valid.erase (h : t.Valid) (k : Key) : (t.erase k).Valid := by
  unfold SlotTable.erase
  cases hk : t.get? k with
  | none => exact h
  | some old =>
    obtain ⟨-, hslot⟩ := get?_eq_some_iff.mp hk
    have hlen : k.slot - 1 < t.slots.length := (List.getElem?_eq_some_iff.mp hslot).1
    have hused : k.slot - 1 ∉ t.free := by
      rw [h.mem_free, hslot]
      simp
    -- the slot was in use, so it is free once now
    refine ⟨List.nodup_cons.mpr ⟨hused, h.nodup_free⟩, fun place => ?_⟩
    by_cases hp : k.slot - 1 = place
    · subst hp
      simp [hlen]
    · have hp' : place ≠ k.slot - 1 := fun e => hp e.symm
      simp only [List.mem_cons, hp', false_or, List.getElem?_set_ne hp]
      exact h.mem_free place

theorem Valid.foldl_erase (h : t.Valid) (ks : List Key) :
    (ks.foldl (fun t k => t.erase k) t).Valid := by
  induction ks generalizing t with
  | nil => exact h
  | cons k rest ih => exact ih (h.erase k)

theorem Valid.insert (h : t.Valid) (v : β) : (t.insert v).Valid := by
  cases hf : t.free with
  | nil =>
    rw [insert_of_free_nil hf]
    refine ⟨List.nodup_nil, fun place => ?_⟩
    have hnone := h.mem_free place
    rw [hf] at hnone
    show place ∈ [] ↔ ∃ version, (t.slots ++ [⟨1, some v⟩])[place]? = some ⟨version, none⟩
    rw [List.getElem?_append]
    split
    · exact hnone
    · simp [List.getElem?_singleton]
  | cons place rest =>
    rw [insert_of_free_cons hf]
    have hnd := h.nodup_free
    rw [hf] at hnd
    obtain ⟨version, hslot⟩ := h.slot_of_free_cons hf
    have hlen : place < t.slots.length := (List.getElem?_eq_some_iff.mp hslot).1
    refine ⟨(List.nodup_cons.mp hnd).2, fun other => ?_⟩
    by_cases hp : place = other
    · subst hp
      simp [hlen, (List.nodup_cons.mp hnd).1]
    · have hother := h.mem_free other
      have hp' : other ≠ place := fun e => hp e.symm
      rw [hf, List.mem_cons] at hother
      simp only [hp', false_or] at hother
      rw [List.getElem?_set_ne hp]
      exact hother

/-- The slot that the announced key names will be free or fresh until the value comes in. -/
theorem Valid.get?_nextKey (h : t.Valid) : t.get? t.nextKey = none := by
  unfold SlotTable.nextKey
  cases hf : t.free with
  | nil => simp [SlotTable.get?]
  | cons place rest =>
    obtain ⟨version, hfree⟩ := h.slot_of_free_cons hf
    exact get?_eq_none_of_free hfree

/-- A further value is found under the key that was announced for it. -/
theorem Valid.get?_insert_self (h : t.Valid) (v : β) : (t.insert v).get? t.nextKey = some v := by
  rw [get?_eq_some_iff]
  unfold SlotTable.nextKey
  cases hf : t.free with
  | nil => simp [insert_of_free_nil hf]
  | cons place rest =>
    obtain ⟨version, hslot⟩ := h.slot_of_free_cons hf
    have hlen : place < t.slots.length := (List.getElem?_eq_some_iff.mp hslot).1
    simp [insert_of_free_cons hf, hlen]

/-- A further value touches no other key. -/
theorem Valid.get?_insert_of_ne (h : t.Valid) (v : β) (hk : k ≠ t.nextKey) :
    (t.insert v).get? k = t.get? k := by
  by_cases h0 : k.slot = 0
  · rw [get?_eq_none_of_slot h0, get?_eq_none_of_slot h0]
  unfold SlotTable.nextKey at hk
  cases hf : t.free with
  | nil =>
    simp only [hf] at hk
    rw [insert_of_free_nil hf]
    by_cases hs : k.slot - 1 = t.slots.length
    -- a fresh slot comes in at version one, which only the announced key names
    · have hv : 1 ≠ k.version := fun hv => hk (eq_of_slot (Nat.succ_ne_zero _) h0 hs hv.symm)
      have hdead : t.get? k = none := by
        unfold SlotTable.get?
        rw [if_neg h0, hs, List.getElem?_eq_none (Nat.le_refl _)]
      rw [hdead]
      refine get?_eq_none_of_version (s := ⟨1, some v⟩) ?_ hv
      simp [hs]
    · refine get?_congr ?_
      rw [List.getElem?_append]
      split
      · rfl
      · rw [List.getElem?_eq_none (by simp; omega), List.getElem?_eq_none (by omega)]
  | cons place rest =>
    simp only [hf] at hk
    obtain ⟨version, hslot⟩ := h.slot_of_free_cons hf
    have hlen : place < t.slots.length := (List.getElem?_eq_some_iff.mp hslot).1
    rw [insert_of_free_cons hf]
    by_cases hs : k.slot - 1 = place
    -- a slot that was free had no live key, and now has the announced one
    · have hv : t.versionAt place + 1 ≠ k.version := fun hv =>
        hk (eq_of_slot (Nat.succ_ne_zero _) h0 hs hv.symm)
      have hdead : t.get? k = none := get?_eq_none_of_free (hs ▸ hslot)
      rw [hdead]
      refine get?_eq_none_of_version (s := ⟨t.versionAt place + 1, some v⟩) ?_ hv
      rw [hs, List.getElem?_set_self hlen]
    · exact get?_congr (List.getElem?_set_ne (fun e => hs e.symm))

theorem Valid.get?_insert (h : t.Valid) (v : β) (k : Key) :
    (t.insert v).get? k = if k = t.nextKey then some v else t.get? k := by
  split
  · rename_i hk
    rw [hk, h.get?_insert_self]
  · rename_i hk
    exact h.get?_insert_of_ne v hk

/-- Beside a further value, everything is listed as before. -/
theorem Valid.filter_entries_insert (h : t.Valid) (v : β) :
    (t.insert v).entries.filter (·.1 ≠ t.nextKey) = t.entries := by
  refine eq_entries ((t.insert v).pairwise_entries.filter _) fun k w => ?_
  rw [List.mem_filter, mem_entries, h.get?_insert]
  by_cases hk : k = t.nextKey
  · simp [hk, h.get?_nextKey]
  · simp [hk]

/-- Replacing the value that has just come in is as if the other one had come in. -/
theorem Valid.set_nextKey_insert (h : t.Valid) (v w : β) :
    (t.insert v).set t.nextKey w = t.insert w := by
  rw [set_of_live (h.get?_insert_self v)]
  unfold SlotTable.nextKey
  cases hf : t.free with
  | nil => simp [insert_of_free_nil hf]
  | cons place rest => simp [insert_of_free_cons hf]

/-! ## Section 5: Tables that nothing was erased from -/

/-- The table of values that came in one after the other. -/
def ofValues (vs : List β) : SlotTable β := ⟨vs.map fun v => ⟨1, some v⟩, []⟩

@[simp] theorem ofValues_nil : ofValues ([] : List β) = empty := rfl

@[simp] theorem insert_ofValues (vs : List β) (v : β) :
    (ofValues vs).insert v = ofValues (vs ++ [v]) := by
  rw [insert_of_free_nil rfl]
  simp [ofValues]

@[simp] theorem values_ofValues (vs : List β) : (ofValues vs).values = vs := by
  rw [values_eq]
  unfold ofValues
  rw [List.filterMap_map]
  exact List.filterMap_some

theorem valid_ofValues (vs : List β) : (ofValues vs).Valid := by
  refine ⟨List.nodup_nil, fun place => ?_⟩
  simp [ofValues]

/-- The keys are those of the first slots, at version one. -/
theorem mem_keys_ofValues {vs : List β} :
    k ∈ (ofValues vs).keys ↔ k.version = 1 ∧ 0 < k.slot ∧ k.slot ≤ vs.length := by
  simp only [mem_keys, get?_eq_some_iff]
  unfold ofValues
  simp only [List.getElem?_map, Option.map_eq_some_iff, Slot.mk.injEq, Option.some.injEq]
  constructor
  · rintro ⟨v, h0, w, hw, hv, -⟩
    have hlen : k.slot - 1 < vs.length := (List.getElem?_eq_some_iff.mp hw).1
    exact ⟨hv.symm, by omega, by omega⟩
  · rintro ⟨hv, h0, hlen⟩
    have hplace : k.slot - 1 < vs.length := by omega
    exact ⟨vs[k.slot - 1], by omega, vs[k.slot - 1], List.getElem?_eq_getElem hplace, hv.symm, rfl⟩

/-! ## Section 6: Keys over time -/

/-- A table as it may be later: no slot is given up, no version is lowered, and a slot without a
    value that has one now has another version. -/
def Ages (t t' : SlotTable β) : Prop :=
  ∀ (place : Nat) (s : Slot β), t.slots[place]? = some s → ∃ s', t'.slots[place]? = some s' ∧
    s.version ≤ s'.version ∧ (s'.version = s.version → s.value = none → s'.value = none)

theorem ages_self (t : SlotTable β) : t.Ages t :=
  fun _ s hs => ⟨s, hs, Nat.le_refl _, fun _ h => h⟩

theorem Ages.trans {t' t'' : SlotTable β} (h : t.Ages t') (h' : t'.Ages t'') : t.Ages t'' := by
  intro place s hs
  obtain ⟨s', hs', hle, hvalue⟩ := h place s hs
  obtain ⟨s'', hs'', hle', hvalue'⟩ := h' place s' hs'
  refine ⟨s'', hs'', Nat.le_trans hle hle', ?_⟩
  intro hsame hnone
  have hbetween : s'.version = s.version := by omega
  exact hvalue' (by omega) (hvalue hbetween hnone)

/-- A table ages with one of its slots. -/
theorem ages_set_slot {place : Nat} {s s' : Slot β} (hs : t.slots[place]? = some s)
    (hle : s.version ≤ s'.version)
    (hvalue : s'.version = s.version → s.value = none → s'.value = none) (free : List Nat) :
    t.Ages ⟨t.slots.set place s', free⟩ := by
  intro other old hold
  by_cases hp : place = other
  · subst hp
    rw [hs] at hold
    rw [← Option.some.inj hold]
    have hlen : place < t.slots.length := (List.getElem?_eq_some_iff.mp hs).1
    exact ⟨s', List.getElem?_set_self hlen, hle, hvalue⟩
  · exact ⟨old, by rw [← hold]; exact List.getElem?_set_ne hp, Nat.le_refl _, fun _ h => h⟩

theorem ages_set (t : SlotTable β) (k : Key) (v : β) : t.Ages (t.set k v) := by
  cases hk : t.get? k with
  | none =>
    have hset : t.set k v = t := by simp [set, hk]
    rw [hset]
    exact ages_self t
  | some old =>
    rw [set_of_live hk]
    have hle : k.version ≤ (⟨k.version, some v⟩ : Slot β).version := Nat.le_refl _
    exact ages_set_slot (get?_eq_some_iff.mp hk).2 hle (fun _ => nofun) t.free

theorem ages_erase (t : SlotTable β) (k : Key) : t.Ages (t.erase k) := by
  cases hk : t.get? k with
  | none =>
    have herase : t.erase k = t := by simp [erase, hk]
    rw [herase]
    exact ages_self t
  | some old =>
    rw [erase_of_live hk]
    exact ages_set_slot (get?_eq_some_iff.mp hk).2 (Nat.le_succ _) (fun _ _ => rfl) _

theorem ages_foldl_erase (ks : List Key) (t : SlotTable β) :
    t.Ages (ks.foldl (fun t k => t.erase k) t) := by
  induction ks generalizing t with
  | nil => exact ages_self t
  | cons k rest ih => exact (ages_erase t k).trans (ih (t.erase k))

theorem ages_map (f : Key → β → β) (t : SlotTable β) : t.Ages (t.map f) := by
  intro place s hs
  refine ⟨{ s with value := s.value.map (f ⟨place + 1, s.version⟩) }, ?_, Nat.le_refl _, ?_⟩
  · unfold map
    rw [List.getElem?_mapIdx, hs]
    rfl
  · intro _ hnone
    dsimp only
    rw [hnone]
    rfl

/-- The slot of a further value was fresh, or gets a version of its own. -/
theorem Valid.ages_insert (h : t.Valid) (v : β) : t.Ages (t.insert v) := by
  cases hf : t.free with
  | nil =>
    rw [insert_of_free_nil hf]
    intro place s hs
    have hlen : place < t.slots.length := (List.getElem?_eq_some_iff.mp hs).1
    exact ⟨s, by rw [← hs]; exact List.getElem?_append_left hlen, Nat.le_refl _, fun _ h => h⟩
  | cons place rest =>
    obtain ⟨version, hslot⟩ := h.slot_of_free_cons hf
    have hversion : t.versionAt place = version := by simp [versionAt, hslot]
    rw [insert_of_free_cons hf, hversion]
    exact ages_set_slot hslot (Nat.le_succ _) (fun hsame => by simp at hsame) rest

/-- A key that was handed out: its slot has come to its version. -/
def Used (t : SlotTable β) (k : Key) : Prop :=
  k.slot ≠ 0 ∧ ∃ s, t.slots[k.slot - 1]? = some s ∧ k.version ≤ s.version

theorem used_of_get? (h : t.get? k = some v) : t.Used k := by
  obtain ⟨h0, hslot⟩ := get?_eq_some_iff.mp h
  exact ⟨h0, _, hslot, Nat.le_refl _⟩

theorem Ages.used {t' : SlotTable β} (h : t.Ages t') (hk : t.Used k) : t'.Used k := by
  obtain ⟨h0, s, hs, hle⟩ := hk
  obtain ⟨s', hs', hle', -⟩ := h _ s hs
  exact ⟨h0, s', hs', Nat.le_trans hle hle'⟩

/-- A key that was handed out and is dead stays dead. -/
theorem Ages.get?_eq_none {t' : SlotTable β} (h : t.Ages t') (hk : t.Used k)
    (hdead : t.get? k = none) : t'.get? k = none := by
  obtain ⟨h0, s, hs, hle⟩ := hk
  obtain ⟨s', hs', hle', hvalue⟩ := h _ s hs
  cases hlive : t'.get? k with
  | none => rfl
  | some v =>
    exfalso
    -- the slot would be at the version of the key all along, and a value would have come in
    have hslot := (get?_eq_some_iff.mp hlive).2
    rw [hs'] at hslot
    obtain ⟨version', value'⟩ := s'
    cases hslot
    have hversion : k.version = s.version := Nat.le_antisymm hle hle'
    cases hv : s.value with
    | none => cases hvalue hversion hv
    | some w =>
      have hget : t.get? k = some w := get?_eq_some_iff.mpr ⟨h0, by rw [hs, hversion, ← hv]⟩
      rw [hdead] at hget
      cases hget

end FoamTray.SlotTable
