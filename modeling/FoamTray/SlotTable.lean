/-! # Slot tables

    A store that hands out a key for each value. Keys of removed values stay dead: a slot counts
    how often it was taken and freed, and a key names the count at which its value came in.

    * Slots are numbered from one; a fresh slot has version one.
    * Removing a value raises the version of its slot and frees the slot.
    * The slot freed last is taken first, and taking it raises its version again. So the version
      of a slot in use is odd, and that of a free one is even.
    * Values are listed in the order of their slots.
-/

namespace FoamTray

/-- The name of a value in a slot table. -/
structure Key where
  /-- The number of the slot, from one. -/
  slot : Nat
  /-- The version of the slot at which the value came in. -/
  version : Nat
  deriving DecidableEq, Repr

/-- A place for one value. -/
structure Slot (β : Type) where
  /-- How often the slot was taken or freed. -/
  version : Nat
  /-- The value, while the slot is in use. -/
  value : Option β
  deriving DecidableEq, Repr

/-- A store with keys of its own. -/
structure SlotTable (β : Type) where
  /-- The slots by number. -/
  slots : List (Slot β)
  /-- The places of free slots in the list, the one freed last first. -/
  free : List Nat
  deriving DecidableEq, Repr

namespace SlotTable

variable {β : Type}

/-- The table that never held anything. -/
def empty : SlotTable β := ⟨[], []⟩

/-- The value under a key, if it is still there. -/
def get? (t : SlotTable β) (k : Key) : Option β :=
  if k.slot = 0 then none
  else
    match t.slots[k.slot - 1]? with
    | some s => if s.version = k.version then s.value else none
    | none => none

/-- The version of the slot at a place. -/
def versionAt (t : SlotTable β) (place : Nat) : Nat :=
  match t.slots[place]? with
  | some s => s.version
  | none => 0

/-- The key that the next value will get. -/
def nextKey (t : SlotTable β) : Key :=
  match t.free with
  | [] => ⟨t.slots.length + 1, 1⟩
  | place :: _ => ⟨place + 1, t.versionAt place + 1⟩

/-- The table with a further value, under `nextKey`. -/
def insert (t : SlotTable β) (v : β) : SlotTable β :=
  match t.free with
  | [] => ⟨t.slots ++ [⟨1, some v⟩], []⟩
  | place :: rest => ⟨t.slots.set place ⟨t.versionAt place + 1, some v⟩, rest⟩

/-- The table with the value under a key replaced; unchanged if there is none. -/
def set (t : SlotTable β) (k : Key) (v : β) : SlotTable β :=
  match t.get? k with
  | some _ => ⟨t.slots.set (k.slot - 1) ⟨k.version, some v⟩, t.free⟩
  | none => t

/-- The table without the value under a key; unchanged if there is none. -/
def erase (t : SlotTable β) (k : Key) : SlotTable β :=
  match t.get? k with
  | some _ => ⟨t.slots.set (k.slot - 1) ⟨k.version + 1, none⟩, (k.slot - 1) :: t.free⟩
  | none => t

/-- The table with every value replaced by a function of its key and itself. -/
def map (f : Key → β → β) (t : SlotTable β) : SlotTable β :=
  ⟨t.slots.mapIdx fun place s => { s with value := s.value.map (f ⟨place + 1, s.version⟩) }, t.free⟩

/-- The values with their keys, in the order of the slots. -/
def entries (t : SlotTable β) : List (Key × β) :=
  t.slots.zipIdx.filterMap fun (s, place) => s.value.map (⟨place + 1, s.version⟩, ·)

/-- The values in the order of the slots. -/
def values (t : SlotTable β) : List β := t.entries.map (·.2)

/-- The keys in the order of the slots. -/
def keys (t : SlotTable β) : List Key := t.entries.map (·.1)

/-- The number of values. -/
def size (t : SlotTable β) : Nat := t.entries.length

end SlotTable

/-! ## Keys as text -/

namespace Key

/-- The slot and the version, as in `3v1`. -/
def text (k : Key) : String := toString k.slot ++ "v" ++ toString k.version

/-- The version that a key written with this one refers to: a value only ever comes in at an odd
    one. -/
def usedVersion (version : Nat) : Nat := if version % 2 = 0 then version + 1 else version

/-- The key that a text names. -/
def ofText? (s : String) : Option Key := do
  let digits (cs : List Char) : Option Nat :=
    if cs.isEmpty || !cs.all Char.isDigit then none
    else some (cs.foldl (fun n d => 10 * n + (d.toNat - '0'.toNat)) 0)
  let cs := s.toList
  let slot ← digits (cs.takeWhile (· != 'v'))
  let version ← digits ((cs.dropWhile (· != 'v')).drop 1)
  return ⟨slot, usedVersion version⟩

end Key

/-! ## What the operations do to look-ups -/

namespace SlotTable

variable {β : Type}

@[simp] theorem get?_empty (k : Key) : (empty : SlotTable β).get? k = none := by
  simp [get?, empty]

/-- A replaced value is found under its key. -/
theorem get?_set_self {t : SlotTable β} {k : Key} {old : β} (h : t.get? k = some old) (v : β) :
    (t.set k v).get? k = some v := by
  unfold set
  rw [h]
  unfold get? at h ⊢
  split at h
  · simp at h
  · rename_i hk
    split at h
    · rename_i s hs
      simp [hk, (List.getElem?_eq_some_iff.1 hs).1]
    · simp at h

/-- An erased key is dead. -/
theorem get?_erase_self (t : SlotTable β) (k : Key) : (t.erase k).get? k = none := by
  unfold erase
  cases h : t.get? k with
  | none => exact h
  | some old =>
    simp only [get?]
    split
    · rfl
    · by_cases hk : k.slot - 1 < t.slots.length <;> simp [hk]

end SlotTable

end FoamTray
