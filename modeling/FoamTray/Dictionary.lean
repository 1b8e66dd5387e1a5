/-! # Dictionaries

    Values under names, listed in the order of the names. Names are ordered by their characters.
-/

namespace FoamTray

/-- Values under names, in the order of the names. -/
structure Dictionary (β : Type) where
  /-- The names with their values. -/
  entries : List (String × β)
  deriving DecidableEq, Repr

namespace Dictionary

variable {β : Type}

/-- The dictionary without any name. -/
def empty : Dictionary β := ⟨[]⟩

/-- The entries with the value under a name set. -/
def insertEntry (name : String) (value : β) : List (String × β) → List (String × β)
  | [] => [(name, value)]
  | (n, v) :: rest =>
      if name = n then (name, value) :: rest
      else if name < n then (name, value) :: (n, v) :: rest
      else (n, v) :: insertEntry name value rest

/-- The dictionary with the value under a name set; a value already there is replaced. -/
def insert (d : Dictionary β) (name : String) (value : β) : Dictionary β :=
  ⟨insertEntry name value d.entries⟩

/-- The dictionary of the given entries; of several under one name the last one counts. -/
def ofList (entries : List (String × β)) : Dictionary β :=
  entries.foldl (fun d (name, value) => d.insert name value) empty

/-- The value under a name. -/
def find? (d : Dictionary β) (name : String) : Option β :=
  (d.entries.find? (·.1 == name)).map (·.2)

/-- The values in the order of their names. -/
def values (d : Dictionary β) : List β := d.entries.map (·.2)

/-- The number of names. -/
def size (d : Dictionary β) : Nat := d.entries.length

theorem find?_insertEntry (name : String) (value : β) (entries : List (String × β)) (n : String) :
    ((insertEntry name value entries).find? (·.1 == n)).map (·.2) =
      if name = n then some value else (entries.find? (·.1 == n)).map (·.2) := by
  induction entries with
  | nil => by_cases h : name = n <;> simp [insertEntry, h]
  | cons e rest ih =>
    obtain ⟨m, v⟩ := e
    by_cases hm : name = m
    · subst hm
      by_cases h : name = n <;> simp [insertEntry, h]
    · by_cases hlt : name < m
      · simp only [insertEntry, hm, if_false, hlt, if_true, List.find?_cons]
        by_cases h : name = n
        · simp [h]
        · simp [beq_false_of_ne h, h]
      · simp only [insertEntry, hm, if_false, hlt]
        by_cases h : m = n
        · subst h
          simp [hm]
        · simpa [List.find?_cons, h] using ih

/-- Setting a name answers under that name, and changes no other. -/
theorem find?_insert (d : Dictionary β) (name : String) (value : β) (n : String) :
    (d.insert name value).find? n = if name = n then some value else d.find? n :=
  find?_insertEntry name value d.entries n

end Dictionary

end FoamTray
