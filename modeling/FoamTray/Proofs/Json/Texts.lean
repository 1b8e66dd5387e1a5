import FoamTray.Proofs.Json.Scalars

/-! # Values in a text

    The writer and the reader of texts meet at `Spells`, the texts that a value can have: whatever
    stands in them between the parts of the value is blank.

    * `compact_spells`, `indented_spells` : what is written is a text of the value.
    * `value_spelled` : the reader finds the value in any of its texts. What it takes a number
      for is told by the digits in the text (`numeral?`); everything else is found as it was
      (`reread`).
    * `parse_compact`, `parse_indented` : both together, from end to end.
-/

namespace FoamTray.Json

open Reader

/-! ## Section 1: The texts of a value -/

/-- The value that the text of a number is read as, if it is a number from end to end. -/
def numeral? (v : Json) : Option Json := wholeNumber v.scalarText.toList

mutual

/-- A value as it is found in its text: a number is found as it was printed. -/
def reread : Json → Json
  | .single x => (numeral? (.single x)).getD .unreadable
  | .double x => (numeral? (.double x)).getD .unreadable
  | .array items => .array (rereadItems items)
  | .object fields => .object (rereadFields fields)
  | v => v

/-- The items of a list as they are found in its text. -/
def rereadItems : List Json → List Json
  | [] => []
  | v :: rest => reread v :: rereadItems rest

/-- The fields of an object as they are found in its text. -/
def rereadFields : List (String × Json) → List (String × Json)
  | [] => []
  | (name, v) :: rest => (name, reread v) :: rereadFields rest

end

mutual

/-- A value that a text can hold at a level of nesting: whole numbers have 64 bits, other numbers
    have digits, and lists and objects do not lie too deep. -/
def Readable (level : Nat) : Json → Prop
  | .null | .bool _ | .string _ => True
  | .integer n => -2 ^ 63 ≤ n ∧ n < 2 ^ 64
  | .single x => (numeral? (.single x)).isSome
  | .double x => (numeral? (.double x)).isSome
  | .array items => level ≤ maxLevel ∧ ReadableItems (level + 1) items
  | .object fields => level ≤ maxLevel ∧ ReadableFields (level + 1) fields
  | .decimal _ _ _ | .unreadable => False

/-- Items that a text can hold. -/
def ReadableItems (level : Nat) : List Json → Prop
  | [] => True
  | v :: rest => Readable level v ∧ ReadableItems level rest

/-- Fields that a text can hold. -/
def ReadableFields (level : Nat) : List (String × Json) → Prop
  | [] => True
  | (_, v) :: rest => Readable level v ∧ ReadableFields level rest

end

mutual

/-- The texts of a value. -/
def Spells : Json → List Char → Prop
  | .array items, cs => ∃ inner, cs = '[' :: (inner ++ [']']) ∧ SpellsItems items inner
  | .object fields, cs => ∃ inner, cs = '{' :: (inner ++ ['}']) ∧ SpellsFields fields inner
  | v, cs => cs = v.scalarText.toList

/-- The texts of a list between its brackets. -/
def SpellsItems : List Json → List Char → Prop
  | [], cs => Blank cs
  | [v], cs => ∃ before text after,
      cs = before ++ (text ++ after) ∧ Blank before ∧ Blank after ∧ Spells v text
  | v :: w :: rest, cs => ∃ before text after inner,
      cs = before ++ (text ++ (after ++ ',' :: inner)) ∧ Blank before ∧ Blank after ∧
        Spells v text ∧ SpellsItems (w :: rest) inner

/-- The texts of an object between its braces. -/
def SpellsFields : List (String × Json) → List Char → Prop
  | [], cs => Blank cs
  | [(name, v)], cs => ∃ before between text after,
      cs = before ++ ((quoted name).toList ++ ':' :: (between ++ (text ++ after))) ∧
        Blank before ∧ Blank between ∧ Blank after ∧ Spells v text
  | (name, v) :: w :: rest, cs => ∃ before between text after inner,
      cs = before ++
        ((quoted name).toList ++ ':' :: (between ++ (text ++ (after ++ ',' :: inner)))) ∧
        Blank before ∧ Blank between ∧ Blank after ∧ Spells v text ∧
          SpellsFields (w :: rest) inner

end

/-! ## Section 2: Reading a text -/

variable {fuel level : Nat} {cs text rest : List Char}

theorem value_blank_append {blanks : List Char} (hb : Blank blanks) (cs : List Char) :
    value fuel level (blanks ++ cs) = value fuel level cs := by
  cases fuel with
  | zero => simp [value]
  | succ fuel => simp only [value, skipBlank_append hb]

theorem elements_skipBlank (cs : List Char) :
    elements fuel level (skipBlank cs) = elements fuel level cs := by
  cases fuel with
  | zero => simp [elements]
  | succ fuel =>
    have hvalue : value fuel (level + 1) (skipBlank cs) = value fuel (level + 1) cs := by
      cases fuel with
      | zero => simp [value]
      | succ fuel => simp only [value, skipBlank_skipBlank]
    simp only [elements, hvalue]

theorem members_skipBlank (cs : List Char) :
    members fuel level (skipBlank cs) = members fuel level cs := by
  cases fuel with
  | zero => simp [members]
  | succ fuel => simp only [members, skipBlank_skipBlank]

/-- A number begins like nothing else that can stand in a text. -/
theorem ne_of_startsNumber {c d : Char} (hc : c.isDigit = true ∨ c = '-')
    (hd : d.isDigit = false) (hminus : d ≠ '-') : c ≠ d := by
  rintro rfl
  simp [hd, hminus] at hc

/-- Where a digit or a sign stands, the reader looks for a number. -/
theorem value_number {c : Char} (hc : c.isDigit = true ∨ c = '-') (cs : List Char) :
    value (fuel + 1) level (c :: cs) = number (c :: cs) := by
  have hne : ∀ d, d.isDigit = false → d ≠ '-' → c ≠ d := fun d => ne_of_startsNumber hc
  have hblank : isBlank c = false := by simp [isBlank, hne]
  rw [value, skipBlank_cons hblank]
  split <;> rename_i h <;> simp_all

/-- A number is read from its text. -/
theorem value_numeral {v w : Json} (h : numeral? v = some w) (hrest : Delimited rest) :
    value (fuel + 1) level (v.scalarText.toList ++ rest) = some (w, rest) := by
  have hnumber := wholeNumber_eq_some_iff.mp h
  obtain ⟨c, tail, htext, hc⟩ := number_head hnumber
  have happend := number_append hnumber hrest
  rw [htext] at happend ⊢
  exact (value_number hc (tail ++ rest)).trans happend

theorem numeral?_integer {n : Int} (h : -2 ^ 63 ≤ n ∧ n < 2 ^ 64) :
    numeral? (.integer n) = some (.integer n) :=
  wholeNumber_integer h.1 h.2

/-- A text of a value begins neither with a blank nor with the end of a list. -/
theorem Spells.head {v : Json} (h : Spells v text) (hv : Readable level v) :
    ∃ c tail, text = c :: tail ∧ isBlank c = false ∧ c ≠ ']' := by
  have hnumeral : ∀ v : Json, (numeral? v).isSome → text = v.scalarText.toList →
      ∃ c tail, text = c :: tail ∧ isBlank c = false ∧ c ≠ ']' := by
    intro v hsome htext
    obtain ⟨w, hw⟩ := Option.isSome_iff_exists.mp hsome
    obtain ⟨c, tail, hv, hc⟩ := number_head (wholeNumber_eq_some_iff.mp hw)
    have hne : ∀ d, d.isDigit = false → d ≠ '-' → c ≠ d := fun d => ne_of_startsNumber hc
    exact ⟨c, tail, htext.trans hv, by simp [isBlank, hne], hne ']' rfl (by decide)⟩
  cases v with
  | null => exact ⟨'n', _, h, by decide⟩
  | bool b =>
    cases b
    · exact ⟨'f', _, h, by decide⟩
    · exact ⟨'t', _, h, by decide⟩
  | integer n => exact hnumeral _ (by rw [numeral?_integer hv]; rfl) h
  | decimal _ _ _ => exact hv.elim
  | single x => exact hnumeral _ hv h
  | double x => exact hnumeral _ hv h
  | string s => exact ⟨'"', _, h.trans (toList_quoted s), by decide⟩
  | array items =>
    obtain ⟨inner, rfl, -⟩ := h
    exact ⟨'[', _, rfl, by decide⟩
  | object fields =>
    obtain ⟨inner, rfl, -⟩ := h
    exact ⟨'{', _, rfl, by decide⟩
  | unreadable => exact hv.elim

/-- Fields as the reader gathers them, before it looks whether their names are texts. -/
def gathered (fields : List (String × Json)) : List (Option String × Json) :=
  fields.map fun f => (some f.1, f.2)

theorem objectOf_gathered (fields : List (String × Json)) :
    objectOf (gathered fields) = .object fields := by
  have h : (gathered fields).mapM (fun f => f.1.map (·, f.2)) = some fields := by
    induction fields with
    | nil => rfl
    | cons f fields ih =>
      simp only [gathered, List.map_cons, List.mapM_cons] at ih ⊢
      simp [ih]
  unfold objectOf
  rw [h]

/-- A list that is not empty does not close at once. -/
theorem SpellsItems.head {v : Json} {items : List Json} (h : SpellsItems (v :: items) text)
    (hv : Readable level v) (rest : List Char) :
    ∃ c tail, skipBlank (text ++ rest) = c :: tail ∧ c ≠ ']' := by
  obtain ⟨before, inner, after, rfl, hbefore, hinner⟩ : ∃ before inner after,
      text = before ++ (inner ++ after) ∧ Blank before ∧ Spells v inner := by
    cases items with
    | nil =>
      obtain ⟨before, inner, after, htext, hbefore, -, hinner⟩ := h
      exact ⟨before, inner, after, htext, hbefore, hinner⟩
    | cons w items =>
      obtain ⟨before, inner, after, tail, htext, hbefore, -, hinner, -⟩ := h
      exact ⟨before, inner, _, htext, hbefore, hinner⟩
  obtain ⟨c, tail, rfl, hc, hne⟩ := hinner.head hv
  refine ⟨c, tail ++ (after ++ rest), ?_, hne⟩
  rw [List.append_assoc, skipBlank_append hbefore]
  simp [skipBlank_cons hc]

/-- An object that is not empty goes on with a name. -/
theorem SpellsFields.head {f : String × Json} {fields : List (String × Json)}
    (h : SpellsFields (f :: fields) text) (rest : List Char) :
    ∃ tail, skipBlank (text ++ rest) = '"' :: tail := by
  obtain ⟨before, inner, rfl, hbefore⟩ : ∃ before inner,
      text = before ++ ((quoted f.1).toList ++ inner) ∧ Blank before := by
    cases fields with
    | nil =>
      obtain ⟨before, between, inner, after, htext, hbefore, -⟩ := h
      exact ⟨before, _, htext, hbefore⟩
    | cons w fields =>
      obtain ⟨before, between, inner, after, tail, htext, hbefore, -⟩ := h
      exact ⟨before, _, htext, hbefore⟩
  refine ⟨f.1.toList.flatMap escapeChar ++ '"' :: (inner ++ rest), ?_⟩
  rw [List.append_assoc, skipBlank_append hbefore, toList_quoted]
  simp [skipBlank_cons, isBlank]

mutual

/-- The reader finds a value in any of its texts. -/
theorem value_spelled : ∀ (v : Json) (fuel level : Nat) {text rest : List Char},
    Spells v text → Readable level v → Delimited rest → 2 * text.length < fuel →
      value fuel level (text ++ rest) = some (reread v, rest)
  | .null, fuel + 1, level, text, rest, h, hv, hrest, hfuel => by
    subst h
    simp [scalarText, value, skipBlank_cons, isBlank, reread]
  | .bool b, fuel + 1, level, text, rest, h, hv, hrest, hfuel => by
    subst h
    cases b <;> simp [scalarText, value, skipBlank_cons, isBlank, reread]
  | .integer n, fuel + 1, level, text, rest, h, hv, hrest, hfuel => by
    subst h
    exact value_numeral (numeral?_integer hv) hrest
  | .single x, fuel + 1, level, text, rest, h, hv, hrest, hfuel => by
    subst h
    obtain ⟨w, hw⟩ := Option.isSome_iff_exists.mp hv
    rw [value_numeral hw hrest, reread, hw, Option.getD_some]
  | .double x, fuel + 1, level, text, rest, h, hv, hrest, hfuel => by
    subst h
    obtain ⟨w, hw⟩ := Option.isSome_iff_exists.mp hv
    rw [value_numeral hw hrest, reread, hw, Option.getD_some]
  | .string s, fuel + 1, level, text, rest, h, hv, hrest, hfuel => by
    subst h
    simp [scalarText, toList_quoted, value, skipBlank_cons, isBlank, reread, string_escaped]
  | .array [], fuel + 1, level, text, rest, h, hv, hrest, hfuel => by
    obtain ⟨inner, rfl, hinner⟩ := h
    have hskip : skipBlank (inner ++ ']' :: rest) = ']' :: rest := by
      rw [skipBlank_append hinner, skipBlank_cons (by decide)]
    simp [value, skipBlank_cons, isBlank, reread, hskip, rereadItems, atLevel, hv.1]
  | .array (v :: items), fuel + 1, level, text, rest, h, hv, hrest, hfuel => by
    obtain ⟨inner, rfl, hinner⟩ := h
    obtain ⟨hlevel, hitems⟩ := hv
    obtain ⟨c, tail, hskip, hc⟩ := hinner.head hitems.1 (']' :: rest)
    have helements : elements fuel level (c :: tail) = some (rereadItems (v :: items), rest) := by
      rw [← hskip, elements_skipBlank]
      exact elements_spelled v items fuel level rest hinner hitems (by simp at hfuel; omega)
    simp [value, skipBlank_cons, isBlank, reread, hskip, hc, helements, atLevel, hlevel]
  | .object [], fuel + 1, level, text, rest, h, hv, hrest, hfuel => by
    obtain ⟨inner, rfl, hinner⟩ := h
    have hskip : skipBlank (inner ++ '}' :: rest) = '}' :: rest := by
      rw [skipBlank_append hinner, skipBlank_cons (by decide)]
    simp [value, skipBlank_cons, isBlank, reread, hskip, rereadFields, atLevel, hv.1]
  | .object (f :: fields), fuel + 1, level, text, rest, h, hv, hrest, hfuel => by
    obtain ⟨inner, rfl, hinner⟩ := h
    obtain ⟨hlevel, hfields⟩ := hv
    obtain ⟨tail, hskip⟩ := hinner.head ('}' :: rest)
    have hmembers : members fuel level ('"' :: tail) =
        some (gathered (rereadFields (f :: fields)), rest) := by
      rw [← hskip, members_skipBlank]
      exact members_spelled f fields fuel level rest hinner hfields (by simp at hfuel; omega)
    simp [value, skipBlank_cons, isBlank, reread, hskip, hmembers, objectOf_gathered, atLevel, hlevel]

theorem elements_spelled : ∀ (v : Json) (items : List Json) (fuel level : Nat)
    (rest : List Char) {inner : List Char},
    SpellsItems (v :: items) inner → ReadableItems (level + 1) (v :: items) →
      2 * inner.length + 1 < fuel →
        elements fuel level (inner ++ ']' :: rest) = some (rereadItems (v :: items), rest)
  | v, [], fuel + 1, level, rest, inner, h, hitems, hfuel => by
    obtain ⟨before, text, after, rfl, hbefore, hafter, htext⟩ := h
    have hend : Delimited (after ++ ']' :: rest) :=
      (delimited_cons (by decide) rest).blank_append hafter
    have hv := value_spelled v fuel (level + 1) htext hitems.1 hend (by simp at hfuel; omega)
    simp [elements, value_blank_append hbefore, hv, skipBlank_append hafter, skipBlank_cons,
      isBlank, rereadItems]
  | v, w :: items, fuel + 1, level, rest, inner, h, hitems, hfuel => by
    obtain ⟨before, text, after, tail, rfl, hbefore, hafter, htext, htail⟩ := h
    have hend : Delimited (after ++ ',' :: (tail ++ ']' :: rest)) :=
      (delimited_cons (by decide) _).blank_append hafter
    have hv := value_spelled v fuel (level + 1) htext hitems.1 hend (by simp at hfuel; omega)
    have hrest := elements_spelled w items fuel level rest htail hitems.2
      (by simp at hfuel; omega)
    simp [elements, value_blank_append hbefore, hv, skipBlank_append hafter, skipBlank_cons,
      isBlank, hrest, rereadItems]

theorem members_spelled : ∀ (f : String × Json) (fields : List (String × Json))
    (fuel level : Nat) (rest : List Char) {inner : List Char},
    SpellsFields (f :: fields) inner → ReadableFields (level + 1) (f :: fields) →
      2 * inner.length + 1 < fuel →
        members fuel level (inner ++ '}' :: rest) =
          some (gathered (rereadFields (f :: fields)), rest)
  | (name, v), [], fuel + 1, level, rest, inner, h, hfields, hfuel => by
    obtain ⟨before, between, text, after, rfl, hbefore, hbetween, hafter, htext⟩ := h
    have hend : Delimited (after ++ '}' :: rest) :=
      (delimited_cons (by decide) rest).blank_append hafter
    have hv := value_spelled v fuel (level + 1) htext hfields.1 hend (by simp at hfuel; omega)
    simp [members, skipBlank_append hbefore, toList_quoted, skipBlank_cons, isBlank,
      string_escaped, value_blank_append hbetween, hv, skipBlank_append hafter, rereadFields,
      gathered]
  | (name, v), w :: fields, fuel + 1, level, rest, inner, h, hfields, hfuel => by
    obtain ⟨before, between, text, after, tail, rfl, hbefore, hbetween, hafter, htext, htail⟩ := h
    have hend : Delimited (after ++ ',' :: (tail ++ '}' :: rest)) :=
      (delimited_cons (by decide) _).blank_append hafter
    have hv := value_spelled v fuel (level + 1) htext hfields.1 hend (by simp at hfuel; omega)
    have hrest := members_spelled w fields fuel level rest htail hfields.2
      (by simp at hfuel; omega)
    simp [members, skipBlank_append hbefore, toList_quoted, skipBlank_cons, isBlank,
      string_escaped, value_blank_append hbetween, hv, skipBlank_append hafter, hrest,
      rereadFields, gathered]

end

/-! ## Section 3: Writing a text -/

theorem blank_nil : Blank [] := by simp [Blank]

theorem blank_space : Blank [' '] := by simp [Blank, isBlank]

mutual

/-- The compact form is a text of the value. -/
theorem compact_spells : ∀ v : Json, Spells v v.compact.toList
  | .array items => ⟨(compactItems items).toList, by simp [compact], compactItems_spells items⟩
  | .object fields =>
    ⟨(compactFields fields).toList, by simp [compact], compactFields_spells fields⟩
  | .null | .bool _ | .integer _ | .decimal _ _ _ | .single _ | .double _ | .string _
  | .unreadable => rfl

theorem compactItems_spells : ∀ items : List Json, SpellsItems items (compactItems items).toList
  | [] => blank_nil
  | [v] => ⟨[], v.compact.toList, [], by simp [compactItems], blank_nil, blank_nil,
      compact_spells v⟩
  | v :: w :: rest => ⟨[], v.compact.toList, [], (compactItems (w :: rest)).toList,
      by simp [compactItems], blank_nil, blank_nil, compact_spells v,
      compactItems_spells (w :: rest)⟩

theorem compactFields_spells : ∀ fields : List (String × Json),
    SpellsFields fields (compactFields fields).toList
  | [] => blank_nil
  | [(name, v)] => ⟨[], [], v.compact.toList, [], by simp [compactFields], blank_nil, blank_nil,
      blank_nil, compact_spells v⟩
  | (name, v) :: w :: rest => ⟨[], [], v.compact.toList, [], (compactFields (w :: rest)).toList,
      by simp [compactFields], blank_nil, blank_nil, blank_nil, compact_spells v,
      compactFields_spells (w :: rest)⟩

end

theorem toList_spaces (n : Nat) : ("".pushn ' ' n).toList = List.replicate n ' ' := by
  induction n with
  | zero => rfl
  | succ n ih =>
    have hpush : "".pushn ' ' (n + 1) = ("".pushn ' ' n).push ' ' := rfl
    rw [hpush, String.toList_push, ih, List.replicate_succ']

theorem blank_indentation (level : Nat) : Blank (indentation level).toList := by
  intro c hc
  have hchar : c = '\n' ∨ c ∈ List.replicate (2 * level) ' ' := by
    simpa [indentation, toList_spaces] using hc
  rcases hchar with rfl | hspace
  · rfl
  · rw [List.eq_of_mem_replicate hspace]
    rfl

mutual

/-- The indented form is a text of the value. -/
theorem indented_spells : ∀ (level : Nat) (v : Json), Spells v (v.indented level).toList
  | level, .array [] => ⟨[], by simp [indented], blank_nil⟩
  | level, .array (v :: items) =>
    ⟨_, by simp [indented],
      indentedItems_spells (level + 1) (v :: items) (blank_indentation level)⟩
  | level, .object [] => ⟨[], by simp [indented], blank_nil⟩
  | level, .object (f :: fields) =>
    ⟨_, by simp [indented],
      indentedFields_spells (level + 1) (f :: fields) (blank_indentation level)⟩
  | level, .null | level, .bool _ | level, .integer _ | level, .decimal _ _ _ | level, .single _
  | level, .double _ | level, .string _ | level, .unreadable => rfl

theorem indentedItems_spells : ∀ (level : Nat) (items : List Json) {after : List Char},
    Blank after → SpellsItems items ((indentedItems level items).toList ++ after)
  | level, [], after, h => h
  | level, [v], after, h => ⟨(indentation level).toList, (v.indented level).toList, after,
      by simp [indentedItems], blank_indentation level, h, indented_spells level v⟩
  | level, v :: w :: rest, after, h => ⟨(indentation level).toList, (v.indented level).toList, [],
      (indentedItems level (w :: rest)).toList ++ after, by simp [indentedItems],
      blank_indentation level, blank_nil, indented_spells level v,
      indentedItems_spells level (w :: rest) h⟩

theorem indentedFields_spells : ∀ (level : Nat) (fields : List (String × Json))
    {after : List Char},
    Blank after → SpellsFields fields ((indentedFields level fields).toList ++ after)
  | level, [], after, h => h
  | level, [(name, v)], after, h => ⟨(indentation level).toList, [' '], (v.indented level).toList,
      after, by simp [indentedFields], blank_indentation level, blank_space, h,
      indented_spells level v⟩
  | level, (name, v) :: w :: rest, after, h => ⟨(indentation level).toList, [' '],
      (v.indented level).toList, [], (indentedFields level (w :: rest)).toList ++ after,
      by simp [indentedFields], blank_indentation level, blank_space, blank_nil,
      indented_spells level v, indentedFields_spells level (w :: rest) h⟩

end

/-! ## Section 4: From end to end -/

/-- A text of a value is read as the value, from end to end. -/
theorem parse_spelled {v : Json} {text : String} (h : Spells v text.toList)
    (hv : Readable 1 v) : parse text = some (reread v) := by
  have hvalue := value_spelled v (2 * text.toList.length + 2) 1 h hv delimited_nil (by omega)
  rw [List.append_nil] at hvalue
  simp [parse, hvalue, skipBlank]

theorem parse_compact {v : Json} (hv : Readable 1 v) : parse v.compact = some (reread v) :=
  parse_spelled (compact_spells v) hv

theorem parse_indented {v : Json} (hv : Readable 1 v) (level : Nat) :
    parse (v.indented level) = some (reread v) :=
  parse_spelled (indented_spells level v) hv

end FoamTray.Json
