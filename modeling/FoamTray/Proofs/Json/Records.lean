import FoamTray.Proofs.Json.Texts
import FoamTray.Proofs.Numeric.Decimals

/-! # Records in a text

    How the parts of a document are read from its text.

    * `Numeral.Faithful` : a number of a document that is read from its text as it was.
    * `Single.reheld` : what a number beside the kind of its record is read as. It is rounded twice,
      since it is held in double precision first.
    * `Single.Steady` : a number that is read as it was nevertheless (`Single.reheld_eq_self_iff`).
    * `ReadAs` : a value that a text can hold, and that is read from there as a given datum. There
      is one lemma for every kind of part a document has.
    * `lookup?_cons_self` … `lookup?_fieldIfSome_ne` : which value a field name leads to. They are
      for `simp`, which reads a record with them: no two of its names are the same.
-/

namespace FoamTray

/-! ## Section 1: Numbers -/

/-- A number of a document, by its precision. -/
inductive Numeral where
  /-- In single precision. -/
  | single (x : Single)
  /-- In double precision. -/
  | double (x : Float)

namespace Numeral

/-- Whether the number is finite. -/
def isFinite : Numeral → Bool
  | .single x => x.isFinite
  | .double x => x.isFinite

/-- The text of the number is read as the number. -/
def ReadsBack : Numeral → Prop
  | .single x => (Json.numeral? (.single x)).bind Json.single? = some x
  | .double x => (Json.numeral? (.double x)).bind Json.double? = some x

instance (n : Numeral) : Decidable n.ReadsBack :=
  match n with
  | .single _ | .double _ => inferInstanceAs (Decidable (_ = _))

/-- A finite number whose text is read as the number. -/
def Faithful (n : Numeral) : Prop := n.isFinite = true ∧ n.ReadsBack

instance (n : Numeral) : Decidable n.Faithful := inferInstanceAs (Decidable (_ ∧ _))

end Numeral

theorem Json.eq_of_single?_decimal {negative : Bool} {mantissa : Nat} {exponent : Int} {x : Single}
    (h : Json.single? (.decimal negative mantissa exponent) = some x) :
    x = singleOfDecimal negative mantissa exponent := by
  simp only [Json.single?] at h
  split at h
  · exact (Option.some.inj h).symm
  · cases h

namespace Single

/-- What the digits of a number are held as until the kind of its record is known. -/
def held? (x : Single) : Option Float :=
  match Json.numeral? (.single x) with
  | some (.decimal negative mantissa exponent) => some (doubleOfDecimal negative mantissa exponent)
  | _ => none

/-- What a number is read as after it was held. -/
def reheld (x : Single) : Single := x.held?.elim x narrow

/-- What the number is held as is not half-way between two numbers, or the number is the even one
    of the two. -/
def Steady (x : Single) : Prop := ∀ d ∈ x.held?, Double.HalfWay d → 2 ∣ x.bits.toNat

instance (x : Single) : Decidable x.Steady :=
  inferInstanceAs (Decidable (∀ d ∈ x.held?, Double.HalfWay d → 2 ∣ x.bits.toNat))

theorem reheld_eq_self_iff {x : Single} (h : (Numeral.single x).Faithful) :
    x.reheld = x ↔ x.Steady := by
  obtain ⟨hfinite, hread⟩ := h
  obtain ⟨w, hw, hx⟩ := Option.bind_eq_some_iff.mp hread
  unfold Steady reheld held?
  rw [hw]
  cases w with
  | decimal negative mantissa exponent =>
    obtain rfl := Json.eq_of_single?_decimal hx
    have hboth := (Double.narrow_doubleOfDecimal hfinite).2
    simpa only [Option.mem_some_iff, forall_eq', Option.elim_some] using hboth
  | _ => simp only [Option.elim_none, Option.not_mem_none, false_imp_iff, implies_true]

/-- The text of `7.038531e-26` is held as a number half-way to the next one, which is even. -/
example : (Numeral.single ⟨0x15AE43FD⟩).Faithful ∧ reheld ⟨0x15AE43FD⟩ = ⟨0x15AE43FE⟩ := by
  decide +kernel

end Single

namespace Json

/-- A value that a text can hold at a level of nesting, and that is read from there as `x`. -/
structure ReadAs {β : Type} (read? : Json → Option β) (level : Nat) (v : Json) (x : β) : Prop where
  /-- A text can hold the value. -/
  readable : Readable level v
  /-- What is found in the text is read as `x`. -/
  read : read? (reread v) = some x

variable {β γ δ : Type} (level : Nat)

/-! ## Section 2: Values -/

theorem readAs_string (s : String) : ReadAs string? level (.string s) s := ⟨trivial, rfl⟩

theorem readAs_natural {bits n : Nat} (hbits : bits ≤ 64) (hn : n < Nat.pow 2 bits) :
    ReadAs (natural? bits) level (ofNat n) n where
  readable := by
    have hlt : n < Nat.pow 2 64 :=
      Nat.lt_of_lt_of_le hn (Nat.pow_le_pow_right (by decide) hbits)
    exact ⟨by omega, Int.ofNat_lt.mpr hlt⟩
  read := by
    have hrange : (0 : Int) ≤ n ∧ (n : Int) ≤ ((Nat.pow 2 bits : Nat) : Int) - 1 := by
      have hcast : (n : Int) < ((Nat.pow 2 bits : Nat) : Int) := Int.ofNat_lt.mpr hn
      omega
    simp only [ofNat, reread, natural?, integerIn?, if_pos hrange, Option.map_some,
      Int.toNat_natCast]

theorem readable_integer64 {n : Int} (h : int64Min ≤ n ∧ n ≤ int64Max) :
    Readable level (.integer n) := by
  have hlow : -2 ^ 63 ≤ n := h.1
  have hhigh : n ≤ 2 ^ 63 - 1 := h.2
  exact ⟨hlow, by omega⟩

@[simp] theorem integer64?_integer {n : Int} (h : int64Min ≤ n ∧ n ≤ int64Max) :
    integer64? (.integer n) = some n := by
  simp [integer64?, integerIn?, h]

theorem readAs_single {x : Single} (h : (Numeral.single x).Faithful) :
    ReadAs single? level (ofSingle x) x := by
  obtain ⟨hfinite, hread⟩ := h
  obtain ⟨w, hw, hx⟩ := Option.bind_eq_some_iff.mp hread
  have hsingle : ofSingle x = .single x := if_pos hfinite
  rw [hsingle]
  exact ⟨by simp [Readable, hw], by simp [reread, hw, hx]⟩

theorem readAs_double {x : Float} (h : (Numeral.double x).Faithful) :
    ReadAs double? level (ofDouble x) x := by
  obtain ⟨hfinite, hread⟩ := h
  obtain ⟨w, hw, hx⟩ := Option.bind_eq_some_iff.mp hread
  have hdouble : ofDouble x = .double x := if_pos hfinite
  rw [hdouble]
  exact ⟨by simp [Readable, hw], by simp [reread, hw, hx]⟩

/-- A number that is held before it is read. -/
theorem readable_and_held {x : Single} (h : (Numeral.single x).Faithful) :
    Readable level (ofSingle x) ∧
      ∃ w, held? (reread (ofSingle x)) = some w ∧ single? w = some x.reheld := by
  obtain ⟨hfinite, hread⟩ := h
  obtain ⟨w, hw, hx⟩ := Option.bind_eq_some_iff.mp hread
  have hsingle : ofSingle x = .single x := if_pos hfinite
  rw [hsingle]
  refine ⟨by simp [Readable, hw], ?_⟩
  rw [reread, hw, Option.getD_some]
  unfold Single.reheld Single.held?
  rw [hw]
  cases w with
  | decimal negative mantissa exponent =>
    obtain rfl := Json.eq_of_single?_decimal hx
    exact ⟨_, if_pos (Double.narrow_doubleOfDecimal hfinite).1, rfl⟩
  | integer _ | single _ | double _ => exact ⟨_, rfl, hx⟩
  | null | bool _ | string _ | array _ | object _ | unreadable => cases hx

variable {level}

@[simp] theorem readable_ofSingle {x : Single} (h : (Numeral.single x).Faithful) :
    Readable level (ofSingle x) := (readAs_single level h).readable

@[simp] theorem single?_reread {x : Single} (h : (Numeral.single x).Faithful) :
    single? (reread (ofSingle x)) = some x := (readAs_single 0 h).read

theorem readAs_pair {p : Single × Single} (hlevel : level ≤ Reader.maxLevel)
    (h₁ : (Numeral.single p.1).Faithful) (h₂ : (Numeral.single p.2).Faithful) :
    ReadAs pair? level (ofPair p) p where
  readable := ⟨hlevel, readable_ofSingle h₁, readable_ofSingle h₂, trivial⟩
  read := by simp [ofPair, reread, rereadItems, pair?, single?_reread, h₁, h₂]

theorem rereadItems_eq_map (items : List Json) : rereadItems items = items.map reread := by
  induction items with
  | nil => rfl
  | cons v items ih => simp [rereadItems, ih]

theorem readableItems_iff {items : List Json} :
    ReadableItems level items ↔ ∀ v ∈ items, Readable level v := by
  induction items with
  | nil => simp [ReadableItems]
  | cons v items ih => simp [ReadableItems, ih]

theorem rereadFields_eq_map (fields : List (String × Json)) :
    rereadFields fields = fields.map fun f => (f.1, reread f.2) := by
  induction fields with
  | nil => rfl
  | cons p fields ih => simp [rereadFields, ih]

theorem readableFields_iff {fields : List (String × Json)} :
    ReadableFields level fields ↔ ∀ p ∈ fields, Readable level p.2 := by
  induction fields with
  | nil => simp [ReadableFields]
  | cons p fields ih => simp [ReadableFields, ih]

theorem mapM_map_eq_some {f : β → γ} {read? : γ → Option δ} {g : β → δ} {items : List β}
    (h : ∀ x ∈ items, read? (f x) = some (g x)) :
    (items.map f).mapM read? = some (items.map g) := by
  induction items with
  | nil => rfl
  | cons x items ih =>
    have hx := h x List.mem_cons_self
    have hitems := ih fun y hy => h y (List.mem_cons_of_mem x hy)
    simp [List.mapM_cons, hx, hitems]

/-- A list is read item by item. -/
theorem readAs_map {read? : Json → Option γ} {f : β → Json} {g : β → γ} {items : List β}
    (hlevel : level ≤ Reader.maxLevel) (h : ∀ x ∈ items, ReadAs read? (level + 1) (f x) (g x)) :
    ReadAs (list? read?) level (ofList f items) (items.map g) where
  readable := by
    refine ⟨hlevel, readableItems_iff.mpr ?_⟩
    simp only [List.mem_map]
    rintro v ⟨x, hx, rfl⟩
    exact (h x hx).readable
  read := by
    simp only [ofList, reread, rereadItems_eq_map, List.map_map, list?]
    exact mapM_map_eq_some fun x hx => (h x hx).read

theorem readAs_list {read? : Json → Option β} {f : β → Json} {items : List β}
    (hlevel : level ≤ Reader.maxLevel) (h : ∀ x ∈ items, ReadAs read? (level + 1) (f x) x) :
    ReadAs (list? read?) level (ofList f items) items := by
  have hread := readAs_map (g := fun x => x) hlevel h
  rwa [List.map_id'] at hread

/-- What is read is not null, unless null is read. -/
theorem ReadAs.nullable {read? : Json → Option β} {v : Json} {x : β}
    (h : ReadAs read? level v x) (hnull : read? .null = none) :
    ReadAs (nullable? read?) level v (some x) where
  readable := h.readable
  read := by
    have hread := h.read
    unfold nullable?
    split
    · rename_i hv
      rw [hv, hnull] at hread
      cases hread
    · rw [hread, Option.map_some]

theorem readAs_ofOption {read? : Json → Option β} {f : β → Json} {o : Option β}
    (hnull : read? .null = none) (h : ∀ x ∈ o, ReadAs read? level (f x) x) :
    ReadAs (nullable? read?) level (ofOption f o) o := by
  cases o with
  | none => exact ⟨trivial, rfl⟩
  | some x => exact (h x rfl).nullable hnull

/-! ## Section 3: Fields -/

section Fields

variable {fs : List (String × Json)} {n name : String} {v : Json} {f : β → Json} {o : Option β}

@[simp] theorem required_eq (read? : Json → Option β) :
    required fs name read? = (lookup? fs name).bind (·.bind read?) := by
  unfold required
  cases lookup? fs name with
  | none => rfl
  | some o => cases o <;> rfl

@[simp] theorem withDefault_eq (read? : Json → Option β) (default : β) :
    withDefault fs name read? default =
      (lookup? fs name).bind (·.elim (some default) read?) := by
  unfold withDefault
  cases lookup? fs name with
  | none => rfl
  | some o => cases o <;> rfl

@[simp] theorem lookup?_nil : lookup? [] name = some none := by simp [lookup?]

@[simp] theorem lookup?_cons_ne (h : n ≠ name) : lookup? ((n, v) :: fs) name = lookup? fs name := by
  simp [lookup?, h]

@[simp] theorem lookup?_cons_self (h : n = name) (hrest : lookup? fs name = some none) :
    lookup? ((n, v) :: fs) name = some (some v) := by
  have hnone : fs.filter (·.1 == name) = [] := by
    unfold lookup? at hrest
    split at hrest
    · assumption
    · cases hrest
    · cases hrest
  simp [lookup?, h, hnone]

@[simp] theorem lookup?_fieldIfSome_append_ne (h : n ≠ name) :
    lookup? (fieldIfSome n f o ++ fs) name = lookup? fs name := by
  cases o with
  | none => rfl
  | some x => exact lookup?_cons_ne h

@[simp] theorem lookup?_fieldIfSome_append_self (h : n = name) (hrest : lookup? fs name = some none) :
    lookup? (fieldIfSome n f o ++ fs) name = some (o.map f) := by
  cases o with
  | none => exact hrest
  | some x => exact lookup?_cons_self h hrest

@[simp] theorem lookup?_fieldIfSome_ne (h : n ≠ name) : lookup? (fieldIfSome n f o) name = some none := by
  rw [← List.append_nil (fieldIfSome n f o), lookup?_fieldIfSome_append_ne h, lookup?_nil]

@[simp] theorem lookup?_fieldIfSome_self (h : n = name) :
    lookup? (fieldIfSome n f o) name = some (o.map f) := by
  rw [← List.append_nil (fieldIfSome n f o), lookup?_fieldIfSome_append_self h lookup?_nil]

@[simp] theorem rereadFields_append (fs gs : List (String × Json)) :
    rereadFields (fs ++ gs) = rereadFields fs ++ rereadFields gs := by
  simp [rereadFields_eq_map]

@[simp] theorem rereadFields_fieldIfSome :
    rereadFields (fieldIfSome name f o) = fieldIfSome name (fun x => reread (f x)) o := by
  cases o <;> rfl

@[simp] theorem readableFields_append (fs gs : List (String × Json)) :
    ReadableFields level (fs ++ gs) ↔ ReadableFields level fs ∧ ReadableFields level gs := by
  simp only [readableFields_iff, List.forall_mem_append]

@[simp] theorem readableFields_fieldIfSome :
    ReadableFields level (fieldIfSome name f o) ↔ ∀ x ∈ o, Readable level (f x) := by
  cases o <;> simp [fieldIfSome, ReadableFields]

/-- A field that is left out without a value is read as no value. -/
theorem elim_nullable {read? : Json → Option β} (hnull : read? .null = none)
    (h : ∀ x ∈ o, ReadAs read? level (f x) x) :
    o.elim (some none) (nullable? read? ∘ fun x => reread (f x)) = some o := by
  cases o with
  | none => rfl
  | some x => exact ((h x rfl).nullable hnull).read

@[simp] theorem elim_string (o : Option String) :
    o.elim (some none) (nullable? string? ∘ fun s => Json.string s) = some o := by
  cases o <;> rfl

end Fields

end Json

end FoamTray
