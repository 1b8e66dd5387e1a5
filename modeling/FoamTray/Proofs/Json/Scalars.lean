import FoamTray.Json.Reader
import FoamTray.Json.Writer
import Mathlib.Algebra.Ring.Int.Defs
import Mathlib.Data.List.DropRight
import Mathlib.Data.List.TakeDrop

/-! # Numbers and strings in a text

    What the reader finds at the start of a text that goes on after a number or a string.

    * `number_append` : a text that is a number from end to end is that number too where a blank,
      a comma or a closing bracket follows, since the reader takes every character that a number
      can go on with.
    * `wholeNumber_integer` : a whole number of 64 bits is read from the text it is written as.
    * `string_escaped` : any string is read from the text it is written as. Each of its characters
      is one piece of that text, and a unit among the pieces is a control character, never half of
      a surrogate pair.
-/

namespace FoamTray.Json.Reader

/-! ## Section 1: What follows a value -/

/-- Nothing but blanks. -/
def Blank (cs : List Char) : Prop := ∀ c ∈ cs, isBlank c = true

/-- The text ends, or goes on with a blank or with what closes or parts values. -/
def Delimited (cs : List Char) : Prop :=
  ∀ c, cs.head? = some c → isBlank c = true ∨ c = ',' ∨ c = ']' ∨ c = '}'

theorem delimited_nil : Delimited [] := by
  intro c h
  cases h

theorem delimited_cons {c : Char} (hc : c ∈ [',', ']', '}']) (cs : List Char) :
    Delimited (c :: cs) := by
  intro d hd
  cases hd
  simpa using Or.inr hc

variable {cs rest : List Char}

theorem Delimited.blank_append {blanks : List Char} (hb : Blank blanks) (h : Delimited rest) :
    Delimited (blanks ++ rest) := by
  cases blanks with
  | nil => exact h
  | cons b blanks =>
    intro c hc
    cases hc
    exact .inl (hb b List.mem_cons_self)

theorem skipBlank_append {blanks : List Char} (hb : Blank blanks) (cs : List Char) :
    skipBlank (blanks ++ cs) = skipBlank cs :=
  List.dropWhile_append_of_pos hb

theorem skipBlank_cons {c : Char} (h : isBlank c = false) (cs : List Char) :
    skipBlank (c :: cs) = c :: cs := by
  simp [skipBlank, h]

theorem skipBlank_skipBlank (cs : List Char) : skipBlank (skipBlank cs) = skipBlank cs :=
  List.dropWhile_idempotent isBlank cs

/-- No number goes on with what follows a value. -/
theorem Delimited.head (h : Delimited rest) {c : Char} (hc : rest.head? = some c) :
    c.isDigit = false ∧ c ≠ '.' ∧ c ≠ 'e' ∧ c ≠ 'E' := by
  rcases h c hc with hb | rfl | rfl | rfl
  · simp only [isBlank, Bool.or_eq_true, beq_iff_eq] at hb
    rcases hb with ((rfl | rfl) | rfl) | rfl <;> decide
  all_goals decide

/-! ## Section 2: Numbers -/

/-- Digits are read as far as they go. -/
theorem digits_eq_some_iff {ds r : List Char} :
    digits cs = some (ds, r) ↔
      cs = ds ++ r ∧ ds ≠ [] ∧ (∀ c ∈ ds, c.isDigit = true) ∧
        ∀ c, r.head? = some c → c.isDigit = false := by
  have hdigits : digits cs = if cs.takeWhile Char.isDigit = [] then none
      else some (cs.takeWhile Char.isDigit, cs.dropWhile Char.isDigit) := by
    unfold digits
    rw [List.span_eq_takeWhile_dropWhile]
    cases cs.takeWhile Char.isDigit <;> rfl
  rw [hdigits]
  constructor
  · intro h
    split at h
    · cases h
    · rename_i hne
      obtain ⟨rfl, rfl⟩ := Prod.mk.inj (Option.some.inj h)
      refine ⟨(List.takeWhile_append_dropWhile).symm, hne, fun c hc => ?_, fun c hc => ?_⟩
      · exact List.mem_takeWhile_imp hc
      · have := List.head?_dropWhile_not Char.isDigit cs
        rw [hc] at this
        simpa using this
  · rintro ⟨rfl, hne, hds, hr⟩
    have htake : (ds ++ r).takeWhile Char.isDigit = ds := by
      rw [List.takeWhile_append_of_pos hds]
      cases r with
      | nil => simp
      | cons c r => simp [hr c rfl]
    have hdrop : (ds ++ r).dropWhile Char.isDigit = r := by
      rw [List.dropWhile_append_of_pos hds]
      cases r with
      | nil => rfl
      | cons c r => simp [hr c rfl]
    rw [htake, hdrop, if_neg hne]

theorem digits_append {ds r : List Char} (h : digits cs = some (ds, r)) (hrest : Delimited rest) :
    digits (cs ++ rest) = some (ds, r ++ rest) := by
  obtain ⟨rfl, hne, hds, hr⟩ := digits_eq_some_iff.mp h
  refine digits_eq_some_iff.mpr ⟨by simp, hne, hds, ?_⟩
  cases r with
  | nil => exact fun c hc => (hrest.head hc).1
  | cons c r => simpa using hr

theorem wholeDigits_of_ne (h : cs.head? ≠ some '0') : wholeDigits cs = digits cs := by
  unfold wholeDigits
  split
  · exact absurd rfl h
  · rfl

theorem wholeDigits_append {ds r : List Char} (h : wholeDigits cs = some (ds, r))
    (hrest : Delimited rest) : wholeDigits (cs ++ rest) = some (ds, r ++ rest) := by
  by_cases hzero : cs.head? = some '0'
  · obtain ⟨cs, rfl⟩ : ∃ tail, cs = '0' :: tail := List.head?_eq_some_iff.mp hzero
    cases cs with
    | nil =>
      obtain ⟨rfl, rfl⟩ : ['0'] = ds ∧ [] = r := by simpa [wholeDigits, digits] using h
      cases rest with
      | nil => rfl
      | cons c rest => simp [wholeDigits, (hrest.head rfl).1]
    | cons c cs =>
      simp only [wholeDigits, Option.ite_none_left_eq_some, Option.some.injEq,
        Prod.mk.injEq] at h
      obtain ⟨hc, rfl, rfl⟩ := h
      simp [wholeDigits, hc]
  · rw [wholeDigits_of_ne hzero] at h
    have hne : cs ≠ [] := by
      rintro rfl
      simp [digits] at h
    rw [wholeDigits_of_ne (by simpa [List.head?_append_of_ne_nil _ hne] using hzero)]
    exact digits_append h hrest

theorem fractionDigits_append {ds : Option (List Char)} {r : List Char}
    (h : fractionDigits cs = some (ds, r)) (hrest : Delimited rest) :
    fractionDigits (cs ++ rest) = some (ds, r ++ rest) := by
  have hother : ∀ cs : List Char, cs.head? ≠ some '.' → fractionDigits cs = some (none, cs) := by
    intro cs hcs
    unfold fractionDigits
    split
    · exact absurd rfl hcs
    · rfl
  cases cs with
  | nil =>
    obtain ⟨rfl, rfl⟩ : none = ds ∧ [] = r := by simpa [fractionDigits] using h
    exact hother _ fun hc => (hrest.head hc).2.1 rfl
  | cons c cs =>
    by_cases hc : c = '.'
    · subst hc
      simp only [fractionDigits, Option.bind_eq_bind, Option.bind_eq_some_iff, Option.pure_def,
        Option.some.injEq, Prod.mk.injEq, Prod.exists] at h
      obtain ⟨ds', r', hds, rfl, rfl⟩ := h
      simp [fractionDigits, digits_append hds hrest]
    · rw [hother _ (by simpa using hc)] at h
      cases h
      rw [List.cons_append, hother _ (by simpa using hc)]

theorem exponentPart_append {e : Option Int} {r : List Char}
    (h : exponentPart cs = some (e, r)) (hrest : Delimited rest) :
    exponentPart (cs ++ rest) = some (e, r ++ rest) := by
  cases cs with
  | nil =>
    obtain ⟨rfl, rfl⟩ : none = e ∧ [] = r := by simpa [exponentPart] using h
    cases rest with
    | nil => rfl
    | cons c rest =>
      obtain ⟨-, -, he, hE⟩ := hrest.head rfl
      simp [exponentPart, he, hE]
  | cons c cs =>
    by_cases hc : (c == 'e' || c == 'E') = true
    · simp only [exponentPart, hc, if_true, List.cons_append] at h ⊢
      cases cs with
      | nil => simp [digits] at h
      | cons s cs =>
        simp only [Option.bind_eq_bind, Option.bind_eq_some_iff, Option.pure_def,
          Option.some.injEq, Prod.mk.injEq, Prod.exists] at h
        obtain ⟨ds, r', hds, rfl, rfl⟩ := h
        by_cases hminus : s = '-'
        · subst hminus
          replace hds : digits cs = some (ds, r') := hds
          simp [digits_append hds hrest]
        · by_cases hplus : s = '+'
          · subst hplus
            replace hds : digits cs = some (ds, r') := hds
            simp [digits_append hds hrest]
          · replace hds : digits (s :: cs) = some (ds, r') := by simpa [hminus, hplus] using hds
            have happend := digits_append hds hrest
            rw [List.cons_append] at happend
            simp [hminus, hplus, happend]
    · simp only [exponentPart, hc, List.cons_append] at h ⊢
      obtain ⟨rfl, rfl⟩ : none = e ∧ c :: cs = r := by simpa using h
      simp

/-- A number whose sign was read. -/
def unsigned (negative : Bool) (cs : List Char) : Option (Json × List Char) := do
  let (whole, cs) ← wholeDigits cs
  let (fraction, cs) ← fractionDigits cs
  let (exponent, cs) ← exponentPart cs
  return (numberValue negative whole fraction exponent, cs)

theorem number_minus (cs : List Char) : number ('-' :: cs) = unsigned true cs := rfl

theorem number_of_ne (h : cs.head? ≠ some '-') : number cs = unsigned false cs := by
  cases cs with
  | nil => rfl
  | cons c cs =>
    have hc : c ≠ '-' := by simpa using h
    simp [number, unsigned, hc]

theorem unsigned_append {negative : Bool} {v : Json} {r : List Char}
    (h : unsigned negative cs = some (v, r)) (hrest : Delimited rest) :
    unsigned negative (cs ++ rest) = some (v, r ++ rest) := by
  simp only [unsigned, Option.bind_eq_bind, Option.bind_eq_some_iff, Option.pure_def,
    Option.some.injEq, Prod.mk.injEq, Prod.exists] at h
  obtain ⟨whole, cs₁, hwhole, fraction, cs₂, hfraction, exponent, cs₃, hexponent, rfl, rfl⟩ := h
  simp [unsigned, wholeDigits_append hwhole hrest, fractionDigits_append hfraction hrest,
    exponentPart_append hexponent hrest]

/-- What is read as a number is read as that number, whatever it is that follows it. -/
theorem number_append {v : Json} {r : List Char} (h : number cs = some (v, r))
    (hrest : Delimited rest) : number (cs ++ rest) = some (v, r ++ rest) := by
  by_cases hminus : cs.head? = some '-'
  · obtain ⟨cs, rfl⟩ : ∃ tail, cs = '-' :: tail := List.head?_eq_some_iff.mp hminus
    exact unsigned_append h hrest
  · rw [number_of_ne hminus] at h
    have hne : cs ≠ [] := by
      rintro rfl
      simp [unsigned, wholeDigits, digits] at h
    rw [number_of_ne (by simpa [List.head?_append_of_ne_nil _ hne] using hminus)]
    exact unsigned_append h hrest

/-- A number begins with a digit or with its sign. -/
theorem number_head {v : Json} {r : List Char} (h : number cs = some (v, r)) :
    ∃ c tail, cs = c :: tail ∧ (c.isDigit = true ∨ c = '-') := by
  by_cases hminus : cs.head? = some '-'
  · obtain ⟨tail, rfl⟩ := List.head?_eq_some_iff.mp hminus
    exact ⟨'-', tail, rfl, .inr rfl⟩
  rw [number_of_ne hminus] at h
  simp only [unsigned, Option.bind_eq_bind, Option.bind_eq_some_iff, Prod.exists] at h
  obtain ⟨whole, cs₁, hwhole, -⟩ := h
  by_cases hzero : cs.head? = some '0'
  · obtain ⟨tail, rfl⟩ := List.head?_eq_some_iff.mp hzero
    exact ⟨'0', tail, rfl, .inl rfl⟩
  · rw [wholeDigits_of_ne hzero] at hwhole
    obtain ⟨rfl, hne, hds, -⟩ := digits_eq_some_iff.mp hwhole
    obtain ⟨d, ds, rfl⟩ := List.exists_cons_of_ne_nil hne
    exact ⟨d, ds ++ cs₁, rfl, .inl (hds d List.mem_cons_self)⟩

/-- The value of a text that is a number from end to end. -/
def wholeNumber (cs : List Char) : Option Json :=
  match number cs with
  | some (v, []) => some v
  | _ => none

theorem wholeNumber_eq_some_iff {v : Json} :
    wholeNumber cs = some v ↔ number cs = some (v, []) := by
  unfold wholeNumber
  split
  · rename_i w h
    simp [h]
  · rename_i h
    simpa using fun hv => h v hv

theorem digitsValue_toDigits (m : Nat) : digitsValue (Nat.toDigits 10 m) = m := by
  rw [digitsValue, ← Nat.ofDigitChars_eq_foldl]
  exact Nat.ofDigitChars_ten_toDigits

theorem head?_toDigits {m : Nat} (hm : 0 < m) : (Nat.toDigits 10 m).head? ≠ some '0' := by
  induction m using Nat.strong_induction_on with
  | _ m ih =>
    rcases Nat.lt_or_ge m 10 with hlt | hge
    · simpa [Nat.toDigits_of_lt_base hlt, Nat.digitChar_eq_zero] using hm.ne'
    · rw [Nat.toDigits_of_base_le (by decide) hge,
        List.head?_append_of_ne_nil _ Nat.toDigits_ne_nil]
      exact ih (m / 10) (by omega) (by omega)

/-- The digits of a number are read to their end. -/
theorem unsigned_toDigits (negative : Bool) (m : Nat) :
    unsigned negative (Nat.toDigits 10 m) =
      some (numberValue negative (Nat.toDigits 10 m) none none, []) := by
  have hwhole : wholeDigits (Nat.toDigits 10 m) = some (Nat.toDigits 10 m, []) := by
    rcases Nat.eq_zero_or_pos m with rfl | hm
    · decide
    · rw [wholeDigits_of_ne (head?_toDigits hm), digits_eq_some_iff]
      exact ⟨(List.append_nil _).symm, Nat.toDigits_ne_nil,
        fun c hc => Nat.isDigit_of_mem_toDigits (by decide) (by decide) hc, by simp⟩
  simp [unsigned, hwhole, fractionDigits, exponentPart]

/-- A whole number of 64 bits is read from its text. -/
theorem wholeNumber_integer {n : Int} (hlow : -2 ^ 63 ≤ n) (hhigh : n < 2 ^ 64) :
    wholeNumber (Json.integer n).scalarText.toList = some (.integer n) := by
  rw [wholeNumber_eq_some_iff]
  cases n with
  | ofNat m =>
    have htext : (Json.integer (.ofNat m)).scalarText.toList = Nat.toDigits 10 m := by
      show (toString m).toList = _
      rw [Nat.toString_eq_ofList_toDigits, String.toList_ofList]
    have hm : m < Nat.pow 2 64 := Int.ofNat_lt.mp hhigh
    have hhead : (Nat.toDigits 10 m).head? ≠ some '-' := by
      intro h
      have := Nat.isDigit_of_mem_toDigits (by decide) (by decide) (List.mem_of_head? h)
      cases this
    rw [htext, number_of_ne hhead, unsigned_toDigits]
    simp [numberValue, digitsValue_toDigits, hm]
  | negSucc m =>
    have htext : (Json.integer (.negSucc m)).scalarText.toList =
        '-' :: Nat.toDigits 10 (m + 1) := by
      show ("-" ++ toString (m + 1)).toList = _
      simp
    have hm : m + 1 ≤ Nat.pow 2 63 := by
      rw [Int.negSucc_eq] at hlow
      show m + 1 ≤ 2 ^ 63
      omega
    rw [htext, number_minus, unsigned_toDigits]
    have hlt : m + 1 < Nat.pow 2 64 := lt_of_le_of_lt hm (by decide)
    simp [numberValue, digitsValue_toDigits, hm, hlt, Int.negSucc_eq]

/-! ## Section 3: Strings -/

/-- The piece that a character is written as: a control character without an escape of its own is
    a unit. -/
def pieceOf (c : Char) : Piece :=
  if c < ' ' ∧ c ≠ '\n' ∧ c ≠ '\r' ∧ c ≠ '\t' ∧ c ≠ '\x08' ∧ c ≠ '\x0c' then .unit c.toNat
  else .char c

theorem hexValue?_digitChar : ∀ n < 16, hexValue? n.digitChar = some n := by decide

/-- The four digits of a control character. -/
theorem four_hex_digits : ∀ n < 32,
    List.replicate (4 - (Nat.toDigits 16 n).length) '0' ++ Nat.toDigits 16 n =
      ['0', '0', (n / 16).digitChar, (n % 16).digitChar] := by decide

/-- A character is read from what it is written as, as one piece. -/
theorem pieces_escapeChar (found : List Piece) (c : Char) (rest : List Char) :
    pieces found (escapeChar c ++ rest) = pieces (pieceOf c :: found) rest := by
  by_cases hnamed : c ∈ ['"', '\\', '\n', '\r', '\t', '\x08', '\x0c']
  · simp only [List.mem_cons, List.not_mem_nil, or_false] at hnamed
    rcases hnamed with rfl | rfl | rfl | rfl | rfl | rfl | rfl <;>
      simp [escapeChar, pieces, escapedChar?, pieceOf]
  · simp only [List.mem_cons, List.not_mem_nil, or_false, not_or] at hnamed
    obtain ⟨hquote, hslash, hn, hr, ht, hb, hf⟩ := hnamed
    by_cases hc : c < ' '
    · have hlt : c.toNat < 32 := hc
      have hdiv := hexValue?_digitChar (c.toNat / 16) (by omega)
      have hmod := hexValue?_digitChar (c.toNat % 16) (by omega)
      have hzero : hexValue? '0' = some 0 := by decide
      have hvalue : ((0 * 16 + 0) * 16 + c.toNat / 16) * 16 + c.toNat % 16 = c.toNat := by omega
      have hescape : escapeChar c =
          ['\\', 'u', '0', '0', (c.toNat / 16).digitChar, (c.toNat % 16).digitChar] := by
        simp [escapeChar, hquote, hslash, hn, hr, ht, hb, hf, hc, four_hex_digits _ hlt]
      have hpiece : pieceOf c = .unit c.toNat := by simp [pieceOf, hn, hr, ht, hb, hf, hc]
      simp only [hescape, hpiece, List.cons_append, List.nil_append, pieces, hzero, hdiv, hmod,
        Option.bind_eq_bind, Option.bind_some, hvalue]
    · have hescape : escapeChar c = [c] := by
        simp [escapeChar, hquote, hslash, hn, hr, ht, hb, hf, hc]
      have hpiece : pieceOf c = .char c := by simp [pieceOf, hc]
      rw [hescape, hpiece, List.singleton_append, pieces]
      · simp [hslash, hc]
      all_goals simp_all

theorem pieces_escaped (cs : List Char) (rest : List Char) (found : List Piece) :
    pieces found (cs.flatMap escapeChar ++ '"' :: rest) =
      some (found.reverse ++ cs.map pieceOf, rest) := by
  induction cs generalizing found with
  | nil => simp [pieces]
  | cons c cs ih =>
    rw [List.flatMap_cons, List.append_assoc, pieces_escapeChar, ih]
    simp

/-- A unit among the pieces of a written string is a control character. -/
theorem pieceOf_eq_unit {c : Char} {u : Nat} (h : pieceOf c = .unit u) :
    u = c.toNat ∧ u < 32 := by
  unfold pieceOf at h
  split at h
  · rename_i hc
    cases h
    exact ⟨rfl, hc.1⟩
  · cases h

theorem joined_cons_unit {u : Nat} (hu : u < 32) (rest : List Piece) :
    joined (.unit u :: rest) = (joined rest).map (Char.ofNat u :: ·) := by
  have hlead : isLead u = false := by simp [isLead]; omega
  have htrail : isTrail u = false := by simp [isTrail]; omega
  cases rest with
  | nil => simp [joined, hlead, htrail]
  | cons p rest => cases p <;> simp [joined, hlead, htrail]

/-- The pieces of a written string make up the string. -/
theorem joined_pieceOf (cs : List Char) : joined (cs.map pieceOf) = some cs := by
  induction cs with
  | nil => rfl
  | cons c cs ih =>
    rw [List.map_cons]
    cases hc : pieceOf c with
    | char d =>
      obtain rfl : c = d := by
        unfold pieceOf at hc
        split at hc
        · cases hc
        · exact Piece.char.inj hc
      simp [joined, ih]
    | unit u =>
      obtain ⟨rfl, hlt⟩ := pieceOf_eq_unit hc
      simp [joined_cons_unit hlt, ih, Char.ofNat_toNat]

theorem toList_quoted (s : String) :
    (quoted s).toList = '"' :: (s.toList.flatMap escapeChar ++ ['"']) :=
  String.toList_ofList

/-- A string is read from what it is written as. -/
theorem string_escaped (s : String) (rest : List Char) :
    string (s.toList.flatMap escapeChar ++ '"' :: rest) = some (some s, rest) := by
  simp [string, pieces_escaped, joined_pieceOf]

end FoamTray.Json.Reader
