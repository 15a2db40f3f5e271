import InterProcess.Kaleidoscope.Tokenise
import Mathlib.Data.Nat.Digits.Defs
import Mathlib.Tactic.FieldSimp
import Mathlib.Tactic.Ring

/-!
# The value of a numeral

Lexed with rational numbers, a numeral is the number it denotes in decimal
notation, and the character after it is pending. `lex_number` adds up the digits
before the `.` by Horner's rule and those after it with a factor that goes down
by ten each time.

A numeral that starts with the digit 0 is ruled out by an assert; without
asserts it is lexed like the others.
-/

namespace InterProcess.Kaleidoscope

/-- The number a row of digits denotes. -/
def decimal (digits : List Int8) : ℕ := Nat.ofDigits 10 (digits.map toDigit).reverse

theorem decimal_nil : decimal [] = 0 := rfl

theorem decimal_cons (ch : Int8) (digits : List Int8) :
    decimal (ch :: digits) = decimal digits + 10 ^ digits.length * toDigit ch := by
  rw [decimal, List.map_cons, Nat.ofDigits_reverse_cons, List.length_map]
  rfl

/-- Digits with an optional `.` and digits after it, or a `.` and digits. -/
structure Numeral where
  digits : List Int8
  fraction : Option (List Int8)
  isdigit_digits : ∀ ch ∈ digits, isdigit ch = true
  isdigit_fraction : ∀ ch ∈ fraction.getD [], isdigit ch = true
  ne_nil : digits ++ fraction.getD [] ≠ []

namespace Numeral

/-- How the numeral is written. -/
def text (numeral : Numeral) : List Int8 :=
  match numeral.fraction with
  | none => numeral.digits
  | some fraction => numeral.digits ++ char '.' :: fraction

/-- The number it denotes. -/
def value (numeral : Numeral) : ℚ :=
  (decimal numeral.digits : ℚ) +
    (decimal (numeral.fraction.getD []) : ℚ) / 10 ^ (numeral.fraction.getD []).length

end Numeral

/-! ## The digit loops -/

theorem foldl_addDigit (num : ℚ) (digits : List Int8) :
    digits.foldl addDigit num = num * 10 ^ digits.length + decimal digits := by
  induction digits generalizing num with
  | nil => simp [decimal_nil]
  | cons ch digits ih =>
      have hstep : addDigit num ch = num * 10 + (toDigit ch : ℚ) := rfl
      rw [List.foldl_cons, ih, hstep, decimal_cons, List.length_cons]
      push_cast
      ring

theorem foldl_addFraction (factor num : ℚ) (fraction : List Int8) :
    (fraction.foldl addFraction (factor, num)).2 =
      num + factor * (decimal fraction / 10 ^ fraction.length) := by
  induction fraction generalizing factor num with
  | nil => simp [decimal_nil]
  | cons ch fraction ih =>
      have hstep : addFraction (factor, num) ch =
          (factor / 10, num + factor / 10 * (toDigit ch : ℚ)) := rfl
      rw [List.foldl_cons, hstep, ih, decimal_cons, List.length_cons]
      push_cast
      field_simp
      ring

/-! ## The numeral -/

section Numeral

variable (asserts : Bool) {numeral : Numeral} {c : Int8} {cursor : Cursor} {reader : List Int8}

theorem Numeral.numeralValue_eq (numeral : Numeral) :
    numeralValue numeral.text = numeral.value := by
  obtain ⟨digits, fraction, hdigits, hfraction, hne⟩ := numeral
  cases fraction with
  | none =>
      refine (numeralValue_integer hdigits).trans ?_
      rw [foldl_addDigit]
      simp [Numeral.value, decimal_nil]
  | some fraction =>
      refine (numeralValue_decimal hdigits fraction).trans ?_
      rw [foldl_addFraction, foldl_addDigit]
      simp [Numeral.value]

theorem lexNumber_text (hdigit : isdigit c = false) (hdot : c ≠ char '.')
    (hzero : asserts = true → ¬ ZeroLed numeral.text)
    (h : cursor.last :: cursor.reader = numeral.text ++ c :: reader) :
    lexNumber asserts cursor = some (numeral.value, ⟨c, reader⟩) := by
  rw [← numeral.numeralValue_eq]
  obtain ⟨digits, fraction, hdigits, hfraction, hne⟩ := numeral
  cases fraction with
  | none => exact lexNumber_integer asserts hdigits hdigit hdot hzero h
  | some fraction => exact lexNumber_decimal asserts hdigits hfraction hdigit hzero h

/-- A numeral starts with a digit or with its `.`. -/
theorem Numeral.exists_cons (numeral : Numeral) :
    ∃ ch body, numeral.text = ch :: body ∧ (isdigit ch || ch = char '.') = true := by
  obtain ⟨digits, fraction, hdigits, hfraction, hne⟩ := numeral
  cases digits with
  | cons ch digits =>
      have hch : (isdigit ch || ch = char '.') = true := by simp [hdigits ch List.mem_cons_self]
      cases fraction with
      | none => exact ⟨ch, digits, rfl, hch⟩
      | some fraction => exact ⟨ch, digits ++ char '.' :: fraction, rfl, hch⟩
  | nil =>
      cases fraction with
      | none => exact absurd rfl hne
      | some fraction => exact ⟨char '.', fraction, rfl, rfl⟩

/-- The assert looks at the first digit. -/
theorem lexNumber_zeroLed (hzero : ZeroLed numeral.text)
    (h : cursor.last :: cursor.reader = numeral.text ++ c :: reader) :
    lexNumber (D := ℚ) true cursor = none := by
  obtain ⟨last, reader'⟩ := cursor
  obtain ⟨ch, body, htext, -⟩ := numeral.exists_cons
  rw [htext] at h hzero
  obtain ⟨rfl, -⟩ := List.cons.inj h
  obtain rfl : last = char '0' := Option.some.inj hzero
  rfl

theorem skipWhitespace_append {blanks : List Int8} (hblanks : ∀ ch ∈ blanks, isspace ch = true)
    {last ch : Int8} {reader body : List Int8} (hch : isspace ch = false)
    (h : last :: reader = blanks ++ ch :: body) :
    skipWhitespace last reader = (true, ⟨ch, body⟩) := by
  induction blanks generalizing last reader with
  | nil =>
      obtain ⟨rfl, rfl⟩ := List.cons.inj h
      exact skipWhitespace_of_not_space _ hch
  | cons blank blanks ih =>
      obtain ⟨rfl, rfl⟩ := List.cons.inj h
      obtain ⟨next, rest, hrest⟩ : ∃ next rest, blanks ++ ch :: body = next :: rest :=
        List.exists_cons_of_ne_nil (by simp)
      show skipWhitespace last (blanks ++ ch :: body) = _
      rw [hrest, skipWhitespace, if_pos (hblanks last List.mem_cons_self)]
      exact ih (fun d hd => hblanks d (List.mem_cons_of_mem _ hd)) hrest.symm

/-- `get_token` on a numeral behind whitespace. -/
theorem getToken_text {blanks : List Int8} (hblanks : ∀ ch ∈ blanks, isspace ch = true)
    (h : cursor.last :: cursor.reader = blanks ++ (numeral.text ++ c :: reader)) :
    ∃ start : Cursor, start.last :: start.reader = numeral.text ++ c :: reader ∧
      getToken (D := ℚ) asserts cursor =
        (lexNumber asserts start).map fun (value, after) => (some (.number value), after) := by
  obtain ⟨ch, body, htext, hch⟩ := numeral.exists_cons
  rw [htext] at h
  have hreader : cursor.reader ≠ [] := by
    intro hnil
    have hlength := congrArg List.length h
    simp only [hnil, List.length_append, List.length_cons, List.length_nil] at hlength
    omega
  have hskip := skipWhitespace_append hblanks (isspace_of_numeral hch) h
  exact ⟨⟨ch, body ++ c :: reader⟩, by rw [htext]; rfl,
    getToken_numeral asserts hreader hskip hch⟩

end Numeral

/-- A numeral that is followed by another character is lexed as the number it denotes, with
that character pending, unless an assert is there to rule out its first digit. -/
theorem lexNumber_numeral (asserts : Bool) (numeral : Numeral) (c : Int8) (reader : List Int8)
    (hdigit : isdigit c = false) (hdot : c ≠ char '.') :
    (∀ cursor : Cursor, cursor.last :: cursor.reader = numeral.text ++ c :: reader →
      lexNumber asserts cursor =
        if asserts = true ∧ ZeroLed numeral.text then none
        else some (numeral.value, ⟨c, reader⟩)) ∧
    ∀ (blanks : List Int8) (cursor : Cursor), (∀ ch ∈ blanks, isspace ch = true) →
      cursor.last :: cursor.reader = blanks ++ (numeral.text ++ c :: reader) →
        getToken asserts cursor =
          if asserts = true ∧ ZeroLed numeral.text then none
          else some (some (.number numeral.value), ⟨c, reader⟩) := by
  have hnumber : ∀ cursor : Cursor, cursor.last :: cursor.reader = numeral.text ++ c :: reader →
      lexNumber asserts cursor =
        if asserts = true ∧ ZeroLed numeral.text then none
        else some (numeral.value, ⟨c, reader⟩) := by
    intro cursor h
    split
    · next hzero =>
        obtain ⟨rfl, hzero⟩ := hzero
        exact lexNumber_zeroLed hzero h
    · next hzero => exact lexNumber_text asserts hdigit hdot (fun ha hz => hzero ⟨ha, hz⟩) h
  refine ⟨hnumber, fun blanks cursor hblanks h => ?_⟩
  obtain ⟨start, hstart, hget⟩ := getToken_text asserts hblanks h
  rw [hget, hnumber start hstart]
  split <;> rfl

/-- `12.5` in front of a semicolon. -/
def twelveAndAHalf : Numeral where
  digits := Kaleidoscope.text "12"
  fraction := some (Kaleidoscope.text "5")
  isdigit_digits := List.all_eq_true.mp rfl
  isdigit_fraction := List.all_eq_true.mp rfl
  ne_nil := by decide

theorem lexNumber_numeral_semicolon :
    lexNumber true ⟨char '1', text "2.5; x"⟩ =
      some (twelveAndAHalf.value, (⟨char ';', text " x"⟩ : Cursor)) :=
  (lexNumber_numeral true twelveAndAHalf (char ';') (text " x") rfl (by decide)).1
    ⟨char '1', text "2.5; x"⟩ (by decide)

/-- The numeral `0`. -/
def zeroNumeral : Numeral where
  digits := Kaleidoscope.text "0"
  fraction := none
  isdigit_digits := List.all_eq_true.mp rfl
  isdigit_fraction := List.all_eq_true.mp rfl
  ne_nil := by decide

theorem not_lexNumber_numeral : ¬∀ (numeral : Numeral) (c : Int8) (reader : List Int8)
    (cursor : Cursor), isdigit c = false → c ≠ char '.' →
    cursor.last :: cursor.reader = numeral.text ++ c :: reader →
      lexNumber true cursor = some (numeral.value, ⟨c, reader⟩) := by
  intro h
  have hzero := h zeroNumeral (char ';') [] ⟨char '0', [char ';']⟩ rfl (by decide) rfl
  cases hzero

end InterProcess.Kaleidoscope
