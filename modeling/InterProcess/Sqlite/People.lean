import InterProcess.Sqlite.Attempts
import Mathlib.Data.List.TakeWhile

/-!
# The table `people`

The query names the columns `name` and `age` in this order, so its first
parameter is the name and its second the age; `write` binds the age to the first
and the name to the second. Each row therefore holds the age in the column
`name`, as a numeral since the column is one of texts, and the name in the column
`age`, as an integer if it is the numeral of one.

A row is that of its person iff the name is the numeral of the age:
`people_eq_iff`.
-/

namespace InterProcess.Sqlite

open Interaction

/-- A value as it is stored. -/
inductive Cell
  | integer (value : ℤ)
  | real (bits : UInt64)
  | text (value : List Char)
  deriving DecidableEq

/-- The text an integer is converted to. -/
def numeral (value : Int32) : List Char := (toString value.toInt).toList

/-- How values are converted when they are stored in a column declared `TEXT` and in one
declared `INTEGER`: what is documented of it for the values used here. -/
structure Affinity where
  text : Value → Cell
  integer : Value → Cell
  text_int : ∀ value, text (.int value) = .text (numeral value)
  text_text : ∀ value, text (.text value) = .text value
  integer_int : ∀ value, integer (.int value) = .integer value.toInt
  integer_numeral : ∀ value, integer (.text (numeral value)) = .integer value.toInt

/-- `name TEXT NOT NULL, age INTEGER NOT NULL`. -/
structure Row where
  name : Cell
  age : Cell
  deriving DecidableEq

/-- `INSERT INTO people (name, age) VALUES (?, ?)`: the first parameter goes to the column `name`
and the second to `age`. A parameter that is not bound is null, and inserts nothing. -/
def insertInto (affinity : Affinity) (parameters : ℕ → Option Value) (rows : List Row) :
    List Row :=
  match parameters 1, parameters 2 with
  | some first, some second => rows ++ [⟨affinity.text first, affinity.integer second⟩]
  | _, _ => rows

def peopleTable (affinity : Affinity) : Engine (List Row) (List Row) where
  insert := insertInto affinity
  rows := id

/-- The row of a person. -/
def Person.row (person : Person) : Row := ⟨.text person.name, .integer person.age.toInt⟩

/-- The row `write` inserts. -/
def Person.written (affinity : Affinity) (person : Person) : Row :=
  ⟨affinity.text (.int person.age), affinity.integer (.text (untilNul person.name))⟩

/-- A write all calls of which succeed. -/
def Attempt.succeeding (person : Person) : Attempt := ⟨person, .done, .ok⟩

section People

variable {affinity : Affinity} {asserts : Bool}

theorem nul_not_mem_numeral (value : Int32) : '\x00' ∉ numeral value := by
  have hdigits : ∀ n : ℕ, '\x00' ∉ n.repr.toList := by
    intro n hmem
    rw [Nat.toList_repr] at hmem
    have hdigit := Nat.isDigit_of_mem_toDigits (by decide) (by decide) hmem
    cases hdigit
  unfold numeral
  rw [Int.toString_eq_repr]
  cases value.toInt with
  | ofNat n => exact hdigits n
  | negSucc n =>
      show '\x00' ∉ ("-" ++ (n + 1).repr).toList
      rw [String.toList_append, List.mem_append]
      exact not_or.mpr ⟨by simp, hdigits (n + 1)⟩

theorem untilNul_numeral (value : Int32) : untilNul (numeral value) = numeral value := by
  refine List.takeWhile_eq_self_iff.mpr fun ch hch => ?_
  rw [decide_eq_true_iff]
  rintro rfl
  exact nul_not_mem_numeral value hch

/-- The row inserted is the person's iff the name is the numeral of the age. -/
theorem written_eq_row_iff (person : Person) :
    person.written affinity = person.row ↔ person.name = numeral person.age := by
  rw [Person.written, Person.row, affinity.text_int, Row.mk.injEq, Cell.text.injEq]
  constructor
  · rintro ⟨hname, -⟩
    exact hname.symm
  · intro hname
    rw [hname, untilNul_numeral, affinity.integer_numeral]
    exact ⟨rfl, rfl⟩

theorem attempt_succeeding {σ : Store (List Row)} (hready : σ.stepped = false) (person : Person) :
    attempt (peopleTable affinity) asserts σ (.succeeding person) =
      some { σ with
        memory := σ.memory ++ [person.written affinity]
        parameters := σ.bound person } := by
  unfold attempt
  rw [perform_of_done hready rfl]
  rfl

/-- One row for each person, in order. -/
theorem run_succeeding (affinity : Affinity) (asserts : Bool) (persons : List Person)
    {σ : Store (List Row)} (hready : σ.stepped = false) :
    ∃ σ', Lts.run (attempt (peopleTable affinity) asserts) σ (persons.map .succeeding) =
        some σ' ∧
      σ'.memory = σ.memory ++ persons.map (Person.written affinity) := by
  induction persons generalizing σ with
  | nil => exact ⟨σ, rfl, (List.append_nil _).symm⟩
  | cons person persons ih =>
      obtain ⟨σ', hrun, hmemory⟩ := ih (σ := { σ with
        memory := σ.memory ++ [person.written affinity]
        parameters := σ.bound person }) hready
      refine ⟨σ', ?_, ?_⟩
      · rw [List.map_cons, Lts.run_cons, attempt_succeeding hready]
        exact hrun
      · rw [hmemory, List.map_cons, List.append_assoc, List.singleton_append]

end People

/-- When all calls succeed, the table gets the rows of the persons iff each name is the numeral
of the age. -/
theorem people_eq_iff (affinity : Affinity) (asserts : Bool) (disk memory : List Row)
    (persons : List Person) :
    ∃ σ, Lts.run (attempt (peopleTable affinity) asserts) (.prepared disk memory)
        (persons.map .succeeding) = some σ ∧
      (σ.memory = memory ++ persons.map Person.row ↔
        ∀ person ∈ persons, person.name = numeral person.age) := by
  obtain ⟨σ, hrun, hmemory⟩ :=
    run_succeeding affinity asserts persons (σ := .prepared disk memory) rfl
  refine ⟨σ, hrun, ?_⟩
  rw [hmemory]
  show memory ++ _ = memory ++ _ ↔ _
  rw [List.append_cancel_left_eq, List.map_inj_left]
  exact forall₂_congr fun person _ => written_eq_row_iff person

/-! ## A person whose name is not a numeral -/

/-- The number some digits stand for. -/
def readDigits (digits : List Char) : Option ℕ :=
  if digits ≠ [] ∧ digits.all Char.isDigit = true then some (Nat.ofDigitChars 10 digits 0)
  else none

/-- The integer a text is the numeral of. -/
def readNumeral : List Char → Option ℤ
  | '-' :: digits => (readDigits digits).map fun n : ℕ => -(n : ℤ)
  | digits => (readDigits digits).map fun n : ℕ => (n : ℤ)

theorem readDigits_toDigits (n : ℕ) : readDigits (Nat.toDigits 10 n) = some n := by
  have hdigits : (Nat.toDigits 10 n).all Char.isDigit = true :=
    List.all_eq_true.mpr fun _ => Nat.isDigit_of_mem_toDigits (by decide) (by decide)
  rw [readDigits, if_pos ⟨Nat.toDigits_ne_nil, hdigits⟩, Nat.ofDigitChars_ten_toDigits]

theorem readNumeral_digits {digits : List Char} {n : ℕ} (h : readDigits digits = some n) :
    readNumeral digits = some (n : ℤ) := by
  unfold readNumeral
  split
  · next digits =>
      rw [readDigits, if_neg] at h
      · cases h
      · rintro ⟨-, hdigits⟩
        exact absurd (List.all_eq_true.mp hdigits '-' List.mem_cons_self) (by decide)
  · rw [h, Option.map_some]

theorem readNumeral_numeral (value : Int32) : readNumeral (numeral value) = some value.toInt := by
  unfold numeral
  rw [Int.toString_eq_repr]
  cases value.toInt with
  | ofNat n =>
      show readNumeral n.repr.toList = _
      rw [Nat.toList_repr, readNumeral_digits (readDigits_toDigits n)]
      rfl
  | negSucc n =>
      show readNumeral ("-" ++ (n + 1).repr).toList = _
      have hsign : "-".toList = ['-'] := by simp
      rw [String.toList_append, Nat.toList_repr, hsign]
      show (readDigits (Nat.toDigits 10 (n + 1))).map _ = _
      rw [readDigits_toDigits]
      rfl

/-- A column of texts. -/
def textCell : Value → Cell
  | .int value => .text (numeral value)
  | .text value => .text value

/-- A column of integers, where no text but the numeral of an integer is converted. -/
def integerCell : Value → Cell
  | .int value => .integer value.toInt
  | .text value => ((readNumeral value).map Cell.integer).getD (.text value)

theorem integerCell_numeral (value : Int32) :
    integerCell (.text (numeral value)) = .integer value.toInt := by
  rw [integerCell, readNumeral_numeral]
  rfl

def numerals : Affinity where
  text := textCell
  integer := integerCell
  text_int := fun _ => rfl
  text_text := fun _ => rfl
  integer_int := fun _ => rfl
  integer_numeral := integerCell_numeral

/-- Tom gets the age `Tom` and the name `26`. -/
theorem not_people_eq : ¬∀ (affinity : Affinity) (asserts : Bool) (disk memory : List Row)
    (persons : List Person) (σ : Store (List Row)),
    Lts.run (attempt (peopleTable affinity) asserts) (.prepared disk memory)
        (persons.map .succeeding) = some σ →
      σ.memory = memory ++ persons.map Person.row := by
  intro h
  obtain ⟨σ, hrun, hmemory⟩ :=
    run_succeeding numerals true [tom] (σ := .prepared [] []) rfl
  have hrow := hmemory.symm.trans (h numerals true [] [] [tom] σ hrun)
  have hname := (written_eq_row_iff tom).mp (List.singleton_inj.mp hrow)
  exact absurd (congrArg List.length hname) (by decide)

end InterProcess.Sqlite
