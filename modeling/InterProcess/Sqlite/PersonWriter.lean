import InterProcess.Lib.Interaction
import Mathlib.Logic.Function.Basic

/-!
# `prepared_statement` and `person_writer`

The code calls SQLite and looks at the codes that come back. A call with its
code has an effect on what SQLite keeps: the two databases, the parameters
bound to the prepared statement, and whether the statement has been stepped
since it was last reset. How a database changes when the statement
`INSERT INTO people (name, age) VALUES (?, ?)` is carried out, and what its rows
are, is SQLite's (`Engine`).
-/

namespace InterProcess.Sqlite

open Function Interaction

/-- `SQLITE_OK`, `SQLITE_DONE`, `SQLITE_ROW`, or any other code. -/
inductive Code
  | ok
  | done
  | row
  | error
  deriving DecidableEq, Repr

inductive Handle
  | disk
  | memory
  deriving DecidableEq, Repr

inductive Value
  | int (value : Int32)
  | text (value : List Char)
  deriving DecidableEq

/-- The calls of SQLite functions. `backupInit` answers whether the backup object is null;
the calls on it name what it copies from and to. -/
inductive Call
  | bindInt (parameter : ℕ) (value : Int32)
  | bindText (parameter : ℕ) (value : List Char)
  | step
  | reset
  | backupInit (dest src : Handle)
  | backupStep (dest src : Handle)
  | backupFinish (dest src : Handle)
  | cacheflush (database : Handle)
  deriving DecidableEq

abbrev Calls (β : Type) := Interaction Call Code β

structure Person where
  name : List Char
  age : Int32

/-- A text as it is seen through a `const char *`. -/
def untilNul (text : List Char) : List Char := text.takeWhile (· ≠ '\x00')

namespace PreparedStatement

def setInt (index : ℕ) (value : Int32) : Calls Bool := do
  if (← perform (.bindInt (index + 1) value)) ≠ .ok then
    return false
  return true

def setText (index : ℕ) (value : List Char) : Calls Bool := do
  if (← perform (.bindText (index + 1) (untilNul value))) ≠ .ok then
    return false
  return true

def execute : Calls (Option Code) := do
  let code ← perform .step
  if code ≠ .done ∧ code ≠ .row then
    return none
  return some code

def reset : Calls Bool := do
  if (← perform .reset) ≠ .ok then
    return false
  return true

end PreparedStatement

open PreparedStatement

/-- `person_writer::write`; `none` when its assertion fails. -/
def write (asserts : Bool) (person : Person) : Calls (Option Bool) := do
  if !(← setInt 0 person.age) then
    return some false
  if !(← setText 1 person.name) then
    return some false
  match ← execute with
  | none => return some false
  | some code =>
    if asserts && code ≠ .done then
      return none
    -- a failed reset is only reported
    let _ ← reset
    return some true

/-! ## What SQLite keeps -/

/-- What a statement inserts into a database, and the rows of a database. -/
structure Engine (Database Rows : Type) where
  insert : (ℕ → Option Value) → Database → Database
  rows : Database → Rows

structure Store (Database : Type) where
  disk : Database
  memory : Database
  parameters : ℕ → Option Value
  stepped : Bool

variable {Database Rows : Type}

def Store.get (σ : Store Database) : Handle → Database
  | .disk => σ.disk
  | .memory => σ.memory

def Store.set (σ : Store Database) (database : Database) : Handle → Store Database
  | .disk => { σ with disk := database }
  | .memory => { σ with memory := database }

/-- The effect of a call that returned the code. The statement is one on the database in
memory. A backup is carried out when it is finished successfully; else it has no effect. -/
def effect (e : Engine Database Rows) (σ : Store Database) : Call × Code → Store Database
  | (.bindInt parameter value, .ok) =>
      { σ with parameters := update σ.parameters parameter (some (.int value)) }
  | (.bindText parameter value, .ok) =>
      { σ with parameters := update σ.parameters parameter (some (.text value)) }
  | (.step, .done) =>
      { σ with memory := e.insert σ.parameters σ.memory, stepped := true }
  | (.step, _) => { σ with stepped := true }
  | (.reset, _) => { σ with stepped := false }
  | (.backupFinish dest src, .ok) => σ.set (σ.get src) dest
  | _ => σ

/-- The store after the calls of a run. -/
def Store.after (e : Engine Database Rows) (σ : Store Database) (trace : List (Call × Code)) :
    Store Database := trace.foldl (effect e) σ

end InterProcess.Sqlite
