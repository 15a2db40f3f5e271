import InterProcess.Lib.Lts
import InterProcess.Sqlite.PersonWriter

/-!
# `sql_database`

A database on disk and one in memory. `load_into_memory` copies the first over
the second and `flush_to_disk` the second over the first, both by
`copy_content`; `write_person` inserts into the one in memory.

`copy_content` reports a failure wherever a call fails. `load_into_memory_impl`
then prints a message and returns `true` all the same, so a load that reported
success may have copied nothing: `transfers_truthful_iff`.
-/

namespace InterProcess.Sqlite

open Interaction Lts

/-- `copy_content(src_handle, dest_handle)`. -/
def copyContent (src dest : Handle) : Calls Bool := do
  if (← perform (.backupInit dest src)) ≠ .ok then
    return false
  if (← perform (.backupStep dest src)) ≠ .done then
    return false
  if (← perform (.backupFinish dest src)) ≠ .ok then
    return false
  return true

def loadIntoMemoryImpl : Calls Bool := do
  if !(← copyContent .disk .memory) then
    return true
  return true

def flushToDisk : Calls Bool := do
  if !(← copyContent .memory .disk) then
    return false
  if (← perform (.cacheflush .disk)) ≠ .ok then
    return false
  return true

/-- The calls on an opened `sql_database`. -/
inductive Request
  | loadIntoMemory
  | flushToDisk
  | writePerson (person : Person)

/-- The code of a request; `none` when an assertion fails. -/
def Request.code (asserts : Bool) : Request → Calls (Option Bool)
  | .loadIntoMemory => return some (← loadIntoMemoryImpl)
  | .flushToDisk => return some (← Sqlite.flushToDisk)
  | .writePerson person => write asserts person

/-- A request that has been carried out: the codes its calls got, and its result. -/
structure Served (asserts : Bool) where
  request : Request
  trace : List (Call × Code)
  result : Option Bool
  runs : Runs (request.code asserts) trace result

/-! ## What a copy does -/

section Copy

variable {Database Rows : Type} {e : Engine Database Rows} {σ : Store Database}
  {src dest : Handle} {trace : List (Call × Code)} {ok : Bool}

/-- The codes of a copy that is carried out. -/
def copied (src dest : Handle) : List (Call × Code) :=
  [(.backupInit dest src, .ok), (.backupStep dest src, .done), (.backupFinish dest src, .ok)]

/-- A copy that is reported was carried out. -/
theorem copyContent_true (h : Runs (copyContent src dest) trace true) :
    trace = copied src dest := by
  rcases runs_expect.mp h with ⟨code, -, -, hfalse⟩ | ⟨rest, rfl, h₁⟩
  · cases hfalse
  rcases runs_expect.mp h₁ with ⟨code, -, -, hfalse⟩ | ⟨rest, rfl, h₂⟩
  · cases hfalse
  rcases runs_expect.mp h₂ with ⟨code, -, -, hfalse⟩ | ⟨rest, rfl, h₃⟩
  · cases hfalse
  · obtain ⟨rfl, -⟩ := runs_pure.mp h₃
    rfl

/-- A copy that fails has no effect. -/
theorem copyContent_false (h : Runs (copyContent src dest) trace false) :
    σ.after e trace = σ := by
  rcases runs_expect.mp h with ⟨code, -, rfl, -⟩ | ⟨rest, rfl, h₁⟩
  · rfl
  rcases runs_expect.mp h₁ with ⟨code, -, rfl, -⟩ | ⟨rest, rfl, h₂⟩
  · rfl
  rcases runs_expect.mp h₂ with ⟨code, hcode, rfl, -⟩ | ⟨rest, rfl, h₃⟩
  · cases code with
    | ok => exact absurd rfl hcode
    | done | row | error => rfl
  · obtain ⟨-, hfalse⟩ := runs_pure.mp h₃
    cases hfalse

end Copy

/-! ## Sessions -/

section Sessions

variable {Database Rows : Type} {e : Engine Database Rows} {asserts : Bool}
  {σ : Store Database} {x : Served asserts}

/-- A session is a list of requests carried out one after the other; a failed assertion
ends it. -/
def step (e : Engine Database Rows) (σ : Store Database) (x : Served asserts) :
    Option (Store Database) := x.result.map fun _ => σ.after e x.trace

def Request.isTransfer : Request → Bool
  | .loadIntoMemory | .flushToDisk => true
  | .writePerson _ => false

/-- Right after a transfer that returned `true` the two databases have the same rows. -/
def Truthful (e : Engine Database Rows) (σ : Store Database) (x : Served asserts) : Prop :=
  x.request.isTransfer = true → x.result = some true →
    e.rows (σ.after e x.trace).memory = e.rows (σ.after e x.trace).disk

/-- The calls of a load succeed, or there is nothing to load. -/
def LoadOk (e : Engine Database Rows) (σ : Store Database) (x : Served asserts) : Prop :=
  x.request = .loadIntoMemory →
    x.trace = copied .disk .memory ∨ e.rows σ.memory = e.rows σ.disk

/-- A load returns `true` whatever becomes of the copy. -/
theorem loadIntoMemory_runs {trace : List (Call × Code)} {result : Option Bool}
    (h : Runs (Request.code asserts .loadIntoMemory) trace result) :
    result = some true ∧ ∃ ok, Runs (copyContent .disk .memory) trace ok := by
  obtain ⟨loaded, first, rest, rfl, hload, hresult⟩ := runs_bind.mp h
  obtain ⟨rfl, rfl⟩ := runs_pure.mp hresult
  rw [List.append_nil]
  rcases runs_check.mp hload with ⟨hcopy, rfl⟩ | ⟨copy, rest, rfl, hcopy, hrest⟩
  · exact ⟨rfl, false, hcopy⟩
  · obtain ⟨rfl, rfl⟩ := runs_pure.mp hrest
    rw [List.append_nil]
    exact ⟨rfl, true, hcopy⟩

/-- A flush returns `true` only when the copy was carried out. -/
theorem flushToDisk_runs {trace : List (Call × Code)}
    (h : Runs (Request.code asserts .flushToDisk) trace (some true)) :
    trace = copied .memory .disk ++ [(.cacheflush .disk, .ok)] := by
  obtain ⟨flushed, first, rest, rfl, hflush, hresult⟩ := runs_bind.mp h
  obtain ⟨rfl, hflushed⟩ := runs_pure.mp hresult
  obtain rfl : true = flushed := Option.some.inj hflushed
  rw [List.append_nil]
  rcases runs_check.mp hflush with ⟨-, hfalse⟩ | ⟨copy, rest, rfl, hcopy, hrest⟩
  · cases hfalse
  rcases runs_expect.mp hrest with ⟨code, -, -, hfalse⟩ | ⟨rest, rfl, hdone⟩
  · cases hfalse
  · obtain ⟨rfl, -⟩ := runs_pure.mp hdone
    rw [copyContent_true hcopy]

/-- A load is truthful when the copy was carried out, or was of no use. -/
theorem truthful_load (h : x.request = .loadIntoMemory) :
    Truthful e σ x ↔ LoadOk e σ x := by
  obtain ⟨request, trace, result, hruns⟩ := x
  obtain rfl : request = .loadIntoMemory := h
  obtain ⟨rfl, ok, hcopy⟩ := loadIntoMemory_runs hruns
  have hsame : e.rows (σ.after e (copied .disk .memory)).memory =
      e.rows (σ.after e (copied .disk .memory)).disk := rfl
  constructor
  · intro h _
    cases ok with
    | true => exact .inl (copyContent_true hcopy)
    | false =>
        have hrows := h rfl rfl
        rw [copyContent_false hcopy] at hrows
        exact .inr hrows
  · intro h _ _
    show e.rows (σ.after e trace).memory = e.rows (σ.after e trace).disk
    rcases h rfl with rfl | hrows
    · exact hsame
    · cases ok with
      | true => rw [copyContent_true hcopy]; exact hsame
      | false => rw [copyContent_false hcopy]; exact hrows

theorem truthful_flush (h : x.request = .flushToDisk) : Truthful e σ x := by
  obtain ⟨request, trace, result, hruns⟩ := x
  obtain rfl : request = .flushToDisk := h
  intro _ hresult
  obtain rfl : result = some true := hresult
  obtain rfl := flushToDisk_runs hruns
  rfl

theorem truthful_iff_loadOk (e : Engine Database Rows) (σ : Store Database)
    (x : Served asserts) : Truthful e σ x ↔ LoadOk e σ x := by
  cases h : x.request with
  | loadIntoMemory => exact truthful_load h
  | flushToDisk =>
      refine iff_of_true (truthful_flush h) fun hload => ?_
      rw [h] at hload
      cases hload
  | writePerson person =>
      refine iff_of_true (fun htransfer => ?_) fun hload => ?_
      · rw [h] at htransfer
        cases htransfer
      · rw [h] at hload
        cases hload

/-- In a session every transfer that returned `true` has left the two databases with the same
rows iff every load was carried out or found the same rows in both. -/
theorem transfers_truthful_iff (e : Engine Database Rows) (asserts : Bool) (σ : Store Database)
    (session : List (Served asserts)) :
    StepsMeet (step e) (Truthful e) σ session ↔ StepsMeet (step e) (LoadOk e) σ session := by
  have hiff : (Truthful e : Store Database → Served asserts → Prop) = LoadOk e := by
    funext σ x
    exact propext (truthful_iff_loadOk e σ x)
  rw [hiff]

/-- The table `people`: a row has a name and an age. -/
def people : Engine (List (Option Value × Option Value)) (List (Option Value × Option Value)) where
  insert := fun parameters rows => rows ++ [(parameters 1, parameters 2)]
  rows := id

/-- A load whose backup cannot be initialised. -/
def failedLoad (asserts : Bool) : Served asserts where
  request := .loadIntoMemory
  trace := [(.backupInit .memory .disk, .error)]
  result := some true
  runs := .ask (.done _)

theorem not_truthful_load : ¬∀ (asserts : Bool)
    (σ : Store (List (Option Value × Option Value))) (session : List (Served asserts)),
    StepsMeet (step people) (Truthful people) σ session := by
  intro h
  have hload := h true ⟨[(some (.text ['a']), some (.int 1))], [], fun _ => none, false⟩
    [failedLoad true] _ rfl
  exact absurd (hload.1 rfl rfl) (by decide)

end Sessions

end InterProcess.Sqlite
