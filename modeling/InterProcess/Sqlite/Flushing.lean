import InterProcess.Sqlite.Database
import InterProcess.Sqlite.People

/-!
# What a flush leaves on disk

A request on an opened `sql_database` is carried out as a whole or not at all,
whatever its calls return: a write inserts one row or none, a load or a flush
copies all of a database or nothing. `Tables` are the two databases at that
level, and `tables_run` says that a session is one of `Tables`.

What its caller is told is less: a load returns `true` either way, and a flush
may have copied the database and still return `false`. But a flush that returns
`true` has left on disk what was in memory when it was last loaded, and after it
one row for each write that has returned `true` since: `flush_persists`.
-/

namespace InterProcess.Sqlite

open Interaction Lts

/-- The rows of the two databases. -/
structure Tables where
  disk : List Row
  memory : List Row

/-- What a request has done to them. -/
inductive Effect
  | wrote (person : Person)
  | loaded
  | flushed
  | nothing

def Tables.apply (affinity : Affinity) (tables : Tables) : Effect → Tables
  | .wrote person => { tables with memory := tables.memory ++ [person.written affinity] }
  | .loaded => { tables with memory := tables.disk }
  | .flushed => { tables with disk := tables.memory }
  | .nothing => tables

def Store.tables (σ : Store (List Row)) : Tables := ⟨σ.disk, σ.memory⟩

section Effects

variable {asserts : Bool}

/-- The call that carries a request out, and what it does then. -/
def Request.outcome : Request → (Call × Code) × Effect
  | .writePerson person => ((.step, .done), .wrote person)
  | .loadIntoMemory => ((.backupFinish .memory .disk, .ok), .loaded)
  | .flushToDisk => ((.backupFinish .disk .memory, .ok), .flushed)

def Served.effect (x : Served asserts) : Effect :=
  if x.request.outcome.1 ∈ x.trace then x.request.outcome.2 else .nothing

/-- The person whose write has returned `true`. -/
def Served.written (x : Served asserts) : Option Person :=
  match x.request with
  | .writePerson person => if x.result = some true then some person else none
  | .loadIntoMemory | .flushToDisk => none

end Effects

/-! ## The calls of a request -/

section Calls

variable {affinity : Affinity} {asserts : Bool} {σ : Store (List Row)} {person : Person}
  {trace : List (Call × Code)} {result : Option Bool}

/-- The call changes one of the databases. -/
def effective : Call × Code → Bool
  | (.step, .done) | (.backupFinish _ _, .ok) => true
  | _ => false

theorem tables_effect {x : Call × Code} (h : effective x = false) :
    (Sqlite.effect (peopleTable affinity) σ x).tables = σ.tables := by
  obtain ⟨call, code⟩ := x
  cases call <;> cases code <;> first | rfl | cases h

/-- Calls that change nothing leave the rows alone. -/
theorem tables_after (h : ∀ x ∈ trace, effective x = false) :
    (σ.after (peopleTable affinity) trace).tables = σ.tables := by
  induction trace generalizing σ with
  | nil => rfl
  | cons x trace ih =>
      have hx := h x List.mem_cons_self
      have hrest : ∀ y ∈ trace, effective y = false := fun y hy => h y (List.mem_cons_of_mem x hy)
      exact (ih hrest).trans (tables_effect hx)

/-- The calls of a write that inserts its row. -/
def inserting (person : Person) (resetCode : Code) : List (Call × Code) :=
  [(.bindInt 1 person.age, .ok), (.bindText 2 (untilNul person.name), .ok), (.step, .done),
    (.reset, resetCode)]

theorem tables_inserting (resetCode : Code) :
    (σ.after (peopleTable affinity) (inserting person resetCode)).tables =
      σ.tables.apply affinity (.wrote person) := by
  cases resetCode <;> rfl

/-- A call that has to be answered `SQLITE_OK`. -/
theorem runs_ok {call : Call} {ok : Bool}
    (h : Runs (do if (← perform call) ≠ Code.ok then return false
                  return true) trace ok) :
    ∃ code, trace = [(call, code)] ∧ (ok = true → code = .ok) := by
  rcases runs_expect.mp h with ⟨code, -, rfl, rfl⟩ | ⟨rest, rfl, hrest⟩
  · exact ⟨code, rfl, nofun⟩
  · obtain ⟨rfl, -⟩ := runs_pure.mp hrest
    exact ⟨.ok, rfl, fun _ => rfl⟩

/-- What `execute` makes of the code of the step. -/
theorem execute_runs {executed : Option Code} (h : Runs PreparedStatement.execute trace executed) :
    ∃ code, trace = [(.step, code)] ∧
      executed = if code ≠ .done ∧ code ≠ .row then none else some code := by
  obtain ⟨code, rest, rfl, hrest⟩ := runs_perform.mp h
  refine ⟨code, ?_⟩
  split at hrest
  · next hcode =>
      obtain ⟨rfl, rfl⟩ := runs_pure.mp hrest
      exact ⟨rfl, (if_pos hcode).symm⟩
  · next hcode =>
      obtain ⟨rfl, rfl⟩ := runs_pure.mp hrest
      exact ⟨rfl, (if_neg hcode).symm⟩

/-- A write inserts its row and returns `true`, or it changes nothing; then it returns `false`,
unless the statement has returned a row. -/
theorem write_cases (h : Runs (write asserts person) trace result) :
    (∃ resetCode, trace = inserting person resetCode ∧ result = some true) ∨
      (∀ x ∈ trace, effective x = false) ∧
        (result ≠ some false → (Call.step, Code.row) ∈ trace) := by
  rcases runs_check.mp h with ⟨hint, rfl⟩ | ⟨_, rest, rfl, hint, h₁⟩
  · obtain ⟨code, rfl, -⟩ := runs_ok hint
    exact .inr ⟨by simp [effective], fun hresult => absurd rfl hresult⟩
  obtain ⟨_, rfl, hbound⟩ := runs_ok hint
  obtain rfl := hbound rfl
  rcases runs_check.mp h₁ with ⟨htext, rfl⟩ | ⟨_, rest, rfl, htext, h₂⟩
  · obtain ⟨code, rfl, -⟩ := runs_ok htext
    exact .inr ⟨by simp [effective], fun hresult => absurd rfl hresult⟩
  obtain ⟨_, rfl, hbound⟩ := runs_ok htext
  obtain rfl := hbound rfl
  obtain ⟨executed, _, rest, rfl, hexecute, h₃⟩ := runs_bind.mp h₂
  obtain ⟨code, rfl, rfl⟩ := execute_runs hexecute
  cases code with
  | ok | error =>
      obtain ⟨rfl, rfl⟩ := runs_pure.mp h₃
      exact .inr ⟨by simp [effective], fun hresult => absurd rfl hresult⟩
  | row =>
      refine .inr ⟨?_, fun _ => by simp⟩
      cases asserts with
      | true =>
          obtain ⟨rfl, -⟩ := runs_pure.mp h₃
          simp [effective]
      | false =>
          obtain ⟨ok, _, rest, rfl, hreset, h₄⟩ := runs_bind.mp h₃
          obtain ⟨code, rfl, -⟩ := runs_ok hreset
          obtain ⟨rfl, -⟩ := runs_pure.mp h₄
          simp [effective]
  | done =>
      have hdone : Runs (do let _ ← PreparedStatement.reset; return some true) rest result := by
        cases asserts <;> exact h₃
      obtain ⟨ok, _, rest, rfl, hreset, h₄⟩ := runs_bind.mp hdone
      obtain ⟨code, rfl, -⟩ := runs_ok hreset
      obtain ⟨rfl, rfl⟩ := runs_pure.mp h₄
      exact .inl ⟨code, rfl, rfl⟩

/-- A copy is carried out, with these calls, or changes nothing. -/
theorem copyContent_cases {src dest : Handle} {ok : Bool}
    (h : Runs (copyContent src dest) trace ok) :
    trace = copied src dest ∧ ok = true ∨ (∀ x ∈ trace, effective x = false) ∧ ok = false := by
  cases ok with
  | true => exact .inl ⟨copyContent_true h, rfl⟩
  | false =>
      refine .inr ⟨?_, rfl⟩
      rcases runs_expect.mp h with ⟨code, -, rfl, -⟩ | ⟨rest, rfl, h₁⟩
      · simp [effective]
      rcases runs_expect.mp h₁ with ⟨code, -, rfl, -⟩ | ⟨rest, rfl, h₂⟩
      · simp [effective]
      rcases runs_expect.mp h₂ with ⟨code, hcode, rfl, -⟩ | ⟨rest, rfl, h₃⟩
      · cases code with
        | ok => exact absurd rfl hcode
        | done | row | error => simp [effective]
      · obtain ⟨-, hfalse⟩ := runs_pure.mp h₃
        cases hfalse

/-- A flush has copied the database or not, and returns `true` only in the first case. -/
theorem flush_cases (h : Runs (Request.code asserts .flushToDisk) trace result) :
    (∃ rest, trace = copied .memory .disk ++ rest ∧ ∀ x ∈ rest, effective x = false) ∨
      (∀ x ∈ trace, effective x = false) ∧ result ≠ some true := by
  obtain ⟨flushed, _, rest, rfl, hflush, hresult⟩ := runs_bind.mp h
  obtain ⟨rfl, rfl⟩ := runs_pure.mp hresult
  rw [List.append_nil]
  rcases runs_check.mp hflush with ⟨hcopy, rfl⟩ | ⟨copy, rest, rfl, hcopy, hrest⟩
  · rcases copyContent_cases hcopy with ⟨-, hfalse⟩ | ⟨hquiet, -⟩
    · cases hfalse
    · exact .inr ⟨hquiet, by simp⟩
  · rw [copyContent_true hcopy]
    refine .inl ⟨rest, rfl, ?_⟩
    rcases runs_expect.mp hrest with ⟨code, -, rfl, -⟩ | ⟨last, rfl, hdone⟩
    · simp [effective]
    · obtain ⟨rfl, -⟩ := runs_pure.mp hdone
      simp [effective]

end Calls

/-! ## Sessions -/

section Sessions

variable {affinity : Affinity} {asserts : Bool} {σ σ' : Store (List Row)} {x : Served asserts}
  {session : List (Served asserts)}

theorem effect_eq_nothing (h : ∀ y ∈ x.trace, effective y = false) : x.effect = .nothing := by
  refine if_neg fun hmem => ?_
  have hquiet := h _ hmem
  cases hrequest : x.request <;> rw [hrequest] at hquiet <;> cases hquiet

/-- A request is carried out as a whole or not at all. -/
theorem tables_served (affinity : Affinity) (σ : Store (List Row)) (x : Served asserts) :
    (σ.after (peopleTable affinity) x.trace).tables = σ.tables.apply affinity x.effect := by
  have hnothing : (∀ y ∈ x.trace, effective y = false) →
      (σ.after (peopleTable affinity) x.trace).tables = σ.tables.apply affinity x.effect := by
    intro hquiet
    rw [tables_after hquiet, effect_eq_nothing hquiet]
    rfl
  obtain ⟨request, trace, result, hruns⟩ := x
  cases request with
  | writePerson person =>
      rcases write_cases hruns with ⟨resetCode, rfl, -⟩ | ⟨hquiet, -⟩
      · exact tables_inserting resetCode
      · exact hnothing hquiet
  | loadIntoMemory =>
      obtain ⟨-, ok, hcopy⟩ := loadIntoMemory_runs hruns
      rcases copyContent_cases hcopy with ⟨rfl, -⟩ | ⟨hquiet, -⟩
      · rfl
      · exact hnothing hquiet
  | flushToDisk =>
      rcases flush_cases hruns with ⟨rest, rfl, hquiet⟩ | ⟨hquiet, -⟩
      · have hflushed : Tables.apply affinity σ.tables .flushed =
            (σ.after (peopleTable affinity) (copied .memory .disk)).tables := rfl
        have heffect : Served.effect ⟨.flushToDisk, copied .memory .disk ++ rest, result, hruns⟩ =
            .flushed := if_pos (List.mem_append_left _ (by simp [Request.outcome, copied]))
        rw [heffect, hflushed, Store.after, List.foldl_append]
        exact tables_after hquiet
      · exact hnothing hquiet

theorem tables_step (h : step (peopleTable affinity) σ x = some σ') :
    σ'.tables = σ.tables.apply affinity x.effect := by
  obtain ⟨_, -, rfl⟩ := Option.map_eq_some_iff.mp h
  exact tables_served affinity σ x

/-- A write has inserted its row iff it has returned `true`. -/
theorem effect_write (hrequest : x.request = .writePerson person)
    (hrow : (Call.step, Code.row) ∉ x.trace) :
    x.effect = if x.result = some true then .wrote person else .nothing := by
  have hruns := x.runs
  rw [hrequest] at hruns
  rcases write_cases hruns with ⟨resetCode, htrace, hresult⟩ | ⟨hquiet, hresult⟩
  · rw [if_pos hresult, Served.effect, hrequest, htrace]
    exact if_pos (by simp [Request.outcome, inserting])
  · have hfalse : x.result ≠ some true := fun htrue => hrow (hresult (by rw [htrue]; nofun))
    rw [if_neg hfalse]
    exact effect_eq_nothing hquiet

/-- What is not a load leaves the rows in memory and adds that of the person written. -/
theorem memory_apply (tables : Tables) (hload : x.effect ≠ .loaded)
    (hrow : (Call.step, Code.row) ∉ x.trace) :
    (tables.apply affinity x.effect).memory =
      tables.memory ++ x.written.toList.map (Person.written affinity) := by
  have hempty := (List.append_nil tables.memory).symm
  cases hrequest : x.request with
  | writePerson person =>
      rw [effect_write hrequest hrow, Served.written, hrequest]
      by_cases hresult : x.result = some true
      · simp only [if_pos hresult]
        rfl
      · simp only [if_neg hresult]
        exact hempty
  | loadIntoMemory =>
      rw [Served.written, hrequest]
      rw [Served.effect, hrequest] at hload ⊢
      split at hload
      · exact absurd rfl hload
      · next hmem =>
          rw [if_neg hmem]
          exact hempty
  | flushToDisk =>
      rw [Served.written, Served.effect, hrequest]
      split <;> exact hempty

/-- Without a load the table in memory only grows, by the rows of the writes. -/
theorem memory_run (h : run (step (peopleTable affinity)) σ session = some σ')
    (hload : ∀ x ∈ session, x.effect ≠ .loaded)
    (hrow : ∀ x ∈ session, (Call.step, Code.row) ∉ x.trace) :
    σ'.memory = σ.memory ++ (session.filterMap Served.written).map (Person.written affinity) := by
  induction session generalizing σ with
  | nil =>
      cases h
      exact (List.append_nil _).symm
  | cons x session ih =>
      rw [run_cons, Option.bind_eq_some_iff] at h
      obtain ⟨σ₁, hstep, hrest⟩ := h
      rw [List.forall_mem_cons] at hload hrow
      have hfirst : σ₁.memory = σ.memory ++ x.written.toList.map (Person.written affinity) :=
        (congrArg Tables.memory (tables_step hstep)).trans (memory_apply _ hload.1 hrow.1)
      rw [ih hrest hload.2 hrow.2, hfirst, List.append_assoc, ← List.map_append]
      congr 2
      rw [List.filterMap_cons]
      cases x.written <;> rfl

end Sessions

/-! ## Main results -/

/-- Whatever the calls of the requests return, a session does to the rows what a session of whole
requests does, each carried out or not. -/
theorem tables_run (affinity : Affinity) (asserts : Bool) (σ σ' : Store (List Row))
    (session : List (Served asserts))
    (hrun : run (step (peopleTable affinity)) σ session = some σ') :
    σ'.tables = (session.map Served.effect).foldl (Tables.apply affinity) σ.tables := by
  induction session generalizing σ with
  | nil =>
      cases hrun
      rfl
  | cons x session ih =>
      rw [run_cons, Option.bind_eq_some_iff] at hrun
      obtain ⟨σ₁, hstep, hrest⟩ := hrun
      rw [ih σ₁ hrest, tables_step hstep]
      rfl

/-- A person who is written. -/
def writtenTom : Served true where
  request := .writePerson tom
  trace := inserting tom .error
  result := some true
  runs := .ask (.ask (.ask (.ask (.done _))))

/-- A person whose name cannot be bound. -/
def unwrittenTom : Served true where
  request := .writePerson tom
  trace := [(.bindInt 1 tom.age, .ok), (.bindText 2 (untilNul tom.name), .error)]
  result := some false
  runs := .ask (.ask (.done _))

def flushedOnce : Served true where
  request := .flushToDisk
  trace :=
    [(.backupInit .disk .memory, .ok), (.backupStep .disk .memory, .done),
      (.backupFinish .disk .memory, .ok), (.cacheflush .disk, .ok)]
  result := some true
  runs := .ask (.ask (.ask (.ask (.done _))))

/-- Nothing is loaded, one person of two is written, and the database is flushed. -/
theorem tables_run_tom :
    ∃ σ', run (step (peopleTable numerals)) (.prepared [] [])
        [failedLoad true, writtenTom, unwrittenTom, flushedOnce] = some σ' ∧
      σ'.tables = ⟨[tom.written numerals], [tom.written numerals]⟩ := by
  obtain ⟨σ', hrun⟩ : ∃ σ', run (step (peopleTable numerals)) (.prepared [] [])
      [failedLoad true, writtenTom, unwrittenTom, flushedOnce] = some σ' := ⟨_, rfl⟩
  exact ⟨σ', hrun, (tables_run _ _ _ _ _ hrun).trans rfl⟩

/-- A flush that returns `true` leaves on disk what was in memory when it was last loaded, and
after it the rows of the persons whose writes have returned `true` since, in order and once each,
whatever other requests have failed. The statement is an `INSERT`, which returns no row. -/
theorem flush_persists (affinity : Affinity) (asserts : Bool) (σ σ' : Store (List Row))
    (session : List (Served asserts)) (flush : Served asserts)
    (hrun : run (step (peopleTable affinity)) σ (session ++ [flush]) = some σ')
    (hload : ∀ x ∈ session, x.effect ≠ .loaded)
    (hrow : ∀ x ∈ session, (Call.step, Code.row) ∉ x.trace)
    (hflush : flush.request = .flushToDisk) (hresult : flush.result = some true) :
    σ'.disk =
      σ.memory ++ (session.filterMap Served.written).map (Person.written affinity) := by
  rw [run_append, Option.bind_eq_some_iff] at hrun
  obtain ⟨σ₁, hsession, hlast⟩ := hrun
  rw [run_cons, Option.bind_eq_some_iff] at hlast
  obtain ⟨σ₂, hstep, hend⟩ := hlast
  cases hend
  have hflushed : flush.effect = .flushed := by
    have hruns := flush.runs
    rw [hflush, hresult] at hruns
    rw [Served.effect, hflush, flushToDisk_runs hruns]
    exact if_pos (by simp [Request.outcome, copied])
  have htables := tables_step hstep
  rw [hflushed] at htables
  have hdisk : σ'.disk = σ₁.memory := congrArg Tables.disk htables
  rw [hdisk, memory_run hsession hload hrow]

theorem flush_persists_tom :
    ∃ σ', run (step (peopleTable numerals)) (.prepared [] [])
        ([failedLoad true, writtenTom, unwrittenTom] ++ [flushedOnce]) = some σ' ∧
      σ'.disk = [tom.written numerals] := by
  obtain ⟨σ', hrun⟩ : ∃ σ', run (step (peopleTable numerals)) (.prepared [] [])
      ([failedLoad true, writtenTom, unwrittenTom] ++ [flushedOnce]) = some σ' := ⟨_, rfl⟩
  refine ⟨σ', hrun, (flush_persists _ _ _ _ _ _ hrun ?_ ?_ rfl rfl).trans rfl⟩
  · simp [Served.effect, Request.outcome, failedLoad, writtenTom, unwrittenTom, inserting]
  · simp [failedLoad, writtenTom, unwrittenTom, inserting]

end InterProcess.Sqlite
