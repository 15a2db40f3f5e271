import InterProcess.Lib.Lts
import InterProcess.Sqlite.PersonWriter

/-!
# Writing again after a failed write

The prepared statement of a `person_writer` is used for every write. SQLite binds
no parameters of a statement that has been stepped since it was last reset, so a
write has to reset the statement it has stepped; `sqlite3_reset` does that
whatever code it returns. `write` calls it where the step has succeeded and
returns at once where it has failed: the statement stays stepped, and no later
write gets past its first bind.
-/

namespace InterProcess.Sqlite

open Interaction

/-- A write, with the codes `sqlite3_step` and `sqlite3_reset` return if it calls them. -/
structure Attempt where
  person : Person
  stepCode : Code
  resetCode : Code

/-- The step of the write fails. -/
def Attempt.failed (x : Attempt) : Bool := x.stepCode ≠ .done && x.stepCode ≠ .row

variable {Database Rows : Type}

/-- SQLite during a write: a bind fails on a statement stepped since its last reset, and
succeeds otherwise. -/
def Attempt.environment (e : Engine Database Rows) (x : Attempt) :
    Environment Call Code (Store Database) where
  answer := fun σ call =>
    match call with
    | .bindInt _ _ | .bindText _ _ => if σ.stepped then .error else .ok
    | .step => x.stepCode
    | .reset => x.resetCode
    | _ => .ok
  effect := effect e

/-- What a write leaves, and what it returns. -/
def Attempt.perform (e : Engine Database Rows) (asserts : Bool) (σ : Store Database)
    (x : Attempt) : Store Database × Option Bool :=
  (write asserts x.person).play (x.environment e) σ

/-- One write after the other; a failed assertion ends the session. -/
def attempt (e : Engine Database Rows) (asserts : Bool) (σ : Store Database) (x : Attempt) :
    Option (Store Database) :=
  (x.perform e asserts σ).2.map fun _ => (x.perform e asserts σ).1

/-- The statement has just been prepared. -/
def Store.prepared (disk memory : Database) : Store Database where
  disk := disk
  memory := memory
  parameters := fun _ => none
  stepped := false

/-- The parameters as `write` binds them. -/
def Store.bound (σ : Store Database) (person : Person) : ℕ → Option Value :=
  Function.update (Function.update σ.parameters 1 (some (.int person.age))) 2
    (some (.text (untilNul person.name)))

section Attempts

variable {e : Engine Database Rows} {asserts : Bool} {σ σ' : Store Database} {x : Attempt}

/-- The calls of a write with the codes they get are a run of `write`, and it leaves what they
have the effect of. -/
theorem perform_runs (e : Engine Database Rows) (asserts : Bool) (σ : Store Database)
    (x : Attempt) : ∃ trace, Runs (write asserts x.person) trace (x.perform e asserts σ).2 ∧
      (x.perform e asserts σ).1 = σ.after e trace := runs_play _ _ _

/-- On a stepped statement a write gives up at its first bind. -/
theorem perform_of_stepped (h : σ.stepped = true) :
    x.perform e asserts σ = (σ, some false) := by
  obtain ⟨disk, memory, parameters, stepped⟩ := σ
  obtain rfl : stepped = true := h
  rfl

/-- A write whose step fails leaves the statement stepped. -/
theorem perform_of_failed (h : σ.stepped = false) (hfailed : x.failed = true) :
    x.perform e asserts σ =
      ({ σ with parameters := σ.bound x.person, stepped := true }, some false) := by
  obtain ⟨disk, memory, parameters, stepped⟩ := σ
  obtain rfl : stepped = false := h
  obtain ⟨person, stepCode, resetCode⟩ := x
  cases stepCode with
  | done | row => cases hfailed
  | ok | error => rfl

/-- A write whose step succeeds leaves the statement ready, whatever the reset returns. -/
theorem perform_of_done (h : σ.stepped = false) (hdone : x.stepCode = .done) :
    x.perform e asserts σ =
      ({ σ with
          memory := e.insert (σ.bound x.person) σ.memory
          parameters := σ.bound x.person }, some true) := by
  obtain ⟨disk, memory, parameters, stepped⟩ := σ
  obtain rfl : stepped = false := h
  obtain ⟨person, stepCode, resetCode⟩ := x
  obtain rfl : stepCode = .done := hdone
  cases asserts <;> cases resetCode <;> rfl

/-- A step that returns a row ends the session when asserts are on. -/
theorem perform_of_row (h : σ.stepped = false) (hrow : x.stepCode = .row) :
    x.perform e asserts σ =
      if asserts then ({ σ with parameters := σ.bound x.person, stepped := true }, none)
      else ({ σ with parameters := σ.bound x.person }, some true) := by
  obtain ⟨disk, memory, parameters, stepped⟩ := σ
  obtain rfl : stepped = false := h
  obtain ⟨person, stepCode, resetCode⟩ := x
  obtain rfl : stepCode = .row := hrow
  cases asserts <;> cases resetCode <;> rfl

theorem Attempt.failed_eq_false : x.failed = false ↔ x.stepCode = .done ∨ x.stepCode = .row := by
  obtain ⟨person, stepCode, resetCode⟩ := x
  cases stepCode <;> simp [failed]

/-- A write leaves the statement stepped iff it was stepped before or the step fails. -/
theorem stepped_attempt (h : attempt e asserts σ x = some σ') :
    σ'.stepped = (σ.stepped || x.failed) := by
  obtain ⟨returned, hreturned, rfl⟩ := Option.map_eq_some_iff.mp h
  cases hstepped : σ.stepped with
  | true => rw [perform_of_stepped hstepped, hstepped, Bool.true_or]
  | false =>
      cases hfailed : x.failed with
      | true =>
          rw [perform_of_failed hstepped hfailed]
          rfl
      | false =>
          rcases Attempt.failed_eq_false.mp hfailed with hdone | hrow
          · rw [perform_of_done hstepped hdone]
            exact hstepped
          · rw [perform_of_row hstepped hrow] at hreturned ⊢
            cases asserts with
            | true => cases hreturned
            | false => exact hstepped

/-- After a session the statement is stepped iff it was before or a step has failed. -/
theorem stepped_session {session : List Attempt}
    (h : Lts.run (attempt e asserts) σ session = some σ') :
    σ'.stepped = (σ.stepped || session.any Attempt.failed) := by
  induction session generalizing σ with
  | nil =>
      obtain rfl := Option.some.inj h
      rw [List.any_nil, Bool.or_false]
  | cons x session ih =>
      obtain ⟨σ₁, hσ₁, hsession⟩ := Option.bind_eq_some_iff.mp h
      rw [ih hsession, stepped_attempt hσ₁, List.any_cons, Bool.or_assoc]

/-- A write whose step would succeed returns `true` iff the statement is not stepped. -/
theorem perform_returns_true_iff (hdone : x.stepCode = .done) :
    (x.perform e asserts σ).2 = some true ↔ σ.stepped = false := by
  cases hstepped : σ.stepped with
  | true =>
      rw [perform_of_stepped hstepped]
      exact iff_of_false nofun nofun
  | false =>
      rw [perform_of_done hstepped hdone]
      exact iff_of_true rfl rfl

end Attempts

/-- After any session of writes on a statement just prepared, a write whose step would succeed
returns `true` iff no step of the session has failed. -/
theorem write_after_session_iff (e : Engine Database Rows) (asserts : Bool) (disk memory : Database)
    {session : List Attempt} {σ : Store Database}
    (hsession : Lts.run (attempt e asserts) (.prepared disk memory) session = some σ)
    {x : Attempt} (hdone : x.stepCode = .done) :
    (x.perform e asserts σ).2 = some true ↔
      ∀ y ∈ session, y.stepCode = .done ∨ y.stepCode = .row := by
  rw [perform_returns_true_iff hdone, stepped_session hsession]
  show (false || session.any Attempt.failed) = false ↔ _
  rw [Bool.false_or, List.any_eq_false]
  refine forall₂_congr fun y _ => ?_
  rw [Bool.not_eq_true, Attempt.failed_eq_false]

/-- A database of which only the number of rows is looked at. -/
def counted : Engine ℕ ℕ where
  insert := fun _ count => count + 1
  rows := id

def tom : Person := ⟨['T', 'o', 'm'], 26⟩

/-- Tom has been written once. -/
def tomWritten : Store ℕ :=
  { Store.prepared 0 1 with parameters := (Store.prepared 0 0).bound tom }

theorem write_after_write :
    (Attempt.perform counted true tomWritten ⟨tom, .done, .ok⟩).2 = some true ↔
      ∀ y ∈ [(⟨tom, .done, .error⟩ : Attempt)], y.stepCode = .done ∨ y.stepCode = .row :=
  write_after_session_iff counted true 0 0 rfl rfl

/-- After a failed step the next write fails, although its step would succeed. -/
theorem not_write_after_failure : ¬∀ (Database Rows : Type) (e : Engine Database Rows)
    (asserts : Bool) (disk memory : Database) (session : List Attempt) (σ : Store Database),
    Lts.run (attempt e asserts) (.prepared disk memory) session = some σ →
      ∀ x : Attempt, x.stepCode = .done → (x.perform e asserts σ).2 = some true := by
  intro h
  have hsecond := h ℕ ℕ counted true 0 0 [⟨tom, .error, .error⟩] _ rfl ⟨tom, .done, .ok⟩ rfl
  cases hsecond

end InterProcess.Sqlite
