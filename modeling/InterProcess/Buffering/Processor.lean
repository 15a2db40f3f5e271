import InterProcess.Lib.Interaction

/-!
# `buffering::processor::process`

What a single process does with the outcomes of its system calls: the code of
`setup`, `run` and `finalize` of the parent and of a child producer, each
performing its operations on the semaphores one after the other. Whether an
operation succeeds is the answer of the environment; that the counts are equal
where `finalize` asserts it is one too.

Failures are passed on as `false`. Three of the returns are `EXIT_FAILURE`
instead, which is 1 and so `true` as a `bool`: those after a failed wait for
the start, for the completion and for the consumption. `process_truthful_iff`
says that these are what there is to go wrong.
-/

namespace InterProcess.Buffering

open Interaction

inductive Operation
  | signalReadiness
  | waitForReady
  | notifyStart
  | waitForStart
  | formatMessage (i : ℕ)
  | push (i : ℕ)
  | notifyWritten (i : ℕ)
  | waitForRead (i : ℕ)
  | notifyCompletion
  | waitForCompletion
  | waitForConsumption
  | compareCounts
  | notifyDone
  | waitForChildren
  deriving DecidableEq, Repr

namespace Operation

/-- The operation is one of a semaphore. -/
def onSemaphore : Operation → Bool
  | .formatMessage _ | .push _ | .compareCounts | .waitForChildren => false
  | _ => true

/-- The operation is one of `produce_messages`, or reports that it is over. -/
def ofProduction : Operation → Bool
  | .formatMessage _ | .push _ | .notifyWritten _ | .waitForRead _ | .notifyCompletion => true
  | _ => false

def isPush : Operation → Bool
  | .push _ => true
  | _ => false

end Operation

/-- `EXIT_FAILURE`, returned where a `bool` is. -/
def exitFailure : Bool := 1 != 0

abbrev Calls (β : Type) := Interaction Operation Bool β

/-! ## The phases -/

def setupChildProcess : Calls Bool := do
  if !(← perform .signalReadiness) then
    return false
  return true

def setupParentProcess : Calls Bool := do
  if !(← perform .waitForReady) then
    return false
  if !(← perform .notifyStart) then
    return false
  return true

/-- The loop of `produce_messages`, with the number of rounds to go. -/
def produceMessages : ℕ → ℕ → Calls Bool
  | 0, _ => return true
  | rounds + 1, i => do
    if !(← perform (.formatMessage i)) then
      return false
    let _ ← perform (.push i)
    if !(← perform (.notifyWritten i)) then
      return false
    if !(← perform (.waitForRead i)) then
      return false
    produceMessages rounds (i + 1)

def runProducer (messageCount : ℕ) : Calls Bool := do
  if !(← perform .waitForStart) then
    return exitFailure
  if !(← produceMessages messageCount 0) then
    return false
  if !(← perform .notifyCompletion) then
    return false
  return true

/-- `assert` of equal counts, where it is compiled in. -/
def assertEqualCounts (asserts : Bool) : Calls Bool :=
  if asserts then perform .compareCounts else return true

/-- `none` when the assertion fails. -/
def finalizeParentProcess (asserts : Bool) : Calls (Option Bool) := do
  if !(← perform .waitForCompletion) then
    return some exitFailure
  if !(← perform .waitForConsumption) then
    return some exitFailure
  if !(← assertEqualCounts asserts) then
    return none
  if !(← perform .notifyDone) then
    return some false
  if !(← perform .waitForChildren) then
    return some false
  return some true

inductive Role
  | parent
  | child
  deriving DecidableEq, Repr

def Role.setup : Role → Calls Bool
  | .parent => setupParentProcess
  | .child => setupChildProcess

def Role.finalize (asserts : Bool) : Role → Calls (Option Bool)
  | .parent => finalizeParentProcess asserts
  | .child => return some true

/-- `process` of a producer. -/
def process (asserts : Bool) (messageCount : ℕ) (role : Role) : Calls (Option Bool) := do
  if !(← role.setup) then
    return some false
  if !(← runProducer messageCount) then
    return some false
  let finalized ← role.finalize asserts
  if finalized = some false then
    return some false
  return finalized

/-! ## The operations of each phase -/

section Phases

variable {trace : List (Operation × Bool)} {result : Bool}

/-- No operation on a semaphore has failed. -/
def AllSucceeded (trace : List (Operation × Bool)) : Prop :=
  ∀ x ∈ trace, x.1.onSemaphore → x.2 = true

/-- How many messages have been pushed. -/
def produced (trace : List (Operation × Bool)) : ℕ := trace.countP fun x => x.1.isPush

theorem allSucceeded_append {trace' : List (Operation × Bool)} :
    AllSucceeded (trace ++ trace') ↔ AllSucceeded trace ∧ AllSucceeded trace' :=
  List.forall_mem_append

theorem produced_append (trace trace' : List (Operation × Bool)) :
    produced (trace ++ trace') = produced trace + produced trace' := List.countP_append

theorem setupChildProcess_runs (h : Runs setupChildProcess trace result) :
    trace = [(.signalReadiness, result)] := by
  rcases runs_check_perform.mp h with ⟨rfl, rfl⟩ | ⟨rest, rfl, hrest⟩
  · rfl
  · obtain ⟨rfl, rfl⟩ := runs_pure.mp hrest
    rfl

theorem setupParentProcess_runs (h : Runs setupParentProcess trace result) :
    (trace = [(.waitForReady, false)] ∧ result = false) ∨
      trace = [(.waitForReady, true), (.notifyStart, result)] := by
  rcases runs_check_perform.mp h with ⟨rfl, rfl⟩ | ⟨rest, rfl, hrest⟩
  · exact .inl ⟨rfl, rfl⟩
  · rcases runs_check_perform.mp hrest with ⟨rfl, rfl⟩ | ⟨last, rfl, hlast⟩
    · exact .inr rfl
    · obtain ⟨rfl, rfl⟩ := runs_pure.mp hlast
      exact .inr rfl

/-- What a loop that returns `true` has done. -/
def Completed (messageCount : ℕ) (trace : List (Operation × Bool)) : Prop :=
  AllSucceeded trace ∧ produced trace = messageCount

theorem produceMessages_runs {rounds i : ℕ} (h : Runs (produceMessages rounds i) trace result) :
    (∀ x ∈ trace, x.1.ofProduction) ∧ (result = true → Completed rounds trace) := by
  induction rounds generalizing i trace with
  | zero =>
      obtain ⟨rfl, rfl⟩ := runs_pure.mp h
      exact ⟨List.forall_mem_nil _, fun _ => ⟨List.forall_mem_nil _, rfl⟩⟩
  | succ rounds ih =>
      rcases runs_check_perform.mp h with ⟨rfl, rfl⟩ | ⟨rest₁, rfl, h₁⟩
      · exact ⟨by simp [Operation.ofProduction], nofun⟩
      obtain ⟨pushed, rest₂, rfl, h₂⟩ := runs_perform.mp h₁
      rcases runs_check_perform.mp h₂ with ⟨rfl, rfl⟩ | ⟨rest₃, rfl, h₃⟩
      · exact ⟨by simp [Operation.ofProduction], nofun⟩
      rcases runs_check_perform.mp h₃ with ⟨rfl, rfl⟩ | ⟨rest₄, rfl, h₄⟩
      · exact ⟨by simp [Operation.ofProduction], nofun⟩
      obtain ⟨hproduction, hcompleted⟩ := ih h₄
      refine ⟨by simpa [Operation.ofProduction] using hproduction, fun hresult => ?_⟩
      obtain ⟨hall, hcount⟩ := hcompleted hresult
      constructor
      · simpa [AllSucceeded, Operation.onSemaphore] using hall
      · simpa [produced, Operation.isPush] using hcount

/-- A failed wait for the start is the one failure `run_producer` does not pass on. -/
theorem runProducer_runs {messageCount : ℕ} (h : Runs (runProducer messageCount) trace result) :
    (trace = [(.waitForStart, false)] ∧ result = true) ∨
    ∃ rest, trace = (.waitForStart, true) :: rest ∧ (∀ x ∈ rest, x.1.ofProduction) ∧
      (result = true → Completed messageCount rest) := by
  rcases runs_check_perform.mp h with ⟨rfl, rfl⟩ | ⟨rest, rfl, hrest⟩
  · exact .inl ⟨rfl, rfl⟩
  refine .inr ⟨rest, rfl, ?_⟩
  rcases runs_check.mp hrest with ⟨hloop, rfl⟩ | ⟨loop, last, rfl, hloop, hlast⟩
  · exact ⟨(produceMessages_runs hloop).1, nofun⟩
  obtain ⟨hproduction, hcompleted⟩ := produceMessages_runs hloop
  rcases runs_check_perform.mp hlast with ⟨rfl, rfl⟩ | ⟨rest, rfl, hdone⟩
  · refine ⟨fun x hx => ?_, nofun⟩
    rcases List.mem_append.mp hx with hx | hx
    · exact hproduction x hx
    · rw [List.mem_singleton.mp hx]
      rfl
  · obtain ⟨rfl, rfl⟩ := runs_pure.mp hdone
    obtain ⟨hall, hcount⟩ := hcompleted rfl
    refine ⟨fun x hx => ?_, fun _ => ⟨allSucceeded_append.mpr ⟨hall, ?_⟩, ?_⟩⟩
    · rcases List.mem_append.mp hx with hx | hx
      · exact hproduction x hx
      · rw [List.mem_singleton.mp hx]
        rfl
    · intro x hx _
      rw [List.mem_singleton.mp hx]
    · rw [produced_append, hcount]
      rfl

/-- The operation is one of the last of `finalize`. -/
def Operation.isClosing : Operation → Bool
  | .compareCounts | .notifyDone | .waitForChildren => true
  | _ => false

theorem assertEqualCounts_runs {asserts : Bool}
    (h : Runs (assertEqualCounts asserts) trace result) :
    trace = [] ∨ trace = [(.compareCounts, result)] := by
  unfold assertEqualCounts at h
  split at h
  · obtain ⟨ok, rest, rfl, hrest⟩ := runs_ask.mp h
    cases hrest
    exact .inr rfl
  · exact .inl (runs_pure.mp h).1

/-- Of the failures in `finalize`, two are not passed on. -/
theorem finalizeParentProcess_runs {asserts : Bool} {finalized : Option Bool}
    (h : Runs (finalizeParentProcess asserts) trace finalized) :
    (trace = [(.waitForCompletion, false)] ∧ finalized = some true) ∨
    (trace = [(.waitForCompletion, true), (.waitForConsumption, false)] ∧
      finalized = some true) ∨
    ∃ rest, trace = (.waitForCompletion, true) :: (.waitForConsumption, true) :: rest ∧
      (∀ x ∈ rest, x.1.isClosing) ∧ (finalized = some true → AllSucceeded rest) ∧
      (finalized = some true ↔ (.waitForChildren, true) ∈ rest) := by
  rcases runs_check_perform.mp h with ⟨rfl, rfl⟩ | ⟨rest₁, rfl, h₁⟩
  · exact .inl ⟨rfl, rfl⟩
  rcases runs_check_perform.mp h₁ with ⟨rfl, rfl⟩ | ⟨rest₂, rfl, h₂⟩
  · exact .inr (.inl ⟨rfl, rfl⟩)
  refine .inr (.inr ⟨rest₂, rfl, ?_⟩)
  rcases runs_check.mp h₂ with ⟨hassert, rfl⟩ | ⟨counts, rest₃, rfl, hassert, h₃⟩
  · rcases assertEqualCounts_runs hassert with rfl | rfl <;>
      simp [AllSucceeded, Operation.isClosing]
  have hcounts := assertEqualCounts_runs hassert
  rcases runs_check_perform.mp h₃ with ⟨rfl, rfl⟩ | ⟨rest₄, rfl, h₄⟩
  · rcases hcounts with rfl | rfl <;> simp [Operation.isClosing]
  rcases runs_check_perform.mp h₄ with ⟨rfl, rfl⟩ | ⟨rest₅, rfl, h₅⟩
  · rcases hcounts with rfl | rfl <;> simp [Operation.isClosing]
  · obtain ⟨rfl, rfl⟩ := runs_pure.mp h₅
    rcases hcounts with rfl | rfl <;> simp [AllSucceeded, Operation.isClosing]

end Phases

/-! ## The property -/

/-- `process` returns `true` only if every operation on a semaphore has succeeded and all
messages were produced. -/
def Truthful (messageCount : ℕ) (trace : List (Operation × Bool)) (result : Option Bool) : Prop :=
  result = some true → Completed messageCount trace

/-- None of the failures occurs that are not passed on; the parent still returns `false` after
a failed wait for the start when it does not get to the end of `finalize`. -/
def PassedOn (trace : List (Operation × Bool)) : Role → Prop
  | .child => (.waitForStart, false) ∉ trace
  | .parent =>
      (.waitForCompletion, false) ∉ trace ∧ (.waitForConsumption, false) ∉ trace ∧
        ((.waitForStart, false) ∈ trace → (.waitForChildren, true) ∉ trace)

section Process

variable {asserts : Bool} {messageCount : ℕ} {trace : List (Operation × Bool)}
  {result : Option Bool} {role : Role}

/-- The three phases: the first or the second may end the process. -/
theorem process_runs (h : Runs (process asserts messageCount role) trace result) :
    (Runs role.setup trace false ∧ result = some false) ∨
    (∃ setup run, trace = setup ++ run ∧ Runs role.setup setup true ∧
      Runs (runProducer messageCount) run false ∧ result = some false) ∨
    ∃ setup run finalize, trace = setup ++ (run ++ finalize) ∧ Runs role.setup setup true ∧
      Runs (runProducer messageCount) run true ∧ Runs (role.finalize asserts) finalize result := by
  rcases runs_check.mp h with ⟨hsetup, rfl⟩ | ⟨setup, rest, rfl, hsetup, hrest⟩
  · exact .inl ⟨hsetup, rfl⟩
  rcases runs_check.mp hrest with ⟨hrun, rfl⟩ | ⟨run, rest, rfl, hrun, hrest⟩
  · exact .inr (.inl ⟨setup, rest, rfl, hsetup, hrun, rfl⟩)
  · obtain ⟨finalized, finalize, last, rfl, hfinalize, hlast⟩ := runs_bind.mp hrest
    refine .inr (.inr ⟨setup, run, finalize, ?_, hsetup, hrun, ?_⟩)
    · split at hlast <;> obtain ⟨rfl, -⟩ := runs_pure.mp hlast <;> simp
    · split at hlast
      · next heq =>
          obtain ⟨-, rfl⟩ := runs_pure.mp hlast
          exact heq ▸ hfinalize
      · obtain ⟨-, rfl⟩ := runs_pure.mp hlast
        exact hfinalize

/-- An operation a phase does not perform. -/
theorem not_mem_of_forall {ops : List (Operation × Bool)} {kind : Operation → Bool}
    {op : Operation} {ok : Bool} (h : ∀ x ∈ ops, kind x.1) (hop : kind op = false) :
    (op, ok) ∉ ops := by
  intro hmem
  have htrue := h _ hmem
  rw [hop] at htrue
  cases htrue

theorem not_completed_of_mem (op : Operation) (hmem : (op, false) ∈ trace)
    (hop : op.onSemaphore) : ¬Completed messageCount trace := by
  intro h
  have htrue := h.1 _ hmem hop
  cases htrue

/-- A successful `run` in which the production was waited for successfully. -/
theorem completed_of_run {setup run finalize : List (Operation × Bool)}
    (hsetup : AllSucceeded setup) (hnone : produced setup = 0) (hrun : Completed messageCount run)
    (hfinalize : AllSucceeded finalize) (hclosed : produced finalize = 0) :
    Completed messageCount (setup ++ ((.waitForStart, true) :: run ++ finalize)) := by
  obtain ⟨hall, hcount⟩ := hrun
  constructor
  · refine allSucceeded_append.mpr ⟨hsetup, allSucceeded_append.mpr ⟨?_, hfinalize⟩⟩
    exact List.forall_mem_cons.mpr ⟨fun _ => rfl, hall⟩
  · rw [produced_append, produced_append, hnone, hclosed, ← hcount]
    simp [produced, Operation.isPush]

/-- Nothing is pushed in the last operations of `finalize`. -/
theorem produced_of_isClosing {ops : List (Operation × Bool)} (h : ∀ x ∈ ops, x.1.isClosing) :
    produced ops = 0 := by
  refine List.countP_eq_zero.mpr fun x hx hpush => ?_
  obtain ⟨op, ok⟩ := x
  have hclosing := h _ hx
  cases op with
  | push i => cases hclosing
  | _ => cases hpush

theorem child_truthful_iff (h : Runs (process asserts messageCount .child) trace result) :
    Truthful messageCount trace result ↔ PassedOn trace .child := by
  have hstart : Operation.waitForStart.ofProduction = false := rfl
  rcases process_runs h with ⟨hsetup, rfl⟩ | ⟨setup, run, rfl, hsetup, hrun, rfl⟩ |
    ⟨setup, run, finalize, rfl, hsetup, hrun, hfinalize⟩
  · rw [setupChildProcess_runs hsetup]
    exact iff_of_true nofun (by simp [PassedOn])
  · rw [setupChildProcess_runs hsetup]
    rcases runProducer_runs hrun with ⟨-, htrue⟩ | ⟨rest, rfl, hproduction, -⟩
    · cases htrue
    · exact iff_of_true nofun (by simpa [PassedOn] using not_mem_of_forall hproduction hstart)
  · rw [setupChildProcess_runs hsetup]
    obtain ⟨rfl, rfl⟩ := runs_pure.mp hfinalize
    rcases runProducer_runs hrun with ⟨rfl, -⟩ | ⟨rest, rfl, hproduction, hcompleted⟩
    · -- the failure is returned as `EXIT_FAILURE`
      refine iff_of_false (fun htruthful => ?_) (by simp [PassedOn])
      exact not_completed_of_mem .waitForStart (by simp) rfl (htruthful rfl)
    · refine iff_of_true (fun _ => ?_)
        (by simpa [PassedOn] using not_mem_of_forall hproduction hstart)
      exact completed_of_run (fun x hx _ => by rw [List.mem_singleton.mp hx]) rfl
        (hcompleted rfl) (List.forall_mem_nil _) rfl

theorem parent_truthful_iff (h : Runs (process asserts messageCount .parent) trace result) :
    Truthful messageCount trace result ↔ PassedOn trace .parent := by
  rcases process_runs h with ⟨hsetup, rfl⟩ | ⟨setup, run, rfl, hsetup, hrun, rfl⟩ |
    ⟨setup, run, finalize, rfl, hsetup, hrun, hfinalize⟩
  · rcases setupParentProcess_runs hsetup with ⟨rfl, -⟩ | rfl <;>
      exact iff_of_true nofun (by simp [PassedOn])
  · rcases setupParentProcess_runs hsetup with ⟨-, hfalse⟩ | rfl
    · cases hfalse
    rcases runProducer_runs hrun with ⟨-, htrue⟩ | ⟨rest, rfl, hproduction, -⟩
    · cases htrue
    · refine iff_of_true nofun ⟨?_, ?_, fun hmem => ?_⟩
      · simpa using not_mem_of_forall hproduction rfl
      · simpa using not_mem_of_forall hproduction rfl
      · simpa using not_mem_of_forall hproduction rfl
  · rcases setupParentProcess_runs hsetup with ⟨-, hfalse⟩ | rfl
    · cases hfalse
    rcases finalizeParentProcess_runs hfinalize with ⟨rfl, rfl⟩ | ⟨rfl, rfl⟩ |
      ⟨closing, rfl, hclosing, hall, hlast⟩
    · refine iff_of_false (fun htruthful => ?_) (by simp [PassedOn])
      exact not_completed_of_mem .waitForCompletion (by simp) rfl (htruthful rfl)
    · refine iff_of_false (fun htruthful => ?_) (by simp [PassedOn])
      exact not_completed_of_mem .waitForConsumption (by simp) rfl (htruthful rfl)
    rcases runProducer_runs hrun with ⟨rfl, -⟩ | ⟨rest, rfl, hproduction, hcompleted⟩
    · -- nothing was produced: only a failure in `finalize` keeps the result from being `true`
      constructor
      · intro htruthful
        refine ⟨?_, ?_, fun _ hmem => ?_⟩
        · simpa using not_mem_of_forall hclosing rfl
        · simpa using not_mem_of_forall hclosing rfl
        · have hchildren : (Operation.waitForChildren, true) ∈ closing := by simpa using hmem
          exact not_completed_of_mem .waitForStart (by simp) rfl (htruthful (hlast.mpr hchildren))
      · intro hpassed hresult
        exact absurd (by simp [hlast.mp hresult]) (hpassed.2.2 (by simp))
    · refine iff_of_true (fun hresult => ?_) ⟨?_, ?_, fun hmem => ?_⟩
      · refine completed_of_run ?_ rfl (hcompleted rfl) ?_ ?_
        · simp [AllSucceeded]
        · exact List.forall_mem_cons.mpr ⟨fun _ => rfl,
            List.forall_mem_cons.mpr ⟨fun _ => rfl, hall hresult⟩⟩
        · simpa [produced, Operation.isPush] using produced_of_isClosing hclosing
      · simpa using ⟨not_mem_of_forall hproduction rfl, not_mem_of_forall hclosing rfl⟩
      · simpa using ⟨not_mem_of_forall hproduction rfl, not_mem_of_forall hclosing rfl⟩
      · have hneither : (Operation.waitForStart, false) ∉ rest ∧
            (Operation.waitForStart, false) ∉ closing :=
          ⟨not_mem_of_forall hproduction rfl, not_mem_of_forall hclosing rfl⟩
        simp [hneither] at hmem

/-- `process` of the parent or of a child producer tells the truth iff none of the three
failures that are returned as `EXIT_FAILURE` becomes its result. -/
theorem process_truthful_iff (asserts : Bool) (messageCount : ℕ) (role : Role)
    (trace : List (Operation × Bool)) (result : Option Bool)
    (h : Runs (process asserts messageCount role) trace result) :
    Truthful messageCount trace result ↔ PassedOn trace role := by
  cases role with
  | parent => exact parent_truthful_iff h
  | child => exact child_truthful_iff h

end Process

/-- A child that produces one message without a failure. -/
def oneProduced : List (Operation × Bool) :=
  [(.signalReadiness, true), (.waitForStart, true), (.formatMessage 0, true), (.push 0, true),
    (.notifyWritten 0, true), (.waitForRead 0, true), (.notifyCompletion, true)]

theorem process_oneProduced : Truthful 1 oneProduced (some true) := by
  refine (process_truthful_iff false 1 .child oneProduced (some true) ?_).mpr ?_
  · exact .ask <| .ask <| .ask <| .ask <| .ask <| .ask <| .ask <| .done _
  · simp [PassedOn, oneProduced]

/-- The wait of a child for the start fails: it has produced nothing, and `process` returns
`true`. -/
theorem not_truthful : ¬∀ (asserts : Bool) (messageCount : ℕ) (role : Role)
    (trace : List (Operation × Bool)) (result : Option Bool),
    Runs (process asserts messageCount role) trace result →
      Truthful messageCount trace result := by
  intro hall
  have hruns : Runs (process false 1 .child) [(.signalReadiness, true), (.waitForStart, false)]
      (some true) := .ask <| .ask <| .done _
  have hcount := (hall false 1 .child _ _ hruns rfl).2
  cases hcount

end InterProcess.Buffering
