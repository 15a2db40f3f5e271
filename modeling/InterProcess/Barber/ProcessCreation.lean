import InterProcess.Buffering.FailedForks

/-!
# `barber::role::create_child_processes`

The loops are those of `buffering::create_child_processes`, with `is_barber` for
the index of the outer one. Here the counts stand in the order of the roles, so
that each child gets the role it was created for: `createdAsAsked`.
-/

namespace InterProcess.Barber

open Buffering Interaction

structure ProcessInfo where
  isChild : Bool
  isBarber : Bool
  createdProcessCount : ℕ
  groupId : ℕ
  deriving DecidableEq, Repr

def createChildProcesses (barberCount customerGeneratorCount : ℕ) : Forks ProcessInfo := do
  let processCounts := [(false, customerGeneratorCount), (true, barberCount)]
  -- the flag of the loops is the role
  match ← createLoop processCounts 0 ⟨0, true, false, 0⟩ with
  | .left info _ =>
    return { isChild := false, isBarber := false, createdProcessCount := info.createdProcessCount
             groupId := 0 }
  | .returned info =>
    return { isChild := info.isChild, isBarber := info.isProducer
             createdProcessCount := info.createdProcessCount, groupId := info.groupId }

/-- The parent is no barber. -/
def report : Report ProcessInfo where
  info
    | .left info _ => ⟨false, false, info.createdProcessCount, 0⟩
    | .returned info => ⟨info.isChild, info.isProducer, info.createdProcessCount, info.groupId⟩
  isChild := ProcessInfo.isChild
  role := ProcessInfo.isBarber
  createdProcessCount := ProcessInfo.createdProcessCount
  isChild_left _ _ := rfl
  isChild_returned _ := rfl
  role_returned _ := rfl
  created_left _ _ := rfl
  created_returned _ := rfl

theorem createChildProcesses_eq (barberCount customerGeneratorCount : ℕ) :
    createChildProcesses barberCount customerGeneratorCount =
      report.creation customerGeneratorCount barberCount := by
  refine congrArg (Bind.bind _) (funext fun exit => ?_)
  cases exit <;> rfl

/-- The processes of each kind. -/
theorem countP_createChildProcesses (f : Bool → Bool → Bool) (b g : ℕ) :
    (processes (createChildProcesses b g)).countP (fun r => f (forkedIn r.1) r.2.isBarber) =
      (if f true false then g else 0) + (if f true true then b else 0) +
        (if f false false then 1 else 0) := by
  rw [createChildProcesses_eq]
  exact report.countP_processes f g b

theorem createChildProcesses_knows {b g : ℕ} {history : History} {info : ProcessInfo}
    (h : Runs (createChildProcesses b g) history info) :
    Knows (g + b) history info.isChild info.createdProcessCount := by
  rw [createChildProcesses_eq] at h
  exact report.creation_knows h

/-- The processes are the parent, a child for each customer generator and one for each barber; no
two are the same. -/
structure CreatedAsAsked (barberCount customerGeneratorCount : ℕ)
    (runs : List (History × ProcessInfo)) : Prop where
  distinct : (runs.map Prod.fst).Nodup
  parent : runs.countP (fun r => !forkedIn r.1) = 1
  generators : runs.countP (fun r => forkedIn r.1 && !r.2.isBarber) = customerGeneratorCount
  barbers : runs.countP (fun r => forkedIn r.1 && r.2.isBarber) = barberCount

/-- Every process knows whether it is a child, and the parent by its count whether a fork has
failed; when none fails, the processes are the ones asked for, in their roles. -/
theorem createdAsAsked (barberCount customerGeneratorCount : ℕ) :
    (∀ history info, Runs (createChildProcesses barberCount customerGeneratorCount) history info →
      Knows (customerGeneratorCount + barberCount) history info.isChild
        info.createdProcessCount) ∧
    CreatedAsAsked barberCount customerGeneratorCount
      (processes (createChildProcesses barberCount customerGeneratorCount)) := by
  have hcount := fun f => countP_createChildProcesses f barberCount customerGeneratorCount
  refine ⟨fun history info => createChildProcesses_knows, ?_, ?_, ?_, ?_⟩
  · rw [createChildProcesses_eq]
    exact report.histories_nodup _ _
  · simpa using hcount fun child _ => !child
  · simpa using hcount fun child barber => child && !barber
  · simpa using hcount fun child barber => child && barber

end InterProcess.Barber
