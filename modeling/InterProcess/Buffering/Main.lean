import InterProcess.Processes.Cleanup

/-!
# `main` of the consumer-producer program

The parent creates the shared memory and the semaphores and forks; every process
attaches the memory, constructs the data in it anew and runs its processor. The
objects that remove and destroy are the parent's: a child releases its copies of
the removers right after the fork and the destroyer of the data right after the
construction. `main_cleansUp`: so only the parent removes what is shared.
-/

namespace InterProcess.Buffering

open Cleanup Interaction Scoped

/-- `processor.process()` of the process the info is about. -/
structure Processing where
  info : ProcessInfo

/-- `main` from the attachment of the memory on. -/
def attach (info : ProcessInfo) : Program Processing (Option ExitCode) := do
  if (← call (.acquire .attachment)) = .failed then
    return some .failure
  owning .attachment
  let _ ← call (.acquire .data)
  owning .data
  if info.isChild then
    releasing .data
  if (← call (.work ⟨info⟩)) = .failed then
    return some .failure
  return some .success

def main (asserts : Bool) (childProducerCount childConsumerCount : ℕ) :
    Program Processing (Option ExitCode) := do
  if (← call (.acquire .sharedMemory)) = .failed then
    return some .failure
  owning .sharedMemory
  if (← call (.acquire .semaphores)) = .failed then
    return some .failure
  owning .semaphores
  if (← call .setValues) = .failed then
    return some .failure
  let info ← forking (createChildProcesses childProducerCount childConsumerCount)
  if !info.isChild then
    if info.createdProcessCount ≠ childProducerCount + childConsumerCount then
      return some .failure
    if asserts && !(0 < childConsumerCount && info.isProducer) then
      return none
  -- the parent process shall do the clean-up
  if info.isChild then
    releasing .sharedMemory
    releasing .semaphores
  attach info

/-! ## What is held at the end -/

/-- A child holds its attachment only. -/
def held : Trace Processing → List Resource := holding fun _ r => r = .attachment

theorem ends_attach {before : Trace Processing} {history : History} (count : ℕ) {info : ProcessInfo}
    (h : Summary before [.semaphores, .sharedMemory] history false)
    (hchild : info.isChild = forkedIn history)
    (hall : forkedIn history = false → NoneFailed history ∧ forks history = count) :
    Ensures (Ends count held) (attach info) before
      (if info.isChild then [] else [.semaphores, .sharedMemory]) := by
  refine ensures_unless.mpr ⟨?_, fun attached hattached => ?_⟩
  · refine (h.skip _ ⟨rfl, rfl, rfl, rfl⟩).ends_holding ?_ nofun
    rw [← hchild]
    rfl
  have h₁ := h.acquire .attachment attached (.inr hattached)
  refine ensures_owning.mpr (ensures_call.mpr fun constructed => ensures_owning.mpr ?_)
  have h₂ := h₁.acquire .data constructed (.inl rfl)
  cases hself : info.isChild with
  | true =>
      rw [hself] at hchild
      refine ensures_releasing.mpr (ensures_unless.mpr ⟨?_, fun worked hworked => ?_⟩)
      · exact (h₂.work _ _).ends_holding (by rw [← hchild]; rfl) fun _ => hall
      · exact (h₂.work _ _).ends_holding (by rw [← hchild]; rfl) fun _ => hall
  | false =>
      rw [hself] at hchild
      refine ensures_unless.mpr ⟨?_, fun worked hworked => ?_⟩
      · exact (h₂.work _ _).ends_holding (by rw [← hchild]; rfl) fun _ => hall
      · exact (h₂.work _ _).ends_holding (by rw [← hchild]; rfl) fun _ => hall

theorem ends_main (asserts : Bool) (p c : ℕ) :
    Ensures (Ends (p + c) held) (main asserts p c) [] [] := by
  have h₀ : Summary ([] : Trace Processing) [] [] false := .nil
  refine ensures_unless.mpr ⟨?_, fun memory hmemory => ?_⟩
  · exact (h₀.skip _ ⟨rfl, rfl, rfl, rfl⟩).ends_holding rfl nofun
  have h₁ := h₀.acquire .sharedMemory memory (.inr hmemory)
  refine ensures_owning.mpr (ensures_unless.mpr ⟨?_, fun semaphores hsemaphores => ?_⟩)
  · exact (h₁.skip _ ⟨rfl, rfl, rfl, rfl⟩).ends_holding rfl nofun
  have h₂ := h₁.acquire .semaphores semaphores (.inr hsemaphores)
  refine ensures_owning.mpr (ensures_unless.mpr ⟨?_, fun values _ => ?_⟩)
  · exact (h₂.skip _ ⟨rfl, rfl, rfl, rfl⟩).ends_holding rfl nofun
  have h₃ := h₂.skip (.setValues, values) ⟨rfl, rfl, rfl, rfl⟩
  refine ensures_forking fun segment history info hruns hsegment => ?_
  have h₄ := h₃.append hsegment
  obtain ⟨hchild, hcreated, hall⟩ := createChildProcesses_knows hruns
  have hattach := ends_attach (p + c) h₄ hchild
  cases hself : info.isChild with
  | true =>
      rw [hself] at hattach hchild
      exact hattach fun hparent => nomatch hchild.trans hparent
  | false =>
      rw [hself] at hattach hcreated hall hchild
      show Ensures (Ends (p + c) held) (if info.createdProcessCount ≠ p + c then
          pure (some ExitCode.failure)
        else if (asserts && !(decide (0 < c) && info.isProducer)) = true then pure none
        else attach info) _ _
      refine ensures_ite.mpr ⟨fun _ => ?_, fun hcount => ?_⟩
      · exact h₄.ends_holding (by rw [List.nil_append, ← hchild]; rfl) nofun
      have hforks : NoneFailed history ∧ forks history = p + c :=
        ⟨(hall rfl).mp (not_not.mp hcount), (hcreated rfl).symm.trans (not_not.mp hcount)⟩
      refine ensures_ite.mpr ⟨fun _ => ?_, fun _ => hattach fun _ => hforks⟩
      exact h₄.ends_holding (by rw [List.nil_append, ← hchild]; rfl) nofun

/-- In every run of a process, whatever its calls return, the process at its end disposes of what it
holds, the latest first and each once: the parent of all it has acquired, a child of its attachment
only. And the parent gets to its work only when all children have been created. -/
theorem main_cleansUp (asserts : Bool) (childProducerCount childConsumerCount : ℕ)
    {trace : Trace Processing} {result : Option ExitCode}
    (h : Runs ((main asserts childProducerCount childConsumerCount).enter (destroy asserts) [])
      trace result) :
    CleansUp held trace result ∧ Complete (childProducerCount + childConsumerCount) trace :=
  cleansUp_of_ends (ends_main asserts childProducerCount childConsumerCount) h

/-- A parent that fails to create its second child. -/
def oneChild : Trace Processing :=
  [(.acquire .sharedMemory, .succeeded), (.acquire .semaphores, .succeeded),
    (.setValues, .succeeded), (.fork, .succeeded), (.fork, .failed),
    (.dispose .semaphores, .succeeded), (.dispose .sharedMemory, .succeeded)]

theorem main_cleansUp_oneChild :
    CleansUp held oneChild (some .failure) ∧ Complete (1 + 1) oneChild :=
  main_cleansUp true 1 1
    (.ask (.ask (.ask (.ask (.ask (.ask (.ask (.done _))))))))

end InterProcess.Buffering
