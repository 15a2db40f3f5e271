import InterProcess.Barber.ProcessCreation
import InterProcess.Processes.Cleanup

/-!
# `main` of the sleeping barber program

As in the consumer-producer program a child releases its copies of the removers
right after the fork. It keeps the destroyer of the data until it has signalled
that it is ready: where that fails it returns, and destroys the data the others
are using. `shop_cleansUp`: nothing else that is shared is disposed of by a
child.
-/

namespace InterProcess.Barber

open Buffering (History NoneFailed forkedIn forks)
open Cleanup Interaction Scoped

/-- What a process does once all is set up. -/
inductive Task
  | signalReadiness
  | waitTillReady
  | serveCustomer
  | generateCustomers
  | closeShop
  | notifyEmptyChairs
  | notifyCustomerWaiting
  | waitForChildren
  | compareCounts

/-- `main` once the processes are ready. -/
def attend (asserts : Bool) (info : ProcessInfo) : Program Task (Option ExitCode) := do
  if info.isChild then
    if info.isBarber then
      if (← call (.work .serveCustomer)) = .failed then
        return some .failure
    else
      if (← call (.work .generateCustomers)) = .failed then
        return some .failure
  else
    let _ ← call (.work .closeShop)
    let _ ← call (.work .notifyEmptyChairs)
    let _ ← call (.work .notifyCustomerWaiting)
    if (← call (.work .waitForChildren)) = .failed then
      return some .failure
    if asserts then
      if (← call (.work .compareCounts)) = .failed then
        return none
  return some .success

/-- `main` from the attachment of the memory on. -/
def attach (asserts : Bool) (info : ProcessInfo) : Program Task (Option ExitCode) := do
  if (← call (.acquire .attachment)) = .failed then
    return some .failure
  owning .attachment
  let _ ← call (.acquire .data)
  owning .data
  if info.isChild then
    if (← call (.work .signalReadiness)) = .failed then
      return some .failure
  else
    if (← call (.work .waitTillReady)) = .failed then
      return some .failure
  if info.isChild then
    releasing .data
  attend asserts info

def main (asserts : Bool) (barberCount customerGeneratorCount : ℕ) :
    Program Task (Option ExitCode) := do
  if (← call (.acquire .semaphores)) = .failed then
    return some .failure
  owning .semaphores
  if (← call .setValues) = .failed then
    return some .failure
  if (← call (.acquire .sharedMemory)) = .failed then
    return some .failure
  owning .sharedMemory
  let info ← forking (createChildProcesses barberCount customerGeneratorCount)
  if !info.isChild then
    if info.createdProcessCount ≠ barberCount + customerGeneratorCount then
      return some .failure
  else
    releasing .sharedMemory
    releasing .semaphores
  attach asserts info

/-! ## What is held at the end -/

/-- The process has failed to signal that it is ready. -/
def unready (trace : Trace Task) : Bool :=
  trace.any fun
    | (.work .signalReadiness, .failed) => true
    | _ => false

/-- A child holds its attachment, and the data if it has not got ready. -/
def held : Trace Task → List Resource :=
  holding fun trace r => r = .attachment || r = .data && unready trace

variable {before : Trace Task} {resources owned : List Resource} {history : History}
  {count : ℕ} {result : Option ExitCode}

theorem unready_append (trace trace' : Trace Task) :
    unready (trace ++ trace') = (unready trace || unready trace') := List.any_append

/-- A process that has not worked has not failed to get ready. -/
theorem unready_of_works {trace : Trace Task} (h : works trace = false) :
    unready trace = false := by
  refine List.any_eq_false.mpr fun x hx hunready => ?_
  have hwork := List.any_eq_false.mp h x hx
  obtain ⟨call, answer⟩ := x
  cases call <;> first | exact hwork rfl | cases hunready

/-- A process that has got ready, and works. -/
structure Attending (before : Trace Task) (resources : List Resource) (history : History) :
    Prop where
  summary : Summary before resources history true
  ready : unready before = false

theorem Attending.work (h : Attending before resources history) (task : Task) (answer : Answer)
    (htask : task ≠ .signalReadiness) :
    Attending (before ++ [(.work task, answer)]) resources history := by
  refine ⟨h.summary.work task answer, ?_⟩
  rw [unready_append, h.ready]
  cases task <;> first | rfl | exact absurd rfl htask

theorem Attending.ends (h : Attending before resources history)
    (howned : owned =
      if forkedIn history then resources.filter (· = .attachment) else resources)
    (hall : forkedIn history = false → NoneFailed history ∧ forks history = count) :
    Ends count held before result owned := by
  refine h.summary.ends_holding ?_ fun _ => hall
  simpa [h.ready] using howned

theorem ends_attend (asserts : Bool) {info : ProcessInfo}
    (h : Attending before resources history)
    (howned : owned =
      if forkedIn history then resources.filter (· = .attachment) else resources)
    (hall : forkedIn history = false → NoneFailed history ∧ forks history = count) :
    Ensures (Ends count held) (attend asserts info) before owned := by
  unfold attend
  cases info.isChild with
  | true =>
      cases info.isBarber with
      | true =>
          refine ensures_unless.mpr ⟨?_, fun served _ => ?_⟩
          · exact (h.work .serveCustomer _ nofun).ends howned hall
          · exact (h.work .serveCustomer served nofun).ends howned hall
      | false =>
          refine ensures_unless.mpr ⟨?_, fun generated _ => ?_⟩
          · exact (h.work .generateCustomers _ nofun).ends howned hall
          · exact (h.work .generateCustomers generated nofun).ends howned hall
  | false =>
      refine ensures_call.mpr fun closed => ?_
      have h₁ := h.work .closeShop closed nofun
      refine ensures_call.mpr fun chairs => ?_
      have h₂ := h₁.work .notifyEmptyChairs chairs nofun
      refine ensures_call.mpr fun waiting => ?_
      have h₃ := h₂.work .notifyCustomerWaiting waiting nofun
      refine ensures_unless.mpr ⟨?_, fun terminated _ => ?_⟩
      · exact (h₃.work .waitForChildren _ nofun).ends howned hall
      have h₄ := h₃.work .waitForChildren terminated nofun
      cases asserts with
      | true =>
          refine ensures_unless.mpr ⟨?_, fun compared _ => ?_⟩
          · exact (h₄.work .compareCounts _ nofun).ends howned hall
          · exact (h₄.work .compareCounts compared nofun).ends howned hall
      | false => exact h₄.ends howned hall

theorem ends_attach (count : ℕ) (asserts : Bool) {info : ProcessInfo}
    (h : Summary before [.sharedMemory, .semaphores] history false)
    (hchild : info.isChild = forkedIn history)
    (hall : forkedIn history = false → NoneFailed history ∧ forks history = count) :
    Ensures (Ends count held) (attach asserts info) before
      (if info.isChild then [] else [.sharedMemory, .semaphores]) := by
  refine ensures_unless.mpr ⟨?_, fun attached hattached => ?_⟩
  · refine (h.skip _ ⟨rfl, rfl, rfl, rfl⟩).ends_holding ?_ nofun
    rw [← hchild]
    rfl
  have h₁ := h.acquire .attachment attached (.inr hattached)
  refine ensures_owning.mpr (ensures_call.mpr fun constructed => ensures_owning.mpr ?_)
  have h₂ := h₁.acquire .data constructed (.inl rfl)
  have hready := unready_of_works h₂.works
  cases hself : info.isChild with
  | true =>
      rw [hself] at hchild
      refine ensures_unless.mpr ⟨?_, fun signalled hsignalled => ?_⟩
      · refine (h₂.work _ _).ends_holding ?_ fun _ => hall
        rw [← hchild, unready_append, hready]
        rfl
      · refine ensures_releasing.mpr (ends_attend asserts ⟨h₂.work _ _, ?_⟩ ?_ hall)
        · rw [unready_append, hready]
          cases signalled <;> first | rfl | exact absurd rfl hsignalled
        · rw [← hchild]
          rfl
  | false =>
      rw [hself] at hchild
      refine ensures_unless.mpr ⟨?_, fun waited _ => ?_⟩
      · refine (h₂.work _ _).ends_holding ?_ fun _ => hall
        rw [← hchild]
        rfl
      · refine ends_attend asserts ⟨h₂.work _ _, ?_⟩ ?_ hall
        · rw [unready_append, hready]
          rfl
        · rw [← hchild]
          rfl

theorem ends_main (asserts : Bool) (b g : ℕ) :
    Ensures (Ends (g + b) held) (main asserts b g) [] [] := by
  have h₀ : Summary ([] : Trace Task) [] [] false := .nil
  refine ensures_unless.mpr ⟨?_, fun semaphores hsemaphores => ?_⟩
  · exact (h₀.skip _ ⟨rfl, rfl, rfl, rfl⟩).ends_holding rfl nofun
  have h₁ := h₀.acquire .semaphores semaphores (.inr hsemaphores)
  refine ensures_owning.mpr (ensures_unless.mpr ⟨?_, fun values _ => ?_⟩)
  · exact (h₁.skip _ ⟨rfl, rfl, rfl, rfl⟩).ends_holding rfl nofun
  have h₂ := h₁.skip (.setValues, values) ⟨rfl, rfl, rfl, rfl⟩
  refine ensures_unless.mpr ⟨?_, fun memory hmemory => ?_⟩
  · exact (h₂.skip _ ⟨rfl, rfl, rfl, rfl⟩).ends_holding rfl nofun
  have h₃ := h₂.acquire .sharedMemory memory (.inr hmemory)
  refine ensures_owning.mpr (ensures_forking fun segment history info hruns hsegment => ?_)
  have h₄ := h₃.append hsegment
  obtain ⟨hchild, hcreated, hall⟩ := createChildProcesses_knows hruns
  have hattach := ends_attach (g + b) asserts h₄ hchild
  cases hself : info.isChild with
  | true =>
      rw [hself] at hattach hchild
      exact hattach fun hparent => nomatch hchild.trans hparent
  | false =>
      rw [hself] at hattach hcreated hall hchild
      show Ensures (Ends (g + b) held) (if info.createdProcessCount ≠ b + g then
          pure (some ExitCode.failure)
        else attach asserts info) _ _
      refine ensures_ite.mpr ⟨fun _ => ?_, fun hcount => ?_⟩
      · exact h₄.ends_holding (by rw [List.nil_append, ← hchild]; rfl) nofun
      have hcreatedAll : info.createdProcessCount = g + b :=
        (not_not.mp hcount).trans (Nat.add_comm b g)
      exact hattach fun _ => ⟨(hall rfl).mp hcreatedAll, (hcreated rfl).symm.trans hcreatedAll⟩

/-- In every run of a process, whatever its calls return, the process at its end disposes of what it
holds, the latest first and each once: the parent of all it has acquired, a child of its attachment
and, where it has failed to signal that it is ready, of the data before. And the parent gets to its
work only when all children have been created. -/
theorem shop_cleansUp (asserts : Bool) (barberCount customerGeneratorCount : ℕ)
    {trace : Trace Task} {result : Option ExitCode}
    (h : Runs ((main asserts barberCount customerGeneratorCount).enter (destroy asserts) [])
      trace result) :
    CleansUp held trace result ∧ Complete (customerGeneratorCount + barberCount) trace :=
  cleansUp_of_ends (ends_main asserts barberCount customerGeneratorCount) h

/-- The barber, whose signal fails. -/
def unreadyBarber : Trace Task :=
  [(.acquire .semaphores, .succeeded), (.setValues, .succeeded),
    (.acquire .sharedMemory, .succeeded), (.fork, .inChild), (.acquire .attachment, .succeeded),
    (.acquire .data, .succeeded), (.work .signalReadiness, .failed), (.dispose .data, .succeeded),
    (.dispose .attachment, .succeeded)]

theorem shop_cleansUp_unreadyBarber :
    CleansUp held unreadyBarber (some .failure) ∧ Complete (0 + 1) unreadyBarber :=
  shop_cleansUp true 1 0
    (.ask (.ask (.ask (.ask (.ask (.ask (.ask (.ask (.ask (.done _))))))))))

end InterProcess.Barber
