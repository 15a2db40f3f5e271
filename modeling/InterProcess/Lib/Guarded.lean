import InterProcess.Lib.Lts
import InterProcess.Lib.Threads

/-!
# Data guarded by a mutex and a condition variable

A class keeps its data behind one mutex: each of its functions locks it,
exclusively or to read only, and accesses the data one access after another. A
function may first wait on the condition variable for a predicate of the data,
and may notify one waiter, before it unlocks or after. `Guarded` is such a class
and `step` its threads, which call the functions in any order; a waiter may also
wake up for no reason.

`Atomic` is the same class with every call done in a single step somewhere
between its invocation and its response. `refines`: whatever the interleaving,
the calls and the answers are a history of the atomic class, so the guarded one
is linearizable. It rests on the invariant `Inv`: who is in the mutex to write
is alone in it, and what it has done so far started from the data of the atomic
class.
-/

namespace InterProcess

open Function Lts Threads

/-- How a call holds the mutex. -/
inductive Mode
  | exclusive
  | shared
  deriving DecidableEq, Repr

/-- Whether a call notifies one waiter, and whether it still holds the mutex then. -/
inductive Notifies
  | never
  | holding
  | released
  deriving DecidableEq, Repr

/-- The functions of a class. `Local` is where a function is between two of its accesses. -/
structure Guarded (Data Call Local Ans : Type) where
  mode : Call → Mode
  /-- The predicate a call waits for; true where it does not wait. -/
  ready : Call → Data → Bool
  enter : Local
  /-- One access to the data; the last one comes with the answer. -/
  access : Call → Local → Data → Data × (Local ⊕ Ans)
  notifies : Call → Notifies

/-- What a caller sees. -/
inductive Event (ι Call Ans : Type)
  | invoke (i : ι) (c : Call)
  | respond (i : ι) (a : Ans)
  deriving DecidableEq, Repr

namespace Guarded

variable {ι Data Call Local Ans : Type}

/-- Where a thread is in its call. -/
inductive Phase (Call Local Ans : Type)
  | idle
  | locking (c : Call)
  | checking (c : Call)
  | inside (c : Call) (l : Local)
  | notifying (c : Call) (a : Ans)
  | unlocking (c : Call) (a : Ans)
  | notifyingReleased (a : Ans)
  | waiting (c : Call)
  | woken (c : Call)

/-- The mutex (a writer, a number of readers), the data, the threads, and the history. The data
of the atomic class, `committed`, is not kept by the program. -/
structure State (ι Data Call Local Ans : Type) where
  writer : Bool
  readers : ℕ
  data : Data
  threads : ι → Phase Call Local Ans
  history : List (Event ι Call Ans)
  committed : Data

def State.init (d : Data) : State ι Data Call Local Ans :=
  { writer := false, readers := 0, data := d, threads := fun _ => .idle, history := []
    committed := d }

/-- A thread calls a function, goes on in its call (a notification wakes the named waiter), or
wakes up for no reason. -/
inductive Label (ι Call : Type)
  | call (i : ι) (c : Call)
  | resume (i : ι) (wake : Option ι)
  | spurious (i : ι)

/-! ## The steps -/

/-- Lock in the given mode; `none` while the mutex is not available. -/
def State.acquire (σ : State ι Data Call Local Ans) :
    Mode → Option (State ι Data Call Local Ans)
  | .exclusive =>
      if σ.writer = false ∧ σ.readers = 0 then some { σ with writer := true } else none
  | .shared => if σ.writer = false then some { σ with readers := σ.readers + 1 } else none

def State.release (σ : State ι Data Call Local Ans) : Mode → State ι Data Call Local Ans
  | .exclusive => { σ with writer := false }
  | .shared => { σ with readers := σ.readers - 1 }

def Phase.isWaiting : Phase Call Local Ans → Bool
  | .waiting _ => true
  | _ => false

section Step

variable [DecidableEq ι]

def State.move (σ : State ι Data Call Local Ans) (i : ι) (phase : Phase Call Local Ans) :
    State ι Data Call Local Ans :=
  { σ with threads := update σ.threads i phase }

def State.respond (σ : State ι Data Call Local Ans) (i : ι) (a : Ans) :
    State ι Data Call Local Ans :=
  { σ with threads := update σ.threads i .idle, history := σ.history ++ [.respond i a] }

/-- `notify_one`: the named waiter wakes up; nobody does only where nobody waits. -/
def State.notifyOne [Fintype ι] (σ : State ι Data Call Local Ans) :
    Option ι → Option (State ι Data Call Local Ans)
  | none => if ∀ j, (σ.threads j).isWaiting = false then some σ else none
  | some j =>
      match σ.threads j with
      | .waiting c => some (σ.move j (.woken c))
      | _ => none

variable (g : Guarded Data Call Local Ans)

/-- What follows the last access. -/
def after (c : Call) (a : Ans) : Phase Call Local Ans :=
  match g.notifies c with
  | .holding => .notifying c a
  | _ => .unlocking c a

variable [Fintype ι]

/-- The next step of thread `i` in its call. -/
def resume (σ : State ι Data Call Local Ans) (i : ι) (wake : Option ι) :
    Option (State ι Data Call Local Ans) :=
  match σ.threads i with
  | .locking c | .woken c => (σ.acquire (g.mode c)).map fun σ => σ.move i (.checking c)
  | .checking c =>
      if g.ready c σ.data then some (σ.move i (.inside c g.enter))
      else some ((σ.release (g.mode c)).move i (.waiting c))
  | .inside c l =>
      match g.access c l σ.data with
      | (d, .inl l) => some ({ σ with data := d }.move i (.inside c l))
      | (d, .inr a) => some ({ σ with data := d, committed := d }.move i (g.after c a))
  | .notifying c a => (σ.notifyOne wake).map fun σ => σ.move i (.unlocking c a)
  | .unlocking c a =>
      if g.notifies c = .released then
        some ((σ.release (g.mode c)).move i (.notifyingReleased a))
      else some ((σ.release (g.mode c)).respond i a)
  | .notifyingReleased a => (σ.notifyOne wake).map fun σ => σ.respond i a
  | .idle | .waiting _ => none

def step (σ : State ι Data Call Local Ans) : Label ι Call → Option (State ι Data Call Local Ans)
  | .call i c =>
      match σ.threads i with
      | .idle => some ({ σ with history := σ.history ++ [Event.invoke i c] }.move i (.locking c))
      | _ => none
  | .resume i wake => g.resume σ i wake
  | .spurious i =>
      match σ.threads i with
      | .waiting c => some (σ.move i (.woken c))
      | _ => none

end Step

/-! ## The accesses of a call -/

variable (g : Guarded Data Call Local Ans)

/-- Where a call is, and what the data is, some accesses after it has found the data to be `d`. -/
inductive Accesses (c : Call) (d : Data) : Local → Data → Prop
  | enter : Accesses c d g.enter d
  | access {l l' : Local} {d' d'' : Data} (h : Accesses c d l d')
      (haccess : g.access c l d' = (d'', .inl l')) : Accesses c d l' d''

/-- A call made all at once: what it makes of the data, and its answer. -/
def Acts (c : Call) (d d' : Data) (a : Ans) : Prop :=
  ∃ l d₁, g.Accesses c d l d₁ ∧ g.access c l d₁ = (d', .inr a)

/-- A call that holds the mutex to read leaves the data alone. -/
def Reads : Prop := ∀ c l d, g.mode c = .shared → (g.access c l d).1 = d

variable {g}

theorem Accesses.eq_of_shared (hreads : g.Reads) {c : Call} (hmode : g.mode c = .shared)
    {d d' : Data} {l : Local} (h : g.Accesses c d l d') : d' = d := by
  induction h with
  | enter => rfl
  | access h haccess ih =>
      rename_i l l' d' d''
      have hkept := hreads c l d' hmode
      rw [haccess] at hkept
      exact hkept.trans ih

/-! ## Who holds the mutex -/

/-- How the thread holds the mutex, if it does. -/
def Phase.holds (g : Guarded Data Call Local Ans) : Phase Call Local Ans → Option Mode
  | .checking c | .inside c _ | .notifying c _ | .unlocking c _ => some (g.mode c)
  | _ => none

def holdsWeight (g : Guarded Data Call Local Ans) (mode : Mode) (p : Phase Call Local Ans) : ℕ :=
  if p.holds g = some mode then 1 else 0

theorem holdsWeight_of_holds {mode : Mode} {p : Phase Call Local Ans}
    (h : p.holds g = some mode) : holdsWeight g mode p = 1 := if_pos h

theorem holdsWeight_of_ne {mode : Mode} {p : Phase Call Local Ans}
    (h : p.holds g ≠ some mode) : holdsWeight g mode p = 0 := if_neg h

@[simp] theorem holds_after (c : Call) (a : Ans) : (g.after c a).holds g = some (g.mode c) := by
  unfold after
  split <;> rfl

/-! ## The steps read backwards -/

section Moves

variable [DecidableEq ι] [Fintype ι]

/-- Everything a step can do. -/
inductive Moves (g : Guarded Data Call Local Ans) (σ : State ι Data Call Local Ans) :
    State ι Data Call Local Ans → Prop
  | invoke {i : ι} (c : Call) (hpc : σ.threads i = .idle) :
      Moves g σ ({ σ with history := σ.history ++ [Event.invoke i c] }.move i (.locking c))
  | lock {i : ι} {c : Call} {σ₁ : State ι Data Call Local Ans}
      (hpc : σ.threads i = .locking c ∨ σ.threads i = .woken c)
      (hacquire : σ.acquire (g.mode c) = some σ₁) : Moves g σ (σ₁.move i (.checking c))
  | enter {i : ι} {c : Call} (hpc : σ.threads i = .checking c)
      (hready : g.ready c σ.data = true) : Moves g σ (σ.move i (.inside c g.enter))
  | sleep {i : ι} {c : Call} (hpc : σ.threads i = .checking c)
      (hready : g.ready c σ.data = false) :
      Moves g σ ((σ.release (g.mode c)).move i (.waiting c))
  | access {i : ι} {c : Call} {l l' : Local} {d : Data} (hpc : σ.threads i = .inside c l)
      (haccess : g.access c l σ.data = (d, .inl l')) :
      Moves g σ ({ σ with data := d }.move i (.inside c l'))
  | commit {i : ι} {c : Call} {l : Local} {d : Data} {a : Ans} (hpc : σ.threads i = .inside c l)
      (haccess : g.access c l σ.data = (d, .inr a)) :
      Moves g σ ({ σ with data := d, committed := d }.move i (g.after c a))
  | notify {i : ι} {c : Call} {a : Ans} {wake : Option ι} {σ₁ : State ι Data Call Local Ans}
      (hpc : σ.threads i = .notifying c a) (hnotify : σ.notifyOne wake = some σ₁) :
      Moves g σ (σ₁.move i (.unlocking c a))
  | unlock {i : ι} {c : Call} {a : Ans} (hpc : σ.threads i = .unlocking c a)
      (hreleased : g.notifies c = .released) :
      Moves g σ ((σ.release (g.mode c)).move i (.notifyingReleased a))
  | finish {i : ι} {c : Call} {a : Ans} (hpc : σ.threads i = .unlocking c a)
      (hreleased : g.notifies c ≠ .released) : Moves g σ ((σ.release (g.mode c)).respond i a)
  | notifyReleased {i : ι} {a : Ans} {wake : Option ι} {σ₁ : State ι Data Call Local Ans}
      (hpc : σ.threads i = .notifyingReleased a) (hnotify : σ.notifyOne wake = some σ₁) :
      Moves g σ (σ₁.respond i a)
  | spurious {i : ι} {c : Call} (hpc : σ.threads i = .waiting c) :
      Moves g σ (σ.move i (.woken c))

variable {σ σ' : State ι Data Call Local Ans} {i : ι} {wake : Option ι}

theorem moves_of_resume (h : g.resume σ i wake = some σ') : Moves g σ σ' := by
  unfold resume at h
  cases hpc : σ.threads i with
  | idle | waiting c => simp [hpc] at h
  | locking c =>
      simp only [hpc, Option.map_eq_some_iff] at h
      obtain ⟨σ₁, hacquire, rfl⟩ := h
      exact .lock (.inl hpc) hacquire
  | woken c =>
      simp only [hpc, Option.map_eq_some_iff] at h
      obtain ⟨σ₁, hacquire, rfl⟩ := h
      exact .lock (.inr hpc) hacquire
  | checking c =>
      simp only [hpc] at h
      split at h
      · next hready => cases h; exact .enter hpc hready
      · next hready => cases h; exact .sleep hpc (by simpa using hready)
  | inside c l =>
      simp only [hpc] at h
      split at h
      · next haccess => cases h; exact .access hpc haccess
      · next haccess => cases h; exact .commit hpc haccess
  | notifying c a =>
      simp only [hpc, Option.map_eq_some_iff] at h
      obtain ⟨σ₁, hnotify, rfl⟩ := h
      exact .notify hpc hnotify
  | unlocking c a =>
      simp only [hpc] at h
      split at h
      · next hreleased => cases h; exact .unlock hpc hreleased
      · next hreleased => cases h; exact .finish hpc hreleased
  | notifyingReleased a =>
      simp only [hpc, Option.map_eq_some_iff] at h
      obtain ⟨σ₁, hnotify, rfl⟩ := h
      exact .notifyReleased hpc hnotify

theorem moves_of_step {l : Label ι Call} (h : g.step σ l = some σ') : Moves g σ σ' := by
  cases l with
  | call i c =>
      simp only [step] at h
      split at h
      · next hpc => cases h; exact .invoke c hpc
      · cases h
  | resume i wake => exact moves_of_resume h
  | spurious i =>
      simp only [step] at h
      split at h
      · next hpc => cases h; exact .spurious hpc
      · cases h

theorem notifyOne_cases (h : σ.notifyOne wake = some σ') :
    ((∀ j, (σ.threads j).isWaiting = false) ∧ σ' = σ) ∨
      ∃ j c, σ.threads j = .waiting c ∧ σ' = σ.move j (.woken c) := by
  cases wake with
  | none =>
      simp only [State.notifyOne, Option.ite_none_right_eq_some, Option.some.injEq] at h
      exact .inl ⟨h.1, h.2.symm⟩
  | some j =>
      simp only [State.notifyOne] at h
      split at h
      · next hpc => cases h; exact .inr ⟨j, _, hpc, rfl⟩
      · cases h

/-- Only a waiter is touched. -/
theorem notifyOne_keeps (h : σ.notifyOne wake = some σ') (k : ι)
    (hk : (σ.threads k).isWaiting = false) : σ'.threads k = σ.threads k := by
  rcases notifyOne_cases h with ⟨-, rfl⟩ | ⟨j, c, hj, rfl⟩
  · rfl
  · refine update_of_ne ?_ _ _
    rintro rfl
    rw [hj] at hk
    cases hk

end Moves

/-! ## The invariant -/

def Phase.isInside : Phase Call Local Ans → Bool
  | .inside _ _ => true
  | _ => false

/-- What a call inside has done so far, it has done to the data of the atomic class. -/
def Started (g : Guarded Data Call Local Ans) (committed data : Data)
    (p : Phase Call Local Ans) : Prop :=
  ∀ c l, p = .inside c l → g.ready c committed = true ∧ g.Accesses c committed l data

/-- The mutex counts its holders and never has a writer beside another. The data is that of the
atomic class, unless a writer is at work; what a call has done so far started from there. -/
structure Inv (g : Guarded Data Call Local Ans) [Fintype ι] (σ : State ι Data Call Local Ans) :
    Prop where
  writer_eq : total (holdsWeight g .exclusive) σ.threads = σ.writer.toNat
  readers_eq : total (holdsWeight g .shared) σ.threads = σ.readers
  apart : σ.writer = true → σ.readers = 0
  stable : σ.data = σ.committed ∨ ∃ i c l, σ.threads i = .inside c l ∧ g.mode c = .exclusive
  started : ∀ i, Started g σ.committed σ.data (σ.threads i)

section Inv

variable [Fintype ι] {σ σ' : State ι Data Call Local Ans} {i : ι} {p : Phase Call Local Ans}

theorem inv_init (d : Data) : Inv g (State.init d : State ι Data Call Local Ans) where
  writer_eq := total_eq_zero fun _ => rfl
  readers_eq := total_eq_zero fun _ => rfl
  apart := nofun
  stable := .inl rfl
  started := fun _ => nofun

/-- A writer is the only thread in the mutex. -/
theorem Inv.alone (h : Inv g σ) (hholds : (σ.threads i).holds g = some .exclusive) {j : ι}
    (hj : j ≠ i) : (σ.threads j).holds g = none := by
  have hi := holdsWeight_of_holds hholds
  have hle := le_total (holdsWeight g .exclusive) σ.threads i
  have hboth := add_le_total (holdsWeight g .exclusive) σ.threads hj
  have hwriter := h.writer_eq
  have hreader := le_total (holdsWeight g .shared) σ.threads j
  rw [h.readers_eq] at hreader
  cases hw : σ.writer with
  | false => rw [hw, Bool.toNat_false] at hwriter; omega
  | true =>
      rw [hw, Bool.toNat_true] at hwriter
      rw [h.apart hw] at hreader
      cases hmode : (σ.threads j).holds g with
      | none => rfl
      | some mode =>
          cases mode with
          | exclusive => rw [holdsWeight_of_holds hmode] at hboth; omega
          | shared => rw [holdsWeight_of_holds hmode] at hreader; omega

/-- A thread that holds the mutex outside of its accesses finds the data of the atomic class. -/
theorem Inv.data_eq (h : Inv g σ) {mode : Mode} (hholds : (σ.threads i).holds g = some mode)
    (hout : (σ.threads i).isInside = false) : σ.data = σ.committed := by
  rcases h.stable with heq | ⟨j, c, l, hj, hmode⟩
  · exact heq
  · have hne : i ≠ j := by
      rintro rfl
      rw [hj] at hout
      cases hout
    have hnone := h.alone (i := j) (by rw [hj, ← hmode]; rfl) hne
    rw [hholds] at hnone
    cases hnone

/-- The calls inside beside the one that accesses the data only read, and see what they saw. -/
theorem Inv.kept_of_access (hreads : g.Reads) (h : Inv g σ) {c : Call} {l : Local}
    (hpc : σ.threads i = .inside c l) {j : ι} (hj : j ≠ i) {c' : Call} {l' : Local}
    (hpc' : σ.threads j = .inside c' l') : (g.access c l σ.data).1 = σ.data := by
  refine hreads c l σ.data ?_
  cases hmode : g.mode c with
  | shared => rfl
  | exclusive =>
      have hnone := h.alone (i := i) (by rw [hpc, ← hmode]; rfl) hj
      rw [hpc'] at hnone
      cases hnone

/-- The history does not matter to the invariant. -/
theorem Inv.record (h : Inv g σ) (history : List (Event ι Call Ans)) :
    Inv g { σ with history := history } :=
  ⟨h.writer_eq, h.readers_eq, h.apart, h.stable, h.started⟩

variable [DecidableEq ι]

/-- A writer at work stays so when another thread moves. -/
theorem Inv.stable_move (h : Inv g σ) (hout : (σ.threads i).isInside = false) :
    σ.data = σ.committed ∨
      ∃ j c l, update σ.threads i p j = .inside c l ∧ g.mode c = .exclusive := by
  refine h.stable.imp_right ?_
  rintro ⟨j, c, l, hj, hmode⟩
  refine ⟨j, c, l, ?_, hmode⟩
  rw [update_of_ne]
  · exact hj
  · rintro rfl
    rw [hj] at hout
    cases hout

/-- What the calls inside have done is not touched by a thread that does not come in. -/
theorem Inv.started_move (h : Inv g σ) (hin : p.isInside = false) :
    ∀ j, Started g σ.committed σ.data (update σ.threads i p j) := by
  refine forall_update ?_ fun j _ => h.started j
  rintro c l rfl
  cases hin

/-- A thread moves outside of its accesses and holds the mutex as before. -/
theorem Inv.move (h : Inv g σ) (hout : (σ.threads i).isInside = false) (hin : p.isInside = false)
    (hholds : p.holds g = (σ.threads i).holds g) : Inv g (σ.move i p) where
  writer_eq := by
    refine (total_update_of_eq _ _ _ _ ?_).trans h.writer_eq
    simp only [holdsWeight, hholds]
  readers_eq := by
    refine (total_update_of_eq _ _ _ _ ?_).trans h.readers_eq
    simp only [holdsWeight, hholds]
  apart := h.apart
  stable := h.stable_move hout
  started := h.started_move hin

theorem Inv.acquire (h : Inv g σ) {c : Call}
    (hpc : σ.threads i = .locking c ∨ σ.threads i = .woken c) {σ₁ : State ι Data Call Local Ans} (hacquire : σ.acquire (g.mode c) = some σ₁) :
    Inv g (σ₁.move i (.checking c)) := by
  have hnone : (σ.threads i).holds g = none := by rcases hpc with hpc | hpc <;> rw [hpc] <;> rfl
  have hout : (σ.threads i).isInside = false := by rcases hpc with hpc | hpc <;> rw [hpc] <;> rfl
  have hwriter := total_update (holdsWeight g .exclusive) σ.threads i (.checking c)
  have hreaders := total_update (holdsWeight g .shared) σ.threads i (.checking c)
  rw [h.writer_eq, holdsWeight_of_ne (by rw [hnone]; nofun)] at hwriter
  rw [h.readers_eq, holdsWeight_of_ne (by rw [hnone]; nofun)] at hreaders
  cases hmode : g.mode c with
  | exclusive =>
      have hchecking : (.checking c : Phase Call Local Ans).holds g = some .exclusive :=
        congrArg some hmode
      rw [holdsWeight_of_holds hchecking] at hwriter
      rw [holdsWeight_of_ne (by rw [hchecking]; nofun)] at hreaders
      simp only [hmode, State.acquire, Option.ite_none_right_eq_some, Option.some.injEq]
        at hacquire
      obtain ⟨⟨hfree, hzero⟩, rfl⟩ := hacquire
      rw [hfree] at hwriter
      exact ⟨hwriter, hreaders, fun _ => hzero, h.stable_move hout, h.started_move rfl⟩
  | shared =>
      have hchecking : (.checking c : Phase Call Local Ans).holds g = some .shared :=
        congrArg some hmode
      rw [holdsWeight_of_ne (by rw [hchecking]; nofun)] at hwriter
      rw [holdsWeight_of_holds hchecking] at hreaders
      simp only [hmode, State.acquire, Option.ite_none_right_eq_some, Option.some.injEq]
        at hacquire
      obtain ⟨hfree, rfl⟩ := hacquire
      refine ⟨hwriter, hreaders, fun hw => ?_, h.stable_move hout, h.started_move rfl⟩
      rw [show σ.writer = true from hw] at hfree
      cases hfree

theorem Inv.release (h : Inv g σ) {mode : Mode} (hholds : (σ.threads i).holds g = some mode)
    (hout : (σ.threads i).isInside = false) (hnone : p.holds g = none)
    (hin : p.isInside = false) : Inv g ((σ.release mode).move i p) := by
  have hwriter := total_update (holdsWeight g .exclusive) σ.threads i p
  have hreaders := total_update (holdsWeight g .shared) σ.threads i p
  rw [h.writer_eq, holdsWeight_of_ne (p := p) (by rw [hnone]; nofun)] at hwriter
  rw [h.readers_eq, holdsWeight_of_ne (p := p) (by rw [hnone]; nofun)] at hreaders
  cases mode with
  | exclusive =>
      have hone := le_total (holdsWeight g .exclusive) σ.threads i
      rw [holdsWeight_of_holds hholds, h.writer_eq] at hone
      rw [holdsWeight_of_holds hholds] at hwriter
      rw [holdsWeight_of_ne (p := σ.threads i) (by rw [hholds]; nofun)] at hreaders
      have hle := Bool.toNat_le σ.writer
      refine ⟨?_, hreaders, nofun, h.stable_move hout, h.started_move hin⟩
      show total (holdsWeight g .exclusive) (update σ.threads i p) = 0
      omega
  | shared =>
      rw [holdsWeight_of_ne (p := σ.threads i) (by rw [hholds]; nofun)] at hwriter
      rw [holdsWeight_of_holds hholds] at hreaders
      refine ⟨hwriter, ?_, fun hw => ?_, h.stable_move hout, h.started_move hin⟩
      · show total (holdsWeight g .shared) (update σ.threads i p) = σ.readers - 1
        omega
      · show σ.readers - 1 = 0
        rw [h.apart hw]

theorem Inv.enter (h : Inv g σ) {c : Call} (hpc : σ.threads i = .checking c)
    (hready : g.ready c σ.data = true) : Inv g (σ.move i (.inside c g.enter)) := by
  have hdata : σ.data = σ.committed :=
    h.data_eq (i := i) (by rw [hpc]; rfl) (by rw [hpc]; rfl)
  have hholds : (Phase.inside c g.enter).holds g = (σ.threads i).holds g := by
    rw [hpc]
    rfl
  refine ⟨?_, ?_, h.apart, .inl hdata, forall_update ?_ fun j _ => h.started j⟩
  · refine (total_update_of_eq _ _ _ _ ?_).trans h.writer_eq
    simp only [holdsWeight, hholds]
  · refine (total_update_of_eq _ _ _ _ ?_).trans h.readers_eq
    simp only [holdsWeight, hholds]
  · rintro c' l' heq
    cases heq
    refine ⟨hdata ▸ hready, ?_⟩
    show g.Accesses c σ.committed g.enter σ.data
    rw [hdata]
    exact .enter

theorem Inv.access (hreads : g.Reads) (h : Inv g σ) {c : Call} {l l' : Local} {d : Data}
    (hpc : σ.threads i = .inside c l) (haccess : g.access c l σ.data = (d, .inl l')) :
    Inv g ({ σ with data := d }.move i (.inside c l')) := by
  have hholds : (Phase.inside c l').holds g = (σ.threads i).holds g := by
    rw [hpc]
    rfl
  obtain ⟨hready, hstarted⟩ := h.started i c l hpc
  refine ⟨?_, ?_, h.apart, ?_, forall_update ?_ fun j hj c' l'' hpc' => ?_⟩
  · refine (total_update_of_eq _ _ _ _ ?_).trans h.writer_eq
    simp only [holdsWeight, hholds]
  · refine (total_update_of_eq _ _ _ _ ?_).trans h.readers_eq
    simp only [holdsWeight, hholds]
  · cases hmode : g.mode c with
    | exclusive => exact .inr ⟨i, c, l', update_self .., hmode⟩
    | shared => exact .inl (Accesses.eq_of_shared hreads hmode (.access hstarted haccess))
  · rintro c' l'' heq
    cases heq
    exact ⟨hready, .access hstarted haccess⟩
  · have hkept := h.kept_of_access hreads hpc hj hpc'
    rw [haccess] at hkept
    obtain rfl : d = σ.data := hkept
    exact h.started j c' l'' hpc'

theorem Inv.commit (hreads : g.Reads) (h : Inv g σ) {c : Call} {l : Local} {d : Data} {a : Ans}
    (hpc : σ.threads i = .inside c l) (haccess : g.access c l σ.data = (d, .inr a)) :
    Inv g ({ σ with data := d, committed := d }.move i (g.after c a)) := by
  have hholds : (g.after c a).holds g = (σ.threads i).holds g := by
    rw [hpc, holds_after]
    rfl
  refine ⟨?_, ?_, h.apart, .inl rfl, forall_update ?_ fun j hj c' l'' hpc' => ?_⟩
  · refine (total_update_of_eq _ _ _ _ ?_).trans h.writer_eq
    simp only [holdsWeight, hholds]
  · refine (total_update_of_eq _ _ _ _ ?_).trans h.readers_eq
    simp only [holdsWeight, hholds]
  · intro c' l'' heq
    rw [after] at heq
    split at heq <;> cases heq
  · have hkept := h.kept_of_access hreads hpc hj hpc'
    rw [haccess] at hkept
    obtain rfl : d = σ.data := hkept
    -- a writer beside this call there is none, so the two data are the same
    have hdata : σ.data = σ.committed := by
      rcases h.stable with heq | ⟨k, c₁, l₁, hk, hmode⟩
      · exact heq
      · have hexclusive : (σ.threads k).holds g = some .exclusive := by rw [hk, ← hmode]; rfl
        by_cases hki : i = k
        · have hnone := h.alone hexclusive (j := j) (hki ▸ hj)
          rw [hpc'] at hnone
          cases hnone
        · have hnone := h.alone hexclusive (j := i) hki
          rw [hpc] at hnone
          cases hnone
    have hstarted := h.started j c' l'' hpc'
    rw [← hdata] at hstarted
    exact hstarted

theorem Inv.notifyOne (h : Inv g σ) {wake : Option ι} {σ₁ : State ι Data Call Local Ans}
    (hnotify : σ.notifyOne wake = some σ₁) :
    Inv g σ₁ ∧ ∀ k, (σ.threads k).isWaiting = false → σ₁.threads k = σ.threads k := by
  refine ⟨?_, notifyOne_keeps hnotify⟩
  rcases notifyOne_cases hnotify with ⟨-, rfl⟩ | ⟨j, c, hj, rfl⟩
  · exact h
  · exact h.move (by rw [hj]; rfl) rfl (by rw [hj]; rfl)

theorem Inv.moves (hreads : g.Reads) (h : Inv g σ) (hmoves : Moves g σ σ') : Inv g σ' := by
  cases hmoves with
  | invoke c hpc =>
      refine (h.record _).move ?_ rfl ?_ <;> rw [show _ = Phase.idle from hpc] <;> rfl
  | lock hpc hacquire => exact h.acquire hpc hacquire
  | enter hpc hready => exact h.enter hpc hready
  | sleep hpc hready => exact h.release (by rw [hpc]; rfl) (by rw [hpc]; rfl) rfl rfl
  | access hpc haccess => exact h.access hreads hpc haccess
  | commit hpc haccess => exact h.commit hreads hpc haccess
  | notify hpc hnotify =>
      obtain ⟨h₁, hrest⟩ := h.notifyOne hnotify
      have hpc₁ := (hrest _ (by rw [hpc]; rfl)).trans hpc
      exact h₁.move (by rw [hpc₁]; rfl) rfl (by rw [hpc₁]; rfl)
  | unlock hpc hreleased => exact h.release (by rw [hpc]; rfl) (by rw [hpc]; rfl) rfl rfl
  | finish hpc hreleased =>
      exact (h.release (by rw [hpc]; rfl) (by rw [hpc]; rfl) rfl rfl).record _
  | notifyReleased hpc hnotify =>
      obtain ⟨h₁, hrest⟩ := h.notifyOne hnotify
      have hpc₁ := (hrest _ (by rw [hpc]; rfl)).trans hpc
      exact (h₁.move (p := .idle) (by rw [hpc₁]; rfl) rfl (by rw [hpc₁]; rfl)).record _
  | spurious hpc => exact h.move (by rw [hpc]; rfl) rfl (by rw [hpc]; rfl)

theorem inv_of_reachable (hreads : g.Reads) {d : Data}
    (h : Reachable g.step (State.init d) σ) : Inv g σ :=
  h.induction (inv_init d) fun _ _ _ hinv hstep => hinv.moves hreads (moves_of_step hstep)

end Inv

end Guarded

/-! ## The atomic class -/

namespace Atomic

variable {ι Data Call Local Ans : Type}

/-- Where a call is: not begun, begun, done. -/
inductive Phase (Call Ans : Type)
  | idle
  | pending (c : Call)
  | done (a : Ans)

structure State (ι Data Call Ans : Type) where
  data : Data
  threads : ι → Phase Call Ans
  history : List (Event ι Call Ans)

def State.init (d : Data) : State ι Data Call Ans :=
  { data := d, threads := fun _ => .idle, history := [] }

/-- A call is begun, done in one step as `spec` has it, and answered. -/
inductive Step [DecidableEq ι] (spec : Call → Data → Data → Ans → Prop)
    (s : State ι Data Call Ans) : State ι Data Call Ans → Prop
  | invoke {i : ι} (c : Call) (hidle : s.threads i = .idle) :
      Step spec s { s with
        threads := update s.threads i (.pending c)
        history := s.history ++ [.invoke i c] }
  | commit {i : ι} {c : Call} {d : Data} {a : Ans} (hpending : s.threads i = .pending c)
      (hspec : spec c s.data d a) :
      Step spec s { s with data := d, threads := update s.threads i (.done a) }
  | respond {i : ι} {a : Ans} (hdone : s.threads i = .done a) :
      Step spec s { s with
        threads := update s.threads i .idle
        history := s.history ++ [.respond i a] }

/-- The states the atomic class gets to. -/
def Reaches [DecidableEq ι] (spec : Call → Data → Data → Ans → Prop) :
    State ι Data Call Ans → State ι Data Call Ans → Prop :=
  Relation.ReflTransGen (Step spec)

/-! ## What the calls bring in and take out

A call brings something in, its answer takes something out, and the data holds the rest. -/

section Conserved

variable {N : Type} [AddCancelCommMonoid N] (puts : Call → N) (takes : Ans → N)

/-- What the calls in the history bring in. -/
def putIn (history : List (Event ι Call Ans)) : N :=
  (history.map fun
    | .invoke _ c => puts c
    | .respond _ _ => 0).sum

/-- What the answers in the history take out. -/
def takenOut (history : List (Event ι Call Ans)) : N :=
  (history.map fun
    | .invoke _ _ => 0
    | .respond _ a => takes a).sum

/-- What a thread has in hand: not brought in yet, or not given back yet. -/
def Phase.inHand : Phase Call Ans → N
  | .idle => 0
  | .pending c => puts c
  | .done a => takes a

variable {puts takes} [DecidableEq ι] [Fintype ι]

/-- Nothing gets lost or doubled if each call, as it is done, exchanges what it brings for what it
takes. -/
theorem Reaches.conserved {holds : Data → N} {spec : Call → Data → Data → Ans → Prop}
    (hspec : ∀ c d d' a, spec c d d' a → holds d' + takes a = holds d + puts c) {d : Data}
    {s : State ι Data Call Ans} (h : Reaches spec (State.init d) s) :
    takenOut takes s.history + holds s.data + total (Phase.inHand puts takes) s.threads =
      holds d + putIn puts s.history := by
  induction h with
  | refl =>
      have hnone : total (Phase.inHand puts takes)
          (State.init d : State ι Data Call Ans).threads = 0 := total_eq_zero fun _ => rfl
      rw [hnone, add_zero]
      exact (zero_add _).trans (add_zero _).symm
  | @tail s s' _ hstep ih =>
      cases hstep with
      | @invoke i c hidle =>
          refine add_total_update _ ih ?_
          simp only [hidle, putIn, takenOut, Phase.inHand, List.map_append, List.sum_append,
            List.map_cons, List.map_nil, List.sum_cons, List.sum_nil]
          abel
      | @commit i c d₁ a hpending hspecified =>
          refine add_total_update _ ih ?_
          rw [hpending]
          calc takenOut takes s.history + holds d₁ + takes a + (holds d + putIn puts s.history)
              = takenOut takes s.history + (holds d₁ + takes a) +
                  (holds d + putIn puts s.history) := by abel
            _ = takenOut takes s.history + (holds s.data + puts c) +
                  (holds d + putIn puts s.history) := by rw [hspec _ _ _ _ hspecified]
            _ = takenOut takes s.history + holds s.data + puts c +
                  (holds d + putIn puts s.history) := by abel
      | @respond i a hdone =>
          refine add_total_update _ ih ?_
          simp only [hdone, putIn, takenOut, Phase.inHand, List.map_append, List.sum_append,
            List.map_cons, List.map_nil, List.sum_cons, List.sum_nil]
          abel

end Conserved

end Atomic

namespace Guarded

variable {ι Data Call Local Ans : Type} {g : Guarded Data Call Local Ans}

/-! ## Refinement -/

/-- A call is done with its last access. -/
def Phase.abs : Phase Call Local Ans → Atomic.Phase Call Ans
  | .idle => .idle
  | .locking c | .checking c | .inside c _ | .waiting c | .woken c => .pending c
  | .notifying _ a | .unlocking _ a | .notifyingReleased a => .done a

def State.abs (σ : State ι Data Call Local Ans) : Atomic.State ι Data Call Ans :=
  { data := σ.committed, threads := fun i => (σ.threads i).abs, history := σ.history }

section Refinement

variable {σ σ' : State ι Data Call Local Ans} {i : ι}

theorem abs_release (σ : State ι Data Call Local Ans) (mode : Mode) :
    (σ.release mode).abs = σ.abs ∧ (σ.release mode).threads = σ.threads := by
  cases mode <;> exact ⟨rfl, rfl⟩

theorem abs_acquire {mode : Mode} (h : σ.acquire mode = some σ') :
    σ'.abs = σ.abs ∧ σ'.threads = σ.threads := by
  cases mode with
  | exclusive | shared =>
      simp only [State.acquire, Option.ite_none_right_eq_some, Option.some.injEq] at h
      obtain ⟨-, rfl⟩ := h
      exact ⟨rfl, rfl⟩

variable [DecidableEq ι]

theorem abs_update (threads : ι → Phase Call Local Ans) (i : ι) (p : Phase Call Local Ans) :
    (fun j => (update threads i p j).abs) = update (fun j => (threads j).abs) i p.abs := by
  funext j
  by_cases hj : j = i
  · subst hj
    rw [update_self, update_self]
  · rw [update_of_ne hj, update_of_ne hj]

/-- A move the atomic class does not see. -/
theorem abs_move {p : Phase Call Local Ans} (h : p.abs = (σ.threads i).abs) :
    (σ.move i p).abs = σ.abs := by
  have hthreads : (fun j => (update σ.threads i p j).abs) = fun j => (σ.threads j).abs := by
    rw [abs_update, h, update_eq_self]
  simp only [State.abs, State.move, hthreads]

@[simp] theorem abs_after (c : Call) (a : Ans) : (g.after c a).abs = .done a := by
  unfold after
  split <;> rfl

theorem respond_step {spec : Call → Data → Data → Ans → Prop} {a : Ans}
    (hpc : (σ.threads i).abs = .done a) : Atomic.Step spec σ.abs (σ.respond i a).abs := by
  have hstep : Atomic.Step spec σ.abs _ := .respond hpc
  simp only [State.abs, State.respond, abs_update] at hstep ⊢
  exact hstep

variable [Fintype ι]

theorem abs_notifyOne {wake : Option ι} (h : σ.notifyOne wake = some σ') :
    σ'.abs = σ.abs ∧ ∀ k, (σ.threads k).isWaiting = false → σ'.threads k = σ.threads k := by
  refine ⟨?_, notifyOne_keeps h⟩
  rcases notifyOne_cases h with ⟨-, rfl⟩ | ⟨j, c, hj, rfl⟩
  · rfl
  · exact abs_move (by rw [hj]; rfl)

/-- Every step is one of the atomic class, or none at all. -/
theorem moves_abs {spec : Call → Data → Data → Ans → Prop}
    (hspec : ∀ c d d' a, g.ready c d = true → g.Acts c d d' a → spec c d d' a)
    (h : Inv g σ) (hmoves : Moves g σ σ') : σ'.abs = σ.abs ∨ Atomic.Step spec σ.abs σ'.abs := by
  cases hmoves with
  | @invoke i c hpc =>
      have hstep : Atomic.Step spec σ.abs _ := .invoke (i := i) c (congrArg Phase.abs hpc)
      refine .inr ?_
      simp only [State.abs, State.move, abs_update] at hstep ⊢
      exact hstep
  | @lock i c σ₁ hpc hacquire =>
      obtain ⟨habs, hthreads⟩ := abs_acquire hacquire
      refine .inl ((abs_move ?_).trans habs)
      rw [hthreads]
      rcases hpc with hpc | hpc <;> rw [hpc] <;> rfl
  | enter hpc hready => exact .inl (abs_move (by rw [hpc]; rfl))
  | @sleep i c hpc hready =>
      obtain ⟨habs, hthreads⟩ := abs_release σ (g.mode c)
      refine .inl ((abs_move ?_).trans habs)
      rw [hthreads, hpc]
      rfl
  | @access i c l l' d hpc haccess =>
      refine .inl ((abs_move ?_).trans rfl)
      show Atomic.Phase.pending c = (σ.threads i).abs
      rw [hpc]
      rfl
  | @commit i c l d a hpc haccess =>
      obtain ⟨hready, hstarted⟩ := h.started i c l hpc
      have hstep := Atomic.Step.commit (s := σ.abs) (i := i) (congrArg Phase.abs hpc)
        (hspec c σ.committed d a hready ⟨l, σ.data, hstarted, haccess⟩)
      refine .inr ?_
      simp only [State.abs, State.move, abs_update, abs_after] at hstep ⊢
      exact hstep
  | @notify i c a wake σ₁ hpc hnotify =>
      obtain ⟨habs, hthreads⟩ := abs_notifyOne hnotify
      refine .inl ((abs_move ?_).trans habs)
      rw [hthreads i (by rw [hpc]; rfl), hpc]
      rfl
  | @unlock i c a hpc hreleased =>
      obtain ⟨habs, hthreads⟩ := abs_release σ (g.mode c)
      refine .inl ((abs_move ?_).trans habs)
      rw [hthreads, hpc]
      rfl
  | @finish i c a hpc hreleased =>
      obtain ⟨habs, hthreads⟩ := abs_release σ (g.mode c)
      refine .inr ?_
      rw [← habs]
      refine respond_step ?_
      rw [hthreads, hpc]
      rfl
  | @notifyReleased i a wake σ₁ hpc hnotify =>
      obtain ⟨habs, hthreads⟩ := abs_notifyOne hnotify
      refine .inr ?_
      rw [← habs]
      refine respond_step ?_
      rw [hthreads i (by rw [hpc]; rfl), hpc]
      rfl
  | spurious hpc => exact .inl (abs_move (by rw [hpc]; rfl))

/-- Linearizability: whatever the interleaving and whoever wakes up, the atomic class gets to the
same history, with each call done at one point between its invocation and its response. -/
theorem refines (hreads : g.Reads) {spec : Call → Data → Data → Ans → Prop}
    (hspec : ∀ c d d' a, g.ready c d = true → g.Acts c d d' a → spec c d d' a) {d : Data}
    (h : Reachable g.step (State.init d) σ) :
    Atomic.Reaches spec (Atomic.State.init d) σ.abs := by
  have hboth : Inv g σ ∧ Atomic.Reaches spec (Atomic.State.init d) σ.abs := by
    apply h.induction
    · exact ⟨inv_init d, .refl⟩
    intro σ l σ' hinv hstep
    have hmoves := moves_of_step hstep
    refine ⟨hinv.1.moves hreads hmoves, ?_⟩
    rcases moves_abs hspec hinv.1 hmoves with heq | hatomic
    · rw [heq]
      exact hinv.2
    · exact hinv.2.tail hatomic
  exact hboth.2

/-- What holds in every history of the atomic class holds here; and between the calls the data is
that of the atomic class. -/
theorem conserved (hreads : g.Reads) {spec : Call → Data → Data → Ans → Prop}
    (hacts : ∀ c d d' a, g.ready c d = true → g.Acts c d d' a → spec c d d' a)
    {N : Type} [AddCancelCommMonoid N] {puts : Call → N} {takes : Ans → N} {holds : Data → N}
    (hspec : ∀ c d d' a, spec c d d' a → holds d' + takes a = holds d + puts c) {d : Data}
    (h : Reachable g.step (State.init d) σ) :
    (∃ rest, Atomic.takenOut takes σ.history + rest = holds d + Atomic.putIn puts σ.history) ∧
      ((∀ i, σ.threads i = .idle) →
        Atomic.takenOut takes σ.history + holds σ.data =
          holds d + Atomic.putIn puts σ.history) := by
  have hatomic := (refines hreads hacts h).conserved hspec
  refine ⟨⟨_, (add_assoc _ _ _).symm.trans hatomic⟩, fun hidle => ?_⟩
  have hnothing : total (Atomic.Phase.inHand puts takes) σ.abs.threads = 0 :=
    total_eq_zero fun i => by
      show Atomic.Phase.inHand puts takes (σ.threads i).abs = 0
      rw [hidle i]
      rfl
  have hdata : σ.data = σ.committed := by
    rcases (inv_of_reachable hreads h).stable with heq | ⟨i, c, l, hi, -⟩
    · exact heq
    · rw [hidle i] at hi
      cases hi
  rw [hnothing, add_zero] at hatomic
  rw [hdata]
  exact hatomic

end Refinement

end Guarded

end InterProcess
