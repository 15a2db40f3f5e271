import InterProcess.Lib.Lts
import Mathlib.Logic.Function.Basic

/-!
# `lock_free::group_notifier`

The notifier is one atomic counter. `notify_one` and `notify_all` are single
`fetch_add`s; `wait_for_one` is the loop

    do { expected = counter_.load();
         if (expected <= 0) counter_.wait(0);
    } while (!counter_.compare_exchange_weak(expected, expected - 1));

whose load, return from `wait` and compare-exchange are the atomic steps other
threads can come between. The counter is an integer: `int32` overflow is left
out of the runs considered.

A waiter that comes out of `counter_.wait(0)` still holds the value it loaded
before, 0. If another waiter takes the token first, its compare-exchange finds
`counter_` equal to that stale 0 and takes a token that is not there.
`waitForOne_exact` says that this is the only way the notifier goes wrong.
-/

namespace InterProcess.LockFree

open Function Lts

/-- The constructor's arguments, with what it asserts of them. -/
structure GroupNotifier where
  initValue : Int
  groupSize : Int
  groupSize_pos : 0 < groupSize
  initValue_nonneg : 0 ≤ initValue
  initValue_le : initValue ≤ groupSize

namespace GroupNotifier

/-- Where a thread is inside `wait_for_one`; `idle` between its calls. -/
inductive Pc
  | idle
  | load
  | wait (expected : Int)
  | compareExchange (expected : Int)
  deriving DecidableEq, Repr

/-- The counter, the threads, and the history the property speaks of: how many
`wait_for_one` calls have returned and how much has been notified in total. -/
structure State (ι : Type) where
  counter : Int
  threads : ι → Pc
  returned : Int
  notified : Int

/-- A thread calls one of the three operations or takes the next step of the
`wait_for_one` it is in. `spurious` is the licence of `compare_exchange_weak`
to fail although the values agree. -/
inductive Label (ι : Type)
  | waitForOne (i : ι)
  | notifyOne (i : ι)
  | notifyAll (i : ι)
  | resume (i : ι) (spurious : Bool)
  deriving DecidableEq, Repr

variable {ι : Type}

section Steps

variable [DecidableEq ι]

/-- Move thread `i` to `pc`. -/
def State.move (σ : State ι) (i : ι) (pc : Pc) : State ι :=
  { σ with threads := update σ.threads i pc }

/-- `counter_.fetch_add(amount)`. -/
def State.fetchAdd (σ : State ι) (amount : Int) : State ι :=
  { σ with counter := σ.counter + amount, notified := σ.notified + amount }

/-- One step of the `wait_for_one` thread `i` is in. `counter_.wait(0)` returns
only in a state where the counter differs from 0. -/
def resume (σ : State ι) (i : ι) (spurious : Bool) : Option (State ι) :=
  match σ.threads i with
  | .idle => none
  | .load =>
      if σ.counter ≤ 0 then some (σ.move i (.wait σ.counter))
      else some (σ.move i (.compareExchange σ.counter))
  | .wait expected =>
      if σ.counter ≠ 0 then some (σ.move i (.compareExchange expected)) else none
  | .compareExchange expected =>
      if spurious = false ∧ σ.counter = expected then
        some { σ with
          counter := expected - 1
          threads := update σ.threads i .idle
          returned := σ.returned + 1 }
      else some (σ.move i .load)

/-- One step of the system. -/
def step (g : GroupNotifier) (σ : State ι) : Label ι → Option (State ι)
  | .waitForOne i => if σ.threads i = .idle then some (σ.move i .load) else none
  | .notifyOne i => if σ.threads i = .idle then some (σ.fetchAdd 1) else none
  | .notifyAll i => if σ.threads i = .idle then some (σ.fetchAdd g.groupSize) else none
  | .resume i spurious => resume σ i spurious

/-- A notifier just constructed, no thread inside a call. -/
def init (g : GroupNotifier) : State ι :=
  { counter := g.initValue, threads := fun _ => .idle, returned := 0, notified := 0 }

/-- What the notifier is for: no more waiters get through than the initial
value and the notifications allow, and the counter is never negative. -/
def Sound (g : GroupNotifier) (σ : State ι) : Prop :=
  σ.returned ≤ g.initValue + σ.notified ∧ 0 ≤ σ.counter

/-- The step is not a compare-exchange of the stale 0 while the counter is 0. -/
def NotStale (σ : State ι) : Label ι → Prop
  | .resume i false => σ.threads i = .compareExchange 0 → σ.counter ≠ 0
  | _ => True

/-! ## The steps of one `wait_for_one` -/

/-- Everything a `resume` step can do. -/
theorem resume_cases {σ σ' : State ι} {i : ι} {spurious : Bool}
    (h : resume σ i spurious = some σ') :
    (σ.threads i = .load ∧ σ' = σ.move i (.wait σ.counter)) ∨
    (σ.threads i = .load ∧ σ' = σ.move i (.compareExchange σ.counter)) ∨
    (∃ e, σ.threads i = .wait e ∧ σ' = σ.move i (.compareExchange e)) ∨
    (∃ e, σ.threads i = .compareExchange e ∧ σ' = σ.move i .load) ∨
    (∃ e, σ.threads i = .compareExchange e ∧ spurious = false ∧ σ.counter = e ∧
      σ' = { σ with
        counter := e - 1
        threads := update σ.threads i .idle
        returned := σ.returned + 1 }) := by
  unfold resume at h
  cases hpc : σ.threads i with
  | idle => simp [hpc] at h
  | load =>
      simp only [hpc] at h
      split at h
      · exact .inl ⟨rfl, (Option.some.inj h).symm⟩
      · exact .inr (.inl ⟨rfl, (Option.some.inj h).symm⟩)
  | wait e =>
      simp only [hpc] at h
      split at h
      · exact .inr (.inr (.inl ⟨e, rfl, (Option.some.inj h).symm⟩))
      · cases h
  | compareExchange e =>
      simp only [hpc] at h
      split at h
      · next hcas =>
          exact .inr (.inr (.inr (.inr ⟨e, rfl, hcas.1, hcas.2, (Option.some.inj h).symm⟩)))
      · exact .inr (.inr (.inr (.inl ⟨e, rfl, (Option.some.inj h).symm⟩)))

end Steps

/-! ## The invariant -/

/-- Tokens are conserved, none is overdrawn, and what a waiter has loaded was
never negative. -/
structure Inv (g : GroupNotifier) (σ : State ι) : Prop where
  conserved : σ.counter + σ.returned = g.initValue + σ.notified
  counter_nonneg : 0 ≤ σ.counter
  wait_nonneg : ∀ i e, σ.threads i = .wait e → 0 ≤ e
  cas_nonneg : ∀ i e, σ.threads i = .compareExchange e → 0 ≤ e

theorem Inv.sound {g : GroupNotifier} {σ : State ι} (h : Inv g σ) : Sound g σ := by
  have hc := h.conserved
  have hn := h.counter_nonneg
  exact ⟨by omega, hn⟩

theorem inv_init (g : GroupNotifier) : Inv g (init g : State ι) where
  conserved := by simp [init]
  counter_nonneg := g.initValue_nonneg
  wait_nonneg := by intro i e h; cases h
  cas_nonneg := by intro i e h; cases h

theorem Inv.fetchAdd {g : GroupNotifier} {σ : State ι} (h : Inv g σ) {amount : Int}
    (hpos : 0 ≤ amount) : Inv g (σ.fetchAdd amount) where
  conserved := by
    have hc := h.conserved
    simp only [State.fetchAdd]
    omega
  counter_nonneg := by
    have hn := h.counter_nonneg
    simp only [State.fetchAdd]
    omega
  wait_nonneg := h.wait_nonneg
  cas_nonneg := h.cas_nonneg

variable [DecidableEq ι]

/-- Moving a thread to a program counter whose loaded value is not negative
keeps the invariant. -/
theorem Inv.move {g : GroupNotifier} {σ : State ι} (h : Inv g σ) (i : ι) (pc : Pc)
    (hwait : ∀ e, pc = .wait e → 0 ≤ e) (hcas : ∀ e, pc = .compareExchange e → 0 ≤ e) :
    Inv g (σ.move i pc) where
  conserved := h.conserved
  counter_nonneg := h.counter_nonneg
  wait_nonneg := by
    intro j e hj
    by_cases hji : j = i
    · subst hji
      exact hwait e (by simpa [State.move] using hj)
    · exact h.wait_nonneg j e (by simpa [State.move, hji] using hj)
  cas_nonneg := by
    intro j e hj
    by_cases hji : j = i
    · subst hji
      exact hcas e (by simpa [State.move] using hj)
    · exact h.cas_nonneg j e (by simpa [State.move, hji] using hj)

/-- Taking a token that is there: the loaded value was at least 1. -/
theorem Inv.take {g : GroupNotifier} {σ : State ι} (h : Inv g σ) (i : ι) {e : Int}
    (hcounter : σ.counter = e) (hpos : 1 ≤ e) :
    Inv g { σ with
      counter := e - 1
      threads := update σ.threads i .idle
      returned := σ.returned + 1 } where
  conserved := by
    have hc := h.conserved
    show e - 1 + (σ.returned + 1) = g.initValue + σ.notified
    omega
  counter_nonneg := by
    show 0 ≤ e - 1
    omega
  wait_nonneg := (h.move i .idle (by simp) (by simp)).wait_nonneg
  cas_nonneg := (h.move i .idle (by simp) (by simp)).cas_nonneg

/-- The only step that can break the invariant is the stale compare-exchange. -/
theorem resume_inv {g : GroupNotifier} {σ σ' : State ι} {i : ι} {spurious : Bool}
    (h : Inv g σ) (hok : NotStale σ (.resume i spurious))
    (hstep : resume σ i spurious = some σ') : Inv g σ' := by
  rcases resume_cases hstep with ⟨-, rfl⟩ | ⟨-, rfl⟩ | ⟨e, hpc, rfl⟩ | ⟨e, -, rfl⟩ |
    ⟨e, hpc, rfl, hcounter, rfl⟩
  · refine h.move i _ ?_ (by simp)
    rintro e ⟨⟩
    exact h.counter_nonneg
  · refine h.move i _ (by simp) ?_
    rintro e ⟨⟩
    exact h.counter_nonneg
  · refine h.move i _ (by simp) ?_
    rintro e' ⟨⟩
    exact h.wait_nonneg i e hpc
  · exact h.move i _ (by simp) (by simp)
  · -- a token is taken: the value loaded is neither negative nor the stale 0
    have hnonneg := h.cas_nonneg i e hpc
    have hne : e ≠ 0 := by
      rintro rfl
      exact hok hpc hcounter
    exact h.take i hcounter (by omega)

theorem step_inv {g : GroupNotifier} (σ : State ι) (l : Label ι) (σ' : State ι)
    (h : Inv g σ) (hok : NotStale σ l) (hstep : step g σ l = some σ') : Inv g σ' := by
  cases l with
  | waitForOne i =>
      simp only [step, Option.ite_none_right_eq_some, Option.some.injEq] at hstep
      exact hstep.2 ▸ h.move i _ (by simp) (by simp)
  | notifyOne i =>
      simp only [step, Option.ite_none_right_eq_some, Option.some.injEq] at hstep
      exact hstep.2 ▸ h.fetchAdd (by omega)
  | notifyAll i =>
      simp only [step, Option.ite_none_right_eq_some, Option.some.injEq] at hstep
      have hpos := g.groupSize_pos
      exact hstep.2 ▸ h.fetchAdd (by omega)
  | resume i spurious => exact resume_inv h hok hstep

/-- The stale compare-exchange drives the counter to −1. -/
theorem stale_unsound {g : GroupNotifier} (σ : State ι) (l : Label ι) (σ' : State ι)
    (_h : Inv g σ) (hok : ¬ NotStale σ l) (hstep : step g σ l = some σ') :
    ¬ Sound g σ' := by
  match l with
  | .waitForOne i | .notifyOne i | .notifyAll i | .resume i true => exact absurd trivial hok
  | .resume i false =>
      simp only [NotStale, ne_eq, Classical.not_imp, not_not] at hok
      obtain ⟨hpc, hcounter⟩ := hok
      simp only [step, resume, hpc, hcounter, and_self, if_true, Option.some.injEq] at hstep
      subst hstep
      rintro ⟨-, hneg⟩
      simp at hneg

/-! ## Main result -/

/-- A run of any threads keeps the notifier sound in every state it passes
**iff** none of its steps is a compare-exchange whose loaded value is the 0 of
before the wait while `counter_` is 0 again. -/
theorem waitForOne_exact (g : GroupNotifier) (ls : List (Label ι)) :
    Along (step g) (Sound g) (init g) ls ↔ StepsMeet (step g) NotStale (init g) ls :=
  along_iff_stepsMeet (fun _ h => h.sound) step_inv stale_unsound (inv_init g)

/-- Two waiters and one notification: the second waiter takes the token while
the first one is between its wait and its compare-exchange. -/
def staleRun : List (Label (Fin 3)) :=
  [.waitForOne 0, .resume 0 false, .notifyOne 2, .resume 0 false,
    .waitForOne 1, .resume 1 false, .resume 1 false, .resume 0 false]

/-- Not every run is sound: after `staleRun` the counter is −1 and both waiters
have returned on one token. -/
theorem waitForOne_overdraws :
    ¬ ∀ (ι : Type) (_ : DecidableEq ι) (g : GroupNotifier) (ls : List (Label ι)),
      Along (step g) (Sound g) (init g) ls := by
  intro hall
  let g : GroupNotifier := ⟨0, 1, by decide, by decide, by decide⟩
  refine not_along_of_run (fun σ => (σ.counter, σ.returned)) (-1, 2) ?_ ?_
    (hall (Fin 3) inferInstance g staleRun)
  · decide
  · intro σ' hobs hsound
    have hneg : σ'.counter = -1 := congrArg Prod.fst hobs
    have hnonneg := hsound.2
    omega

end GroupNotifier

end InterProcess.LockFree
