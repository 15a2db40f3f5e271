import InterProcess.Lib.Wakeups
import Mathlib.Data.Multiset.AddSub

/-!
# `threadsafe_queue`

A queue behind a mutex. `wait_and_pop` waits on a condition variable for the
queue not to be empty, and `push` notifies one waiter before it unlocks. The
same queue is spelled out in `wait_for_condition.hpp`, where the preparation
thread unlocks before it notifies.

`front` and `pop` of an empty queue are undefined; here they answer so.
`threadsafeQueue_linearizable`: the calls of any number of threads are those of a queue without
threads, so that never happens. `threadsafeQueue_conserved`: what was pushed has been popped or
is still there. `notify_reaches`: no wakeup is lost, in either version.
-/

namespace InterProcess.Threading.ThreadsafeQueue

open Guarded Lts Threads

variable {α : Type}

/-- The functions of the queue; `copy` is the copy constructor, called with the queue it reads. -/
inductive Call (α : Type)
  | push (value : α)
  | tryPop
  | waitAndPop
  | empty
  | copy
  deriving DecidableEq

inductive Answer (α : Type)
  | pushed
  | nothing
  | popped (value : α)
  | isEmpty (result : Bool)
  | copied (queue : List α)
  | undefined
  deriving DecidableEq

/-- Where a function is in its critical section. -/
inductive Pc (α : Type)
  | start
  | front
  | pop (value : α)

/-- `queue.front()`, kept for the answer. -/
def front (queue : List α) : List α × (Pc α ⊕ Answer α) :=
  match queue with
  | [] => ([], .inr .undefined)
  | value :: rest => (value :: rest, .inl (.pop value))

/-- `queue.pop()`, the last access of a function that pops. -/
def pop (value : α) (queue : List α) : List α × (Pc α ⊕ Answer α) :=
  match queue with
  | [] => ([], .inr .undefined)
  | _ :: rest => (rest, .inr (.popped value))

/-- The accesses of the critical sections to the queue. -/
def access (call : Call α) (pc : Pc α) (queue : List α) : List α × (Pc α ⊕ Answer α) :=
  match pc with
  | .start =>
      match call with
      | .push value => (queue ++ [value], .inr .pushed)
      | .tryPop => if queue.isEmpty then (queue, .inr .nothing) else (queue, .inl .front)
      | .waitAndPop => front queue
      | .empty => (queue, .inr (.isEmpty queue.isEmpty))
      | .copy => (queue, .inr (.copied queue))
  | .front => front queue
  | .pop value => pop value queue

/-- The predicate `wait_and_pop` waits for. -/
def ready (call : Call α) (queue : List α) : Bool :=
  match call with
  | .waitAndPop => !queue.isEmpty
  | _ => true

/-- A queue whose pushes notify in the given way. -/
def queueNotifying (whenPushed : Notifies) : Guarded (List α) (Call α) (Pc α) (Answer α) where
  mode _ := .exclusive
  ready := ready
  enter := .start
  access := access
  notifies call :=
    match call with
    | .push _ => whenPushed
    | _ => .never

/-- The queue, its mutex and the threads that call its functions. -/
abbrev QueueState (ι α : Type) := Guarded.State ι (List α) (Call α) (Pc α) (Answer α)

def threadsafeQueue : Guarded (List α) (Call α) (Pc α) (Answer α) := queueNotifying .holding

/-- The queue of `wait_for_condition.hpp`: a preparation thread pushes, a processing thread waits
and pops. -/
def dataQueue : Guarded (List α) (Call α) (Pc α) (Answer α) := queueNotifying .released

/-! ## The queue without threads -/

/-- What each function is for. -/
inductive Spec : Call α → List α → List α → Answer α → Prop
  | push (value : α) (queue : List α) : Spec (.push value) queue (queue ++ [value]) .pushed
  | tryPopNothing : Spec .tryPop [] [] .nothing
  | tryPop (value : α) (queue : List α) : Spec .tryPop (value :: queue) queue (.popped value)
  | waitAndPop (value : α) (queue : List α) :
      Spec .waitAndPop (value :: queue) queue (.popped value)
  | empty (queue : List α) : Spec .empty queue queue (.isEmpty queue.isEmpty)
  | copy (queue : List α) : Spec .copy queue queue (.copied queue)

/-- In the middle of a critical section the queue is as it was, and not empty. -/
inductive Between (queue : List α) : Call α → Pc α → List α → Prop
  | start (call : Call α) : Between queue call .start queue
  | front (hne : queue ≠ []) : Between queue .tryPop .front queue
  | pop {call : Call α} {value : α} {rest : List α}
      (hcall : call = .tryPop ∨ call = .waitAndPop) (hqueue : queue = value :: rest) :
      Between queue call (.pop value) queue

variable {whenPushed : Notifies} {call : Call α} {queue queue' : List α} {answer : Answer α}

theorem between_of_accesses {pc : Pc α} (hready : ready call queue = true)
    (h : (queueNotifying whenPushed).Accesses call queue pc queue') :
    Between queue call pc queue' := by
  induction h with
  | enter => exact .start call
  | @access pc pc' queue' queue'' _ haccess ih =>
      replace haccess : access call pc queue' = (queue'', .inl pc') := haccess
      cases ih with
      | start =>
          cases call with
          | push value | empty | copy => cases haccess
          | tryPop =>
              simp only [access] at haccess
              split at haccess
              · cases haccess
              · next hne =>
                  cases haccess
                  exact .front fun hnil => hne (by rw [hnil]; rfl)
          | waitAndPop =>
              cases queue with
              | nil => cases hready
              | cons value rest =>
                  cases haccess
                  exact .pop (.inr rfl) rfl
      | front hne =>
          cases queue with
          | nil => exact absurd rfl hne
          | cons value rest =>
              cases haccess
              exact .pop (.inl rfl) rfl
      | pop hcall hqueue =>
          subst hqueue
          cases haccess

/-- A critical section does what the function is for. -/
theorem spec_of_acts (hready : ready call queue = true)
    (h : (queueNotifying whenPushed).Acts call queue queue' answer) :
    Spec call queue queue' answer := by
  obtain ⟨pc, queue₁, haccesses, haccess⟩ := h
  replace haccess : access call pc queue₁ = (queue', .inr answer) := haccess
  cases between_of_accesses hready haccesses with
  | start =>
      cases call with
      | push value => cases haccess; exact .push value queue
      | empty => cases haccess; exact .empty queue
      | copy => cases haccess; exact .copy queue
      | tryPop =>
          cases queue with
          | nil => cases haccess; exact .tryPopNothing
          | cons value rest => cases haccess
      | waitAndPop =>
          cases queue with
          | nil => cases hready
          | cons value rest => cases haccess
  | front hne =>
      cases queue with
      | nil => exact absurd rfl hne
      | cons value rest => cases haccess
  | pop hcall hqueue =>
      subst hqueue
      cases haccess
      rcases hcall with rfl | rfl
      · exact .tryPop _ _
      · exact .waitAndPop _ _

theorem queue_reads : (queueNotifying whenPushed : Guarded (List α) _ _ _).Reads := nofun

/-! ## Nothing is lost -/

section Conserved

variable {ι : Type}

/-- The values given to `push`. -/
def pushed (history : List (Event ι (Call α) (Answer α))) : Multiset α :=
  (history.filterMap fun
    | .invoke _ (.push value) => some value
    | _ => none : List α)

/-- The values pops have returned. -/
def returned (history : List (Event ι (Call α) (Answer α))) : Multiset α :=
  (history.filterMap fun
    | .respond _ (.popped value) => some value
    | _ => none : List α)

/-- The value a call brings. -/
def given : Call α → Multiset α
  | .push value => {value}
  | _ => 0

/-- The value an answer comes with. -/
def found : Answer α → Multiset α
  | .popped value => {value}
  | _ => 0

theorem putIn_given (history : List (Event ι (Call α) (Answer α))) :
    Atomic.putIn given history = pushed history := by
  induction history with
  | nil => rfl
  | cons event history ih =>
      rw [Atomic.putIn, List.map_cons, List.sum_cons]
      change _ + Atomic.putIn given history = _
      rw [ih]
      rcases event with ⟨i, call⟩ | ⟨i, answer⟩
      · cases call <;> simp [given, pushed, ← Multiset.cons_coe, Multiset.singleton_add]
      · simp [pushed]

theorem takenOut_found (history : List (Event ι (Call α) (Answer α))) :
    Atomic.takenOut found history = returned history := by
  induction history with
  | nil => rfl
  | cons event history ih =>
      rw [Atomic.takenOut, List.map_cons, List.sum_cons]
      change _ + Atomic.takenOut found history = _
      rw [ih]
      rcases event with ⟨i, call⟩ | ⟨i, answer⟩
      · simp [returned]
      · cases answer <;> simp [found, returned, ← Multiset.cons_coe, Multiset.singleton_add]

/-- A call that takes effect moves a value into the queue or out of it. -/
theorem Spec.conserves (h : Spec call queue queue' answer) :
    (queue' : Multiset α) + found answer = queue + given call := by
  cases h with
  | push value queue => simp [given, found, ← Multiset.coe_add]
  | tryPopNothing | empty | copy => rfl
  | tryPop value queue | waitAndPop value queue =>
      simp [given, found, ← Multiset.cons_coe, ← Multiset.singleton_add, add_comm]

end Conserved

/-! ## Main results -/

variable {ι : Type} [Fintype ι] [DecidableEq ι]

/-- In every interleaving the calls are those of a queue without threads: each takes effect at
one point between its invocation and its response, and the answers are the queue's. -/
theorem threadsafeQueue_linearizable (σ : QueueState ι α)
    (h : Reachable threadsafeQueue.step (Guarded.State.init []) σ) :
    ∃ s, Atomic.Reaches Spec (Atomic.State.init []) s ∧ s.history = σ.history ∧
      ∀ i, (σ.threads i).abs = s.threads i :=
  ⟨σ.abs, refines queue_reads (fun _ _ _ _ => spec_of_acts) h, rfl, fun _ => rfl⟩

/-- A thread waits for a value, another one pushes it, and the first one wakes up and pops it. -/
def sleepThenPop : List (Guarded.Label Bool (Call ℕ)) :=
  .call false .waitAndPop :: .replicate 2 (.resume false none) ++
    .call true (.push 7) :: .replicate 3 (.resume true none) ++ .resume true (some false) ::
    .resume true none :: .replicate 5 (.resume false none)

/-- The pop takes effect after the push, although it was called before it. -/
theorem threadsafeQueue_linearizable_sleepThenPop :
    ∃ σ : QueueState Bool ℕ,
      run threadsafeQueue.step (Guarded.State.init []) sleepThenPop = some σ ∧
      ∃ s, Atomic.Reaches Spec (Atomic.State.init []) s ∧
        s.history = [.invoke false .waitAndPop, .invoke true (.push 7), .respond true .pushed,
          .respond false (.popped 7)] := by
  obtain ⟨σ, hrun, hhistory⟩ : ∃ σ : QueueState Bool ℕ,
      run threadsafeQueue.step (Guarded.State.init []) sleepThenPop = some σ ∧
      σ.history = [.invoke false .waitAndPop, .invoke true (.push 7), .respond true .pushed,
          .respond false (.popped 7)] := ⟨_, rfl, rfl⟩
  obtain ⟨s, hs, heq, -⟩ := threadsafeQueue_linearizable σ ⟨_, hrun⟩
  exact ⟨σ, hrun, s, hs, heq.trans hhistory⟩

/-- What pops have returned was pushed, each value once; between the calls the rest is in the
queue. -/
theorem threadsafeQueue_conserved (σ : QueueState ι α)
    (h : Reachable threadsafeQueue.step (Guarded.State.init []) σ) :
    returned σ.history ≤ pushed σ.history ∧
      ((∀ i, σ.threads i = .idle) →
        pushed σ.history = returned σ.history + (σ.data : Multiset α)) := by
  have hconserves : ∀ (call : Call α) (queue queue' : List α) (answer : Answer α),
      Spec call queue queue' answer → (queue' : Multiset α) + found answer = queue + given call :=
    fun _ _ _ _ => Spec.conserves
  obtain ⟨⟨rest, hatomic⟩, hidle⟩ :=
    conserved queue_reads (fun _ _ _ _ => spec_of_acts) hconserves h
  rw [takenOut_found, putIn_given, Multiset.coe_nil, zero_add] at hatomic hidle
  exact ⟨hatomic ▸ Multiset.le_add_right _ _, fun hall => (hidle hall).symm⟩

/-- After `sleepThenPop` the queue is empty again. -/
theorem threadsafeQueue_conserved_sleepThenPop :
    ∃ σ : QueueState Bool ℕ,
      run threadsafeQueue.step (Guarded.State.init []) sleepThenPop = some σ ∧
      pushed σ.history = returned σ.history + (σ.data : Multiset ℕ) := by
  obtain ⟨σ, hrun, hidle⟩ : ∃ σ : QueueState Bool ℕ,
      run threadsafeQueue.step (Guarded.State.init []) sleepThenPop = some σ ∧
      ∀ i, σ.threads i = .idle := ⟨_, rfl, fun i => by cases i <;> rfl⟩
  exact ⟨σ, hrun, (threadsafeQueue_conserved σ ⟨_, hrun⟩).2 hidle⟩

/-! ## Notifications -/

/-- What `wait_and_pop` waits for are values, and every push of one notifies. -/
theorem queue_supply (hpush : whenPushed ≠ .never) :
    Supply (queueNotifying whenPushed : Guarded (List α) _ _ _)
      (fun call => match call with
        | .waitAndPop => true
        | _ => false) List.length where
  sleeps := by
    intro call queue hready
    cases call with
    | waitAndPop =>
        cases queue with
        | nil => exact ⟨rfl, rfl⟩
        | cons value rest => cases hready
    | push value | tryPop | empty | copy => cases hready
  takes := by
    intro call queue queue' answer hwaits hready hacts
    cases spec_of_acts hready hacts with
    | waitAndPop value queue => exact Nat.le_refl _
    | push | tryPopNothing | tryPop | empty | copy => cases hwaits
  adds := by
    intro call queue queue' answer hwaits hacts
    have hready : ready call queue = true := by
      cases call with
      | waitAndPop => cases hwaits
      | push value | tryPop | empty | copy => rfl
    cases spec_of_acts hready hacts with
    | push value queue =>
        show (queue ++ [value]).length ≤ queue.length + if whenPushed = .never then 0 else 1
        rw [if_neg hpush, List.length_append, List.length_singleton]
    | tryPop value queue => exact (Nat.le_succ _).trans (Nat.le_add_right _ _)
    | tryPopNothing | empty | copy => exact Nat.le_add_right _ _
    | waitAndPop => cases hwaits

/-- The accesses a critical section still makes after this one. -/
def accessesLeft (_call : Call α) : Pc α → ℕ
  | .start => 2
  | .front => 1
  | .pop _ => 0

theorem accessesLeft_lt {pc pc' : Pc α} (h : access call pc queue = (queue', .inl pc')) :
    accessesLeft call pc' < accessesLeft call pc := by
  cases pc with
  | start =>
      cases call with
      | push value | empty | copy => cases h
      | tryPop =>
          simp only [access] at h
          split at h <;> cases h
          exact Nat.lt_succ_self 1
      | waitAndPop => cases queue <;> cases h; exact Nat.succ_pos 1
  | front => cases queue <;> cases h; exact Nat.one_pos
  | pop value => cases queue <;> cases h

/-- No wakeup is lost, whether a push notifies before it unlocks or after: without new calls and
needless wakeups the threads come to rest, and then the calls that have not returned are
`wait_and_pop`s that sleep in front of an empty queue. -/
theorem notify_reaches (hpush : whenPushed ≠ .never)
    (σ : QueueState ι α)
    (h : Reachable (queueNotifying whenPushed).step (Guarded.State.init []) σ) :
    Acc (Resumes (queueNotifying whenPushed)) σ ∧
      ((∃ σ', Resumes (queueNotifying whenPushed) σ' σ) ∨
        AtRest σ ∧ ((∃ i, (σ.threads i).isWaiting = true) → σ.data = [])) := by
  refine ⟨resumes_acc accessesLeft (fun _ _ _ _ _ => accessesLeft_lt) σ, ?_⟩
  refine (never_stuck queue_reads (queue_supply hpush) h).imp_right ?_
  rintro ⟨hrest, hempty⟩
  exact ⟨hrest, fun hwaiting => List.eq_nil_of_length_eq_zero (hempty hwaiting)⟩

/-- A preparation thread has pushed and unlocked, and has not notified the thread that sleeps. -/
theorem notify_reaches_released :
    ∃ σ : QueueState Bool ℕ,
      run dataQueue.step (Guarded.State.init [])
        (.call false .waitAndPop :: .replicate 2 (.resume false none) ++
          .call true (.push 7) :: .replicate 4 (.resume true none)) = some σ ∧
      (σ.threads false).isWaiting = true ∧ ∃ σ', Resumes dataQueue σ' σ := by
  obtain ⟨σ, hrun, hwaiting, hdata⟩ :
      ∃ σ : QueueState Bool ℕ,
        run dataQueue.step (Guarded.State.init [])
          (.call false .waitAndPop :: .replicate 2 (.resume false none) ++
            .call true (.push 7) :: .replicate 4 (.resume true none)) = some σ ∧
        (σ.threads false).isWaiting = true ∧ σ.data = [7] := ⟨_, rfl, rfl, rfl⟩
  refine ⟨σ, hrun, hwaiting, ?_⟩
  have hreleased : Notifies.released ≠ .never := by decide
  rcases (notify_reaches hreleased σ ⟨_, hrun⟩).2 with hstep | ⟨-, hempty⟩
  · exact hstep
  · rw [hempty ⟨false, hwaiting⟩] at hdata
    cases hdata

end InterProcess.Threading.ThreadsafeQueue
