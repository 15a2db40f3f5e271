import InterProcess.Lib.Guarded
import Mathlib.Data.Multiset.AddSub

/-!
# `threadsafe_stack`

A stack behind a mutex. A `pop` looks whether the stack is empty, takes the top
and removes it under one lock, and throws `empty_stack` where there is nothing:
the answer of `empty` may be out of date by the time it is used.

`top` and `pop` of an empty stack are undefined; here they answer so.
`threadsafeStack_linearizable`: the calls of any number of threads are those of a
stack without threads. `pop_throws`: a `pop` of a stack that was filled before
throws only after more `pop`s have been called than there were values, and no
value is lost or popped twice.
-/

namespace InterProcess.Threading.ThreadsafeStack

open Guarded Lts Threads Function

variable {α : Type}

/-- The functions of the stack; `copy` is the copy constructor, called with the stack it reads. -/
inductive Call (α : Type)
  | push (value : α)
  | pop
  | empty
  | copy

inductive Answer (α : Type)
  | pushed
  | emptyStack
  | popped (value : α)
  | isEmpty (result : Bool)
  | copied (data : List α)
  | undefined

/-- Where a function is in its critical section. -/
inductive Pc (α : Type)
  | start
  | top
  | pop (value : α)

/-- The accesses of the critical sections to the stack, its top first. -/
def access (call : Call α) (pc : Pc α) (data : List α) : List α × (Pc α ⊕ Answer α) :=
  match pc with
  | .start =>
      match call with
      | .push value => (value :: data, .inr .pushed)
      | .pop => if data.isEmpty then (data, .inr .emptyStack) else (data, .inl .top)
      | .empty => (data, .inr (.isEmpty data.isEmpty))
      | .copy => (data, .inr (.copied data))
  | .top =>
      match data with
      | [] => ([], .inr .undefined)
      | value :: rest => (value :: rest, .inl (.pop value))
  | .pop value =>
      match data with
      | [] => ([], .inr .undefined)
      | _ :: rest => (rest, .inr (.popped value))

def threadsafeStack : Guarded (List α) (Call α) (Pc α) (Answer α) where
  mode _ := .exclusive
  ready _ _ := true
  enter := .start
  access := access
  notifies _ := .never

/-- The stack, its mutex and the threads that call its functions. -/
abbrev StackState (ι α : Type) := Guarded.State ι (List α) (Call α) (Pc α) (Answer α)

/-! ## The stack without threads -/

/-- What each function is for. -/
inductive Spec : Call α → List α → List α → Answer α → Prop
  | push (value : α) (data : List α) : Spec (.push value) data (value :: data) .pushed
  | popEmpty : Spec .pop [] [] .emptyStack
  | pop (value : α) (data : List α) : Spec .pop (value :: data) data (.popped value)
  | empty (data : List α) : Spec .empty data data (.isEmpty data.isEmpty)
  | copy (data : List α) : Spec .copy data data (.copied data)

/-- In the middle of a `pop` the stack is as it was, and not empty. -/
inductive Between (data : List α) : Call α → Pc α → List α → Prop
  | start (call : Call α) : Between data call .start data
  | top (hne : data ≠ []) : Between data .pop .top data
  | pop {value : α} {rest : List α} (hdata : data = value :: rest) :
      Between data .pop (.pop value) data

variable {call : Call α} {data data' : List α} {answer : Answer α}

theorem between_of_accesses {pc : Pc α} (h : threadsafeStack.Accesses call data pc data') :
    Between data call pc data' := by
  induction h with
  | enter => exact .start call
  | @access pc pc' data' data'' _ haccess ih =>
      replace haccess : access call pc data' = (data'', .inl pc') := haccess
      cases ih with
      | start =>
          cases call with
          | push value | empty | copy => cases haccess
          | pop =>
              cases data with
              | nil => cases haccess
              | cons value rest =>
                  cases haccess
                  exact .top (List.cons_ne_nil value rest)
      | top hne =>
          cases data with
          | nil => exact absurd rfl hne
          | cons value rest =>
              cases haccess
              exact .pop rfl
      | pop hdata =>
          subst hdata
          cases haccess

/-- A critical section does what the function is for. -/
theorem spec_of_acts (h : threadsafeStack.Acts call data data' answer) :
    Spec call data data' answer := by
  obtain ⟨pc, data₁, haccesses, haccess⟩ := h
  replace haccess : access call pc data₁ = (data', .inr answer) := haccess
  cases between_of_accesses haccesses with
  | start =>
      cases call with
      | push value => cases haccess; exact .push value data
      | empty => cases haccess; exact .empty data
      | copy => cases haccess; exact .copy data
      | pop =>
          cases data with
          | nil => cases haccess; exact .popEmpty
          | cons value rest => cases haccess
  | top hne =>
      cases data with
      | nil => exact absurd rfl hne
      | cons value rest => cases haccess
  | pop hdata =>
      subst hdata
      cases haccess
      exact .pop _ _

theorem stack_reads : (threadsafeStack : Guarded (List α) _ _ _).Reads := nofun

/-! ## Nothing is lost -/

section Conserved

variable {ι : Type}

/-- The value a call brings. -/
def given : Call α → Multiset α
  | .push value => {value}
  | _ => 0

/-- The value an answer comes with. -/
def found : Answer α → Multiset α
  | .popped value => {value}
  | _ => 0

/-- The values given to `push`. -/
def pushed (history : List (Event ι (Call α) (Answer α))) : Multiset α :=
  Atomic.putIn given history

/-- The values `pop`s have returned. -/
def returned (history : List (Event ι (Call α) (Answer α))) : Multiset α :=
  Atomic.takenOut found history

/-- A call that takes effect moves a value onto the stack or off it. -/
theorem Spec.conserves (h : Spec call data data' answer) :
    (data' : Multiset α) + found answer = data + given call := by
  cases h with
  | push value data => simp [given, found, ← Multiset.cons_coe, ← Multiset.singleton_add, add_comm]
  | popEmpty | empty | copy => rfl
  | pop value data => simp [given, found, ← Multiset.cons_coe, ← Multiset.singleton_add, add_comm]

end Conserved

/-! ## How many pops find a value -/

section Pops

variable {ι : Type}

/-- The calls of `pop`. -/
def popsInvoked (history : List (Event ι (Call α) (Answer α))) : ℕ :=
  history.countP fun
    | .invoke _ .pop => true
    | _ => false

/-- A `pop` that has not taken effect yet. -/
def popPending : Atomic.Phase (Call α) (Answer α) → ℕ
  | .pending .pop => 1
  | _ => 0

theorem popsInvoked_invoke (history : List (Event ι (Call α) (Answer α))) (i : ι) (c : Call α) :
    popsInvoked (history ++ [.invoke i c]) = popsInvoked history + popPending (.pending c) := by
  cases c <;> simp [popsInvoked, popPending]

theorem popsInvoked_respond (history : List (Event ι (Call α) (Answer α))) (i : ι)
    (a : Answer α) : popsInvoked (history ++ [.respond i a]) = popsInvoked history := by
  simp [popsInvoked]

/-- A call that takes effect takes no value, unless it is a `pop`. -/
theorem Spec.length_le (h : Spec call data data' answer) :
    data.length ≤ data'.length + popPending (.pending call) := by
  cases h with
  | push value data => exact Nat.le_succ _
  | popEmpty => exact Nat.zero_le _
  | pop value data => exact Nat.le_refl _
  | empty | copy => exact Nat.le_refl _

/-- If the call has thrown, more `pop`s than `count` have been called. -/
def Late (count : ℕ) (history : List (Event ι (Call α) (Answer α)))
    (phase : Atomic.Phase (Call α) (Answer α)) : Prop :=
  phase = .done .emptyStack → count < popsInvoked history

variable [Fintype ι]

/-- The values that were there at first are still there, or taken by `pop`s that have been called;
and a `pop` that has thrown was called when there were too many of them. -/
structure Supplied (count : ℕ) (s : Atomic.State ι (List α) (Call α) (Answer α)) : Prop where
  supply : count + total popPending s.threads ≤ s.data.length + popsInvoked s.history
  thrown : ∀ i, Late count s.history (s.threads i)
  told : ∀ i, Event.respond i .emptyStack ∈ s.history → count < popsInvoked s.history

theorem supplied_init (data : List α) :
    Supplied data.length (Atomic.State.init data : Atomic.State ι _ (Call α) _) where
  supply := by
    have hnone : total popPending
        (Atomic.State.init data : Atomic.State ι _ (Call α) (Answer α)).threads = 0 :=
      total_eq_zero fun _ => rfl
    rw [hnone]
    exact Nat.le_refl _
  thrown := nofun
  told := nofun

variable {s s' : Atomic.State ι (List α) (Call α) (Answer α)} {count : ℕ}

/-- A `pop` that throws has found the values taken, and is itself one more. -/
theorem Supplied.lt_of_popEmpty (h : Supplied count s) {i : ι} (hpc : s.threads i = .pending .pop)
    (hdata : s.data = []) : count < popsInvoked s.history := by
  have hsupply := h.supply
  have hone := le_total popPending s.threads i
  rw [hpc] at hone
  rw [hdata] at hsupply
  change 1 ≤ _ at hone
  change _ ≤ 0 + _ at hsupply
  omega

variable [DecidableEq ι]

theorem Supplied.step (h : Supplied count s) (hstep : Atomic.Step Spec s s') :
    Supplied count s' := by
  cases hstep with
  | @invoke i call hidle =>
      have hinvoked := popsInvoked_invoke s.history i call
      refine ⟨?_, ?_, ?_⟩
      · show count + total popPending (update s.threads i (.pending call)) ≤
          s.data.length + popsInvoked (s.history ++ [.invoke i call])
        have hupdate := total_update popPending s.threads i (.pending call)
        have hsupply := h.supply
        rw [hidle] at hupdate
        change _ + 0 = _ at hupdate
        omega
      · have hmoved : Late count (s.history ++ [.invoke i call]) (.pending call) := nofun
        refine forall_update hmoved ?_
        intro j _ hj
        rw [hinvoked]
        exact Nat.lt_add_right _ (h.thrown j hj)
      · intro j hj
        show count < popsInvoked (s.history ++ [.invoke i call])
        rw [hinvoked]
        rcases List.mem_append.1 hj with hj | hj
        · exact Nat.lt_add_right _ (h.told j hj)
        · cases List.mem_singleton.1 hj
  | @commit i call data' answer hpending hspec =>
      refine ⟨?_, ?_, h.told⟩
      · show count + total popPending (update s.threads i (.done answer)) ≤
          data'.length + popsInvoked s.history
        have hupdate := total_update popPending s.threads i (.done answer)
        have hsupply := h.supply
        have hlength := hspec.length_le
        rw [hpending] at hupdate
        change _ = _ + 0 at hupdate
        omega
      · refine forall_update (P := Late count s.history) ?_ fun j _ => h.thrown j
        rintro ⟨⟩
        generalize hdata : s.data = data at hspec
        cases hspec
        exact h.lt_of_popEmpty hpending hdata
  | @respond i answer hdone =>
      have hinvoked := popsInvoked_respond s.history i answer
      refine ⟨?_, ?_, ?_⟩
      · show count + total popPending (update s.threads i .idle) ≤
          s.data.length + popsInvoked (s.history ++ [.respond i answer])
        have hupdate := total_update popPending s.threads i .idle
        have hsupply := h.supply
        rw [hdone] at hupdate
        change _ + 0 = _ + 0 at hupdate
        omega
      · have hmoved : Late count (s.history ++ [.respond i answer]) .idle := nofun
        refine forall_update hmoved ?_
        intro j _ hj
        rw [hinvoked]
        exact h.thrown j hj
      · intro j hj
        show count < popsInvoked (s.history ++ [.respond i answer])
        rw [hinvoked]
        rcases List.mem_append.1 hj with hj | hj
        · exact h.told j hj
        · cases List.mem_singleton.1 hj
          exact h.thrown i hdone

theorem supplied_of_reaches (h : Atomic.Reaches Spec (Atomic.State.init data) s) :
    Supplied data.length s := by
  induction h with
  | refl => exact supplied_init data
  | tail _ hstep ih => exact ih.step hstep

end Pops

/-! ## Main results -/

variable {ι : Type} [Fintype ι] [DecidableEq ι]

/-- In every interleaving the calls are those of a stack without threads: each takes effect at
one point between its invocation and its response, and the answers are the stack's. -/
theorem threadsafeStack_linearizable (σ : StackState ι α)
    (h : Reachable threadsafeStack.step (Guarded.State.init []) σ) :
    ∃ s, Atomic.Reaches Spec (Atomic.State.init []) s ∧ s.history = σ.history ∧
      ∀ i, (σ.threads i).abs = s.threads i :=
  ⟨σ.abs, refines stack_reads (fun _ _ _ _ _ => spec_of_acts) h, rfl, fun _ => rfl⟩

/-- A thread finds the stack empty, another one pushes a value, and the first one pops it. -/
def emptyThenPop : List (Guarded.Label Bool (Call ℕ)) :=
  .call false .empty :: .call true (.push 7) :: .replicate 4 (.resume false none) ++
    .replicate 4 (.resume true none) ++ .call false .pop :: .replicate 6 (.resume false none)

theorem threadsafeStack_linearizable_emptyThenPop :
    ∃ σ : StackState Bool ℕ,
      run threadsafeStack.step (Guarded.State.init []) emptyThenPop = some σ ∧
      ∃ s, Atomic.Reaches Spec (Atomic.State.init []) s ∧
        s.history = [.invoke false .empty, .invoke true (.push 7), .respond false (.isEmpty true),
          .respond true .pushed, .invoke false .pop, .respond false (.popped 7)] := by
  obtain ⟨σ, hrun, hhistory⟩ : ∃ σ : StackState Bool ℕ,
      run threadsafeStack.step (Guarded.State.init []) emptyThenPop = some σ ∧
      σ.history = [.invoke false .empty, .invoke true (.push 7), .respond false (.isEmpty true),
        .respond true .pushed, .invoke false .pop, .respond false (.popped 7)] := ⟨_, rfl, rfl⟩
  obtain ⟨s, hs, heq, -⟩ := threadsafeStack_linearizable σ ⟨_, hrun⟩
  exact ⟨σ, hrun, s, hs, heq.trans hhistory⟩

/-- Threads that pop a stack filled before, whatever else they do with it, see a `pop` throw only
after more `pop`s have been called than there were values. What `pop`s have returned was there
before or pushed, each value once; between the calls the rest is on the stack. -/
theorem pop_throws (σ : StackState ι α)
    (h : Reachable threadsafeStack.step (Guarded.State.init data) σ) :
    (∀ i, .respond i .emptyStack ∈ σ.history → data.length < popsInvoked σ.history) ∧
      returned σ.history ≤ (data : Multiset α) + pushed σ.history ∧
      ((∀ i, σ.threads i = .idle) →
        returned σ.history + (σ.data : Multiset α) = (data : Multiset α) + pushed σ.history) := by
  have hconserves : ∀ (call : Call α) (data data' : List α) (answer : Answer α),
      Spec call data data' answer → (data' : Multiset α) + found answer = data + given call :=
    fun _ _ _ _ => Spec.conserves
  obtain ⟨⟨rest, hreturned⟩, hidle⟩ :=
    conserved stack_reads (fun _ _ _ _ _ => spec_of_acts) hconserves h
  have hatomic := refines stack_reads (fun _ _ _ _ _ => spec_of_acts) h
  exact ⟨(supplied_of_reaches hatomic).told, hreturned ▸ Multiset.le_add_right _ _, hidle⟩

/-- Two threads pop a stack of one value, and then one of them pushes another. -/
def popTwice : List (Guarded.Label Bool (Call ℕ)) :=
  .call false .pop :: .call true .pop :: .replicate 6 (.resume false none) ++
    .replicate 4 (.resume true none) ++ .call false (.push 8) :: .replicate 4 (.resume false none)

theorem pop_throws_popTwice :
    ∃ σ : StackState Bool ℕ,
      run threadsafeStack.step (Guarded.State.init [7]) popTwice = some σ ∧
      1 < popsInvoked σ.history ∧ returned σ.history + {8} = {7} + pushed σ.history := by
  obtain ⟨σ, hrun, hthrown, hidle, hdata⟩ : ∃ σ : StackState Bool ℕ,
      run threadsafeStack.step (Guarded.State.init [7]) popTwice = some σ ∧
      .respond true .emptyStack ∈ σ.history ∧ (∀ i, σ.threads i = .idle) ∧ σ.data = [8] :=
    ⟨_, rfl, .tail _ (.tail _ (.tail _ (.head _))), fun i => by cases i <;> rfl, rfl⟩
  obtain ⟨hlate, -, hconserved⟩ := pop_throws σ ⟨_, hrun⟩
  have hall := hconserved hidle
  rw [hdata] at hall
  exact ⟨σ, hrun, hlate true hthrown, hall⟩

end InterProcess.Threading.ThreadsafeStack
