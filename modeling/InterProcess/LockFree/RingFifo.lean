import InterProcess.Lib.Calls
import InterProcess.LockFree.TryThreads

/-!
# A `ring_buffer` used by one thread

Called one after another, the operations of a `ring_buffer` are those of a
queue that holds at most `capacity - 1` values. `push` and `pop` look at one
index only, so they may be called only when `full()`, or `empty()`, has
returned false; the other two check by themselves, and since nobody moves an
index in between, they fail for no other reason.

`Represents` relates a ring to the values it holds: they lie in the slots from
`pops` on, the slots a value has been popped from keep their old value, and a
push stores to a slot outside.
-/

namespace InterProcess.LockFree

open Function Circular Calls

/-! ## The queue -/

namespace Fifo

inductive Call (α : Type)
  | tryPush (value : α)
  | tryPop
  | push (value : α)
  | pop
  | empty
  | full
  deriving DecidableEq, Repr

inductive Reply (α : Type)
  | tried (success : Bool)
  | popped (value : Option α)
  | pushed
  | value (value : α)
  | holds (answer : Bool)
  deriving DecidableEq, Repr

/-- What the call has added to the queue. -/
def added {α : Type} : Call α × Reply α → List α
  | (.tryPush value, .tried true) => [value]
  | (.push value, .pushed) => [value]
  | _ => []

/-- What the call has taken out of the queue. -/
def taken {α : Type} : Call α × Reply α → List α
  | (.tryPop, .popped (some value)) => [value]
  | (.pop, .value value) => [value]
  | _ => []

variable {α : Type}

/-- A queue of at most `limit` values, oldest first. -/
def answer (limit : ℕ) (held : List α) : Call α → Option (List α × Reply α)
  | .tryPush value =>
      if held.length = limit then some (held, .tried false)
      else some (held ++ [value], .tried true)
  | .tryPop =>
      match held with
      | [] => some ([], .popped none)
      | value :: rest => some (rest, .popped (some value))
  | .push value => if held.length = limit then none else some (held ++ [value], .pushed)
  | .pop =>
      match held with
      | [] => none
      | value :: rest => some (rest, .value value)
  | .empty => some (held, .holds (held.length = 0))
  | .full => some (held, .holds (held.length = limit))

/-- A call adds at the back or takes from the front. -/
theorem answer_conserves {limit : ℕ} {held held' : List α} {call : Call α} {reply : Reply α}
    (h : answer limit held call = some (held', reply)) :
    held ++ added (call, reply) = taken (call, reply) ++ held' := by
  cases call with
  | tryPush value =>
      simp only [answer] at h
      split at h <;> cases h <;> simp [added, taken]
  | push value =>
      simp only [answer] at h
      split at h
      · cases h
      · cases h
        simp [added, taken]
  | tryPop =>
      cases held <;> cases h <;> simp [added, taken]
  | pop =>
      cases held with
      | nil => cases h
      | cons first rest =>
          cases h
          simp [added, taken]
  | empty | full =>
      cases h
      simp [added, taken]

/-- What was taken, and what is held, is what was added, in that order. -/
theorem play_conserves {limit : ℕ} : ∀ {calls : List (Call α)} {held held' : List α}
    {replies : List (Reply α)}, play (answer limit) held calls = some (held', replies) →
      held ++ (calls.zip replies).flatMap added = (calls.zip replies).flatMap taken ++ held' := by
  intro calls
  induction calls with
  | nil =>
      intro held held' replies h
      cases h
      simp
  | cons call calls ih =>
      intro held held' replies h
      obtain ⟨held₁, reply, rest, hcall, hrest, rfl⟩ := play_cons_eq_some.mp h
      have hfirst := answer_conserves hcall
      have htail := ih hrest
      rw [List.zip_cons_cons, List.flatMap_cons, List.flatMap_cons, ← List.append_assoc, hfirst,
        List.append_assoc, htail, List.append_assoc]

end Fifo

/-! ## The ring -/

namespace RingBuffer

open TryThreads Fifo

variable {α : Type} {capacity fuel : ℕ} {ring : RingBuffer α} {held : List α}

/-- A call that nobody interferes with; `push` and `pop` are not called on a full, or an
empty, ring. -/
def answer (capacity fuel : ℕ) (ring : RingBuffer α) :
    Fifo.Call α → Option (RingBuffer α × Fifo.Reply α)
  | .tryPush value =>
      (complete (tryPush capacity value) fuel ring .loadWriteIdx).map (Prod.map id .tried)
  | .tryPop => (complete (tryPop capacity) fuel ring .loadReadIdx).map (Prod.map id .popped)
  | .push value =>
      if ring.isFull capacity then none
      else (complete (push capacity value) fuel ring .load).map (Prod.map id fun _ => .pushed)
  | .pop =>
      if ring.isEmpty then none
      else (complete (pop capacity) fuel ring .load).map (Prod.map id .value)
  | .empty => some (ring, .holds ring.isEmpty)
  | .full => some (ring, .holds (ring.isFull capacity))

/-- The ring after a value has been pushed. -/
def stored (capacity : ℕ) (ring : RingBuffer α) (value : α) : RingBuffer α :=
  { ring.claimSlot capacity ring.writeIdx with data := update ring.data ring.writeIdx value }

/-- The ring after a value has been popped. -/
def released (capacity : ℕ) (ring : RingBuffer α) : RingBuffer α :=
  ring.releaseSlot capacity ring.readIdx

theorem complete_tryPush (hfuel : 4 ≤ fuel) (value : α) :
    complete (tryPush capacity value) fuel ring .loadWriteIdx =
      if ring.isFull capacity then some (ring, false)
      else some (ring.stored capacity value, true) := by
  by_cases hfull : (ring.writeIdx + 1) % capacity = ring.readIdx
  · rw [if_pos (by simp [isFull, hfull])]
    exact complete_of_le 4 (by simp [complete, tryPush, hfull]) hfuel
  · rw [if_neg (by simp [isFull, hfull])]
    exact complete_of_le 4 (by simp [complete, tryPush, hfull, stored, claimSlot]) hfuel

theorem complete_tryPop (hfuel : 4 ≤ fuel) :
    complete (tryPop capacity) fuel ring .loadReadIdx =
      if ring.isEmpty then some (ring, none)
      else some (ring.released capacity, some (ring.data ring.readIdx)) := by
  by_cases hempty : ring.readIdx = ring.writeIdx
  · rw [if_pos (by simp [isEmpty, hempty])]
    exact complete_of_le 4 (by simp [complete, tryPop, hempty]) hfuel
  · rw [if_neg (by simp [isEmpty, hempty])]
    exact complete_of_le 4 (by simp [complete, tryPop, hempty, released, releaseSlot]) hfuel

/-- The loop of `push` is left in its first round. -/
theorem complete_push (hfuel : 4 ≤ fuel) (value : α) :
    complete (push capacity value) fuel ring .load = some (ring.stored capacity value, ()) :=
  complete_of_le 4 (by simp [complete, push, stored, claimSlot]) hfuel

theorem complete_pop (hfuel : 4 ≤ fuel) : complete (pop capacity) fuel ring .load =
    some (ring.released capacity, ring.data ring.readIdx) :=
  complete_of_le 4 (by simp [complete, pop, released, releaseSlot]) hfuel

/-- The values from the read index on are the ones held, oldest first. -/
structure Represents (capacity : ℕ) (ring : RingBuffer α) (held : List α) : Prop where
  wrapped : Wrapped capacity ring
  pushes_eq : ring.pushes = ring.pops + held.length
  stored : ∀ k, k < held.length → held[k]? = some (ring.data ((ring.pops + k) % capacity))

theorem Represents.fresh [Inhabited α] (capacity : ℕ) :
    Represents capacity (.fresh : RingBuffer α) [] where
  wrapped := Wrapped.fresh capacity
  pushes_eq := rfl
  stored k hk := absurd hk (Nat.not_lt_zero k)

theorem Represents.isFull_iff (h : Represents capacity ring held) (hcap : 1 < capacity) :
    ring.isFull capacity ↔ held.length = capacity - 1 := by
  have heq := h.pushes_eq
  rw [isFull, beq_iff_eq, h.wrapped.full_iff hcap]
  omega

theorem Represents.isEmpty_iff (h : Represents capacity ring held) (hcap : 1 < capacity) :
    ring.isEmpty ↔ held.length = 0 := by
  have heq := h.pushes_eq
  rw [isEmpty, beq_iff_eq, h.wrapped.empty_iff hcap]
  omega

theorem Represents.length_le (h : Represents capacity ring held) :
    held.length ≤ capacity - 1 := by
  have heq := h.pushes_eq
  have hle := h.wrapped.within.pushes_le
  omega

/-- A push stores behind the values held, in a slot of none of them. -/
theorem Represents.push (h : Represents capacity ring held) (hcap : 1 < capacity)
    (hroom : ¬ring.isFull capacity) (value : α) :
    Represents capacity (ring.stored capacity value) (held ++ [value]) := by
  have heq := h.pushes_eq
  have hle := h.length_le
  rw [h.isFull_iff hcap] at hroom
  have hwithin : Within capacity (ring.claimSlot capacity ring.writeIdx) := by
    rw [h.wrapped.claimSlot_iff hcap, Ne, h.wrapped.full_iff hcap]
    omega
  have hwrapped := h.wrapped.claimSlot hwithin
  refine ⟨⟨⟨hwrapped.within.pops_le, hwrapped.within.pushes_le⟩, hwrapped.readIdx_eq,
    hwrapped.writeIdx_eq⟩, ?_, fun k hk => ?_⟩
  · show ring.pushes + 1 = ring.pops + (held ++ [value]).length
    rw [List.length_append, List.length_singleton]
    omega
  · show (held ++ [value])[k]? =
      some (update ring.data ring.writeIdx value ((ring.pops + k) % capacity))
    rw [h.wrapped.writeIdx_eq, heq]
    rw [List.length_append, List.length_singleton] at hk
    by_cases hlast : k = held.length
    · subst hlast
      rw [update_self, List.getElem?_append_right le_rfl, Nat.sub_self]
      rfl
    · have hlt : k < held.length := by omega
      have hne : (ring.pops + k) % capacity ≠ (ring.pops + held.length) % capacity :=
        mod_ne_of_lt_of_lt (by omega) (by omega)
      rw [update_of_ne hne, List.getElem?_append_left hlt]
      exact h.stored k hlt

/-- A pop takes the oldest value. -/
theorem Represents.pop {value : α} (h : Represents capacity ring (value :: held))
    (hcap : 1 < capacity) :
    ring.data ring.readIdx = value ∧ Represents capacity (ring.released capacity) held := by
  have heq := h.pushes_eq
  rw [List.length_cons] at heq
  have hwithin : Within capacity (ring.releaseSlot capacity ring.readIdx) := by
    rw [h.wrapped.releaseSlot_iff hcap, Ne, h.wrapped.empty_iff hcap]
    omega
  refine ⟨?_, h.wrapped.releaseSlot hwithin, ?_, fun k hk => ?_⟩
  · have hfirst := h.stored 0 (Nat.succ_pos _)
    rw [h.wrapped.readIdx_eq]
    exact (Option.some.inj hfirst).symm
  · show ring.pushes = ring.pops + 1 + held.length
    omega
  · have hnext := h.stored (k + 1) (Nat.succ_lt_succ hk)
    rw [List.getElem?_cons_succ] at hnext
    show held[k]? = some (ring.data ((ring.pops + 1 + k) % capacity))
    rw [hnext, show ring.pops + (k + 1) = ring.pops + 1 + k by omega]

/-! ## The ring is the queue -/

/-- Each call answers as the queue does. -/
theorem Represents.answer (hcap : 1 < capacity) (hfuel : 4 ≤ fuel) (ring : RingBuffer α)
    (held : List α) (call : Fifo.Call α) (h : Represents capacity ring held) :
    Corresponds (Represents capacity) (ring.answer capacity fuel call)
      (Fifo.answer (capacity - 1) held call) := by
  have hfull := h.isFull_iff hcap
  have hempty := h.isEmpty_iff hcap
  cases call with
  | tryPush value =>
      simp only [RingBuffer.answer, Fifo.answer, complete_tryPush hfuel, ← hfull]
      split
      · exact .some ⟨h, rfl⟩
      · next hroom => exact .some ⟨h.push hcap hroom value, rfl⟩
  | push value =>
      simp only [RingBuffer.answer, Fifo.answer, complete_push hfuel, ← hfull]
      split
      · exact .none
      · next hroom => exact .some ⟨h.push hcap hroom value, rfl⟩
  | tryPop =>
      simp only [RingBuffer.answer, complete_tryPop hfuel]
      cases held with
      | nil =>
          rw [if_pos (hempty.mpr rfl)]
          exact .some ⟨h, rfl⟩
      | cons value rest =>
          obtain ⟨hvalue, hrest⟩ := h.pop hcap
          rw [if_neg (mt hempty.mp (Nat.succ_ne_zero _)), hvalue]
          exact .some ⟨hrest, rfl⟩
  | pop =>
      simp only [RingBuffer.answer, complete_pop hfuel]
      cases held with
      | nil =>
          rw [if_pos (hempty.mpr rfl)]
          exact .none
      | cons value rest =>
          obtain ⟨hvalue, hrest⟩ := h.pop hcap
          rw [if_neg (mt hempty.mp (Nat.succ_ne_zero _)), hvalue]
          exact .some ⟨hrest, rfl⟩
  | empty =>
      refine .some ⟨h, congrArg Reply.holds ?_⟩
      rw [Bool.eq_iff_iff, hempty, decide_eq_true_iff]
  | full =>
      refine .some ⟨h, congrArg Reply.holds ?_⟩
      rw [Bool.eq_iff_iff, hfull, decide_eq_true_iff]

/-- A call that reports a failure leaves the ring as it is. -/
theorem answer_failed {ring' : RingBuffer α} {call : Fifo.Call α} {reply : Fifo.Reply α}
    (hfuel : 4 ≤ fuel) (h : ring.answer capacity fuel call = some (ring', reply))
    (hfailed : reply = .tried false ∨ reply = .popped none) : ring' = ring := by
  cases call with
  | tryPush value =>
      simp only [answer, complete_tryPush hfuel] at h
      split at h
      · cases h
        rfl
      · cases h
        rcases hfailed with hfailed | hfailed <;> cases hfailed
  | tryPop =>
      simp only [answer, complete_tryPop hfuel] at h
      split at h
      · cases h
        rfl
      · cases h
        rcases hfailed with hfailed | hfailed <;> cases hfailed
  | push value =>
      simp only [answer, complete_push hfuel] at h
      split at h
      · cases h
      · cases h
        rcases hfailed with hfailed | hfailed <;> cases hfailed
  | pop =>
      simp only [answer, complete_pop hfuel] at h
      split at h
      · cases h
      · cases h
        rcases hfailed with hfailed | hfailed <;> cases hfailed
  | empty | full =>
      cases h
      rfl

/-- A fresh ring answers a sequence of calls as the empty queue of at most
`capacity - 1` values does. At any time the values popped and the values held are
the values pushed, in order, and a failure has changed nothing. -/
theorem ring_fifo [Inhabited α] (capacity fuel : ℕ) (hcap : 1 < capacity) (hfuel : 4 ≤ fuel)
    (calls : List (Fifo.Call α)) :
    (play (answer capacity fuel) .fresh calls).map Prod.snd =
      (play (Fifo.answer (capacity - 1)) [] calls).map Prod.snd ∧
    ∀ ring replies, play (answer capacity fuel) .fresh calls = some (ring, replies) →
      (∃ held, play (Fifo.answer (capacity - 1)) [] calls = some (held, replies) ∧
        held.length ≤ capacity - 1 ∧
        (calls.zip replies).flatMap added = (calls.zip replies).flatMap taken ++ held ∧
        (ring.isEmpty ↔ held.length = 0) ∧ (ring.isFull capacity ↔ held.length = capacity - 1)) ∧
      ∀ call ring' reply, ring.answer capacity fuel call = some (ring', reply) →
        reply = .tried false ∨ reply = .popped none → ring' = ring := by
  have hrel := play_rel (Represents.answer hcap hfuel) calls (Represents.fresh (α := α) capacity)
  constructor
  · generalize play (answer capacity fuel) (.fresh : RingBuffer α) calls = r at hrel
    generalize play (Fifo.answer (capacity - 1)) [] calls = r' at hrel
    cases hrel with
    | none => rfl
    | some h => exact congrArg some h.2
  · intro ring replies hplay
    refine ⟨?_, fun call ring' reply hcall => answer_failed hfuel hcall⟩
    rw [hplay] at hrel
    generalize hqueue : play (Fifo.answer (capacity - 1)) [] calls = r at hrel
    cases hrel with
    | @some _ q h =>
        obtain ⟨held, replies'⟩ := q
        obtain ⟨hheld, rfl⟩ := h
        have hconserved := play_conserves hqueue
        rw [List.nil_append] at hconserved
        exact ⟨held, rfl, hheld.length_le, hconserved, hheld.isEmpty_iff hcap,
          hheld.isFull_iff hcap⟩

/-- Of capacity 3: the third value does not fit. -/
theorem ring_fifo_three : (play (answer 3 4) (.fresh : RingBuffer ℕ)
    [.push 1, .tryPush 2, .tryPush 3, .pop, .full, .tryPop]).map Prod.snd =
      some [.pushed, .tried true, .tried false, .value 1, .holds false, .popped (some 2)] :=
  (ring_fifo 3 4 (Nat.lt_succ_self _).le le_rfl _).1.trans rfl

end RingBuffer

end InterProcess.LockFree
