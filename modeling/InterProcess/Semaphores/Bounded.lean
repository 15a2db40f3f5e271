import InterProcess.Semaphores.Program
import InterProcess.Lib.Threads
import Mathlib.Algebra.Order.Group.Multiset

/-!
# The bounded buffer is bounded

A slot is free, taken by a producer that has not pushed yet, filled, or emptied
by a consumer that has not posted yet (`Inv.slots`). An item in the buffer is
announced, not yet announced by its producer, or promised to a consumer that has
not taken it yet (`Inv.items`). Whoever touches the buffer owns the mutex, so
the item a consumer has read is still the last one when it takes it.
-/

namespace InterProcess.Semaphores

open Function Lts Threads

variable {p c : ℕ}

/-- Slots the producer has taken and not filled. -/
def ProducerPc.reserving : ProducerPc → ℕ
  | .lock _ _ | .pushBack _ _ => 1
  | _ => 0

/-- Items the producer has pushed and not announced. -/
def ProducerPc.announcing : ProducerPc → ℕ
  | .unlock _ | .postFilled _ => 1
  | _ => 0

def ProducerPc.locking : ProducerPc → Bool
  | .pushBack _ _ | .unlock _ => true
  | _ => false

/-- Items promised to the consumer that it has not taken. -/
def ConsumerPc.claiming : ConsumerPc → ℕ
  | .lock _ | .back _ | .popBack _ _ => 1
  | _ => 0

/-- Slots the consumer has emptied and not given back. -/
def ConsumerPc.freeing : ConsumerPc → ℕ
  | .unlock _ | .postEmpty _ => 1
  | _ => 0

def ConsumerPc.locking : ConsumerPc → Bool
  | .back _ | .popBack _ _ | .unlock _ => true
  | _ => false

structure Inv (bufferSize : ℕ) (σ : State p c) : Prop where
  slots : σ.emptySlots + total ProducerPc.reserving σ.producers + σ.buffer.length +
    total ConsumerPc.freeing σ.consumers = bufferSize
  items : σ.filledSlots + total ProducerPc.announcing σ.producers +
    total ConsumerPc.claiming σ.consumers = σ.buffer.length
  producerOwns : ∀ i, (σ.producers i).locking = true → σ.bufferMutex = some (.inl i)
  consumerOwns : ∀ j, (σ.consumers j).locking = true → σ.bufferMutex = some (.inr j)
  last : ∀ j k item, σ.consumers j = .popBack k item → σ.buffer.getLast? = some item
  balance : (σ.produced : Multiset ℕ) = σ.buffer + σ.consumed

variable {bufferSize : ℕ} {σ σ' : State p c}

theorem inv_init : Inv bufferSize (State.init bufferSize p c) where
  slots := by
    have hproducers : total ProducerPc.reserving (State.init bufferSize p c).producers = 0 :=
      total_eq_zero fun _ => rfl
    have hconsumers : total ConsumerPc.freeing (State.init bufferSize p c).consumers = 0 :=
      total_eq_zero fun _ => rfl
    rw [hproducers, hconsumers]
    rfl
  items := by
    have hproducers : total ProducerPc.announcing (State.init bufferSize p c).producers = 0 :=
      total_eq_zero fun _ => rfl
    have hconsumers : total ConsumerPc.claiming (State.init bufferSize p c).consumers = 0 :=
      total_eq_zero fun _ => rfl
    rw [hproducers, hconsumers]
    rfl
  producerOwns _ h := by cases h
  consumerOwns _ h := by cases h
  last _ _ _ h := by cases h
  balance := rfl

/-! ## One step -/

/-- A producer keeps the invariant when it settles what it takes and leaves with
the semaphores, and changes the buffer only as the owner of the mutex. -/
theorem Inv.producer_moved (h : Inv bufferSize σ) {i : Fin p} {pc : ProducerPc}
    {emptySlots filledSlots : ℕ} {bufferMutex : Option (Fin p ⊕ Fin c)}
    {buffer produced : List ℕ}
    (hslots : emptySlots + pc.reserving + buffer.length =
      σ.emptySlots + (σ.producers i).reserving + σ.buffer.length)
    (hitems : filledSlots + pc.announcing + σ.buffer.length =
      σ.filledSlots + (σ.producers i).announcing + buffer.length)
    (howns : pc.locking = true → bufferMutex = some (.inl i))
    (hothers : ∀ t, t ≠ .inl i → σ.bufferMutex = some t → bufferMutex = some t)
    (hbuffer : buffer = σ.buffer ∨ σ.bufferMutex = some (.inl i))
    (hbalance : (produced : Multiset ℕ) + σ.buffer = σ.produced + buffer) :
    Inv bufferSize ({ σ with
      emptySlots := emptySlots
      filledSlots := filledSlots
      bufferMutex := bufferMutex
      buffer := buffer
      produced := produced }.setProducer i pc) where
  slots := by
    have hupdate := total_update ProducerPc.reserving σ.producers i pc
    have hbefore := h.slots
    simp only [State.setProducer]
    omega
  items := by
    have hupdate := total_update ProducerPc.announcing σ.producers i pc
    have hbefore := h.items
    simp only [State.setProducer]
    omega
  producerOwns j hj := by
    by_cases hne : j = i
    · subst hne
      exact howns (by simpa [State.setProducer] using hj)
    · refine hothers _ (fun heq => hne (Sum.inl.inj heq)) (h.producerOwns j ?_)
      simpa [State.setProducer, update_of_ne hne] using hj
  consumerOwns j hj := hothers _ (fun heq => by cases heq) (h.consumerOwns j hj)
  last j k item hj := by
    -- a consumer about to take its item owns the mutex
    have howner : σ.bufferMutex = some (.inr j) :=
      h.consumerOwns j (by rw [show σ.consumers j = .popBack k item from hj]; rfl)
    rcases hbuffer with hsame | hlocked
    · exact hsame ▸ h.last j k item hj
    · rw [howner] at hlocked
      cases hlocked
  balance := by
    refine add_right_cancel (b := (σ.buffer : Multiset ℕ)) (hbalance.trans ?_)
    show (σ.produced : Multiset ℕ) + buffer = buffer + σ.consumed + σ.buffer
    rw [h.balance]
    abel

/-- The same for a consumer. -/
theorem Inv.consumer_moved (h : Inv bufferSize σ) {j : Fin c} {pc : ConsumerPc}
    {emptySlots filledSlots : ℕ} {bufferMutex : Option (Fin p ⊕ Fin c)}
    {buffer consumed : List ℕ}
    (hslots : emptySlots + pc.freeing + buffer.length =
      σ.emptySlots + (σ.consumers j).freeing + σ.buffer.length)
    (hitems : filledSlots + pc.claiming + σ.buffer.length =
      σ.filledSlots + (σ.consumers j).claiming + buffer.length)
    (howns : pc.locking = true → bufferMutex = some (.inr j))
    (hothers : ∀ t, t ≠ .inr j → σ.bufferMutex = some t → bufferMutex = some t)
    (hbuffer : buffer = σ.buffer ∨ σ.bufferMutex = some (.inr j))
    (hlast : ∀ k item, pc = .popBack k item → buffer.getLast? = some item)
    (hbalance : (buffer : Multiset ℕ) + consumed = σ.buffer + σ.consumed) :
    Inv bufferSize ({ σ with
      emptySlots := emptySlots
      filledSlots := filledSlots
      bufferMutex := bufferMutex
      buffer := buffer
      consumed := consumed }.setConsumer j pc) where
  slots := by
    have hupdate := total_update ConsumerPc.freeing σ.consumers j pc
    have hbefore := h.slots
    simp only [State.setConsumer]
    omega
  items := by
    have hupdate := total_update ConsumerPc.claiming σ.consumers j pc
    have hbefore := h.items
    simp only [State.setConsumer]
    omega
  producerOwns i hi := hothers _ (fun heq => by cases heq) (h.producerOwns i hi)
  consumerOwns j' hj' := by
    by_cases hne : j' = j
    · subst hne
      exact howns (by simpa [State.setConsumer] using hj')
    · refine hothers _ (fun heq => hne (Sum.inr.inj heq)) (h.consumerOwns j' ?_)
      simpa [State.setConsumer, update_of_ne hne] using hj'
  last j' k item hj' := by
    by_cases hne : j' = j
    · subst hne
      exact hlast k item (by simpa [State.setConsumer] using hj')
    · have hpc : σ.consumers j' = .popBack k item := by
        simpa [State.setConsumer, update_of_ne hne] using hj'
      have howner : σ.bufferMutex = some (.inr j') := h.consumerOwns j' (by rw [hpc]; rfl)
      rcases hbuffer with hsame | hlocked
      · exact hsame ▸ h.last j' k item hpc
      · rw [howner] at hlocked
        exact absurd (Sum.inr.inj (Option.some.inj hlocked)) hne
  balance := h.balance.trans hbalance.symm

theorem Inv.producer (h : Inv bufferSize σ) {i : Fin p} (hmoves : ProducerMoves σ i σ') :
    Inv bufferSize σ' := by
  cases hmoves with
  | draw hpc | exit hpc =>
      refine h.producer_moved ?_ ?_ ?_ (fun _ _ => id) (.inl rfl) rfl <;>
        simp [hpc, ProducerPc.reserving, ProducerPc.announcing, ProducerPc.locking]
  | waitEmpty hpc hpos =>
      refine h.producer_moved ?_ ?_ ?_ (fun _ _ => id) (.inl rfl) rfl
      · simp only [hpc, ProducerPc.reserving]
        omega
      · simp [hpc, ProducerPc.announcing]
      · simp [ProducerPc.locking]
  | lock hpc hfree =>
      refine h.producer_moved ?_ ?_ (fun _ => rfl) ?_ (.inl rfl) rfl
      · simp [hpc, ProducerPc.reserving]
      · simp [hpc, ProducerPc.announcing]
      · intro t _ howner
        rw [hfree] at howner
        cases howner
  | pushBack hpc =>
      have howner := h.producerOwns i (by rw [hpc]; rfl)
      refine h.producer_moved ?_ ?_ (fun _ => howner) (fun _ _ => id) (.inr howner) ?_
      · simp only [hpc, ProducerPc.reserving, List.length_append, List.length_singleton]
        omega
      · simp only [hpc, ProducerPc.announcing, List.length_append, List.length_singleton]
        omega
      · simp only [← Multiset.coe_add]
        abel
  | unlock hpc =>
      have howner := h.producerOwns i (by rw [hpc]; rfl)
      refine h.producer_moved ?_ ?_ ?_ ?_ (.inl rfl) rfl
      · simp [hpc, ProducerPc.reserving]
      · simp [hpc, ProducerPc.announcing]
      · simp [ProducerPc.locking]
      · intro t hne hother
        rw [howner] at hother
        exact absurd (Option.some.inj hother).symm hne
  | postFilled hpc =>
      refine h.producer_moved ?_ ?_ ?_ (fun _ _ => id) (.inl rfl) rfl
      · simp [hpc, ProducerPc.reserving]
      · simp only [hpc, ProducerPc.announcing]
      · simp [ProducerPc.locking]

/-- The item taken is the last one of the buffer. -/
theorem Inv.popped (h : Inv bufferSize σ) {j : Fin c} {k item : ℕ}
    (hpc : σ.consumers j = .popBack k item) : σ.buffer = σ.buffer.dropLast ++ [item] := by
  have hlast := h.last j k item hpc
  have hne : σ.buffer ≠ [] := by
    rintro hnil
    rw [hnil] at hlast
    cases hlast
  rw [List.getLast?_eq_some_getLast hne, Option.some.injEq] at hlast
  rw [← hlast]
  exact (List.dropLast_concat_getLast hne).symm

theorem Inv.consumer (h : Inv bufferSize σ) {j : Fin c} (hmoves : ConsumerMoves σ j σ') :
    Inv bufferSize σ' := by
  cases hmoves with
  | next hpc | exit hpc =>
      refine h.consumer_moved ?_ ?_ ?_ (fun _ _ => id) (.inl rfl) ?_ rfl <;>
        simp [hpc, ConsumerPc.freeing, ConsumerPc.claiming, ConsumerPc.locking]
  | waitFilled hpc hpos =>
      refine h.consumer_moved ?_ ?_ ?_ (fun _ _ => id) (.inl rfl) (by simp) rfl
      · simp [hpc, ConsumerPc.freeing]
      · simp only [hpc, ConsumerPc.claiming]
        omega
      · simp [ConsumerPc.locking]
  | lock hpc hfree =>
      refine h.consumer_moved ?_ ?_ (fun _ => rfl) ?_ (.inl rfl) (by simp) rfl
      · simp [hpc, ConsumerPc.freeing]
      · simp [hpc, ConsumerPc.claiming]
      · intro t _ howner
        rw [hfree] at howner
        cases howner
  | back hpc hlast =>
      have howner := h.consumerOwns j (by rw [hpc]; rfl)
      refine h.consumer_moved ?_ ?_ (fun _ => howner) (fun _ _ => id) (.inl rfl) ?_ rfl
      · simp [hpc, ConsumerPc.freeing]
      · simp [hpc, ConsumerPc.claiming]
      · intro k item heq
        cases heq
        exact hlast
  | @popBack k item hpc hne =>
      have howner := h.consumerOwns j (by rw [hpc]; rfl)
      have hlength : σ.buffer.length = σ.buffer.dropLast.length + 1 := by
        rw [List.length_dropLast]
        have := List.length_pos_of_ne_nil hne
        omega
      refine h.consumer_moved ?_ ?_ (fun _ => howner) (fun _ _ => id) (.inr howner) (by simp) ?_
      · simp only [hpc, ConsumerPc.freeing]
        omega
      · simp only [hpc, ConsumerPc.claiming]
        omega
      · have hbuffer : (σ.buffer : Multiset ℕ) = σ.buffer.dropLast + ([item] : List ℕ) :=
          congrArg _ (h.popped hpc)
        rw [hbuffer, ← Multiset.coe_add]
        abel
  | unlock hpc =>
      have howner := h.consumerOwns j (by rw [hpc]; rfl)
      refine h.consumer_moved ?_ ?_ ?_ ?_ (.inl rfl) (by simp) rfl
      · simp [hpc, ConsumerPc.freeing]
      · simp [hpc, ConsumerPc.claiming]
      · simp [ConsumerPc.locking]
      · intro t hne hother
        rw [howner] at hother
        exact absurd (Option.some.inj hother).symm hne
  | postEmpty hpc =>
      refine h.consumer_moved ?_ ?_ ?_ (fun _ _ => id) (.inl rfl) (by simp) rfl
      · simp only [hpc, ConsumerPc.freeing]
      · simp [hpc, ConsumerPc.claiming]
      · simp [ConsumerPc.locking]

theorem Inv.step {l : Label p c} (h : Inv bufferSize σ) (hstep : step σ l = some σ') :
    Inv bufferSize σ' := by
  cases l with
  | producer i random => exact h.producer (stepProducer_moves hstep)
  | consumer j => exact h.consumer (stepConsumer_moves hstep)

/-! ## Every run -/

/-- The buffer never holds more than `bufferSize` items, no consumer takes from
an empty one, and no item is lost or taken twice. -/
theorem boundedBuffer (bufferSize p c : ℕ) (σ : State p c)
    (h : Reachable step (State.init bufferSize p c) σ) :
    σ.buffer.length ≤ bufferSize ∧
      (∀ j, (σ.consumers j).takes = true → σ.buffer ≠ []) ∧
      (σ.produced : Multiset ℕ) = σ.buffer + σ.consumed := by
  have hinv : Inv bufferSize σ := h.induction inv_init fun _ _ _ => Inv.step
  refine ⟨?_, ?_, hinv.balance⟩
  · have hslots := hinv.slots
    omega
  · intro j htakes hnil
    have hclaim : 1 ≤ (σ.consumers j).claiming := by
      cases hpc : σ.consumers j with
      | back k | popBack k item => exact Nat.le_refl 1
      | _ => rw [hpc] at htakes; cases htakes
    have hle := le_total ConsumerPc.claiming σ.consumers j
    have hitems := hinv.items
    rw [hnil, List.length_nil] at hitems
    omega

/-- One producer, one consumer, one slot: an item is pushed and about to be taken. -/
theorem boundedBuffer_oneItem :
    ∃ σ : State 1 1, (σ.consumers (Fin.last 0)).takes = true ∧ σ.produced = [42] ∧
      σ.buffer.length ≤ 1 ∧ σ.buffer ≠ [] ∧ (σ.produced : Multiset ℕ) = σ.buffer + σ.consumed := by
  let producer : Label 1 1 := .producer (Fin.last 0) 142
  let consumer : Label 1 1 := .consumer (Fin.last 0)
  have hrun : Reachable step (State.init 1 1 1) _ :=
    ⟨List.replicate 6 producer ++ List.replicate 4 consumer,
      (Option.some_get (show (run step (State.init 1 1 1)
        (List.replicate 6 producer ++ List.replicate 4 consumer)).isSome from rfl)).symm⟩
  have hbounded := boundedBuffer 1 1 1 _ hrun
  exact ⟨_, rfl, rfl, hbounded.1, hbounded.2.1 (Fin.last 0) rfl, hbounded.2.2⟩

end InterProcess.Semaphores
