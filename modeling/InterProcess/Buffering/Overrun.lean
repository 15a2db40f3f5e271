import InterProcess.Buffering.Occupancy

/-!
# When the message queue is overrun

The consumers need not run at all while the producers are given the initial
tokens: whenever all messages together do not fit into the queue, there is a
run in which `capacity` messages are written, no message is read, and one more
is pushed. `noOverrun_iff` puts this together with the bound of `Occupancy`.
-/

namespace InterProcess.Buffering

open Function LockFree Lts Threads

variable {c : Config}

/-- The label producer `i` moves with, once the production runs. -/
def Label.ofProducer : c.Producer → Label c
  | none => .parent true
  | some i => .producer i true

theorem stepOk_ofProducer {σ σ' : State c} {i : c.Producer} (hrun : σ.parent = .run)
    (h : stepProducerWith c.consumerCount σ i true = some σ') :
    stepOk σ (.ofProducer i) = some σ' := by
  cases i with
  | none =>
      show stepParentWith c.producerCount c.consumerCount σ true = some σ'
      simp only [stepParentWith, hrun]
      split
      · next exit hreturned => simp [stepProducerWith, hreturned] at h
      · exact h
  | some i =>
      show stepChildProducerWith c.consumerCount σ i true = some σ'
      simp only [stepChildProducerWith]
      split
      · next hsetup => simp [stepProducerWith, hsetup] at h
      · exact h

/-- `n` messages have been pushed and paid for, none has been popped. -/
def Tally (n : ℕ) (σ : State c) : Prop :=
  σ.messageRead + n = messageQueueCapacity ∧ σ.messageQueue.pushes = n ∧ σ.messageQueue.pops = 0

/-! ## Up to the start of the production -/

/-- A child is a producer or a consumer. -/
abbrev Config.Child (c : Config) := Fin c.childProducerCount ⊕ c.Consumer

/-- The children in `s` are ready, the others have not run. -/
structure ChildrenReady (s : Finset c.Child) (σ : State c) : Prop where
  parent : σ.parent = .waitForReady
  readiness : σ.readiness = s.card
  producers : ∀ i, σ.producers (some i) = if .inl i ∈ s then .waitForStart else .setup
  consumers : ∀ j, σ.consumers j = if .inr j ∈ s then .waitForWritten else .setup
  tally : Tally 0 σ

/-- The production is started, the producers in `s` have taken their tokens. -/
structure Started (s : Finset c.Producer) (σ : State c) : Prop where
  parent : σ.parent = .run
  tokens : c.producerCount ≤ σ.producersSem + s.card
  producers : ∀ i, σ.producers i = if i ∈ s then .loop 0 else .waitForStart
  tally : Tally 0 σ

theorem ChildrenReady.init : ChildrenReady ∅ (init c) :=
  ⟨rfl, rfl, fun _ => rfl, fun _ => rfl, ⟨rfl, rfl, rfl⟩⟩

theorem ChildrenReady.insert {s : Finset c.Child} {σ : State c} (h : ChildrenReady s σ)
    {child : c.Child} (hchild : child ∉ s) :
    ∃ σ', Reachable stepOk σ σ' ∧ ChildrenReady (insert child s) σ' := by
  cases child with
  | inl i =>
      have hpc : σ.producers (some i) = .setup := by rw [h.producers, if_neg hchild]
      have hstep : stepOk σ (.producer i true) =
          some ({ σ with readiness := σ.readiness + 1 }.setProducer (some i) .waitForStart) := by
        show stepChildProducerWith c.consumerCount σ i true = _
        simp [stepChildProducerWith, hpc]
      refine ⟨_, .single hstep, h.parent, ?_, fun i' => ?_, fun j => ?_, h.tally⟩
      · rw [Finset.card_insert_of_notMem hchild, ← h.readiness]
        rfl
      · by_cases hi : i' = i
        · subst hi
          simp [State.setProducer]
        · simpa [State.setProducer, hi] using h.producers i'
      · simpa [State.setProducer] using h.consumers j
  | inr j =>
      have hpc : σ.consumers j = .setup := by rw [h.consumers, if_neg hchild]
      have hstep : stepOk σ (.consumer j true) =
          some ({ σ with readiness := σ.readiness + 1 }.setConsumer j .waitForWritten) := by
        show stepConsumer σ j true = _
        simp [stepConsumer, hpc]
      refine ⟨_, .single hstep, h.parent, ?_, fun i => ?_, fun j' => ?_, h.tally⟩
      · rw [Finset.card_insert_of_notMem hchild, ← h.readiness]
        rfl
      · simpa [State.setConsumer] using h.producers i
      · by_cases hj : j' = j
        · subst hj
          simp [State.setConsumer]
        · simpa [State.setConsumer, hj] using h.consumers j'

/-- All children ready, the parent starts the production. -/
theorem ChildrenReady.start {σ : State c} (h : ChildrenReady Finset.univ σ) :
    ∃ σ', Reachable stepOk σ σ' ∧ Started ∅ σ' := by
  have hle : c.childrenCount ≤ σ.readiness := by
    rw [h.readiness, Finset.card_univ, Fintype.card_sum, Fintype.card_fin, Fintype.card_fin]
    rfl
  have hready : stepOk σ (.parent true) = some ({ σ with
      readiness := σ.readiness - c.childrenCount }.setParent .notifyStart) := by
    show stepParentWith c.producerCount c.consumerCount σ true = _
    simp [stepParentWith, h.parent, hle]
  have hstart : stepOk ({ σ with
        readiness := σ.readiness - c.childrenCount }.setParent .notifyStart) (.parent true) =
      some (({ σ with
        readiness := σ.readiness - c.childrenCount
        producersSem := σ.producersSem + c.producerCount }.setParent .run).setProducer none
          .waitForStart) := rfl
  refine ⟨_, (Reachable.single hready).tail hstart, rfl, Nat.le_add_left _ _, fun i => ?_,
    h.tally⟩
  cases i with
  | none => rfl
  | some i => simpa [State.setProducer, State.setParent] using h.producers i

theorem Started.insert {s : Finset c.Producer} {σ : State c} (h : Started s σ)
    {i : c.Producer} (hi : i ∉ s) : ∃ σ', Reachable stepOk σ σ' ∧ Started (insert i s) σ' := by
  have hpc : σ.producers i = .waitForStart := by rw [h.producers, if_neg hi]
  have hlt : s.card < c.producerCount := by
    rw [← card_producer]
    exact Finset.card_lt_univ_of_notMem hi
  have htokens := h.tokens
  have hle : 1 ≤ σ.producersSem := by omega
  have hstep : stepProducerWith c.consumerCount σ i true =
      some ({ σ with producersSem := σ.producersSem - 1 }.setProducer i (.loop 0)) := by
    simp [stepProducerWith, hpc, hle]
  refine ⟨_, .single (stepOk_ofProducer h.parent hstep), h.parent, ?_, fun i' => ?_, h.tally⟩
  · rw [Finset.card_insert_of_notMem hi]
    show c.producerCount ≤ σ.producersSem - 1 + (s.card + 1)
    omega
  · by_cases hi' : i' = i
    · subst hi'
      simp [State.setProducer]
    · simpa [State.setProducer, hi'] using h.producers i'

theorem exists_started : ∃ σ : State c, Reachable stepOk (init c) σ ∧ Started Finset.univ σ := by
  have hready : ∃ σ : State c, Reachable stepOk (init c) σ ∧ ChildrenReady Finset.univ σ :=
    Reachable.sweep (fun _ _ _ hchild h => ChildrenReady.insert h hchild) ChildrenReady.init _
  obtain ⟨σ₁, hσ₁, hready⟩ := hready
  obtain ⟨σ₂, hσ₂, hstart⟩ := hready.start
  have hstarted : ∃ σ : State c, Reachable stepOk σ₂ σ ∧ Started Finset.univ σ :=
    Reachable.sweep (fun _ _ _ hi h => Started.insert h hi) hstart _
  obtain ⟨σ₃, hσ₃, hstarted⟩ := hstarted
  exact ⟨σ₃, (hσ₁.trans hσ₂).trans hσ₃, hstarted⟩

/-! ## The production, without the consumers -/

/-- The producers are between two messages. -/
structure Producing (n : ℕ) (σ : State c) : Prop where
  parent : σ.parent = .run
  loops : ∀ i, ∃ k, σ.producers i = .loop k
  tally : Tally n σ

/-- The first steps of a message: claim a slot. -/
theorem exists_claim {σ : State c} {i : c.Producer} {k : ℕ} (hrun : σ.parent = .run)
    (hpc : σ.producers i = .loop k) (hlt : k < c.messageCount) :
    Reachable stepOk σ ({ σ with
      messageQueue := σ.messageQueue.claimSlot messageQueueCapacity
        σ.messageQueue.writeIdx }.setProducer i (.push k (.store σ.messageQueue.writeIdx))) := by
  have hnext : stepProducerWith c.consumerCount σ i true =
      some (σ.setProducer i (.push k .load)) := by
    simp [stepProducerWith, hpc, hlt]
  have hload : stepProducerWith c.consumerCount (σ.setProducer i (.push k .load)) i true =
      some (σ.setProducer i (.push k (.compareExchange σ.messageQueue.writeIdx))) := by
    simp [stepProducerWith, State.setProducer, RingBuffer.push]
  have hclaim : stepProducerWith c.consumerCount
        (σ.setProducer i (.push k (.compareExchange σ.messageQueue.writeIdx))) i true =
      some ({ σ with
        messageQueue := σ.messageQueue.claimSlot messageQueueCapacity
          σ.messageQueue.writeIdx }.setProducer i (.push k (.store σ.messageQueue.writeIdx))) := by
    simp [stepProducerWith, State.setProducer, RingBuffer.push]
  exact ((Reachable.single (stepOk_ofProducer hrun hnext)).tail
    (stepOk_ofProducer hrun hload)).tail (stepOk_ofProducer hrun hclaim)

/-- The other steps of a message, when there is a token to take. -/
theorem exists_next {σ : State c} {i : c.Producer} {k writeIdx : ℕ} (hrun : σ.parent = .run)
    (hpc : σ.producers i = .push k (.store writeIdx)) (hread : 1 ≤ σ.messageRead) :
    Reachable stepOk σ ({ σ with
      messageQueue := { σ.messageQueue with
        data := update σ.messageQueue.data writeIdx
          (messageText k (c.groupIdWith c.consumerCount i)) }
      producedMessageCount := σ.producedMessageCount + 1
      messageWritten := σ.messageWritten + 1
      messageRead := σ.messageRead - 1 }.setProducer i (.loop (k + 1))) := by
  have hstore : stepProducerWith c.consumerCount σ i true = some ({ σ with
      messageQueue := { σ.messageQueue with
        data := update σ.messageQueue.data writeIdx
          (messageText k (c.groupIdWith c.consumerCount i)) } }.setProducer i (.count k)) := by
    simp [stepProducerWith, hpc, RingBuffer.push]
  have hcount {τ : State c} : stepProducerWith c.consumerCount (τ.setProducer i (.count k)) i true =
      some ({ τ with
        producedMessageCount := τ.producedMessageCount + 1 }.setProducer i
          (.notifyWritten k)) := by
    simp [stepProducerWith, State.setProducer]
  have hnotify {τ : State c} :
      stepProducerWith c.consumerCount (τ.setProducer i (.notifyWritten k)) i true =
        some ({ τ with
          messageWritten := τ.messageWritten + 1 }.setProducer i (.waitForRead k)) := by
    simp [stepProducerWith, State.setProducer]
  have hwait {τ : State c} (hle : 1 ≤ τ.messageRead) :
      stepProducerWith c.consumerCount (τ.setProducer i (.waitForRead k)) i true =
        some ({ τ with
          messageRead := τ.messageRead - 1 }.setProducer i (.loop (k + 1))) := by
    simp [stepProducerWith, State.setProducer, hle]
  exact (((Reachable.single (stepOk_ofProducer hrun hstore)).tail
    (stepOk_ofProducer hrun hcount)).tail (stepOk_ofProducer hrun hnotify)).tail
      (stepOk_ofProducer hrun (hwait hread))

/-- While messages are left to produce, some producer has one. -/
theorem Producing.exists_lt {n : ℕ} {σ : State c} (h : Producing n σ) (hocc : Occupancy σ)
    (hn : n < c.producerCount * c.messageCount) :
    ∃ i k, σ.producers i = .loop k ∧ k < c.messageCount := by
  by_contra hnone
  push Not at hnone
  have hall : ∀ i, (σ.producers i).pushed c.messageCount = c.messageCount := by
    intro i
    obtain ⟨k, hk⟩ := h.loops i
    have hle := hocc.inLoop i
    have hge := hnone i k hk
    rw [hk] at hle ⊢
    exact le_antisymm hle hge
  have htotal := total_eq_card_mul hall
  rw [card_producer, ← hocc.pushes_eq, h.tally.2.1] at htotal
  omega

/-- One more message is written, with an initial token. -/
theorem Producing.succ {n : ℕ} {σ : State c} (h : Producing n σ) (hocc : Occupancy σ)
    (hn : n < c.producerCount * c.messageCount) (hcap : n < messageQueueCapacity) :
    ∃ σ', Reachable stepOk σ σ' ∧ Producing (n + 1) σ' := by
  obtain ⟨i, k, hpc, hlt⟩ := h.exists_lt hocc hn
  obtain ⟨hread, hpushes, hpops⟩ := h.tally
  -- fewer messages than slots: one of the initial tokens is left
  have hle : 1 ≤ σ.messageRead := by omega
  refine ⟨_, (exists_claim h.parent hpc hlt).trans
    (exists_next (i := i) h.parent (update_self ..) hle), h.parent, ?_, ?_, ?_, hpops⟩
  · simp only [State.setProducer, update_idem]
    exact forall_update (P := fun pc : ProducerPc => ∃ k, pc = .loop k) ⟨k + 1, rfl⟩
      fun j _ => h.loops j
  · show σ.messageRead - 1 + (n + 1) = messageQueueCapacity
    omega
  · show σ.messageQueue.pushes + 1 = n + 1
    omega

theorem exists_producing (n : ℕ) (hn : n ≤ c.producerCount * c.messageCount)
    (hcap : n ≤ messageQueueCapacity) :
    ∃ σ : State c, Reachable stepOk (init c) σ ∧ Producing n σ := by
  induction n with
  | zero =>
      obtain ⟨σ, hσ, hstarted⟩ := exists_started (c := c)
      exact ⟨σ, hσ, hstarted.parent,
        fun i => ⟨0, by rw [hstarted.producers, if_pos (Finset.mem_univ i)]⟩, hstarted.tally⟩
  | succ n ih =>
      obtain ⟨σ, hσ, hproducing⟩ := ih (by omega) (by omega)
      obtain ⟨σ', hσ', hproducing⟩ := hproducing.succ (occupancy_of_reachable hσ) (by omega)
        (by omega)
      exact ⟨σ', hσ.trans hσ', hproducing⟩

/-- When the messages do not fit, one is pushed on top of a full queue. -/
theorem exists_overrun (hfit : messageQueueCapacity < c.producerCount * c.messageCount) :
    ∃ σ : State c, Reachable stepOk (init c) σ ∧
      messageQueueCapacity < σ.messageQueue.outstanding := by
  obtain ⟨σ, hσ, hproducing⟩ := exists_producing (c := c) messageQueueCapacity hfit.le le_rfl
  -- the slot is claimed first, the token is asked for later
  obtain ⟨i, k, hpc, hlt⟩ := hproducing.exists_lt (occupancy_of_reachable hσ) hfit
  refine ⟨_, hσ.trans (exists_claim hproducing.parent hpc hlt), ?_⟩
  show messageQueueCapacity < σ.messageQueue.pushes + 1 - σ.messageQueue.pops
  rw [hproducing.tally.2.1, hproducing.tally.2.2]
  exact Nat.lt_succ_self _

/-- While no semaphore operation fails, the queue is never overrun iff all
messages of all producers fit into it. -/
theorem noOverrun_iff (c : Config) :
    (∀ σ : State c, Reachable stepOk (init c) σ → NoOverrun σ) ↔
      c.producerCount * c.messageCount ≤ messageQueueCapacity := by
  constructor
  · intro hall
    by_contra hfit
    obtain ⟨σ, hσ, hlt⟩ := exists_overrun (Nat.lt_of_not_le hfit)
    exact absurd (hall σ hσ).outstanding_le (Nat.not_le.mpr hlt)
  · intro hfit σ hσ
    exact (occupancy_of_reachable hσ).noOverrun hfit

/-- The parent alone produces one message more than there are slots. -/
def oneTooMany : Config :=
  { childProducerCount := 0
    consumerCount := 1
    messageCount := 33
    asserts := true }

/-- The consumer gets ready; the parent writes 32 messages and pushes the next. -/
def parentOverruns : List (Label oneTooMany) :=
  .consumer (Fin.last 0) true :: List.replicate (3 + 7 * 32 + 3) (.parent true)

theorem not_noOverrun :
    ¬ ∀ (c : Config) (σ : State c), Reachable stepOk (init c) σ → NoOverrun σ := by
  intro hall
  have hrun : (run stepOk (init oneTooMany) parentOverruns).map
      (fun σ => σ.messageQueue.outstanding) = some 33 := by
    decide +kernel
  obtain ⟨σ, hσ, houtstanding⟩ := Option.map_eq_some_iff.mp hrun
  have hle := (hall oneTooMany σ ⟨_, hσ⟩).outstanding_le
  rw [houtstanding] at hle
  exact absurd hle (by decide)

end InterProcess.Buffering
