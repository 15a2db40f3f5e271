import InterProcess.Buffering.Program

/-!
# The steps of the consumer-producer program

`Moves` is the step function read backwards: what a process that has moved was
about to do, and what it has changed. The invariants of the program are proved
by cases on it.
-/

namespace InterProcess.Buffering

open Function LockFree

variable {c : Config} {producerGroup consumerGroup : ℕ}

/-- A step of `run_producer`. -/
inductive ProducerMoves (consumerGroup : ℕ) (σ : State c) (i : c.Producer) (ok : Bool) :
    State c → Prop
  | startFails (hpc : σ.producers i = .waitForStart) (hok : ok = false) :
      ProducerMoves consumerGroup σ i ok (σ.setProducer i (.returned .notStarted))
  | start (hpc : σ.producers i = .waitForStart) (hle : 1 ≤ σ.producersSem) :
      ProducerMoves consumerGroup σ i ok
        ({ σ with producersSem := σ.producersSem - 1 }.setProducer i (.loop 0))
  | next {k : ℕ} (hpc : σ.producers i = .loop k) (hlt : k < c.messageCount) :
      ProducerMoves consumerGroup σ i ok (σ.setProducer i (.push k .load))
  | finish {k : ℕ} (hpc : σ.producers i = .loop k) (hle : c.messageCount ≤ k) :
      ProducerMoves consumerGroup σ i ok (σ.setProducer i .notifyCompletion)
  | load {k : ℕ} (hpc : σ.producers i = .push k .load) :
      ProducerMoves consumerGroup σ i ok (σ.setProducer i
        (.push k (.compareExchange σ.messageQueue.writeIdx)))
  | reload {k writeIdx : ℕ} (hpc : σ.producers i = .push k (.compareExchange writeIdx)) :
      ProducerMoves consumerGroup σ i ok (σ.setProducer i
        (.push k (.compareExchange σ.messageQueue.writeIdx)))
  | claim {k : ℕ}
      (hpc : σ.producers i = .push k (.compareExchange σ.messageQueue.writeIdx)) :
      ProducerMoves consumerGroup σ i ok ({ σ with
        messageQueue := σ.messageQueue.claimSlot messageQueueCapacity
          σ.messageQueue.writeIdx }.setProducer i (.push k (.store σ.messageQueue.writeIdx)))
  | store {k writeIdx : ℕ} (hpc : σ.producers i = .push k (.store writeIdx)) :
      ProducerMoves consumerGroup σ i ok ({ σ with
        messageQueue := { σ.messageQueue with
          data := update σ.messageQueue.data writeIdx
            (messageText k (c.groupIdWith consumerGroup i)) } }.setProducer i (.count k))
  | count {k : ℕ} (hpc : σ.producers i = .count k) :
      ProducerMoves consumerGroup σ i ok ({ σ with
        producedMessageCount := σ.producedMessageCount + 1 }.setProducer i (.notifyWritten k))
  | notifyFails {k : ℕ} (hpc : σ.producers i = .notifyWritten k) (hok : ok = false) :
      ProducerMoves consumerGroup σ i ok (σ.setProducer i (.returned .stoppedEarly))
  | notifyWritten {k : ℕ} (hpc : σ.producers i = .notifyWritten k) :
      ProducerMoves consumerGroup σ i ok ({ σ with
        messageWritten := σ.messageWritten + 1 }.setProducer i (.waitForRead k))
  | waitFails {k : ℕ} (hpc : σ.producers i = .waitForRead k) (hok : ok = false) :
      ProducerMoves consumerGroup σ i ok (σ.setProducer i (.returned .stoppedEarly))
  | waitForRead {k : ℕ} (hpc : σ.producers i = .waitForRead k) (hle : 1 ≤ σ.messageRead) :
      ProducerMoves consumerGroup σ i ok ({ σ with
        messageRead := σ.messageRead - 1 }.setProducer i (.loop (k + 1)))
  | completionFails (hpc : σ.producers i = .notifyCompletion) (hok : ok = false) :
      ProducerMoves consumerGroup σ i ok (σ.setProducer i (.returned .notCompleted))
  | notifyCompletion (hpc : σ.producers i = .notifyCompletion) :
      ProducerMoves consumerGroup σ i ok ({ σ with
        producersSem := σ.producersSem + 1 }.setProducer i (.returned .done))

theorem stepProducerWith_moves {σ σ' : State c} {i : c.Producer} {ok : Bool}
    (h : stepProducerWith consumerGroup σ i ok = some σ') :
    ProducerMoves consumerGroup σ i ok σ' := by
  unfold stepProducerWith at h
  cases hpc : σ.producers i with
  | setup => simp [hpc] at h
  | waitForStart =>
      simp only [hpc] at h
      split at h
      · next hok => cases h; exact .startFails hpc (by simpa using hok)
      · split at h
        · next hle => cases h; exact .start hpc hle
        · cases h
  | loop k =>
      simp only [hpc] at h
      split at h
      · next hlt => cases h; exact .next hpc hlt
      · next hle => cases h; exact .finish hpc (Nat.le_of_not_lt hle)
  | push k pc =>
      cases pc with
      | load =>
          simp only [hpc, RingBuffer.push, Option.some.injEq] at h
          exact h ▸ .load hpc
      | compareExchange writeIdx =>
          by_cases hwin : σ.messageQueue.writeIdx = writeIdx
          · subst hwin
            simp only [hpc, RingBuffer.push, if_true, Option.some.injEq] at h
            exact h ▸ .claim hpc
          · simp only [hpc, RingBuffer.push, if_neg hwin, Option.some.injEq] at h
            exact h ▸ .reload hpc
      | store writeIdx =>
          simp only [hpc, RingBuffer.push, Option.some.injEq] at h
          exact h ▸ .store hpc
  | count k =>
      simp only [hpc, Option.some.injEq] at h
      exact h ▸ .count hpc
  | notifyWritten k =>
      simp only [hpc] at h
      split at h
      · next hok => cases h; exact .notifyFails hpc (by simpa using hok)
      · cases h; exact .notifyWritten hpc
  | waitForRead k =>
      simp only [hpc] at h
      split at h
      · next hok => cases h; exact .waitFails hpc (by simpa using hok)
      · split at h
        · next hle => cases h; exact .waitForRead hpc hle
        · cases h
  | notifyCompletion =>
      simp only [hpc] at h
      split at h
      · next hok => cases h; exact .completionFails hpc (by simpa using hok)
      · cases h; exact .notifyCompletion hpc
  | returned exit => simp [hpc] at h

/-- A step of a consumer. -/
inductive ConsumerMoves (σ : State c) (j : c.Consumer) (ok : Bool) : State c → Prop
  | setupFails (hpc : σ.consumers j = .setup) (hok : ok = false) :
      ConsumerMoves σ j ok (σ.setConsumer j (.returned false))
  | setup (hpc : σ.consumers j = .setup) :
      ConsumerMoves σ j ok ({ σ with
        readiness := σ.readiness + 1 }.setConsumer j .waitForWritten)
  | waitFails (hpc : σ.consumers j = .waitForWritten) (hok : ok = false) :
      ConsumerMoves σ j ok (σ.setConsumer j (.loadDoneFlag false))
  | waitForWritten (hpc : σ.consumers j = .waitForWritten) (hle : 1 ≤ σ.messageWritten) :
      ConsumerMoves σ j ok ({ σ with
        messageWritten := σ.messageWritten - 1 }.setConsumer j (.loadDoneFlag true))
  | leave {written : Bool} {result : Bool} (hpc : σ.consumers j = .loadDoneFlag written)
      (hleave : σ.doneFlag = true ∨ written = false) :
      ConsumerMoves σ j ok (σ.setConsumer j (.returned result))
  | startPop (hpc : σ.consumers j = .loadDoneFlag true) (hdone : σ.doneFlag = false) :
      ConsumerMoves σ j ok (σ.setConsumer j (.pop .load))
  | load (hpc : σ.consumers j = .pop .load) :
      ConsumerMoves σ j ok (σ.setConsumer j (.pop (.compareExchange σ.messageQueue.readIdx)))
  | reload {readIdx : ℕ} (hpc : σ.consumers j = .pop (.compareExchange readIdx)) :
      ConsumerMoves σ j ok (σ.setConsumer j (.pop (.compareExchange σ.messageQueue.readIdx)))
  | release (hpc : σ.consumers j = .pop (.compareExchange σ.messageQueue.readIdx)) :
      ConsumerMoves σ j ok ({ σ with
        messageQueue := σ.messageQueue.releaseSlot messageQueueCapacity
          σ.messageQueue.readIdx }.setConsumer j (.pop (.read σ.messageQueue.readIdx)))
  | read {readIdx : ℕ} (hpc : σ.consumers j = .pop (.read readIdx)) :
      ConsumerMoves σ j ok (σ.setConsumer j .count)
  | count (hpc : σ.consumers j = .count) :
      ConsumerMoves σ j ok ({ σ with
        consumedMessageCount := σ.consumedMessageCount + 1 }.setConsumer j .notifyRead)
  | notifyFails (hpc : σ.consumers j = .notifyRead) (hok : ok = false) :
      ConsumerMoves σ j ok (σ.setConsumer j (.returned false))
  | notifyRead (hpc : σ.consumers j = .notifyRead) :
      ConsumerMoves σ j ok ({ σ with
        messageRead := σ.messageRead + 1 }.setConsumer j .waitForWritten)

theorem stepConsumer_moves {σ σ' : State c} {j : c.Consumer} {ok : Bool}
    (h : stepConsumer σ j ok = some σ') : ConsumerMoves σ j ok σ' := by
  unfold stepConsumer at h
  cases hpc : σ.consumers j with
  | setup =>
      simp only [hpc] at h
      split at h
      · next hok => cases h; exact .setupFails hpc (by simpa using hok)
      · cases h; exact .setup hpc
  | waitForWritten =>
      simp only [hpc] at h
      split at h
      · next hok => cases h; exact .waitFails hpc (by simpa using hok)
      · split at h
        · next hle => cases h; exact .waitForWritten hpc hle
        · cases h
  | loadDoneFlag written =>
      simp only [hpc] at h
      split at h
      · next hdone => cases h; exact .leave hpc (.inl hdone)
      · next hdone =>
          split at h
          · next hwritten => cases h; exact .leave hpc (.inr (by simpa using hwritten))
          · next hwritten =>
              cases h
              obtain rfl : written = true := by simpa using hwritten
              exact .startPop hpc (by simpa using hdone)
  | pop pc =>
      cases pc with
      | load =>
          simp only [hpc, RingBuffer.pop, Option.some.injEq] at h
          exact h ▸ .load hpc
      | compareExchange readIdx =>
          by_cases hwin : σ.messageQueue.readIdx = readIdx
          · subst hwin
            simp only [hpc, RingBuffer.pop, if_true, Option.some.injEq] at h
            exact h ▸ .release hpc
          · simp only [hpc, RingBuffer.pop, if_neg hwin, Option.some.injEq] at h
            exact h ▸ .reload hpc
      | read readIdx =>
          simp only [hpc, RingBuffer.pop, Option.some.injEq] at h
          exact h ▸ .read hpc
  | count =>
      simp only [hpc, Option.some.injEq] at h
      exact h ▸ .count hpc
  | notifyRead =>
      simp only [hpc] at h
      split at h
      · next hok => cases h; exact .notifyFails hpc (by simpa using hok)
      · cases h; exact .notifyRead hpc
  | returned result => simp [hpc] at h

/-- A step of the parent outside `run_producer`. -/
inductive ParentMoves (producerGroup consumerGroup : ℕ) (σ : State c) (ok : Bool) : State c → Prop
  | fails {result : Bool} (hok : ok = false)
      (hpc : σ.parent ∈ [.waitForReady, .notifyStart, .waitForCompletion,
        .waitForConsumption, .notifyDone]) :
      ParentMoves producerGroup consumerGroup σ ok (σ.setParent (.returned result))
  | waitForReady (hpc : σ.parent = .waitForReady) (hle : c.childrenCount ≤ σ.readiness) :
      ParentMoves producerGroup consumerGroup σ ok ({ σ with
        readiness := σ.readiness - c.childrenCount }.setParent .notifyStart)
  | notifyStart (hpc : σ.parent = .notifyStart) :
      ParentMoves producerGroup consumerGroup σ ok (({ σ with
        producersSem := σ.producersSem + producerGroup }.setParent .run).setProducer none
          .waitForStart)
  | produced {exit : ProducerExit} (hpc : σ.parent = .run)
      (hreturned : σ.producers none = .returned exit) (hresult : exit.result = true) :
      ParentMoves producerGroup consumerGroup σ ok (σ.setParent .waitForCompletion)
  | producerFailed {exit : ProducerExit} (hpc : σ.parent = .run)
      (hreturned : σ.producers none = .returned exit) (hresult : exit.result = false) :
      ParentMoves producerGroup consumerGroup σ ok (σ.setParent (.returned false))
  | waitForCompletion (hpc : σ.parent = .waitForCompletion) (hok : ok = true)
      (hle : producerGroup ≤ σ.producersSem) :
      ParentMoves producerGroup consumerGroup σ ok ({ σ with
        producersSem := σ.producersSem - producerGroup
        productionSeen := true }.setParent .waitForConsumption)
  | waitForConsumption (hpc : σ.parent = .waitForConsumption)
      (hnone : σ.messageWritten = 0) :
      ParentMoves producerGroup consumerGroup σ ok (σ.setParent .loadConsumed)
  | loadConsumed (hpc : σ.parent = .loadConsumed) :
      ParentMoves producerGroup consumerGroup σ ok
        (σ.setParent (.loadProduced σ.consumedMessageCount))
  | aborts {consumed : ℕ} (hpc : σ.parent = .loadProduced consumed)
      (hasserts : c.asserts = true) (hne : consumed ≠ σ.producedMessageCount) :
      ParentMoves producerGroup consumerGroup σ ok (σ.setParent .aborted)
  | loadProduced {consumed : ℕ} (hpc : σ.parent = .loadProduced consumed)
      (heq : c.asserts = true → consumed = σ.producedMessageCount) :
      ParentMoves producerGroup consumerGroup σ ok (σ.setParent .storeDoneFlag)
  | storeDoneFlag (hpc : σ.parent = .storeDoneFlag) :
      ParentMoves producerGroup consumerGroup σ ok
        ({ σ with doneFlag := true }.setParent .notifyDone)
  | notifyDone (hpc : σ.parent = .notifyDone) :
      ParentMoves producerGroup consumerGroup σ ok ({ σ with
        messageWritten := σ.messageWritten + consumerGroup }.setParent .waitForChildren)
  | waitForChildren (hpc : σ.parent = .waitForChildren)
      (hproducers : ∀ i, σ.producers (some i) matches .returned _)
      (hconsumers : ∀ j, σ.consumers j matches .returned _) :
      ParentMoves producerGroup consumerGroup σ ok (σ.setParent (.returned true))

/-- The parent takes a step of its own or, while it runs as a producer, a step
of `run_producer`. -/
theorem stepParentWith_moves {σ σ' : State c} {ok : Bool}
    (h : stepParentWith producerGroup consumerGroup σ ok = some σ') :
    ParentMoves producerGroup consumerGroup σ ok σ' ∨
      (σ.parent = .run ∧ stepProducerWith consumerGroup σ none ok = some σ') := by
  unfold stepParentWith at h
  cases hpc : σ.parent with
  | waitForReady =>
      left
      simp only [hpc] at h
      split at h
      · next hok => cases h; exact .fails (by simpa using hok) (by simp [hpc])
      · split at h
        · next hle => cases h; exact .waitForReady hpc hle
        · cases h
  | notifyStart =>
      left
      simp only [hpc] at h
      split at h
      · next hok => cases h; exact .fails (by simpa using hok) (by simp [hpc])
      · cases h; exact .notifyStart hpc
  | run =>
      simp only [hpc] at h
      split at h
      · next exit hreturned =>
          left
          split at h
          · next hresult => cases h; exact .produced hpc hreturned hresult
          · next hresult =>
              cases h; exact .producerFailed hpc hreturned (by simpa using hresult)
      · exact .inr ⟨rfl, h⟩
  | waitForCompletion =>
      left
      simp only [hpc] at h
      split at h
      · next hok => cases h; exact .fails (by simpa using hok) (by simp [hpc])
      · next hok =>
          split at h
          · next hle => cases h; exact .waitForCompletion hpc (by simpa using hok) hle
          · cases h
  | waitForConsumption =>
      left
      simp only [hpc] at h
      split at h
      · next hok => cases h; exact .fails (by simpa using hok) (by simp [hpc])
      · split at h
        · next hnone => cases h; exact .waitForConsumption hpc hnone
        · cases h
  | loadConsumed =>
      left
      simp only [hpc, Option.some.injEq] at h
      exact h ▸ .loadConsumed hpc
  | loadProduced consumed =>
      left
      simp only [hpc] at h
      split at h
      · next hne =>
          rw [Bool.and_eq_true, bne_iff_ne] at hne
          cases h; exact .aborts hpc hne.1 hne.2
      · next heq =>
          rw [Bool.and_eq_true, bne_iff_ne, not_and_not_right] at heq
          cases h; exact .loadProduced hpc heq
  | storeDoneFlag =>
      left
      simp only [hpc, Option.some.injEq] at h
      exact h ▸ .storeDoneFlag hpc
  | notifyDone =>
      left
      simp only [hpc] at h
      split at h
      · next hok => cases h; exact .fails (by simpa using hok) (by simp [hpc])
      · cases h; exact .notifyDone hpc
  | waitForChildren =>
      left
      simp only [hpc] at h
      split at h
      · next hall => cases h; exact .waitForChildren hpc hall.1 hall.2
      · cases h
  | aborted => simp [hpc] at h
  | returned result => simp [hpc] at h

/-- Everything a step of the program can do. -/
inductive Moves (producerGroup consumerGroup : ℕ) (σ : State c) : Label c → State c → Prop
  | setupFails {i : Fin c.childProducerCount} {ok : Bool}
      (hpc : σ.producers (some i) = .setup) (hok : ok = false) :
      Moves producerGroup consumerGroup σ (.producer i ok)
        (σ.setProducer (some i) (.returned .notReady))
  | setup {i : Fin c.childProducerCount} {ok : Bool}
      (hpc : σ.producers (some i) = .setup) :
      Moves producerGroup consumerGroup σ (.producer i ok)
        ({ σ with readiness := σ.readiness + 1 }.setProducer (some i) .waitForStart)
  | child {i : Fin c.childProducerCount} {ok : Bool} {σ' : State c}
      (h : ProducerMoves consumerGroup σ (some i) ok σ') :
      Moves producerGroup consumerGroup σ (.producer i ok) σ'
  | parentProducer {ok : Bool} {σ' : State c} (hpc : σ.parent = .run)
      (h : ProducerMoves consumerGroup σ none ok σ') :
      Moves producerGroup consumerGroup σ (.parent ok) σ'
  | parent {ok : Bool} {σ' : State c} (h : ParentMoves producerGroup consumerGroup σ ok σ') :
      Moves producerGroup consumerGroup σ (.parent ok) σ'
  | consumer {j : c.Consumer} {ok : Bool} {σ' : State c} (h : ConsumerMoves σ j ok σ') :
      Moves producerGroup consumerGroup σ (.consumer j ok) σ'

theorem stepWith_moves {σ σ' : State c} {l : Label c}
    (h : stepWith producerGroup consumerGroup σ l = some σ') :
    Moves producerGroup consumerGroup σ l σ' := by
  cases l with
  | parent ok =>
      rcases stepParentWith_moves h with hmoves | ⟨hpc, hproducer⟩
      · exact .parent hmoves
      · exact .parentProducer hpc (stepProducerWith_moves hproducer)
  | producer i ok =>
      simp only [stepWith, stepChildProducerWith] at h
      split at h
      · next hpc =>
          split at h
          · next hok => cases h; exact .setupFails hpc (by simpa using hok)
          · cases h; exact .setup hpc
      · exact .child (stepProducerWith_moves h)
  | consumer j ok => exact .consumer (stepConsumer_moves h)

theorem stepOkWith_moves {σ σ' : State c} {l : Label c}
    (h : stepOkWith producerGroup consumerGroup σ l = some σ') :
    Moves producerGroup consumerGroup σ l σ' ∧ l.ok = true := by
  unfold stepOkWith at h
  split at h
  · next hok => exact ⟨stepWith_moves h, hok⟩
  · cases h

theorem step_moves {σ σ' : State c} {l : Label c} (h : step σ l = some σ') :
    Moves c.producerCount c.consumerCount σ l σ' := stepWith_moves h

theorem stepOk_moves {σ σ' : State c} {l : Label c} (h : stepOk σ l = some σ') :
    Moves c.producerCount c.consumerCount σ l σ' ∧ l.ok = true := stepOkWith_moves h

/-! ## What the moves leave alone -/

theorem ProducerMoves.frame {σ σ' : State c} {i : c.Producer} {ok : Bool}
    (h : ProducerMoves consumerGroup σ i ok σ') :
    σ'.parent = σ.parent ∧ σ'.productionSeen = σ.productionSeen ∧
      σ'.consumers = σ.consumers ∧ σ'.messageQueue.pops = σ.messageQueue.pops := by
  cases h <;> exact ⟨rfl, rfl, rfl, rfl⟩

theorem ConsumerMoves.frame {σ σ' : State c} {j : c.Consumer} {ok : Bool}
    (h : ConsumerMoves σ j ok σ') :
    σ'.parent = σ.parent ∧ σ'.productionSeen = σ.productionSeen ∧
      σ'.producers = σ.producers ∧ σ'.producersSem = σ.producersSem := by
  cases h <;> exact ⟨rfl, rfl, rfl, rfl⟩

/-- A consumer writes nothing into the queue. -/
theorem ConsumerMoves.frame_queue {σ σ' : State c} {j : c.Consumer} {ok : Bool}
    (h : ConsumerMoves σ j ok σ') :
    σ'.messageQueue.pushes = σ.messageQueue.pushes ∧
      σ'.messageQueue.writeIdx = σ.messageQueue.writeIdx := by
  cases h <;> exact ⟨rfl, rfl⟩

end InterProcess.Buffering
