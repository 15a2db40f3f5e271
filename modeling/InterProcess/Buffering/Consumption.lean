import InterProcess.Buffering.Completion
import InterProcess.Buffering.Occupancy

/-!
# What consumers take from the queue

`pop` does not look whether there is a message; `message_written_notifier`
does that for it. Each token on it stands for a message that has been pushed
(`Ledger.popped`) and for one that has been counted as produced
(`Ledger.counted`), until the parent stops the consumption and adds a token
for each consumer. By then the done flag is set, and no consumer that takes a
token goes on to pop (`popsBegun_le`).

The parent takes the consumption for complete when no token is left.
`allConsumed_iff`: the counts agree iff no consumer is then between its token
and the count of its message.
-/

namespace InterProcess.Buffering

open Function LockFree Lts Threads

variable {c : Config} {producerGroup consumerGroup : ℕ}

/-! ## Messages in between -/

/-- The producer has claimed a slot and not stored its message. -/
def ProducerPc.storing : ProducerPc → ℕ
  | .push _ (.store _) => 1
  | _ => 0

/-- The producer has claimed a slot and not given the token for it. -/
def ProducerPc.unannounced : ProducerPc → ℕ
  | .push _ (.store _) | .count _ | .notifyWritten _ => 1
  | _ => 0

/-- The producer has counted a message and not given the token for it. -/
def ProducerPc.announcing : ProducerPc → ℕ
  | .notifyWritten _ => 1
  | _ => 0

/-- The same, or it has stopped early and may not have given the token. -/
def ProducerPc.silent : ProducerPc → ℕ
  | .notifyWritten _ | .returned .stoppedEarly => 1
  | _ => 0

/-- The consumer has begun to pop and not released a slot. -/
def ConsumerPc.popping : ConsumerPc → ℕ
  | .pop .load | .pop (.compareExchange _) => 1
  | _ => 0

/-- The consumer has taken a token and not released a slot. -/
def ConsumerPc.toPop : ConsumerPc → ℕ
  | .loadDoneFlag true | .pop .load | .pop (.compareExchange _) => 1
  | _ => 0

/-- The consumer has taken a token and not counted a message. -/
def ConsumerPc.toCount : ConsumerPc → ℕ
  | .loadDoneFlag true | .pop _ | .count => 1
  | _ => 0

/-- The consumer has left the done flag behind and not counted a message. -/
def ConsumerPc.working : ConsumerPc → Bool
  | .pop _ | .count => true
  | _ => false

theorem ProducerPc.storing_le (pc : ProducerPc) : pc.storing ≤ pc.unannounced := by
  cases pc with
  | push k pc => cases pc <;> exact Nat.le_of_ble_eq_true rfl
  | _ => exact Nat.zero_le _

theorem ConsumerPc.popping_le (pc : ConsumerPc) : pc.popping ≤ pc.toPop := by
  cases pc with
  | pop pc => cases pc <;> exact Nat.le_of_ble_eq_true rfl
  | _ => exact Nat.zero_le _

/-- The parent has set the done flag. -/
def ParentPc.pastDone : ParentPc → Bool
  | .notifyDone | .waitForChildren | .returned _ => true
  | _ => false

/-- `pop`s begun, in any process. -/
def State.popsBegun (σ : State c) : ℕ :=
  σ.messageQueue.pops + total ConsumerPc.popping σ.consumers

/-- `push`es completed, in any process. -/
def State.pushesCompleted (σ : State c) : ℕ :=
  σ.messageQueue.pushes - total ProducerPc.storing σ.producers

/-! ## The ledger -/

/-- The tokens of `message_written_notifier` against the messages. -/
structure Ledger (σ : State c) : Prop where
  stored : σ.popsBegun + total ProducerPc.storing σ.producers ≤ σ.messageQueue.pushes
  popped : σ.doneFlag = false →
    σ.messageWritten + σ.messageQueue.pops + total ConsumerPc.toPop σ.consumers +
      total ProducerPc.unannounced σ.producers ≤ σ.messageQueue.pushes
  counted : σ.doneFlag = false →
    σ.messageWritten + σ.consumedMessageCount + total ConsumerPc.toCount σ.consumers +
      total ProducerPc.announcing σ.producers ≤ σ.producedMessageCount
  /-- nothing is lost, but what a producer that stopped early has not announced -/
  announced : σ.doneFlag = false →
    σ.producedMessageCount ≤ σ.messageWritten + σ.consumedMessageCount +
      total ConsumerPc.toCount σ.consumers + total ProducerPc.silent σ.producers
  done_past : σ.doneFlag = true → σ.parent.pastDone = true
  done_notify : σ.parent = .notifyDone → σ.doneFlag = true
  parent_setup : σ.parent.beforeStart = true → σ.producers none = .setup

/-- What a producer that goes from `pc` to `pc'` does to the ledger. -/
structure ProducerTrade (σ σ' : State c) (pc pc' : ProducerPc) : Prop where
  stores : σ.messageQueue.pushes + pc'.storing ≤ σ'.messageQueue.pushes + pc.storing
  pushes : σ'.messageWritten + σ.messageQueue.pushes + pc'.unannounced ≤
    σ.messageWritten + σ'.messageQueue.pushes + pc.unannounced
  counts : σ'.messageWritten + σ.producedMessageCount + pc'.announcing ≤
    σ.messageWritten + σ'.producedMessageCount + pc.announcing
  announces : σ'.producedMessageCount + σ.messageWritten + pc.silent ≤
    σ.producedMessageCount + σ'.messageWritten + pc'.silent

/-- A producer pushes, counts and announces its messages in this order. -/
theorem ProducerMoves.trade {σ σ' : State c} {i : c.Producer} {ok : Bool}
    (h : ProducerMoves consumerGroup σ i ok σ') :
    ∃ pc, σ'.producers = update σ.producers i pc ∧ ProducerTrade σ σ' (σ.producers i) pc ∧
      σ'.doneFlag = σ.doneFlag ∧ σ'.consumedMessageCount = σ.consumedMessageCount := by
  cases h with
  | startFails hpc | start hpc | next hpc | finish hpc | load hpc | reload hpc | claim hpc
  | store hpc | count hpc | notifyFails hpc | notifyWritten hpc | waitFails hpc
  | waitForRead hpc | completionFails hpc | notifyCompletion hpc =>
      refine ⟨_, rfl, ⟨?_, ?_, ?_, ?_⟩, rfl, rfl⟩ <;>
        simp only [State.setProducer, RingBuffer.claimSlot, hpc, ProducerPc.storing,
          ProducerPc.unannounced, ProducerPc.announcing, ProducerPc.silent] <;> omega

/-- A consumer pops and counts a message for each token it has taken, unless
the done flag is set. -/
theorem ConsumerMoves.ledger {σ σ' : State c} {j : c.Consumer} {ok : Bool}
    (h : ConsumerMoves σ j ok σ') :
    ∃ pc, σ'.consumers = update σ.consumers j pc ∧
      σ'.doneFlag = σ.doneFlag ∧ σ'.producedMessageCount = σ.producedMessageCount ∧
      (σ.doneFlag = true → σ'.messageQueue.pops + pc.popping ≤
        σ.messageQueue.pops + (σ.consumers j).popping) ∧
      σ'.messageWritten + σ'.messageQueue.pops + pc.toPop ≤
        σ.messageWritten + σ.messageQueue.pops + (σ.consumers j).toPop ∧
      (σ.doneFlag = false → σ'.messageWritten + σ'.consumedMessageCount + pc.toCount =
        σ.messageWritten + σ.consumedMessageCount + (σ.consumers j).toCount) := by
  cases h with
  | @leave written _ hpc hleave =>
      refine ⟨_, rfl, rfl, rfl, fun _ => ?_, ?_, fun hdone => ?_⟩
      · rw [hpc]
        exact le_rfl
      · exact Nat.add_le_add_left (Nat.zero_le _) _
      · -- the token is dropped only when the flag is set
        rw [hdone] at hleave
        obtain rfl : written = false := hleave.resolve_left (by decide)
        rw [hpc]
        rfl
  | startPop hpc hdone =>
      refine ⟨_, rfl, rfl, rfl, fun h => ?_, ?_, fun _ => ?_⟩
      · rw [hdone] at h
        cases h
      · rw [hpc]
        exact le_rfl
      · rw [hpc]
        rfl
  | setupFails hpc | setup hpc | waitFails hpc | waitForWritten hpc | load hpc | reload hpc
  | release hpc | read hpc | count hpc | notifyFails hpc | notifyRead hpc =>
      refine ⟨_, rfl, rfl, rfl, fun _ => ?_, ?_, fun _ => ?_⟩ <;>
        simp only [State.setConsumer, RingBuffer.releaseSlot, hpc, ConsumerPc.popping,
          ConsumerPc.toPop, ConsumerPc.toCount] <;> omega

/-- While the done flag is not set, the tokens bound the pops. -/
theorem Ledger.stored_of_popped {σ : State c}
    (h : σ.messageWritten + σ.messageQueue.pops + total ConsumerPc.toPop σ.consumers +
      total ProducerPc.unannounced σ.producers ≤ σ.messageQueue.pushes) :
    σ.popsBegun + total ProducerPc.storing σ.producers ≤ σ.messageQueue.pushes := by
  have hpopping := total_mono ConsumerPc.popping_le σ.consumers
  have hstoring := total_mono ProducerPc.storing_le σ.producers
  unfold State.popsBegun
  omega

theorem Ledger.init : Ledger (init c) := by
  have hstoring : total ProducerPc.storing (Buffering.init c).producers = 0 :=
    total_eq_zero fun _ => rfl
  have hunannounced : total ProducerPc.unannounced (Buffering.init c).producers = 0 :=
    total_eq_zero fun _ => rfl
  have hannouncing : total ProducerPc.announcing (Buffering.init c).producers = 0 :=
    total_eq_zero fun _ => rfl
  have hpopping : total ConsumerPc.popping (Buffering.init c).consumers = 0 :=
    total_eq_zero fun _ => rfl
  have htoPop : total ConsumerPc.toPop (Buffering.init c).consumers = 0 :=
    total_eq_zero fun _ => rfl
  have htoCount : total ConsumerPc.toCount (Buffering.init c).consumers = 0 :=
    total_eq_zero fun _ => rfl
  refine ⟨?_, fun _ => ?_, fun _ => ?_, fun _ => Nat.zero_le _, fun h => (by cases h),
    fun h => (by cases h), fun _ => rfl⟩
  · rw [State.popsBegun, hpopping, hstoring]
    rfl
  · rw [htoPop, hunannounced]
    rfl
  · rw [htoCount, hannouncing]
    rfl

/-- A step that moves only producer `i`. -/
theorem Ledger.of_update {σ σ' : State c} {i : c.Producer} {pc : ProducerPc} (h : Ledger σ)
    (hproducers : σ'.producers = update σ.producers i pc)
    (htrade : ProducerTrade σ σ' (σ.producers i) pc) (hdone : σ'.doneFlag = σ.doneFlag)
    (hconsumed : σ'.consumedMessageCount = σ.consumedMessageCount)
    (hparent : σ'.parent = σ.parent) (hconsumers : σ'.consumers = σ.consumers)
    (hpops : σ'.messageQueue.pops = σ.messageQueue.pops) (hnone : i = none → σ.parent = .run) :
    Ledger σ' := by
  obtain ⟨hstore, hpush, hcount, hsilent⟩ := htrade
  have hstoring := total_update ProducerPc.storing σ.producers i pc
  have hunannounced := total_update ProducerPc.unannounced σ.producers i pc
  have hannouncing := total_update ProducerPc.announcing σ.producers i pc
  have htotal := total_update ProducerPc.silent σ.producers i pc
  refine ⟨?_, fun hclear => ?_, fun hclear => ?_, fun hclear => ?_, ?_, ?_, ?_⟩
  · have hstored := h.stored
    simp only [State.popsBegun, hproducers, hconsumers, hpops] at hstored ⊢
    omega
  · have hpopped := h.popped (hdone ▸ hclear)
    rw [hproducers, hconsumers, hpops]
    omega
  · have hcounted := h.counted (hdone ▸ hclear)
    rw [hproducers, hconsumers, hconsumed]
    omega
  · have hannounced := h.announced (hdone ▸ hclear)
    rw [hproducers, hconsumers, hconsumed]
    omega
  · rw [hdone, hparent]
    exact h.done_past
  · rw [hdone, hparent]
    exact h.done_notify
  · rw [hparent, hproducers]
    intro hbefore
    have hne : none ≠ i := fun hi => by simp [hnone hi.symm, ParentPc.beforeStart] at hbefore
    rw [update_of_ne hne]
    exact h.parent_setup hbefore

theorem Ledger.producer {σ σ' : State c} {i : c.Producer} {ok : Bool} (h : Ledger σ)
    (hmove : ProducerMoves consumerGroup σ i ok σ') (hnone : i = none → σ.parent = .run) :
    Ledger σ' := by
  obtain ⟨pc, hproducers, htrade, hdone, hconsumed⟩ := hmove.trade
  obtain ⟨hparent, -, hconsumers, hpops⟩ := hmove.frame
  exact h.of_update hproducers htrade hdone hconsumed hparent hconsumers hpops hnone

theorem Ledger.consumer {σ σ' : State c} {j : c.Consumer} {ok : Bool} (h : Ledger σ)
    (hmove : ConsumerMoves σ j ok σ') : Ledger σ' := by
  obtain ⟨pc, hconsumers, hdone, hproduced, hlate, hpop, hcount⟩ := hmove.ledger
  obtain ⟨hparent, -, hproducers, -⟩ := hmove.frame
  obtain ⟨hpushes, -⟩ := hmove.frame_queue
  have hpopping := total_update ConsumerPc.popping σ.consumers j pc
  have htoPop := total_update ConsumerPc.toPop σ.consumers j pc
  have htoCount := total_update ConsumerPc.toCount σ.consumers j pc
  have hpopped : σ.doneFlag = false →
      σ'.messageWritten + σ'.messageQueue.pops + total ConsumerPc.toPop σ'.consumers +
        total ProducerPc.unannounced σ'.producers ≤ σ'.messageQueue.pushes := by
    intro hclear
    have hpopped := h.popped hclear
    rw [hproducers, hconsumers, hpushes]
    omega
  refine ⟨?_, fun hclear => hpopped (hdone ▸ hclear), fun hclear => ?_, fun hclear => ?_,
    ?_, ?_, ?_⟩
  · cases hflag : σ.doneFlag with
    | false => exact Ledger.stored_of_popped (hpopped hflag)
    | true =>
        -- nobody begins to pop any more
        have hstored := h.stored
        have hlate := hlate hflag
        simp only [State.popsBegun, hproducers, hconsumers, hpushes] at hstored ⊢
        omega
  · have hcounted := h.counted (hdone ▸ hclear)
    have hcount := hcount (hdone ▸ hclear)
    rw [hproducers, hconsumers, hproduced]
    omega
  · have hannounced := h.announced (hdone ▸ hclear)
    have hcount := hcount (hdone ▸ hclear)
    rw [hproducers, hconsumers, hproduced]
    omega
  · rw [hdone, hparent]
    exact h.done_past
  · rw [hdone, hparent]
    exact h.done_notify
  · rw [hparent, hproducers]
    exact h.parent_setup

/-- The flag is not set before the parent gets there. -/
theorem Ledger.not_done {σ : State c} (h : Ledger σ) (hpast : σ.parent.pastDone = false) :
    σ.doneFlag = false := by
  cases hdone : σ.doneFlag with
  | false => rfl
  | true => exact absurd (h.done_past hdone) (by simp [hpast])

theorem Ledger.parent {σ σ' : State c} {ok : Bool} (h : Ledger σ)
    (hmove : ParentMoves producerGroup consumerGroup σ ok σ') : Ledger σ' := by
  cases hmove with
  | fails hok hpc =>
      exact ⟨h.stored, h.popped, h.counted, h.announced, fun _ => rfl,
        fun hpc' => (by cases hpc'), fun hbefore => by cases hbefore⟩
  | waitForReady hpc =>
      have hunset := Bool.eq_false_iff.mp (h.not_done (by rw [hpc]; rfl))
      exact ⟨h.stored, h.popped, h.counted, h.announced, fun hset => absurd hset hunset,
        fun hpc' => (by cases hpc'), fun _ => h.parent_setup (by rw [hpc]; rfl)⟩
  | notifyStart hpc =>
      -- the parent's own entry goes from `setup` to `waitForStart`
      have hsetup := h.parent_setup (by rw [hpc]; rfl)
      have hclear := h.not_done (by rw [hpc]; rfl)
      have hkeep (weight : ProducerPc → ℕ) (hweight : weight .waitForStart = weight .setup) :
          total weight (update σ.producers none .waitForStart) = total weight σ.producers :=
        total_update_of_eq _ _ _ _ (by rw [hsetup, hweight])
      refine ⟨?_, fun _ => ?_, fun _ => ?_, fun _ => ?_,
        fun hset => absurd hset (Bool.eq_false_iff.mp hclear), fun hpc' => (by cases hpc'),
        fun hbefore => by cases hbefore⟩
      · exact (hkeep ProducerPc.storing rfl).symm ▸ h.stored
      · exact (hkeep ProducerPc.unannounced rfl).symm ▸ h.popped hclear
      · exact (hkeep ProducerPc.announcing rfl).symm ▸ h.counted hclear
      · exact (hkeep ProducerPc.silent rfl).symm ▸ h.announced hclear
  | produced hpc | producerFailed hpc | waitForCompletion hpc | waitForConsumption hpc
  | loadConsumed hpc | aborts hpc | loadProduced hpc =>
      have hunset := Bool.eq_false_iff.mp (h.not_done (by rw [hpc]; rfl))
      exact ⟨h.stored, h.popped, h.counted, h.announced, fun hset => absurd hset hunset,
        fun hpc' => (by cases hpc'), fun hbefore => by cases hbefore⟩
  | storeDoneFlag hpc =>
      exact ⟨h.stored, fun hclear => (by cases hclear), fun hclear => (by cases hclear),
        fun hclear => (by cases hclear), fun _ => rfl, fun _ => rfl,
        fun hbefore => by cases hbefore⟩
  | notifyDone hpc =>
      -- the flag is set: the new tokens stand for no messages
      have hset := h.done_notify hpc
      have hnever : ¬ σ.doneFlag = false := by simp [hset]
      exact ⟨h.stored, fun hclear => absurd hclear hnever, fun hclear => absurd hclear hnever,
        fun hclear => absurd hclear hnever, fun _ => rfl, fun hpc' => (by cases hpc'),
        fun hbefore => by cases hbefore⟩
  | waitForChildren hpc =>
      exact ⟨h.stored, h.popped, h.counted, h.announced, fun _ => rfl,
        fun hpc' => (by cases hpc'), fun hbefore => by cases hbefore⟩

theorem Ledger.step {σ σ' : State c} {l : Label c} (h : Ledger σ)
    (hmove : Moves producerGroup consumerGroup σ l σ') : Ledger σ' := by
  cases hmove with
  | @setupFails i _ hpc | @setup i _ hpc =>
      refine h.of_update rfl ?_ rfl rfl rfl rfl rfl fun hi => by cases hi
      rw [hpc]
      exact ⟨le_rfl, le_rfl, le_rfl, le_rfl⟩
  | child hmove => exact h.producer hmove fun hi => by cases hi
  | parentProducer hpc hmove => exact h.producer hmove fun _ => hpc
  | parent hmove => exact h.parent hmove
  | consumer hmove => exact h.consumer hmove

theorem ledger_of_reachable {σ : State c}
    (h : Reachable (stepWith producerGroup consumerGroup) (init c) σ) : Ledger σ :=
  h.induction Ledger.init fun _ _ _ hσ hstep => hσ.step (stepWith_moves hstep)

/-! ## No pop without a message -/

/-- At any time no more `pop`s have begun than `push`es have completed, so a
consumer about to pop finds a message, whatever the group sizes of the notifiers. -/
theorem popsBegun_le (producerGroup consumerGroup : ℕ) (σ : State c)
    (h : Reachable (stepWith producerGroup consumerGroup) (init c) σ) :
    σ.popsBegun ≤ σ.pushesCompleted ∧
      ∀ j, (σ.consumers j).popping = 1 → σ.messageQueue.pops < σ.pushesCompleted := by
  have hle : σ.popsBegun ≤ σ.pushesCompleted :=
    Nat.le_sub_of_add_le (ledger_of_reachable h).stored
  refine ⟨hle, fun j hj => ?_⟩
  have hone := le_total ConsumerPc.popping σ.consumers j
  rw [hj] at hone
  exact (Nat.lt_add_of_pos_right hone).trans_le hle

/-- The children are ready; the parent writes a message, the consumer takes the
token and begins to pop. -/
def consumerPops : List (Label oneChildProducer) :=
  [.producer (Fin.last 0) true, .consumer (Fin.last 0) true] ++ .replicate 9 (.parent true) ++
    .replicate 2 (.consumer (Fin.last 0) true)

theorem popsBegun_le_consumerPops :
    ∃ σ, run (stepWith 2 1) (init oneChildProducer) consumerPops = some σ ∧
      σ.popsBegun ≤ σ.pushesCompleted ∧ σ.messageQueue.pops < σ.pushesCompleted := by
  have hrun := (Option.some_get
    (show (run (stepWith 2 1) (init oneChildProducer) consumerPops).isSome from rfl)).symm
  obtain ⟨hle, hpopping⟩ := popsBegun_le 2 1 _ ⟨_, hrun⟩
  exact ⟨_, hrun, hle, hpopping (Fin.last 0) rfl⟩

/-! ## All messages consumed -/

/-- `wait_till_all_messages_consumed` returns successfully, all producers finished. -/
def consumptionSeen (σ : State c) (_ : Label c) (σ' : State c) : Bool :=
  decide (σ.parent = .waitForConsumption ∧ σ'.parent = .loadConsumed ∧
    ∀ i, (σ.producers i).finished = true)

/-- Once it has, as many messages are consumed as produced, and setting the
done flag makes no consumer drop one. -/
def AllConsumed (σ : State c × Bool) : Prop :=
  σ.2 = true → σ.1.consumedMessageCount = σ.1.producedMessageCount ∧
    (σ.1.doneFlag = false → ∀ j, (σ.1.consumers j).toCount = 0)

/-- If the step lets the parent through `wait_till_all_messages_consumed`, all
producers finished, every consumer has counted the message it took a token for. -/
def NoneInBetween (σ : State c × Bool) (l : Label c) : Prop :=
  l = .parent true → σ.1.parent = .waitForConsumption →
    (∀ i, (σ.1.producers i).finished = true) → ∀ j, (σ.1.consumers j).toCount = 0

/-- The production is finished and every message consumed. -/
structure Settled (σ : State c) : Prop where
  finished : ∀ i, (σ.producers i).finished = true
  counts : σ.consumedMessageCount = σ.producedMessageCount
  idle : ∀ j, (σ.consumers j).working = false

/-- No token is left and none is on its way. -/
theorem Settled.toCount {σ : State c} (h : Settled σ) (hledger : Ledger σ)
    (hclear : σ.doneFlag = false) (j : c.Consumer) : (σ.consumers j).toCount = 0 := by
  have hcounted := hledger.counted hclear
  have hle := le_total ConsumerPc.toCount σ.consumers j
  have hcounts := h.counts
  omega

/-- A producer that has finished counts no more messages. -/
theorem ProducerMoves.finished {σ σ' : State c} {i : c.Producer} {ok : Bool}
    (h : ProducerMoves consumerGroup σ i ok σ') (hfinished : (σ.producers i).finished = true) :
    (∀ j, (σ.producers j).finished = true → (σ'.producers j).finished = true) ∧
      σ'.producedMessageCount = σ.producedMessageCount ∧
      σ'.consumedMessageCount = σ.consumedMessageCount := by
  cases h with
  | completionFails hpc | notifyCompletion hpc =>
      refine ⟨fun j hj => ?_, rfl, rfl⟩
      by_cases hij : j = i
      · subst hij
        simp [State.setProducer, ProducerPc.finished]
      · simpa [State.setProducer, hij] using hj
  | startFails hpc | start hpc | next hpc | finish hpc | load hpc | reload hpc | claim hpc
  | store hpc | count hpc | notifyFails hpc | notifyWritten hpc | waitFails hpc
  | waitForRead hpc =>
      rw [hpc] at hfinished
      cases hfinished

/-- A consumer does nothing more with the messages. -/
theorem Settled.consumer {σ σ' : State c} {j : c.Consumer} {ok : Bool} (h : Settled σ)
    (hledger : Ledger σ) (hmove : ConsumerMoves σ j ok σ') : Settled σ' := by
  have hidle := h.idle j
  have hkeep {pc : ConsumerPc} (hpc : pc.working = false) :
      ∀ j', (update σ.consumers j pc j').working = false :=
    forall_update (P := fun pc : ConsumerPc => pc.working = false) hpc fun j' _ => h.idle j'
  cases hmove with
  | startPop hpc hclear =>
      -- its token would be a message not consumed
      have hcount := h.toCount hledger hclear j
      rw [hpc] at hcount
      cases hcount
  | load hpc | reload hpc | release hpc | read hpc | count hpc =>
      rw [hpc] at hidle
      cases hidle
  | setupFails hpc | setup hpc | waitFails hpc | waitForWritten hpc | leave hpc
  | notifyFails hpc | notifyRead hpc => exact ⟨h.finished, h.counts, hkeep rfl⟩

theorem Settled.step {σ σ' : State c} {l : Label c} (h : Settled σ) (hledger : Ledger σ)
    (hmove : Moves producerGroup consumerGroup σ l σ') : Settled σ' := by
  cases hmove with
  | @setupFails i _ hpc | @setup i _ hpc =>
      have hfinished := h.finished (some i)
      rw [hpc] at hfinished
      cases hfinished
  | child hmove | parentProducer _ hmove =>
      obtain ⟨hfinished, hproduced, hconsumed⟩ := hmove.finished (h.finished _)
      obtain ⟨-, -, hconsumers, -⟩ := hmove.frame
      refine ⟨fun i => hfinished i (h.finished i), ?_, ?_⟩
      · rw [hproduced, hconsumed]
        exact h.counts
      · rw [hconsumers]
        exact h.idle
  | consumer hmove => exact h.consumer hledger hmove
  | parent hmove =>
      cases hmove with
      | notifyStart hpc =>
          have hfinished := h.finished none
          rw [hledger.parent_setup (by rw [hpc]; rfl)] at hfinished
          cases hfinished
      | fails | waitForReady | produced | producerFailed | waitForCompletion
      | waitForConsumption | loadConsumed | aborts | loadProduced | storeDoneFlag | notifyDone
      | waitForChildren => exact ⟨h.finished, h.counts, h.idle⟩

/-- The invariant of the runs in which the parent does not leave too early. -/
structure ConsumptionInv (σ : State c × Bool) : Prop where
  ledger : Ledger σ.1
  settled : σ.2 = true → Settled σ.1

theorem ConsumptionInv.allConsumed {σ : State c × Bool} (h : ConsumptionInv σ) :
    AllConsumed σ := by
  intro hseen
  exact ⟨(h.settled hseen).counts, (h.settled hseen).toCount h.ledger⟩

/-- The parent finds no token, and what it has found is all there is. -/
theorem Ledger.counts_eq {σ : State c} (h : Ledger σ) (hclear : σ.doneFlag = false)
    (hnone : σ.messageWritten = 0) (hfinished : ∀ i, (σ.producers i).finished = true) :
    σ.producedMessageCount = σ.consumedMessageCount + total ConsumerPc.toCount σ.consumers := by
  have hsilent : total ProducerPc.silent σ.producers = 0 := by
    refine total_eq_zero fun i => ?_
    have hi := hfinished i
    cases hpc : σ.producers i with
    | returned exit =>
        rw [hpc] at hi
        cases exit <;> first | rfl | cases hi
    | notifyWritten k =>
        rw [hpc] at hi
        cases hi
    | _ => rfl
  have hcounted := h.counted hclear
  have hannounced := h.announced hclear
  omega

/-- Only the wait takes the parent on to load the counts. -/
theorem step_loadConsumed {σ σ' : State c} {l : Label c}
    (hstep : stepWith producerGroup consumerGroup σ l = some σ')
    (hpc : σ.parent = .waitForConsumption) (hpc' : σ'.parent = .loadConsumed) :
    l = .parent true ∧ σ.messageWritten = 0 ∧ σ' = σ.setParent .loadConsumed := by
  have hmove := stepWith_moves hstep
  cases l with
  | parent ok =>
      simp only [stepWith, stepParentWith, hpc] at hstep
      split at hstep
      · cases hstep
        cases hpc'
      · next hok =>
          split at hstep
          · next hnone =>
              cases hstep
              exact ⟨by simpa using hok, hnone, rfl⟩
          · cases hstep
  | producer i ok =>
      have hparent : σ'.parent = σ.parent := by
        cases hmove with
        | setupFails | setup => rfl
        | child hmove => exact hmove.frame.1
      rw [hparent, hpc] at hpc'
      cases hpc'
  | consumer j ok =>
      cases hmove with
      | consumer hmove =>
          rw [hmove.frame.1, hpc] at hpc'
          cases hpc'

theorem ConsumptionInv.init : ConsumptionInv (init c, false) :=
  ⟨Ledger.init, fun h => by cases h⟩

theorem ConsumptionInv.step {σ σ' : State c × Bool} {l : Label c} (h : ConsumptionInv σ)
    (hok : NoneInBetween σ l)
    (hstep : watch (stepWith producerGroup consumerGroup) consumptionSeen σ l = some σ') :
    ConsumptionInv σ' := by
  obtain ⟨hstep, hseen⟩ := watch_eq_some.mp hstep
  refine ⟨h.ledger.step (stepWith_moves hstep), fun hσ' => ?_⟩
  rw [hσ', eq_comm, Bool.or_eq_true] at hseen
  rcases hseen with hbefore | hevent
  · exact (h.settled hbefore).step h.ledger (stepWith_moves hstep)
  · obtain ⟨hpc, hpc', hfinished⟩ := of_decide_eq_true hevent
    obtain ⟨hl, hnone, heq⟩ := step_loadConsumed hstep hpc hpc'
    have hcounted := hok hl hpc hfinished
    have hcounts := h.ledger.counts_eq (h.ledger.not_done (by rw [hpc]; rfl)) hnone hfinished
    rw [total_eq_zero hcounted, Nat.add_zero] at hcounts
    rw [heq]
    refine ⟨hfinished, hcounts.symm, fun j => ?_⟩
    have hj := hcounted j
    show (σ.1.consumers j).working = false
    cases hpc : σ.1.consumers j with
    | pop pc | count =>
        rw [hpc] at hj
        cases hj
    | _ => rfl

/-- A parent that is let through while a message is in between has left too early. -/
theorem not_allConsumed {σ σ' : State c × Bool} {l : Label c} (h : ConsumptionInv σ)
    (hok : ¬ NoneInBetween σ l)
    (hstep : watch (stepWith producerGroup consumerGroup) consumptionSeen σ l = some σ') :
    ¬ AllConsumed σ' := by
  obtain ⟨hstep, hseen⟩ := watch_eq_some.mp hstep
  simp only [NoneInBetween, Classical.not_imp, not_forall] at hok
  obtain ⟨rfl, hpc, hfinished, j, hj⟩ := hok
  have hle := le_total ConsumerPc.toCount σ.1.consumers j
  intro hall
  simp only [stepWith, stepParentWith, hpc, Bool.not_true, Bool.false_eq_true,
    if_false] at hstep
  split at hstep
  · next hnone =>
      have hcounts := h.ledger.counts_eq (h.ledger.not_done (by rw [hpc]; rfl)) hnone hfinished
      have heq : σ.1.setParent .loadConsumed = σ'.1 := Option.some.inj hstep
      have hset : σ'.2 = true := by
        rw [hseen, Bool.or_eq_true]
        exact .inr (decide_eq_true ⟨hpc, heq ▸ rfl, hfinished⟩)
      have hequal := (hall hset).1
      rw [← heq] at hequal
      have hequal : σ.1.consumedMessageCount = σ.1.producedMessageCount := hequal
      omega
  · cases hstep

/-- In a run `wait_till_all_messages_consumed` finds all messages consumed iff,
whenever it returns successfully with the producers finished, no consumer is
between its token and the count of its message. The group sizes of the notifiers do not matter. -/
theorem allConsumed_iff (producerGroup consumerGroup : ℕ) (ls : List (Label c)) :
    Along (watch (stepWith producerGroup consumerGroup) consumptionSeen) AllConsumed
        (init c, false) ls ↔
      StepsMeet (watch (stepWith producerGroup consumerGroup) consumptionSeen) NoneInBetween
        (init c, false) ls :=
  along_iff_stepsMeet (fun _ h => h.allConsumed) (fun _ _ _ h hok hstep => h.step hok hstep)
    (fun _ _ _ h hok hstep => not_allConsumed h hok hstep) ConsumptionInv.init

/-- The parent alone produces one message for one consumer. -/
def oneMessage : Config :=
  { childProducerCount := 0
    consumerCount := 1
    messageCount := 1
    asserts := true }

/-- The parent produces its message and waits for the production to complete;
the consumer takes the token, and the parent finds none left. -/
def tokenTaken : List (Label oneMessage) :=
  .consumer (Fin.last 0) true :: .replicate 14 (.parent true) ++
    [.consumer (Fin.last 0) true, .parent true]

/-- Not in every run: after `tokenTaken` the message is not even popped. -/
theorem not_along_allConsumed :
    ¬ ∀ (c : Config) (ls : List (Label c)),
      Along (watch step consumptionSeen) AllConsumed (init c, false) ls := by
  intro hall
  refine not_along_of_run
    (fun σ => (σ.2, σ.1.consumedMessageCount, σ.1.producedMessageCount)) (true, 0, 1) ?_ ?_
    (hall oneMessage tokenTaken)
  · decide +kernel
  · intro σ' hobs hconsumed
    obtain ⟨hseen, hcounts⟩ := Prod.mk.inj hobs
    obtain ⟨hzero, hone⟩ := Prod.mk.inj hcounts
    have heq := (hconsumed hseen).1
    rw [hzero, hone] at heq
    cases heq

end InterProcess.Buffering
