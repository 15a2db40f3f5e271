import InterProcess.Buffering.Moves
import InterProcess.Lib.Lts
import InterProcess.Lib.Threads

/-!
# How full the message queue gets

A producer pushes its message first and waits for a token of
`message_read_notifier` afterwards, so each producer can be one message ahead
of the tokens. `Occupancy` counts: the tokens not taken, the messages consumed
and the producers that are ahead account for every message pushed. While no
semaphore operation fails the queue holds at most `capacity` messages and one
more for every producer (`Occupancy.outstanding_le`); that is enough for no slot to be
overwritten only while all messages together fit (`Occupancy.noOverrun`).
-/

namespace InterProcess.Buffering

open Function LockFree Lts Threads

variable {c : Config}

/-- How many messages a producer has claimed a slot for. -/
def ProducerPc.pushed (messageCount : ℕ) : ProducerPc → ℕ
  | .setup | .waitForStart => 0
  | .loop k | .push k .load | .push k (.compareExchange _) => k
  | .push k (.store _) | .count k | .notifyWritten k | .waitForRead k => k + 1
  | .notifyCompletion | .returned _ => messageCount

/-- The producer has pushed a message and not taken the token for it. -/
def ProducerPc.ahead : ProducerPc → ℕ
  | .push _ (.store _) | .count _ | .notifyWritten _ | .waitForRead _ => 1
  | _ => 0

/-- The consumer has popped a message and not given the token for it. -/
def ConsumerPc.held : ConsumerPc → ℕ
  | .pop (.read _) | .count | .notifyRead => 1
  | _ => 0

/-- The loop counter is within the bound of the loop. -/
def ProducerPc.InLoop (messageCount : ℕ) : ProducerPc → Prop
  | .loop k => k ≤ messageCount
  | .push k _ | .count k | .notifyWritten k | .waitForRead k => k < messageCount
  | _ => True

theorem ProducerPc.InLoop.pushed_le {messageCount : ℕ} {pc : ProducerPc}
    (h : pc.InLoop messageCount) : pc.pushed messageCount ≤ messageCount := by
  cases pc with
  | setup | waitForStart => exact Nat.zero_le _
  | push k pc => cases pc <;> first | exact h | exact Nat.le_of_lt h
  | loop | count | notifyWritten | waitForRead => exact h
  | notifyCompletion | returned => exact le_refl messageCount

theorem ProducerPc.ahead_le (pc : ProducerPc) : pc.ahead ≤ 1 := by
  unfold ahead
  split <;> decide

/-- The parent has not started the production. -/
def ParentPc.beforeStart : ParentPc → Bool
  | .waitForReady | .notifyStart => true
  | _ => false

/-- Message number `m` is stored in slot `m % capacity`. The slot holds a
message that has been pushed and not yet popped. -/
def Unconsumed (ring : RingBuffer String) (slot : ℕ) : Prop :=
  ∃ m, ring.pops ≤ m ∧ m < ring.pushes ∧ m % messageQueueCapacity = slot

/-- The queue holds no more messages than it has slots, and a `push` about to
win its compare-exchange claims no slot with an unconsumed message. -/
structure NoOverrun (σ : State c) : Prop where
  outstanding_le : σ.messageQueue.outstanding ≤ messageQueueCapacity
  claims_free : ∀ i k, σ.producers i = .push k (.compareExchange σ.messageQueue.writeIdx) →
    ¬ Unconsumed σ.messageQueue σ.messageQueue.writeIdx

structure Occupancy (σ : State c) : Prop where
  inLoop : ∀ i, (σ.producers i).InLoop c.messageCount
  pushes_eq : σ.messageQueue.pushes = total (ProducerPc.pushed c.messageCount) σ.producers
  writeIdx_eq : σ.messageQueue.writeIdx = σ.messageQueue.pushes % messageQueueCapacity
  /-- tokens are exchanged for messages one for one, with who is in between -/
  balance : σ.messageRead + σ.messageQueue.pushes + total ConsumerPc.held σ.consumers =
    messageQueueCapacity + σ.messageQueue.pops + total ProducerPc.ahead σ.producers
  parent_setup : σ.parent.beforeStart = true → σ.producers none = .setup

/-! ## What the moves do to the counts -/

/-- A producer counts its own pushes, and takes a token after each. -/
theorem ProducerMoves.occupancy {σ σ' : State c} {i : c.Producer} {ok : Bool}
    (h : ProducerMoves c.consumerCount σ i ok σ') (hok : ok = true)
    (hloop : (σ.producers i).InLoop c.messageCount)
    (hwrite : σ.messageQueue.writeIdx = σ.messageQueue.pushes % messageQueueCapacity) :
    ∃ pc, σ'.producers = update σ.producers i pc ∧ pc.InLoop c.messageCount ∧
      σ'.messageQueue.writeIdx = σ'.messageQueue.pushes % messageQueueCapacity ∧
      σ'.messageQueue.pushes + (σ.producers i).pushed c.messageCount =
        σ.messageQueue.pushes + pc.pushed c.messageCount ∧
      σ'.messageRead + σ'.messageQueue.pushes + (σ.producers i).ahead =
        σ.messageRead + σ.messageQueue.pushes + pc.ahead := by
  cases h with
  | startFails _ hfail | notifyFails _ hfail | waitFails _ hfail | completionFails _ hfail =>
      rw [hok] at hfail
      cases hfail
  | next hpc hlt =>
      refine ⟨_, rfl, hlt, hwrite, ?_, ?_⟩ <;> rw [hpc] <;> rfl
  | @finish k hpc hle =>
      rw [hpc] at hloop
      obtain rfl : k = c.messageCount := le_antisymm hloop hle
      refine ⟨_, rfl, trivial, hwrite, ?_, ?_⟩ <;> rw [hpc] <;> rfl
  | @claim k hpc =>
      -- from here until it takes a token the producer is one message ahead
      rw [hpc] at hloop
      refine ⟨_, rfl, hloop, ?_, ?_, ?_⟩
      · show (σ.messageQueue.writeIdx + 1) % messageQueueCapacity =
          (σ.messageQueue.pushes + 1) % messageQueueCapacity
        rw [hwrite, Nat.mod_add_mod]
      · rw [hpc]
        show σ.messageQueue.pushes + 1 + k = σ.messageQueue.pushes + (k + 1)
        omega
      · rw [hpc]
        rfl
  | waitForRead hpc hle =>
      rw [hpc] at hloop
      refine ⟨_, rfl, hloop, hwrite, ?_, ?_⟩
      · rw [hpc]
        rfl
      · rw [hpc]
        show σ.messageRead - 1 + σ.messageQueue.pushes + 1 = _
        show _ = σ.messageRead + σ.messageQueue.pushes
        omega
  | start hpc | notifyCompletion hpc =>
      refine ⟨_, rfl, by first | trivial | exact Nat.zero_le _, hwrite, ?_, ?_⟩ <;>
        rw [hpc] <;> rfl
  | load hpc | reload hpc | store hpc | count hpc | notifyWritten hpc =>
      rw [hpc] at hloop
      refine ⟨_, rfl, hloop, hwrite, ?_, ?_⟩ <;> rw [hpc] <;> rfl

/-- A consumer gives a token for each message it has popped. -/
theorem ConsumerMoves.occupancy {σ σ' : State c} {j : c.Consumer} {ok : Bool}
    (h : ConsumerMoves σ j ok σ') (hok : ok = true) :
    ∃ pc, σ'.consumers = update σ.consumers j pc ∧
      σ'.messageRead + pc.held + σ.messageQueue.pops =
        σ.messageRead + (σ.consumers j).held + σ'.messageQueue.pops := by
  cases h with
  | setupFails _ hfail | waitFails _ hfail | notifyFails _ hfail =>
      rw [hok] at hfail
      cases hfail
  | setup hpc | waitForWritten hpc | leave hpc | startPop hpc | load hpc | reload hpc
  | read hpc | count hpc | notifyRead hpc =>
      exact ⟨_, rfl, by rw [hpc]; rfl⟩
  | release hpc =>
      -- the token for the message popped is given later
      refine ⟨_, rfl, ?_⟩
      rw [hpc]
      show σ.messageRead + 1 + σ.messageQueue.pops = σ.messageRead + 0 + (σ.messageQueue.pops + 1)
      omega

/-! ## The invariant -/

theorem Occupancy.init : Occupancy (init c) := by
  have hpushed : total (ProducerPc.pushed c.messageCount) (Buffering.init c).producers = 0 :=
    total_eq_zero fun _ => rfl
  have hahead : total ProducerPc.ahead (Buffering.init c).producers = 0 :=
    total_eq_zero fun _ => rfl
  have hheld : total ConsumerPc.held (Buffering.init c).consumers = 0 :=
    total_eq_zero fun _ => rfl
  refine ⟨fun _ => trivial, hpushed.symm, rfl, ?_, fun _ => rfl⟩
  rw [hahead, hheld]
  rfl

theorem Occupancy.producer {σ σ' : State c} {i : c.Producer} {ok : Bool} (h : Occupancy σ)
    (hmove : ProducerMoves c.consumerCount σ i ok σ') (hok : ok = true)
    (hnone : i = none → σ.parent = .run) : Occupancy σ' := by
  obtain ⟨pc, hproducers, hloop, hwrite, hpushes, hread⟩ :=
    hmove.occupancy hok (h.inLoop i) h.writeIdx_eq
  have hpushed := total_update (ProducerPc.pushed c.messageCount) σ.producers i pc
  have hahead := total_update ProducerPc.ahead σ.producers i pc
  have hcount := h.pushes_eq
  have hbalance := h.balance
  obtain ⟨hparent, -, hconsumers, hpops⟩ := hmove.frame
  refine ⟨?_, ?_, hwrite, ?_, ?_⟩
  · rw [hproducers]
    exact forall_update hloop fun j _ => h.inLoop j
  · rw [hproducers]
    omega
  · rw [hproducers, hconsumers, hpops]
    omega
  · rw [hparent, hproducers]
    intro hbefore
    have hne : none ≠ i := fun hi => by simp [hnone hi.symm, ParentPc.beforeStart] at hbefore
    rw [update_of_ne hne]
    exact h.parent_setup hbefore

theorem Occupancy.consumer {σ σ' : State c} {j : c.Consumer} {ok : Bool} (h : Occupancy σ)
    (hmove : ConsumerMoves σ j ok σ') (hok : ok = true) : Occupancy σ' := by
  obtain ⟨pc, hconsumers, htokens⟩ := hmove.occupancy hok
  obtain ⟨hparent, -, hproducers, -⟩ := hmove.frame
  obtain ⟨hpushes, hwrite⟩ := hmove.frame_queue
  have hheld := total_update ConsumerPc.held σ.consumers j pc
  have hbalance := h.balance
  refine ⟨by rw [hproducers]; exact h.inLoop, by rw [hpushes, hproducers]; exact h.pushes_eq,
    by rw [hwrite, hpushes]; exact h.writeIdx_eq, ?_, by
      rw [hparent, hproducers]; exact h.parent_setup⟩
  rw [hpushes, hproducers, hconsumers]
  omega

theorem Occupancy.parent {σ σ' : State c} {ok : Bool} (h : Occupancy σ)
    (hmove : ParentMoves c.producerCount c.consumerCount σ ok σ') : Occupancy σ' := by
  cases hmove with
  | notifyStart hpc =>
      -- the parent's own entry goes from `setup` to `waitForStart`
      have hsetup := h.parent_setup (by rw [hpc]; rfl)
      refine ⟨forall_update trivial fun j _ => h.inLoop j, ?_, h.writeIdx_eq, ?_,
        fun hbefore => by cases hbefore⟩
      · show σ.messageQueue.pushes = total _ (update σ.producers none .waitForStart)
        rw [total_update_of_eq _ _ _ _ (by rw [hsetup]; rfl)]
        exact h.pushes_eq
      · show σ.messageRead + σ.messageQueue.pushes + total _ σ.consumers =
          messageQueueCapacity + σ.messageQueue.pops +
            total _ (update σ.producers none .waitForStart)
        rw [total_update_of_eq _ _ _ _ (by rw [hsetup]; rfl)]
        exact h.balance
  | waitForReady hpc =>
      exact ⟨h.inLoop, h.pushes_eq, h.writeIdx_eq, h.balance,
        fun _ => h.parent_setup (by rw [hpc]; rfl)⟩
  | fails | produced | producerFailed | waitForCompletion | waitForConsumption | loadConsumed
  | aborts | loadProduced | storeDoneFlag | notifyDone | waitForChildren =>
      exact ⟨h.inLoop, h.pushes_eq, h.writeIdx_eq, h.balance, fun hbefore => by cases hbefore⟩

theorem Occupancy.step {σ σ' : State c} {l : Label c} (h : Occupancy σ)
    (hstep : stepOk σ l = some σ') : Occupancy σ' := by
  obtain ⟨hmove, hok⟩ := stepOk_moves hstep
  cases hmove with
  | setupFails _ hfail => cases hok.symm.trans hfail
  | @setup i _ hpc =>
      refine ⟨forall_update trivial fun j _ => h.inLoop j, ?_, h.writeIdx_eq, ?_, ?_⟩
      · show σ.messageQueue.pushes = total _ (update σ.producers (some i) .waitForStart)
        rw [total_update_of_eq _ _ _ _ (by rw [hpc]; rfl)]
        exact h.pushes_eq
      · show σ.messageRead + σ.messageQueue.pushes + total _ σ.consumers =
          messageQueueCapacity + σ.messageQueue.pops +
            total _ (update σ.producers (some i) .waitForStart)
        rw [total_update_of_eq _ _ _ _ (by rw [hpc]; rfl)]
        exact h.balance
      · exact h.parent_setup
  | child hmove => exact h.producer hmove hok fun hnone => by cases hnone
  | parentProducer hpc hmove => exact h.producer hmove hok fun _ => hpc
  | parent hmove => exact h.parent hmove
  | consumer hmove => exact h.consumer hmove hok

theorem occupancy_of_reachable {σ : State c} (h : Reachable stepOk (init c) σ) : Occupancy σ :=
  h.induction .init fun _ _ _ hinv hstep => hinv.step hstep

/-! ## The bounds -/

/-- Every producer can be one message ahead of its tokens. -/
theorem Occupancy.outstanding_le {σ : State c} (h : Occupancy σ) :
    σ.messageQueue.outstanding ≤ messageQueueCapacity + c.producerCount := by
  have hahead : total ProducerPc.ahead σ.producers ≤ Fintype.card c.Producer * 1 :=
    total_le_card_mul fun i => (σ.producers i).ahead_le
  rw [card_producer, Nat.mul_one] at hahead
  have hbalance := h.balance
  unfold RingBuffer.outstanding
  omega

/-- No more messages are pushed than there are to produce. -/
theorem Occupancy.pushes_le {σ : State c} (h : Occupancy σ) :
    σ.messageQueue.pushes ≤ c.producerCount * c.messageCount := by
  rw [h.pushes_eq, ← card_producer]
  exact total_le_card_mul fun i => (h.inLoop i).pushed_le

/-- A producer that is about to push leaves the messages below their number. -/
theorem Occupancy.pushes_lt {σ : State c} (h : Occupancy σ) {i : c.Producer} {k writeIdx : ℕ}
    (hpc : σ.producers i = .push k (.compareExchange writeIdx)) :
    σ.messageQueue.pushes < c.producerCount * c.messageCount := by
  have hlt : (σ.producers i).pushed c.messageCount < c.messageCount := by
    have hloop := h.inLoop i
    rw [hpc] at hloop ⊢
    exact hloop
  rw [h.pushes_eq, ← card_producer]
  exact total_lt_card_mul (fun j => (h.inLoop j).pushed_le) hlt

theorem Occupancy.noOverrun {σ : State c} (h : Occupancy σ)
    (hfit : c.producerCount * c.messageCount ≤ messageQueueCapacity) : NoOverrun σ := by
  refine ⟨(Nat.sub_le _ _).trans (h.pushes_le.trans hfit), fun i k hpc => ?_⟩
  rintro ⟨m, -, hm, hslot⟩
  -- below the capacity a message number is its slot
  have hlt := h.pushes_lt hpc
  rw [h.writeIdx_eq, Nat.mod_eq_of_lt (by omega), Nat.mod_eq_of_lt (by omega)] at hslot
  omega

end InterProcess.Buffering
