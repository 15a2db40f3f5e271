import InterProcess.Buffering.Moves
import InterProcess.Lib.Lts
import InterProcess.Lib.Threads

/-!
# Waiting for the production to complete

`producers_notifier` carries two kinds of tokens: the parent puts one for each
producer to start it, and each producer puts one when it has completed. The
parent waits for `producer_count` tokens of either kind. A parent that has
completed while a child has not yet taken its start token is let through by
that token, although the child has produced nothing.

`productionComplete_iff`: a run keeps the promise of
`wait_till_production_complete` iff the wait succeeds only after every producer
has taken its start token.
-/

namespace InterProcess.Buffering

open Function Lts Threads

variable {c : Config}

/-! ## The two kinds of tokens -/

/-- The producer has taken its start token. -/
def ProducerPc.started : ProducerPc → Bool
  | .setup | .waitForStart | .returned .notReady | .returned .notStarted => false
  | _ => true

/-- The producer has put its completion token. -/
def ProducerPc.completed : ProducerPc → Bool
  | .returned .done => true
  | _ => false

/-- The producer has finished `produce_messages`, all its messages written. -/
def ProducerPc.finished : ProducerPc → Bool
  | .notifyCompletion | .returned .notCompleted | .returned .done => true
  | _ => false

theorem ProducerPc.completed_le_started (pc : ProducerPc) :
    pc.completed.toNat ≤ pc.started.toNat := by
  cases pc with
  | returned exit => cases exit <;> decide
  | _ => exact Nat.le_of_ble_eq_true rfl

theorem ProducerPc.started_of_finished {pc : ProducerPc} (h : pc.finished = true) :
    pc.started = true := by
  cases pc with
  | returned exit => cases exit <;> first | rfl | cases h
  | notifyCompletion => rfl
  | _ => cases h

theorem ProducerPc.finished_of_completed {pc : ProducerPc} (h : pc.completed = true) :
    pc.finished = true := by
  cases pc with
  | returned exit => cases exit <;> first | rfl | cases h
  | _ => cases h

/-- How many producers have taken their start token. -/
def State.startedCount (σ : State c) : ℕ := total (fun pc => pc.started.toNat) σ.producers

/-- How many producers have put their completion token. -/
def State.completedCount (σ : State c) : ℕ := total (fun pc => pc.completed.toNat) σ.producers

/-- The start tokens the parent has put, at most. -/
def ParentPc.startTokens (producerCount : ℕ) : ParentPc → ℕ
  | .waitForReady | .notifyStart => 0
  | _ => producerCount

/-- The parent has left `wait_till_production_complete`. -/
def ParentPc.pastCompletion : ParentPc → Bool
  | .waitForReady | .notifyStart | .run | .waitForCompletion => false
  | _ => true

/-- The tokens the parent's wait has taken. -/
def State.collected (σ : State c) : ℕ := if σ.productionSeen then c.producerCount else 0

/-! ## The property and the condition on the steps -/

/-- When `wait_till_production_complete` has returned successfully, every
producer has finished. -/
def ProductionComplete (σ : State c) : Prop :=
  σ.productionSeen = true → ∀ i, (σ.producers i).finished = true

/-- If the step lets the parent through `wait_till_production_complete`, every
producer has taken its start token. -/
def AllStarted (σ : State c) (l : Label c) : Prop :=
  l = .parent true → σ.parent = .waitForCompletion → ∀ i, (σ.producers i).started = true

/-- The tokens are accounted for, and the parent waits for them once. -/
structure Tokens (σ : State c) : Prop where
  balance : σ.producersSem + σ.startedCount + σ.collected ≤
    σ.parent.startTokens c.producerCount + σ.completedCount
  seen_past : σ.productionSeen = true → σ.parent.pastCompletion = true

/-! ## What the moves do to the tokens -/

/-- A producer exchanges tokens with the semaphore, and does not go back once
it has finished. -/
theorem ProducerMoves.tokens {σ σ' : State c} {i : c.Producer} {ok : Bool}
    (h : ProducerMoves c.consumerCount σ i ok σ') :
    ∃ pc, σ'.producers = update σ.producers i pc ∧
      σ'.producersSem + pc.started.toNat + (σ.producers i).completed.toNat =
        σ.producersSem + (σ.producers i).started.toNat + pc.completed.toNat ∧
      ((σ.producers i).finished = true → pc.finished = true) := by
  cases h with
  | start hpc hle =>
      refine ⟨.loop 0, rfl, ?_, ?_⟩
      · simp only [State.setProducer, hpc, ProducerPc.started, ProducerPc.completed,
          Bool.toNat_true, Bool.toNat_false]
        omega
      · rw [hpc]; intro hfinished; cases hfinished
  | startFails hpc | next hpc | finish hpc | load hpc | reload hpc | claim hpc | store hpc
  | count hpc | notifyFails hpc | notifyWritten hpc | waitFails hpc | waitForRead hpc
  | completionFails hpc | notifyCompletion hpc =>
      refine ⟨_, rfl, ?_, ?_⟩ <;>
        simp [State.setProducer, hpc, ProducerPc.started, ProducerPc.completed,
          ProducerPc.finished]

/-- A step that moves only producer `i` and trades tokens fairly. -/
theorem Tokens.of_update {σ σ' : State c} {i : c.Producer} {pc : ProducerPc} (h : Tokens σ)
    (hproducers : σ'.producers = update σ.producers i pc) (hparent : σ'.parent = σ.parent)
    (hseen : σ'.productionSeen = σ.productionSeen)
    (htrade : σ'.producersSem + pc.started.toNat + (σ.producers i).completed.toNat =
      σ.producersSem + (σ.producers i).started.toNat + pc.completed.toNat) : Tokens σ' := by
  have hbalance := h.balance
  have hstarted := total_update (fun pc => pc.started.toNat) σ.producers i pc
  have hcompleted := total_update (fun pc => pc.completed.toNat) σ.producers i pc
  refine ⟨?_, by rw [hseen, hparent]; exact h.seen_past⟩
  simp only [State.startedCount, State.completedCount, State.collected] at hbalance ⊢
  rw [hproducers, hparent, hseen]
  omega

theorem Tokens.parent {σ σ' : State c} {ok : Bool} (h : Tokens σ)
    (hmove : ParentMoves c.producerCount c.consumerCount σ ok σ') :
    Tokens σ' := by
  have hbalance := h.balance
  have hpast := h.seen_past
  cases hmove with
  | fails hok hpc =>
      refine ⟨?_, fun _ => rfl⟩
      have hle : σ.parent.startTokens c.producerCount ≤ c.producerCount := by
        cases σ.parent <;> simp [ParentPc.startTokens]
      exact hbalance.trans (Nat.add_le_add_right hle _)
  | notifyStart hpc =>
      refine ⟨?_, fun hseen => ?_⟩
      · -- the parent becomes a producer that has not started
        have hstarted : total (fun pc => pc.started.toNat) (update σ.producers none .waitForStart) +
            (σ.producers none).started.toNat = σ.startedCount + 0 := total_update _ _ _ _
        have hcompleted : total (fun pc => pc.completed.toNat)
              (update σ.producers none .waitForStart) +
            (σ.producers none).completed.toNat = σ.completedCount + 0 := total_update _ _ _ _
        have hle := (σ.producers none).completed_le_started
        rw [hpc] at hbalance
        simp only [ParentPc.startTokens, Nat.zero_add] at hbalance
        show σ.producersSem + c.producerCount +
              total (fun pc => pc.started.toNat) (update σ.producers none .waitForStart) +
            σ.collected ≤
          c.producerCount +
            total (fun pc => pc.completed.toNat) (update σ.producers none .waitForStart)
        omega
      · exact absurd (hpast hseen) (by simp [hpc, ParentPc.pastCompletion])
  | waitForCompletion hpc hok hle =>
      refine ⟨?_, fun _ => rfl⟩
      have hunseen : σ.productionSeen = false := by
        cases hseen : σ.productionSeen with
        | false => rfl
        | true => exact absurd (hpast hseen) (by simp [hpc, ParentPc.pastCompletion])
      simp only [State.startedCount, State.completedCount, State.collected, State.setParent,
        hunseen, hpc, ParentPc.startTokens, if_true, Bool.false_eq_true, if_false] at *
      omega
  | waitForReady hpc hle =>
      rw [hpc] at hbalance hpast
      exact ⟨hbalance, hpast⟩
  | produced hpc =>
      rw [hpc] at hbalance hpast
      exact ⟨hbalance, hpast⟩
  | producerFailed hpc | waitForConsumption hpc | loadConsumed hpc | aborts hpc
  | loadProduced hpc | storeDoneFlag hpc | notifyDone hpc | waitForChildren hpc =>
      rw [hpc] at hbalance
      exact ⟨hbalance, fun _ => rfl⟩

theorem Tokens.step {σ σ' : State c} {l : Label c} (h : Tokens σ)
    (hmove : Moves c.producerCount c.consumerCount σ l σ') :
    Tokens σ' := by
  cases hmove with
  | setupFails hpc hok =>
      exact h.of_update rfl rfl rfl
        (by simp [State.setProducer, hpc, ProducerPc.started, ProducerPc.completed])
  | setup hpc =>
      exact h.of_update rfl rfl rfl
        (by simp [State.setProducer, hpc, ProducerPc.started, ProducerPc.completed])
  | child hmove | parentProducer _ hmove =>
      obtain ⟨pc, hproducers, htrade, -⟩ := hmove.tokens
      obtain ⟨hparent, hseen, -, -⟩ := hmove.frame
      exact h.of_update hproducers hparent hseen htrade
  | parent hmove => exact h.parent hmove
  | consumer hmove =>
      obtain ⟨hparent, hseen, hproducers, hsem⟩ := hmove.frame
      refine ⟨?_, by rw [hseen, hparent]; exact h.seen_past⟩
      simpa only [State.startedCount, State.completedCount, State.collected, hparent, hseen,
        hproducers, hsem] using h.balance

/-! ## The promise is kept -/

/-- Enough tokens, and none of them a start token, are completion tokens. -/
theorem Tokens.all_finished {σ : State c} (h : Tokens σ) (hpc : σ.parent = .waitForCompletion)
    (hle : c.producerCount ≤ σ.producersSem)
    (hstarted : ∀ i, (σ.producers i).started = true) :
    ∀ i, (σ.producers i).finished = true := by
  have hall : σ.startedCount = c.producerCount := by
    have htotal : σ.startedCount = Fintype.card c.Producer * 1 :=
      total_eq_card_mul fun i => by simp [hstarted i]
    rwa [card_producer, Nat.mul_one] at htotal
  -- the parent's own tokens are all taken, so what is left the producers have put
  have hcompleted : c.producerCount ≤ σ.completedCount := by
    have hbalance := h.balance
    rw [hpc, hall] at hbalance
    simp only [ParentPc.startTokens] at hbalance
    omega
  intro i
  have hone : (σ.producers i).completed.toNat = 1 :=
    forall_eq_of_card_mul_le_total (fun i => Bool.toNat_le (σ.producers i).completed)
      (by rwa [card_producer, Nat.mul_one]) i
  exact ProducerPc.finished_of_completed (by simpa using hone)

/-- The invariant of the runs that keep the promise. -/
structure CompletionInv (σ : State c) : Prop where
  tokens : Tokens σ
  complete : ProductionComplete σ

theorem CompletionInv.init : CompletionInv (init c) := by
  refine ⟨⟨?_, fun h => by cases h⟩, fun h => by cases h⟩
  have hstarted : (Buffering.init c).startedCount = 0 := total_eq_zero fun _ => rfl
  rw [hstarted]
  exact Nat.zero_le _

/-- A producer that has finished stays so, whoever moves. -/
theorem CompletionInv.step {σ σ' : State c} {l : Label c} (h : CompletionInv σ)
    (hok : AllStarted σ l) (hstep : Buffering.step σ l = some σ') : CompletionInv σ' := by
  have hmove := step_moves hstep
  refine ⟨h.tokens.step hmove, ?_⟩
  have hcomplete := h.complete
  cases hmove with
  | @setupFails i _ hpc _ | @setup i _ hpc =>
      -- the production is not complete yet: this producer has not even started
      intro hseen
      have hfinished := hcomplete hseen (some i)
      rw [hpc] at hfinished
      cases hfinished
  | child hmove | parentProducer _ hmove =>
      obtain ⟨pc, hproducers, -, hfinished⟩ := hmove.tokens
      obtain ⟨-, hseen_eq, -, -⟩ := hmove.frame
      intro hseen
      rw [hseen_eq] at hseen
      rw [hproducers]
      exact forall_update (P := fun pc : ProducerPc => pc.finished = true)
        (hfinished (hcomplete hseen _)) fun j _ => hcomplete hseen j
  | consumer hmove =>
      obtain ⟨-, hseen, hproducers, -⟩ := hmove.frame
      rw [ProductionComplete, hseen, hproducers]
      exact hcomplete
  | parent hmove =>
      cases hmove with
      | notifyStart hpc =>
          intro hseen
          exact absurd (h.tokens.seen_past hseen) (by simp [hpc, ParentPc.pastCompletion])
      | waitForCompletion hpc hok' hle =>
          intro _
          exact h.tokens.all_finished hpc hle (hok (by rw [hok']) hpc)
      | fails | waitForReady | produced | producerFailed | waitForConsumption | loadConsumed
      | aborts | loadProduced | storeDoneFlag | notifyDone | waitForChildren =>
          exact hcomplete

/-- A wait that takes a start token breaks the promise. -/
theorem not_productionComplete {σ σ' : State c} {l : Label c} (hok : ¬ AllStarted σ l)
    (hstep : step σ l = some σ') : ¬ ProductionComplete σ' := by
  simp only [AllStarted, Classical.not_imp, not_forall] at hok
  obtain ⟨rfl, hpc, i, hunstarted⟩ := hok
  intro hcomplete
  simp only [step, stepWith, stepParentWith, hpc, Bool.not_true, Bool.false_eq_true,
    if_false] at hstep
  split at hstep
  · cases hstep
    exact hunstarted (ProducerPc.started_of_finished (hcomplete rfl i))
  · cases hstep

/-- In a run every success of `wait_till_production_complete` finds all
producers finished iff it finds all start tokens taken. -/
theorem productionComplete_iff (ls : List (Label c)) :
    Along step ProductionComplete (init c) ls ↔ StepsMeet step AllStarted (init c) ls :=
  along_iff_stepsMeet (fun _ h => h.complete) (fun _ _ _ h hok hstep => h.step hok hstep)
    (fun _ _ _ _ hok hstep => not_productionComplete hok hstep) CompletionInv.init

/-- One child producer, one consumer, one message from each producer. -/
def oneChildProducer : Config :=
  { childProducerCount := 1
    consumerCount := 1
    messageCount := 1
    asserts := true }

/-- The children are ready; the parent starts the production, writes its
message, completes and waits, before the child has run again. -/
def parentProducesAlone : List (Label oneChildProducer) :=
  .producer (Fin.last 0) true :: .consumer (Fin.last 0) true :: List.replicate 14 (.parent true)

/-- Not in every run: after `parentProducesAlone` the parent has seen the
production complete while the child still waits for its start. -/
theorem not_along_productionComplete :
    ¬ ∀ (c : Config) (ls : List (Label c)), 2 ≤ c.producerCount →
      Along step ProductionComplete (init c) ls := by
  intro hall
  refine not_along_of_run (fun σ => (σ.productionSeen, σ.producers (some (0 : Fin 1))))
    (true, .waitForStart) ?_ ?_ (hall oneChildProducer parentProducesAlone (by decide))
  · decide
  · intro σ' hobs hcomplete
    obtain ⟨hseen, hpc⟩ := Prod.mk.inj hobs
    have hfinished := hcomplete hseen (some (0 : Fin 1))
    rw [hpc] at hfinished
    cases hfinished

end InterProcess.Buffering
