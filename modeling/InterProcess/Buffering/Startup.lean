import InterProcess.Buffering.Completion
import InterProcess.Buffering.ProcessCreation
import InterProcess.Lib.Launch
import InterProcess.Lib.Threads

/-!
# The start of the consumer-producer program

Every process constructs `shared_data` anew before it gets ready. The parent
constructs it before it waits for the others, and starts the production only
when all of them are ready; producers wait for that start and consumers for the
first message. So by the time a process touches the data, all have constructed
it (`not_construct`). The processes are created and no semaphore operation
fails; how many of them have which role, and the group sizes of the notifiers
of producers and consumers, can be any numbers. The readiness notifier counts
all children.
-/

namespace InterProcess.Buffering

open Function LockFree Lts Threads

variable {c : Config} {producerGroup consumerGroup : ℕ}

/-! ## The processes and what they construct -/

inductive Process (c : Config)
  | parent
  | child (child : Fin c.childProducerCount ⊕ c.Consumer)
  deriving DecidableEq

/-- The process that moves. -/
def Label.process : Label c → Process c
  | .parent _ => .parent
  | .producer i _ => .child (.inl i)
  | .consumer j _ => .child (.inr j)

/-- `new (memory.get()) buffering::shared_data{}`. -/
def State.construct (σ : State c) : State c :=
  { σ with
    doneFlag := false
    producedMessageCount := 0
    consumedMessageCount := 0
    messageQueue := .fresh }

/-- A message is pushed or popped, a counter incremented or the done flag set. -/
def usesSharedData (σ σ' : State c) : Bool :=
  decide (σ'.messageQueue.pushes ≠ σ.messageQueue.pushes ∨
    σ'.messageQueue.pops ≠ σ.messageQueue.pops ∨
    σ'.producedMessageCount ≠ σ.producedMessageCount ∨
    σ'.consumedMessageCount ≠ σ.consumedMessageCount ∨ σ'.doneFlag ≠ σ.doneFlag)

/-- `main`: a process constructs the data, then gets ready and works. -/
def setup (c : Config) (producerGroup consumerGroup : ℕ) :
    Launch.Setup (State c) (Label c) (Process c) :=
  { step := stepOkWith producerGroup consumerGroup
    process := Label.process
    construct := State.construct
    uses := usesSharedData }

/-! ## Getting ready -/

/-- The child has got ready. -/
def State.childReady (σ : State c) : Fin c.childProducerCount ⊕ c.Consumer → Bool
  | .inl i => σ.producers (some i) != .setup
  | .inr j => σ.consumers j != .setup

theorem childReady_setProducer {σ : State c} {i : Fin c.childProducerCount} {pc : ProducerPc}
    (hpc : pc ≠ .setup) :
    (σ.setProducer (some i) pc).childReady = update σ.childReady (.inl i) true := by
  funext child
  cases child with
  | inl i' =>
      by_cases hi : i' = i
      · subst hi
        simp [State.childReady, State.setProducer, hpc]
      · simp [State.childReady, State.setProducer, hi]
  | inr j => rfl

theorem childReady_setConsumer {σ : State c} {j : c.Consumer} {pc : ConsumerPc}
    (hpc : pc ≠ .setup) :
    (σ.setConsumer j pc).childReady = update σ.childReady (.inr j) true := by
  funext child
  cases child with
  | inl i => rfl
  | inr j' =>
      by_cases hj : j' = j
      · subst hj
        simp [State.childReady, State.setConsumer, hpc]
      · simp [State.childReady, State.setConsumer, hj]

/-- Nobody has gone further than getting ready: there is nothing to take from
the semaphores but readiness. -/
structure GettingReady (σ : State c) : Prop where
  parent : σ.parent = .waitForReady
  producersSem : σ.producersSem = 0
  messageWritten : σ.messageWritten = 0
  parentProducer : σ.producers none = .setup
  producers : ∀ i, σ.producers (some i) = .setup ∨ σ.producers (some i) = .waitForStart
  consumers : ∀ j, σ.consumers j = .setup ∨ σ.consumers j = .waitForWritten
  readiness : σ.readiness = total Bool.toNat σ.childReady

theorem GettingReady.init : GettingReady (init c) := by
  have hready : total Bool.toNat (Buffering.init c).childReady = 0 := by
    refine total_eq_zero fun child => ?_
    cases child <;> rfl
  exact ⟨rfl, rfl, rfl, rfl, fun _ => .inl rfl, fun _ => .inl rfl, hready.symm⟩

/-- A child gets ready and signals it. -/
theorem readiness_update {σ : State c} {ready : Fin c.childProducerCount ⊕ c.Consumer → Bool}
    {child : Fin c.childProducerCount ⊕ c.Consumer} (h : σ.readiness = total Bool.toNat ready)
    (hunready : ready child = false) :
    σ.readiness + 1 = total Bool.toNat (update ready child true) := by
  have htotal := total_update Bool.toNat ready child true
  rw [hunready, Bool.toNat_true, Bool.toNat_false] at htotal
  omega

/-- What a step does while the processes get ready: the parent has found all
children ready and goes on, or one more child gets ready. -/
inductive GetsReady (σ σ' : State c) : Process c → Prop
  | parent (hall : c.childrenCount ≤ σ.readiness) : GetsReady σ σ' .parent
  | child {child : Fin c.childProducerCount ⊕ c.Consumer} (h : GettingReady σ')
      (hready : σ'.childReady = update σ.childReady child true) : GetsReady σ σ' (.child child)

theorem GettingReady.setProducer {σ : State c} {i : Fin c.childProducerCount}
    (h : GettingReady σ) (hpc : σ.producers (some i) = .setup) :
    GettingReady ({ σ with readiness := σ.readiness + 1 }.setProducer (some i) .waitForStart) := by
  refine ⟨h.parent, h.producersSem, h.messageWritten, h.parentProducer, fun i' => ?_, h.consumers,
    ?_⟩
  · by_cases hi : i' = i
    · subst hi
      exact .inr (update_self ..)
    · simp only [State.setProducer]
      rw [update_of_ne (by simpa using hi)]
      exact h.producers i'
  · rw [childReady_setProducer (by decide)]
    exact readiness_update h.readiness (by simp [State.childReady, hpc])

theorem GettingReady.setConsumer {σ : State c} {j : c.Consumer}
    (h : GettingReady σ) (hpc : σ.consumers j = .setup) :
    GettingReady ({ σ with readiness := σ.readiness + 1 }.setConsumer j .waitForWritten) := by
  refine ⟨h.parent, h.producersSem, h.messageWritten, h.parentProducer, h.producers, fun j' => ?_,
    ?_⟩
  · by_cases hj : j' = j
    · subst hj
      exact .inr (update_self ..)
    · simp only [State.setConsumer]
      rw [update_of_ne hj]
      exact h.consumers j'
  · rw [childReady_setConsumer (by decide)]
    exact readiness_update h.readiness (by simp [State.childReady, hpc])

theorem GettingReady.step {σ σ' : State c} {l : Label c} (h : GettingReady σ)
    (hstep : stepOkWith producerGroup consumerGroup σ l = some σ') :
    GetsReady σ σ' l.process ∧ usesSharedData σ σ' = false := by
  obtain ⟨hmove, hok⟩ := stepOkWith_moves hstep
  cases hmove with
  | setupFails hpc hfail =>
      subst hfail
      cases hok
  | @setup i _ hpc =>
      refine ⟨.child (h.setProducer hpc) (childReady_setProducer (by decide)), ?_⟩
      simp [usesSharedData, State.setProducer]
  | @child i _ _ hmove =>
      -- it could only take a start token
      have hpc' := h.producers i
      have hsem := h.producersSem
      cases hmove with
      | start hpc hle => omega
      | startFails hpc hfail =>
          subst hfail
          cases hok
      | next hpc | finish hpc | load hpc | reload hpc | claim hpc | store hpc | count hpc
      | notifyFails hpc | notifyWritten hpc | waitFails hpc | waitForRead hpc
      | completionFails hpc | notifyCompletion hpc => simp [hpc] at hpc'
  | parentProducer hpc hmove =>
      rw [h.parent] at hpc
      cases hpc
  | parent hmove =>
      have hparent := h.parent
      cases hmove with
      | waitForReady hpc hle =>
          refine ⟨.parent hle, ?_⟩
          simp [usesSharedData, State.setParent]
      | fails hfail =>
          subst hfail
          cases hok
      | notifyStart hpc | produced hpc | producerFailed hpc | waitForCompletion hpc
      | waitForConsumption hpc | loadConsumed hpc | aborts hpc | loadProduced hpc
      | storeDoneFlag hpc | notifyDone hpc | waitForChildren hpc =>
          rw [hpc] at hparent
          cases hparent
  | @consumer j _ _ hmove =>
      have hpc' := h.consumers j
      have hwritten := h.messageWritten
      cases hmove with
      | setup hpc =>
          refine ⟨.child (h.setConsumer hpc) (childReady_setConsumer (by decide)), ?_⟩
          simp [usesSharedData, State.setConsumer]
      | waitForWritten hpc hle => omega
      | setupFails hpc hfail | waitFails hpc hfail =>
          subst hfail
          cases hok
      | leave hpc | startPop hpc | load hpc | reload hpc | release hpc | read hpc | count hpc
      | notifyFails hpc | notifyRead hpc => simp [hpc] at hpc'

/-! ## The data is constructed when it is used -/

/-- Nobody has gone further than getting ready, and who is ready has
constructed the data. -/
structure NotStarted (σ : Launch (State c) (Process c)) : Prop where
  program : GettingReady σ.program
  constructed : ∀ child, σ.program.childReady child = true →
    σ.constructed (.child child) = true

theorem NotStarted.init : NotStarted (Launch.init (init c)) := by
  refine ⟨GettingReady.init, fun child hready => ?_⟩
  cases child <;> cases hready

/-- As many signals as children: all are ready. -/
theorem NotStarted.all_constructed {σ : Launch (State c) (Process c)} (h : NotStarted σ)
    (hle : c.childrenCount ≤ σ.program.readiness) (hparent : σ.constructed .parent = true) :
    ∀ p, σ.constructed p = true := by
  have hcard : Fintype.card (Fin c.childProducerCount ⊕ c.Consumer) * 1 ≤
      total Bool.toNat σ.program.childReady := by
    rw [← h.program.readiness, Fintype.card_sum, Fintype.card_fin, Fintype.card_fin, Nat.mul_one]
    exact hle
  have hready := forall_eq_of_card_mul_le_total (fun child => Bool.toNat_le _) hcard
  intro p
  cases p with
  | parent => exact hparent
  | child child => exact h.constructed child (by simpa using hready child)

/-- Constructing the data moves no process. -/
theorem NotStarted.construct {σ σ' : Launch (State c) (Process c)} {p : Process c}
    (h : NotStarted σ)
    (hstep : Launch.step (setup c producerGroup consumerGroup) σ (.construct p) = some σ') :
    NotStarted σ' := by
  obtain ⟨-, hprogram, -⟩ := Launch.step_construct hstep
  have hconstructed : ∀ child, σ.program.childReady child = true →
      σ'.constructed (.child child) = true :=
    fun child hchild => Launch.constructed_mono hstep (h.constructed child hchild)
  obtain ⟨hparent, hsem, hwritten, hnone, hproducers, hconsumers, hreadiness⟩ := h.program
  refine ⟨?_, ?_⟩ <;> rw [hprogram]
  · exact ⟨hparent, hsem, hwritten, hnone, hproducers, hconsumers, hreadiness⟩
  · exact hconstructed

theorem NotStarted.run {σ σ' : Launch (State c) (Process c)} {l : Label c} (h : NotStarted σ)
    (hstep : Launch.step (setup c producerGroup consumerGroup) σ (.run l) = some σ') :
    (NotStarted σ' ∧ usesSharedData σ.program σ'.program = false) ∨
      ∀ p, σ.constructed p = true := by
  obtain ⟨hprocess, hprogram, hsame⟩ := Launch.step_run hstep
  obtain ⟨hready, huse⟩ := h.program.step hprogram
  have hprocess : σ.constructed l.process = true := hprocess
  generalize l.process = p at hready hprocess
  cases hready with
  | parent hall => exact .inr (h.all_constructed hall hprocess)
  | @child child hgetting hupdate =>
      refine .inl ⟨⟨hgetting, fun child' hchild' => ?_⟩, huse⟩
      rw [hsame]
      by_cases heq : child' = child
      · rw [heq]
        exact hprocess
      · rw [hupdate, update_of_ne heq] at hchild'
        exact h.constructed child' hchild'

/-- Once a process has used the shared data, no process constructs it anew. -/
theorem not_construct (c : Config) (producerGroup consumerGroup : ℕ)
    (σ : Launch (State c) (Process c) × Bool)
    (h : Reachable (Launch.watched (setup c producerGroup consumerGroup))
      (Launch.init (init c), false) σ)
    (hused : σ.2 = true) (p : Process c) :
    Launch.step (setup c producerGroup consumerGroup) σ.1 (.construct p) = none := by
  have hguarded : Launch.Guarded NotStarted σ :=
    h.induction (.inl ⟨NotStarted.init, rfl⟩) fun _ _ _ hσ hstep =>
      hσ.step hstep (fun _ hnot => hnot.construct) (fun _ _ hnot => hnot.run)
  exact hguarded.noneConstructs hused p

/-- The processes of `main`: it asks for 2 child producers and 10 consumers, and gets 10 and 2. -/
def mainProcesses : Config :=
  { childProducerCount := 10
    consumerCount := 2
    messageCount := 200
    asserts := true }

example : (processes (createChildProcesses 2 10)).countP (fun r => forkedIn r.1 && r.2.isProducer) =
      mainProcesses.childProducerCount ∧
    (processes (createChildProcesses 2 10)).countP (fun r => forkedIn r.1 && !r.2.isProducer) =
      mainProcesses.consumerCount := by
  decide

/-- All construct the data, the children get ready one after the other, the parent starts the
production and claims a slot for its message. -/
def parentPushes : List (Launch.Move (Label mainProcesses) (Process mainProcesses)) :=
  .construct .parent ::
    (List.finRange 10).flatMap
      (fun i => [.construct (.child (.inl i)), .run (.producer i true)]) ++
    (List.finRange 2).flatMap
      (fun j => [.construct (.child (.inr j)), .run (.consumer j true)]) ++
    .replicate 6 (.run (.parent true))

/-- The group sizes are those `main` gives its notifiers. -/
theorem not_construct_parentPushes :
    ∃ σ, run (Launch.watched (setup mainProcesses 3 10))
        (Launch.init (init mainProcesses), false) parentPushes = some σ ∧ σ.2 = true ∧
      ∀ p, Launch.step (setup mainProcesses 3 10) σ.1 (.construct p) = none := by
  have hrun := (Option.some_get (show (run (Launch.watched (setup mainProcesses 3 10))
    (Launch.init (init mainProcesses), false) parentPushes).isSome from rfl)).symm
  exact ⟨_, hrun, rfl, not_construct mainProcesses 3 10 _ ⟨_, hrun⟩ rfl⟩

end InterProcess.Buffering
