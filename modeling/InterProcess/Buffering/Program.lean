import InterProcess.LockFree.RingBuffer
import Mathlib.Data.Fintype.Option

/-!
# The consumer-producer program

A parent and its children share a ring of messages and four System V
semaphores. The parent waits until all children are ready, starts the
production, produces messages itself and in the end waits for the production to
complete, for all messages to be consumed, and stops the consumers. Producer
`none` is the parent, producer `some i` a child.

How many processes have a role and the group size of a notifier are two things:
`create_child_processes` gives the first `child_producer_count` children the
role of consumers, while `main` takes the sizes from the counts it asks for.
`stepWith` has the sizes as parameters. `step` is the program in which they are
those of the roles; `main` runs it when it asks for as many children of the one
role as of the other.

A step is one semaphore operation or one access to shared memory. Every
semaphore operation may fail; a label says whether it does, so runs without
failures are the ones whose labels all say `true`. The counters are natural
numbers: runs long enough to overflow an `int32` are left out, and so are the
messages printed to the console.
-/

namespace InterProcess.Buffering

open Function LockFree

/-- `message_queue_capacity`, which is also `message_queue_t::capacity()`. -/
def messageQueueCapacity : ℕ := 32

/-- How many processes there are of each role, the messages of a producer, and whether asserts are
compiled in. -/
structure Config where
  childProducerCount : ℕ
  consumerCount : ℕ
  messageCount : ℕ
  asserts : Bool

namespace Config

variable (c : Config)

/-- `producer_count`: the children and the parent. -/
def producerCount : ℕ := c.childProducerCount + 1

def childrenCount : ℕ := c.childProducerCount + c.consumerCount

/-- A producer: the parent or a child. -/
abbrev Producer := Option (Fin c.childProducerCount)

abbrev Consumer := Fin c.consumerCount

/-- `info.group_id`: `create_child_processes` sets it for the parent only, to the number of rounds
of its last loop. `main` gives that number to the notifier of the consumers, too. -/
def groupIdWith (consumerGroup : ℕ) : c.Producer → ℕ
  | none => consumerGroup
  | some _ => 0

end Config

theorem card_producer {c : Config} : Fintype.card c.Producer = c.producerCount := by
  simp [Config.Producer, Config.producerCount]

/-- The text `produce_messages` formats. -/
def messageText (i groupId : ℕ) : String := s!"message with id: {i} from producer: {groupId}"

/-- How a producer's process comes to an end. -/
inductive ProducerExit
  | notReady
  | notStarted
  | stoppedEarly
  | notCompleted
  | done
  deriving DecidableEq

/-- What `run` (or, for `notReady`, `setup`) returns. A failed wait for the
start returns `EXIT_FAILURE`, which is `true` as a `bool`. -/
def ProducerExit.result : ProducerExit → Bool
  | .notReady | .stoppedEarly | .notCompleted => false
  | .notStarted | .done => true

/-- Where a producer is in `setup` and `run_producer`. -/
inductive ProducerPc
  | setup
  | waitForStart
  | loop (i : ℕ)
  | push (i : ℕ) (pc : RingBuffer.PushPc)
  | count (i : ℕ)
  | notifyWritten (i : ℕ)
  | waitForRead (i : ℕ)
  | notifyCompletion
  | returned (exit : ProducerExit)
  deriving DecidableEq

/-- Where a consumer is in `setup` and `consume_messages`. `written` is the
outcome of the wait, which is looked at after the done flag. -/
inductive ConsumerPc
  | setup
  | waitForWritten
  | loadDoneFlag (written : Bool)
  | pop (pc : RingBuffer.PopPc)
  | count
  | notifyRead
  | returned (result : Bool)
  deriving DecidableEq

/-- Where the parent is in `setup`, `run` and `finalize`. -/
inductive ParentPc
  | waitForReady
  | notifyStart
  | run
  | waitForCompletion
  | waitForConsumption
  | loadConsumed
  | loadProduced (consumed : ℕ)
  | storeDoneFlag
  | notifyDone
  | waitForChildren
  | aborted
  | returned (result : Bool)
  deriving DecidableEq

/-- The semaphores, the shared data, the processes. `productionSeen` is
history: `wait_till_production_complete` has returned successfully. -/
structure State (c : Config) where
  readiness : ℕ
  messageWritten : ℕ
  messageRead : ℕ
  producersSem : ℕ
  doneFlag : Bool
  producedMessageCount : ℕ
  consumedMessageCount : ℕ
  messageQueue : RingBuffer String
  parent : ParentPc
  producers : c.Producer → ProducerPc
  consumers : c.Consumer → ConsumerPc
  productionSeen : Bool

/-- `main` after the processes are created: the semaphores as initialised. -/
def init (c : Config) : State c :=
  { readiness := 0
    messageWritten := 0
    messageRead := messageQueueCapacity
    producersSem := 0
    doneFlag := false
    producedMessageCount := 0
    consumedMessageCount := 0
    messageQueue := .fresh
    parent := .waitForReady
    producers := fun _ => .setup
    consumers := fun _ => .setup
    productionSeen := false }

/-- Which process moves, and whether its semaphore operation succeeds. -/
inductive Label (c : Config)
  | parent (ok : Bool)
  | producer (i : Fin c.childProducerCount) (ok : Bool)
  | consumer (j : c.Consumer) (ok : Bool)

/-- The semaphore operation of the step, if it has one, does not fail. -/
def Label.ok {c : Config} : Label c → Bool
  | .parent ok | .producer _ ok | .consumer _ ok => ok

variable {c : Config}

def State.setProducer (σ : State c) (i : c.Producer) (pc : ProducerPc) : State c :=
  { σ with producers := update σ.producers i pc }

def State.setConsumer (σ : State c) (j : c.Consumer) (pc : ConsumerPc) : State c :=
  { σ with consumers := update σ.consumers j pc }

def State.setParent (σ : State c) (pc : ParentPc) : State c := { σ with parent := pc }

section Steps

/- The group sizes of the notifiers of the producers and of the consumers. -/
variable (producerGroup consumerGroup : ℕ)

/-- A step of `run_producer`. -/
def stepProducerWith (σ : State c) (i : c.Producer) (ok : Bool) : Option (State c) :=
  match σ.producers i with
  | .setup => none
  | .waitForStart =>
      if !ok then some (σ.setProducer i (.returned .notStarted))
      else if 1 ≤ σ.producersSem then
        some ({ σ with producersSem := σ.producersSem - 1 }.setProducer i (.loop 0))
      else none
  | .loop k =>
      if k < c.messageCount then some (σ.setProducer i (.push k .load))
      else some (σ.setProducer i .notifyCompletion)
  | .push k pc =>
      match RingBuffer.push messageQueueCapacity
          (messageText k (c.groupIdWith consumerGroup i)) σ.messageQueue pc with
      | (ring, .inl pc) => some ({ σ with messageQueue := ring }.setProducer i (.push k pc))
      | (ring, .inr ()) => some ({ σ with messageQueue := ring }.setProducer i (.count k))
  | .count k =>
      some ({ σ with producedMessageCount := σ.producedMessageCount + 1 }.setProducer i
        (.notifyWritten k))
  | .notifyWritten k =>
      if !ok then some (σ.setProducer i (.returned .stoppedEarly))
      else some ({ σ with messageWritten := σ.messageWritten + 1 }.setProducer i
        (.waitForRead k))
  | .waitForRead k =>
      -- only now does the producer wait for a free place in the queue
      if !ok then some (σ.setProducer i (.returned .stoppedEarly))
      else if 1 ≤ σ.messageRead then
        some ({ σ with messageRead := σ.messageRead - 1 }.setProducer i (.loop (k + 1)))
      else none
  | .notifyCompletion =>
      if !ok then some (σ.setProducer i (.returned .notCompleted))
      else some ({ σ with producersSem := σ.producersSem + 1 }.setProducer i (.returned .done))
  | .returned _ => none

/-- A step of a child producer: `setup_child_process`, then `run_producer`. -/
def stepChildProducerWith (σ : State c) (i : Fin c.childProducerCount) (ok : Bool) :
    Option (State c) :=
  match σ.producers (some i) with
  | .setup =>
      if !ok then some (σ.setProducer (some i) (.returned .notReady))
      else some ({ σ with readiness := σ.readiness + 1 }.setProducer (some i) .waitForStart)
  | _ => stepProducerWith consumerGroup σ (some i) ok

/-- A step of a consumer: `setup_child_process`, then `consume_messages`. -/
def stepConsumer (σ : State c) (j : c.Consumer) (ok : Bool) : Option (State c) :=
  match σ.consumers j with
  | .setup =>
      if !ok then some (σ.setConsumer j (.returned false))
      else some ({ σ with readiness := σ.readiness + 1 }.setConsumer j .waitForWritten)
  | .waitForWritten =>
      if !ok then some (σ.setConsumer j (.loadDoneFlag false))
      else if 1 ≤ σ.messageWritten then
        some ({ σ with messageWritten := σ.messageWritten - 1 }.setConsumer j
          (.loadDoneFlag true))
      else none
  | .loadDoneFlag written =>
      if σ.doneFlag then some (σ.setConsumer j (.returned true))
      else if !written then some (σ.setConsumer j (.returned false))
      else some (σ.setConsumer j (.pop .load))
  | .pop pc =>
      match RingBuffer.pop messageQueueCapacity σ.messageQueue pc with
      | (ring, .inl pc) => some ({ σ with messageQueue := ring }.setConsumer j (.pop pc))
      | (ring, .inr _) => some ({ σ with messageQueue := ring }.setConsumer j .count)
  | .count =>
      some ({ σ with consumedMessageCount := σ.consumedMessageCount + 1 }.setConsumer j
        .notifyRead)
  | .notifyRead =>
      if !ok then some (σ.setConsumer j (.returned false))
      else some ({ σ with messageRead := σ.messageRead + 1 }.setConsumer j .waitForWritten)
  | .returned _ => none

/-- A step of the parent. -/
def stepParentWith (σ : State c) (ok : Bool) : Option (State c) :=
  match σ.parent with
  | .waitForReady =>
      if !ok then some (σ.setParent (.returned false))
      else if c.childrenCount ≤ σ.readiness then
        some ({ σ with readiness := σ.readiness - c.childrenCount }.setParent .notifyStart)
      else none
  | .notifyStart =>
      if !ok then some (σ.setParent (.returned false))
      else some (({ σ with producersSem := σ.producersSem + producerGroup }.setParent
        .run).setProducer none .waitForStart)
  | .run =>
      match σ.producers none with
      | .returned exit =>
          if exit.result then some (σ.setParent .waitForCompletion)
          else some (σ.setParent (.returned false))
      | _ => stepProducerWith consumerGroup σ none ok
  | .waitForCompletion =>
      -- `finalize` returns EXIT_FAILURE, that is true
      if !ok then some (σ.setParent (.returned true))
      else if producerGroup ≤ σ.producersSem then
        some ({ σ with
          producersSem := σ.producersSem - producerGroup
          productionSeen := true }.setParent .waitForConsumption)
      else none
  | .waitForConsumption =>
      if !ok then some (σ.setParent (.returned true))
      else if σ.messageWritten = 0 then some (σ.setParent .loadConsumed) else none
  | .loadConsumed => some (σ.setParent (.loadProduced σ.consumedMessageCount))
  | .loadProduced consumed =>
      if c.asserts && consumed != σ.producedMessageCount then some (σ.setParent .aborted)
      else some (σ.setParent .storeDoneFlag)
  | .storeDoneFlag => some ({ σ with doneFlag := true }.setParent .notifyDone)
  | .notifyDone =>
      if !ok then some (σ.setParent (.returned false))
      else some ({ σ with messageWritten := σ.messageWritten + consumerGroup }.setParent
        .waitForChildren)
  | .waitForChildren =>
      if (∀ i, σ.producers (some i) matches .returned _) ∧
          (∀ j, σ.consumers j matches .returned _) then
        some (σ.setParent (.returned true))
      else none
  | .aborted | .returned _ => none

/-- One step of the program with notifiers of these groups. -/
def stepWith (σ : State c) : Label c → Option (State c)
  | .parent ok => stepParentWith producerGroup consumerGroup σ ok
  | .producer i ok => stepChildProducerWith consumerGroup σ i ok
  | .consumer j ok => stepConsumer σ j ok

/-- The same while no semaphore operation fails. -/
def stepOkWith (σ : State c) (l : Label c) : Option (State c) :=
  if l.ok then stepWith producerGroup consumerGroup σ l else none

end Steps

/-- One step of the program whose groups are the producers and the consumers there are. -/
def step (σ : State c) (l : Label c) : Option (State c) :=
  stepWith c.producerCount c.consumerCount σ l

/-- The program while no semaphore operation fails. -/
def stepOk (σ : State c) (l : Label c) : Option (State c) := if l.ok then step σ l else none

end InterProcess.Buffering
