import InterProcess.LockFree.MessageThreads

/-!
# `async::logger`

One logging thread and `WriterCount` writer threads around a message ring
buffer. `log` waits for as many byte tokens as its message takes, pushes, and
notifies one writer; a writer waits for a notification, pops, gives the byte
tokens back and calls `format_func`. The destructor sets the stop flag,
notifies all writers and joins them.

The ring is `MessageRingBuffer.System` with the logging thread as `none` and
writer `w` as `some w`, so a call of `try_push` or `try_pop` runs through its
own atomic steps. Both notifiers are counting semaphores. The retry and pop
counters, which only statistics read, are left out.
-/

namespace InterProcess.Async

open Function LockFree LockFree.MessageRingBuffer

/-- The queue of a logger. `MessageQueueCapacity` is the initial value of a
System V semaphore, so it is at most 32767. -/
structure QueueConfig where
  ring : RingShape
  capacity_le : ring.capacity ≤ 32767

/-- What `log` builds from its arguments, when it fits the queue at all. -/
structure LogMessage (c : QueueConfig) where
  bytes : List UInt8
  fits : storage bytes ≤ c.ring.capacity

/-- The message as an argument of `try_push`. -/
def LogMessage.toMessage {c : QueueConfig} (m : LogMessage c) : Message where
  bytes := m.bytes
  fits := by
    have hfits := m.fits
    have hcap := c.capacity_le
    unfold storage at hfits
    omega

@[simp] theorem LogMessage.toMessage_bytes {c : QueueConfig} (m : LogMessage c) :
    m.toMessage.bytes = m.bytes := rfl

/-- The thread that calls `log` and in the end destroys the logger. -/
inductive LogPc (c : QueueConfig)
  | idle
  | waitForBytes (m : LogMessage c)
  | tryPush (m : LogMessage c)
  | notifyOne
  | stop
  | notifyAll
  | join
  | destroyed

/-- A thread inside `writer_group::start`. -/
inductive WriterPc
  | waitForOne
  | loadStopFlag
  | tryPop
  | notify (m : List UInt8)
  | format (m : List UInt8)
  | returned

/-- The logger with `n` writers. `pushed` and `formatted` are history: the messages whose
`try_push` has succeeded, the byte strings handed to `format_func`. -/
structure Logger (c : QueueConfig) (n : ℕ) where
  queue : System (Option (Fin n))
  readMessageBytes : ℕ
  writtenMessageCount : ℕ
  stopFlag : Bool
  log : LogPc c
  writers : Fin n → WriterPc
  pushed : List (List UInt8)
  formatted : List (List UInt8)

inductive Label (c : QueueConfig) (n : ℕ)
  | log (m : LogMessage c)
  | destroy
  | main
  | writer (w : Fin n)

variable {c : QueueConfig} {n : ℕ}

/-- The logger as its constructor leaves it, all writers started. -/
def Logger.init (c : QueueConfig) (n : ℕ) : Logger c n :=
  { queue := System.init _
    readMessageBytes := c.ring.capacity
    writtenMessageCount := 0
    stopFlag := false
    log := .idle
    writers := fun _ => .waitForOne
    pushed := []
    formatted := [] }

/-- The logging thread calls `try_push`. -/
def Logger.callTryPush (σ : Logger c n) (m : LogMessage c) : Logger c n :=
  { σ with
    queue := σ.queue.move none (.pushing (.loadWriteIdx m.toMessage))
    log := .tryPush m }

/-- Writer `w` calls `try_pop`. -/
def Logger.callTryPop (σ : Logger c n) (w : Fin n) : Logger c n :=
  { σ with
    queue := σ.queue.move (some w) (.popping .loadReadIdx)
    writers := update σ.writers w .tryPop }

def Logger.moveWriter (σ : Logger c n) (w : Fin n) (pc : WriterPc) : Logger c n :=
  { σ with writers := update σ.writers w pc }

/-- The next step of the logging thread inside `log` or `~logger`. -/
def stepMain (σ : Logger c n) : Option (Logger c n) :=
  match σ.log with
  | .idle => none
  | .waitForBytes m =>
      if storage m.bytes ≤ σ.readMessageBytes then
        some ({ σ with readMessageBytes := σ.readMessageBytes - storage m.bytes }.callTryPush m)
      else none
  | .tryPush m =>
      match σ.queue.threads none with
      | .pushing pc => some { σ with queue := resumePush c.ring σ.queue none pc }
      | .pushed (.ok _) => some { σ with log := .notifyOne, pushed := σ.pushed ++ [m.bytes] }
      | .pushed (.error .again) => some (σ.callTryPush m)
      -- log returns false and keeps the byte tokens
      | .pushed (.error _) => some { σ with log := .idle }
      | _ => none
  | .notifyOne =>
      some { σ with log := .idle, writtenMessageCount := σ.writtenMessageCount + 1 }
  | .stop => some { σ with log := .notifyAll, stopFlag := true }
  | .notifyAll =>
      some { σ with
        log := .join, writtenMessageCount := σ.writtenMessageCount + n }
  | .join =>
      if ∀ w, σ.writers w matches .returned then some { σ with log := .destroyed } else none
  | .destroyed => none

/-- The next step of writer `w`. -/
def stepWriter (σ : Logger c n) (w : Fin n) : Option (Logger c n) :=
  match σ.writers w with
  | .waitForOne =>
      if 0 < σ.writtenMessageCount then
        some ({ σ with writtenMessageCount := σ.writtenMessageCount - 1 }.moveWriter w
          .loadStopFlag)
      else none
  | .loadStopFlag =>
      if σ.stopFlag then some (σ.moveWriter w .returned) else some (σ.callTryPop w)
  | .tryPop =>
      match σ.queue.threads (some w) with
      | .popping pc => some { σ with queue := resumePop c.ring σ.queue (some w) pc }
      | .popped (.ok m) => some (σ.moveWriter w (.notify m))
      | .popped (.error .again) => some (σ.callTryPop w)
      | .popped (.error _) => some (σ.moveWriter w .returned)
      | _ => none
  | .notify m =>
      some ({ σ with readMessageBytes := σ.readMessageBytes + storage m }.moveWriter w
        (.format m))
  | .format m => some ({ σ with formatted := σ.formatted ++ [m] }.moveWriter w .waitForOne)
  | .returned => none

/-- One step: the client starts `log` or `~logger`, or a thread moves on. -/
def step (σ : Logger c n) : Label c n → Option (Logger c n)
  | .log m =>
      match σ.log with
      | .idle => some { σ with log := .waitForBytes m }
      | _ => none
  | .destroy =>
      match σ.log with
      | .idle => some { σ with log := .stop }
      | _ => none
  | .main => stepMain σ
  | .writer w => stepWriter σ w

end InterProcess.Async
