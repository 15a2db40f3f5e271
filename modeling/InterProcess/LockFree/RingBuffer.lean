import InterProcess.Lib.Circular
import Mathlib.Logic.Function.Basic

/-!
# `lock_free::ring_buffer`

A ring of `Capacity` values with a read and a write index. `push` and `pop`
move their index by a compare-exchange loop, without looking at the other one,
and then store or load the slot; `try_push` and `try_pop` check for a full or
an empty ring and give up when their compare-exchange fails; `empty` and `full`
load both indices. Each function is given step by step, one atomic access a step: a step
yields the ring after it and either the place the thread is at now or what the
function returns.

`pushes` and `pops` are history: how many compare-exchanges on each index have
succeeded.
-/

namespace InterProcess.LockFree

open Function

structure RingBuffer (α : Type) where
  data : ℕ → α
  readIdx : ℕ
  writeIdx : ℕ
  pushes : ℕ
  pops : ℕ

namespace RingBuffer

variable {α : Type}

/-- The ring as the default member initialisers leave it. -/
def fresh [Inhabited α] : RingBuffer α :=
  { data := fun _ => default, readIdx := 0, writeIdx := 0, pushes := 0, pops := 0 }

/-- Messages pushed and not yet popped, when `pops` has not overtaken `pushes`. -/
def outstanding (ring : RingBuffer α) : ℕ := ring.pushes - ring.pops

/-- A successful compare-exchange on the write index. -/
def claimSlot (capacity : ℕ) (ring : RingBuffer α) (writeIdx : ℕ) : RingBuffer α :=
  { ring with writeIdx := (writeIdx + 1) % capacity, pushes := ring.pushes + 1 }

/-- A successful compare-exchange on the read index. -/
def releaseSlot (capacity : ℕ) (ring : RingBuffer α) (readIdx : ℕ) : RingBuffer α :=
  { ring with readIdx := (readIdx + 1) % capacity, pops := ring.pops + 1 }

/-! ## `push` and `pop` -/

inductive PushPc
  | load
  | compareExchange (writeIdx : ℕ)
  | store (writeIdx : ℕ)
  deriving DecidableEq

def push (capacity : ℕ) (value : α) (ring : RingBuffer α) :
    PushPc → RingBuffer α × (PushPc ⊕ Unit)
  | .load => (ring, .inl (.compareExchange ring.writeIdx))
  | .compareExchange writeIdx =>
      if ring.writeIdx = writeIdx then
        (ring.claimSlot capacity writeIdx, .inl (.store writeIdx))
      -- a failed compare-exchange loads the index anew
      else (ring, .inl (.compareExchange ring.writeIdx))
  | .store writeIdx => ({ ring with data := update ring.data writeIdx value }, .inr ())

inductive PopPc
  | load
  | compareExchange (readIdx : ℕ)
  | read (readIdx : ℕ)
  deriving DecidableEq

def pop (capacity : ℕ) (ring : RingBuffer α) : PopPc → RingBuffer α × (PopPc ⊕ α)
  | .load => (ring, .inl (.compareExchange ring.readIdx))
  | .compareExchange readIdx =>
      if ring.readIdx = readIdx then
        (ring.releaseSlot capacity readIdx, .inl (.read readIdx))
      else (ring, .inl (.compareExchange ring.readIdx))
  | .read readIdx => (ring, .inr (ring.data readIdx))

/-! ## `try_push`, `try_pop`, `empty` and `full` -/

inductive TryPushPc
  | loadWriteIdx
  | loadReadIdx (writeIdx : ℕ)
  | compareExchange (writeIdx : ℕ)
  | store (writeIdx : ℕ)
  deriving DecidableEq

def tryPush (capacity : ℕ) (value : α) (ring : RingBuffer α) :
    TryPushPc → RingBuffer α × (TryPushPc ⊕ Bool)
  | .loadWriteIdx => (ring, .inl (.loadReadIdx ring.writeIdx))
  | .loadReadIdx writeIdx =>
      if (writeIdx + 1) % capacity = ring.readIdx then (ring, .inr false)
      else (ring, .inl (.compareExchange writeIdx))
  | .compareExchange writeIdx =>
      if ring.writeIdx = writeIdx then
        (ring.claimSlot capacity writeIdx, .inl (.store writeIdx))
      else (ring, .inr false)
  | .store writeIdx => ({ ring with data := update ring.data writeIdx value }, .inr true)

inductive TryPopPc
  | loadReadIdx
  | loadWriteIdx (readIdx : ℕ)
  | compareExchange (readIdx : ℕ)
  | read (readIdx : ℕ)
  deriving DecidableEq

def tryPop (capacity : ℕ) (ring : RingBuffer α) :
    TryPopPc → RingBuffer α × (TryPopPc ⊕ Option α)
  | .loadReadIdx => (ring, .inl (.loadWriteIdx ring.readIdx))
  | .loadWriteIdx readIdx =>
      if readIdx = ring.writeIdx then (ring, .inr none)
      else (ring, .inl (.compareExchange readIdx))
  | .compareExchange readIdx =>
      if ring.readIdx = readIdx then
        (ring.releaseSlot capacity readIdx, .inl (.read readIdx))
      else (ring, .inr none)
  | .read readIdx => (ring, .inr (some (ring.data readIdx)))

inductive EmptyPc
  | loadReadIdx
  | loadWriteIdx (readIdx : ℕ)
  deriving DecidableEq

def empty (ring : RingBuffer α) : EmptyPc → EmptyPc ⊕ Bool
  | .loadReadIdx => .inl (.loadWriteIdx ring.readIdx)
  | .loadWriteIdx readIdx => .inr (readIdx == ring.writeIdx)

/-- What `empty` returns when nobody else moves in between. -/
def isEmpty (ring : RingBuffer α) : Bool := ring.readIdx == ring.writeIdx

theorem empty_isEmpty (ring : RingBuffer α) : ∃ pc, empty ring .loadReadIdx = .inl pc ∧
    empty ring pc = .inr ring.isEmpty := ⟨.loadWriteIdx ring.readIdx, rfl, rfl⟩

inductive FullPc
  | loadWriteIdx
  | loadReadIdx (writeIdx : ℕ)
  deriving DecidableEq

def full (capacity : ℕ) (ring : RingBuffer α) : FullPc → FullPc ⊕ Bool
  | .loadWriteIdx => .inl (.loadReadIdx ring.writeIdx)
  | .loadReadIdx writeIdx => .inr ((writeIdx + 1) % capacity == ring.readIdx)

/-- What `full` returns when nobody else moves in between. -/
def isFull (capacity : ℕ) (ring : RingBuffer α) : Bool :=
  (ring.writeIdx + 1) % capacity == ring.readIdx

theorem full_isFull (capacity : ℕ) (ring : RingBuffer α) :
    ∃ pc, full capacity ring .loadWriteIdx = .inl pc ∧
      full capacity ring pc = .inr (ring.isFull capacity) :=
  ⟨.loadReadIdx ring.writeIdx, rfl, rfl⟩

end RingBuffer

end InterProcess.LockFree
