import InterProcess.Lib.Lts
import InterProcess.Lib.Threads
import InterProcess.LockFree.MessageLayout
import Mathlib.Data.Multiset.Basic

/-!
# `try_push` and `try_pop` between threads

The two functions step by step: every index load, compare-exchange and
`memcpy` of the ring is one atomic step, and any number of threads are each
somewhere inside a call. `resumePush` and `resumePop` are the steps of the
thread that moves.

The state carries a history the code does not have: the messages in the order
of the compare-exchange that claimed room for them (from there on `try_push`
cannot fail), how many of them a `try_pop` has claimed, and what successful
`try_pop`s have returned.

The assertions of the two functions hold in every interleaving: `asserts_hold`.
-/

namespace InterProcess.LockFree.MessageRingBuffer

open Bytes Circular Function Lts Threads

/-- Where a thread is inside `try_push`, with its local variables. `ticket` is
history: the position of its message among those claimed. -/
inductive PushPc
  | loadWriteIdx (message : Message)
  | loadReadIdx (message : Message) (writeIdx : ℕ)
  | compareExchange (message : Message) (writeIdx nextWriteIdx : ℕ)
  | copy (ticket : ℕ) (pending : List Chunk)
  deriving DecidableEq

/-- Where a thread is inside `try_pop`: `runs` are still to be copied, `got` is
copied already. `claim` is history: the message the read index was moved past. -/
inductive PopPc
  | loadReadIdx
  | loadWriteIdx (readIdx : ℕ)
  | readHeader (readIdx : ℕ) (runs : List Run) (got : List UInt8)
  | compareExchange (readIdx msgSize : ℕ)
  | readPayload (claim : List UInt8) (runs : List Run) (got : List UInt8)
  deriving DecidableEq

/-- A thread that uses the ring; `pushed` and `popped` hold the result of the
call that has just returned. -/
inductive Thread
  | idle
  | pushing (pc : PushPc)
  | pushed (result : Except ErrorCode Unit)
  | popping (pc : PopPc)
  | popped (result : Except ErrorCode (List UInt8))

/-- The thread is inside no call. -/
def Thread.isFree : Thread → Bool
  | .pushing _ | .popping _ => false
  | _ => true

/-- The ring, its threads, and the history. -/
structure System (ι : Type) where
  buffer : Buffer
  threads : ι → Thread
  claimed : List (List UInt8)
  popCount : ℕ
  returned : List (List UInt8)

inductive Label (ι : Type)
  | tryPush (i : ι) (message : Message)
  | tryPop (i : ι)
  | resume (i : ι)

section Steps

variable {ι : Type} [DecidableEq ι] (s : RingShape) (σ : System ι) (i : ι)

def System.move (thread : Thread) : System ι :=
  { σ with threads := update σ.threads i thread }

/-- `try_push` moves the write index: the room is claimed before a byte of the
message is written. -/
def System.claim (m : Message) (writeIdx nextWriteIdx : ℕ) : System ι :=
  { σ with
    buffer := { σ.buffer with writeIdx := nextWriteIdx }
    threads := update σ.threads i (.pushing
      (.copy σ.claimed.length (pushChunks s.capacity writeIdx m.bytes)))
    claimed := σ.claimed ++ [m.bytes] }

/-- One `memcpy` of `try_push`. -/
def System.write (ticket : ℕ) (chunk : Chunk) (pending : List Chunk) : System ι :=
  { σ with
    buffer := { σ.buffer with bytes := storeRun s.stride σ.buffer.bytes chunk }
    threads := update σ.threads i (.pushing (.copy ticket pending)) }

/-- `try_pop` moves the read index: the room is given back before a byte of the
payload is copied. -/
def System.take (readIdx msgSize : ℕ) : System ι :=
  { σ with
    buffer := { σ.buffer with readIdx := (readIdx + (sizeofSize + msgSize)) % s.capacity }
    threads := update σ.threads i (.popping (.readPayload
      (σ.claimed[σ.popCount]?.getD []) (payloadRuns s.capacity readIdx msgSize) []))
    popCount := σ.popCount + 1 }

/-- `try_pop` returns what it has copied. -/
def System.deliver (got : List UInt8) : System ι :=
  { σ with
    threads := update σ.threads i (.popped (.ok got))
    returned := σ.returned ++ [got] }

/-- One step of `try_push`. -/
def resumePush : PushPc → System ι
  | .loadWriteIdx m => σ.move i (.pushing (.loadReadIdx m σ.buffer.writeIdx))
  | .loadReadIdx m writeIdx =>
      match reserve s.capacity writeIdx σ.buffer.readIdx
          (requiredMessageStorage m.bytes.length) with
      | .error error => σ.move i (.pushed (.error error))
      | .ok nextWriteIdx => σ.move i (.pushing (.compareExchange m writeIdx nextWriteIdx))
  | .compareExchange m writeIdx nextWriteIdx =>
      if σ.buffer.writeIdx = writeIdx then σ.claim s i m writeIdx nextWriteIdx
      else σ.move i (.pushed (.error .again))
  | .copy ticket (chunk :: pending) => σ.write s i ticket chunk pending
  | .copy _ [] => σ.move i (.pushed (.ok ()))

/-- One step of `try_pop`. -/
def resumePop : PopPc → System ι
  | .loadReadIdx => σ.move i (.popping (.loadWriteIdx σ.buffer.readIdx))
  | .loadWriteIdx readIdx =>
      if readIdx = σ.buffer.writeIdx then σ.move i (.popped (.error .empty))
      else σ.move i (.popping (.readHeader readIdx (headerRuns s.capacity readIdx) []))
  | .readHeader readIdx (run :: runs) got =>
      σ.move i (.popping
        (.readHeader readIdx runs (got ++ loadRun s.stride σ.buffer.bytes run)))
  | .readHeader readIdx [] got =>
      -- the only check of a header that may be written while it is read
      if ofLittleEndian got > s.capacity then σ.move i (.popped (.error .again))
      else σ.move i (.popping (.compareExchange readIdx (ofLittleEndian got)))
  | .compareExchange readIdx msgSize =>
      if σ.buffer.readIdx = readIdx then σ.take s i readIdx msgSize
      else σ.move i (.popped (.error .again))
  | .readPayload claim (run :: runs) got =>
      σ.move i (.popping
        (.readPayload claim runs (got ++ loadRun s.stride σ.buffer.bytes run)))
  | .readPayload _ [] got => σ.deliver i got

/-- One step of the thread the label names. -/
def step : Label ι → Option (System ι)
  | .tryPush i m =>
      if (σ.threads i).isFree then some (σ.move i (.pushing (.loadWriteIdx m))) else none
  | .tryPop i =>
      if (σ.threads i).isFree then some (σ.move i (.popping .loadReadIdx)) else none
  | .resume i =>
      match σ.threads i with
      | .pushing pc => some (resumePush s σ i pc)
      | .popping pc => some (resumePop s σ i pc)
      | _ => none

end Steps

/-! ## What a step can do -/

section Moves

variable {ι : Type} [DecidableEq ι] {s : RingShape} {σ : System ι} {i : ι}

/-- The thread is inside `try_push` and has claimed no room, or has failed to. -/
def Thread.isOffering : Thread → Bool
  | .pushing (.copy _ _) => false
  | .pushing _ | .pushed (.error _) => true
  | _ => false

/-- The thread is inside `try_pop` and has claimed no message, or has failed to. -/
def Thread.isSearching : Thread → Bool
  | .popping (.readPayload _ _ _) => false
  | .popping _ | .popped (.error _) => true
  | _ => false

/-- The thread is inside `try_pop`, or has just come out of it. -/
def Thread.isPop : Thread → Bool
  | .popping _ | .popped _ => true
  | _ => false

theorem Thread.isPop_of_isSearching {t : Thread} (h : t.isSearching) : t.isPop := by
  cases t with
  | popping | popped => rfl
  | _ => cases h

/-- The steps of `try_push`, by what they change. -/
inductive PushMoves (s : RingShape) (σ : System ι) (i : ι) : System ι → Prop
  | offer {t : Thread} (hold : (σ.threads i).isOffering) (hnew : t.isOffering) :
      PushMoves s σ i (σ.move i t)
  | claim {m : Message} {next : ℕ}
      (hpc : σ.threads i = .pushing (.compareExchange m σ.buffer.writeIdx next)) :
      PushMoves s σ i (σ.claim s i m σ.buffer.writeIdx next)
  | write {ticket : ℕ} {chunk : Chunk} {pending : List Chunk}
      (hpc : σ.threads i = .pushing (.copy ticket (chunk :: pending))) :
      PushMoves s σ i (σ.write s i ticket chunk pending)
  | written {ticket : ℕ} (hpc : σ.threads i = .pushing (.copy ticket [])) :
      PushMoves s σ i (σ.move i (.pushed (.ok ())))

/-- The steps of `try_pop`, by what they change. -/
inductive PopMoves (s : RingShape) (σ : System ι) (i : ι) : System ι → Prop
  | search {t : Thread} (hold : (σ.threads i).isSearching) (hnew : t.isSearching) :
      PopMoves s σ i (σ.move i t)
  | take {msgSize : ℕ}
      (hpc : σ.threads i = .popping (.compareExchange σ.buffer.readIdx msgSize)) :
      PopMoves s σ i (σ.take s i σ.buffer.readIdx msgSize)
  | copy {claim got got' : List UInt8} {run : Run} {runs : List Run}
      (hpc : σ.threads i = .popping (.readPayload claim (run :: runs) got)) :
      PopMoves s σ i (σ.move i (.popping (.readPayload claim runs got')))
  | deliver {claim got : List UInt8}
      (hpc : σ.threads i = .popping (.readPayload claim [] got)) :
      PopMoves s σ i (σ.deliver i got)

theorem resumePush_moves {pc : PushPc} (hpc : σ.threads i = .pushing pc) :
    PushMoves s σ i (resumePush s σ i pc) := by
  match pc with
  | .loadWriteIdx m => exact .offer (by rw [hpc]; rfl) rfl
  | .loadReadIdx m writeIdx =>
      simp only [resumePush]
      split
      · exact .offer (by rw [hpc]; rfl) rfl
      · exact .offer (by rw [hpc]; rfl) rfl
  | .compareExchange m writeIdx next =>
      simp only [resumePush]
      split
      · next hwin =>
          subst hwin
          exact .claim hpc
      · exact .offer (by rw [hpc]; rfl) rfl
  | .copy ticket (chunk :: pending) => exact .write hpc
  | .copy ticket [] => exact .written hpc

theorem resumePop_moves {pc : PopPc} (hpc : σ.threads i = .popping pc) :
    PopMoves s σ i (resumePop s σ i pc) := by
  match pc with
  | .loadReadIdx => exact .search (by rw [hpc]; rfl) rfl
  | .loadWriteIdx readIdx =>
      simp only [resumePop]
      split
      · exact .search (by rw [hpc]; rfl) rfl
      · exact .search (by rw [hpc]; rfl) rfl
  | .readHeader readIdx (run :: runs) got => exact .search (by rw [hpc]; rfl) rfl
  | .readHeader readIdx [] got =>
      simp only [resumePop]
      split
      · exact .search (by rw [hpc]; rfl) rfl
      · exact .search (by rw [hpc]; rfl) rfl
  | .compareExchange readIdx msgSize =>
      simp only [resumePop]
      split
      · next hwin =>
          subst hwin
          exact .take hpc
      · exact .search (by rw [hpc]; rfl) rfl
  | .readPayload claim (run :: runs) got => exact .copy hpc
  | .readPayload claim [] got => exact .deliver hpc

section Frame

variable {σ' : System ι}

theorem PushMoves.threads_of_ne (h : PushMoves s σ i σ') {j : ι} (hj : j ≠ i) :
    σ'.threads j = σ.threads j := by
  cases h <;> exact update_of_ne hj _ _

theorem PushMoves.popCount_eq (h : PushMoves s σ i σ') : σ'.popCount = σ.popCount := by
  cases h <;> rfl

theorem PushMoves.length_le (h : PushMoves s σ i σ') : σ.claimed.length ≤ σ'.claimed.length := by
  cases h with
  | claim => exact List.prefix_append _ _ |>.length_le
  | _ => exact le_rfl

theorem PushMoves.take_eq (h : PushMoves s σ i σ') (hle : σ.popCount ≤ σ.claimed.length) :
    σ'.claimed.take σ'.popCount = σ.claimed.take σ.popCount := by
  cases h with
  | claim => exact List.take_append_of_le_length hle
  | _ => rfl

theorem PopMoves.threads_of_ne (h : PopMoves s σ i σ') {j : ι} (hj : j ≠ i) :
    σ'.threads j = σ.threads j := by
  cases h <;> exact update_of_ne hj _ _

theorem PopMoves.isPop (h : PopMoves s σ i σ') : (σ'.threads i).isPop := by
  cases h with
  | search hold hnew => simpa [System.move] using Thread.isPop_of_isSearching hnew
  | take => simp [System.take, Thread.isPop]
  | copy => simp [System.move, Thread.isPop]
  | deliver => simp [System.deliver, Thread.isPop]

theorem PopMoves.claimed_eq (h : PopMoves s σ i σ') : σ'.claimed = σ.claimed := by
  cases h <;> rfl

theorem PopMoves.writeIdx_eq (h : PopMoves s σ i σ') :
    σ'.buffer.writeIdx = σ.buffer.writeIdx := by
  cases h <;> rfl

theorem PopMoves.popCount_le (h : PopMoves s σ i σ') : σ.popCount ≤ σ'.popCount := by
  cases h with
  | take => exact Nat.le_succ _
  | _ => exact le_rfl

end Frame

end Moves

/-- A fresh ring that nobody has called yet. -/
def System.init (ι : Type) : System ι :=
  { buffer := .fresh, threads := fun _ => .idle, claimed := [], popCount := 0, returned := [] }

/-- What is returned was pushed, byte for byte and no message twice. -/
def Delivered {ι : Type} (σ : System ι) : Prop :=
  (σ.returned : Multiset (List UInt8)) ≤ (σ.claimed : Multiset (List UInt8))

/-! ## The assertions -/

section Asserts

variable {ι : Type} {s : RingShape} {σ : System ι} {i : ι}

/-- The assertions in front of a thread: behind the two writes of `try_push`, and before the two
reads of `try_pop`. -/
def Asserted (s : RingShape) : Thread → Prop
  | .pushing (.compareExchange m writeIdx next) =>
      (copyData s.capacity (copyData s.capacity writeIdx sizeofSize).2 m.bytes.length).2 = next
  | .popping (.readHeader readIdx _ _) => readIdx < s.capacity
  | .popping (.compareExchange readIdx _) =>
      (copyData s.capacity readIdx sizeofSize).2 < s.capacity
  | _ => True

/-- An index is one of an element, and has been moved only where there is room for a header. -/
structure InRange (s : RingShape) (idx : ℕ) : Prop where
  lt : idx < s.capacity
  roomy : idx ≠ 0 → sizeofSize ≤ s.capacity

/-- What a thread has loaded is in range, and it reads a header where there is room for one. -/
def Loaded (s : RingShape) : Thread → Prop
  | .pushing (.loadReadIdx _ writeIdx) => InRange s writeIdx
  | .pushing (.compareExchange m writeIdx next) =>
      InRange s next ∧
      (copyData s.capacity (copyData s.capacity writeIdx sizeofSize).2 m.bytes.length).2 = next
  | .popping (.loadWriteIdx readIdx) => InRange s readIdx
  | .popping (.readHeader readIdx _ _) | .popping (.compareExchange readIdx _) =>
      readIdx < s.capacity ∧ sizeofSize ≤ s.capacity
  | _ => True

theorem Loaded.asserted {t : Thread} (h : Loaded s t) : Asserted s t := by
  match t with
  | .pushing (.compareExchange m writeIdx next) => exact h.2
  | .popping (.readHeader readIdx runs got) => exact h.1
  | .popping (.compareExchange readIdx msgSize) =>
      show (copyData s.capacity readIdx sizeofSize).2 < s.capacity
      rw [copyData_idx h.1 h.2]
      exact Nat.mod_lt _ s.capacity_pos
  | .pushing (.loadWriteIdx _) | .pushing (.loadReadIdx _ _) | .pushing (.copy _ _) => trivial
  | .popping .loadReadIdx | .popping (.loadWriteIdx _) | .popping (.readPayload _ _ _) => trivial
  | .idle | .pushed _ | .popped _ => trivial

structure Indexed (s : RingShape) (σ : System ι) : Prop where
  readIdx : InRange s σ.buffer.readIdx
  writeIdx : InRange s σ.buffer.writeIdx
  threads : ∀ j, Loaded s (σ.threads j)

theorem indexed_init (s : RingShape) : Indexed s (System.init ι) where
  readIdx := ⟨s.capacity_pos, fun h => absurd rfl h⟩
  writeIdx := ⟨s.capacity_pos, fun h => absurd rfl h⟩
  threads := fun _ => trivial

/-- A next write index is in range, and the two writes come to it. -/
theorem Indexed.reserve (h : Indexed s σ) {m : Message} {writeIdx next : ℕ}
    (hw : writeIdx < s.capacity)
    (hok : reserve s.capacity writeIdx σ.buffer.readIdx
      (requiredMessageStorage m.bytes.length) = .ok next) :
    Loaded s (.pushing (.compareExchange m writeIdx next)) := by
  rw [requiredMessageStorage_eq m.fits] at hok
  have hr := h.readIdx.lt
  have hroom : sizeofSize ≤ s.capacity :=
    (sizeofSize_le_storage m.bytes).trans (lt_of_reserve hw hr hok).le
  refine ⟨⟨?_, fun _ => hroom⟩, write_idx_eq hw hr hok⟩
  rw [reserve_ok hok]
  exact Nat.mod_lt _ s.capacity_pos

variable [DecidableEq ι]

theorem Indexed.move (h : Indexed s σ) {t : Thread} (ht : Loaded s t) : Indexed s (σ.move i t) :=
  ⟨h.readIdx, h.writeIdx, forall_update ht fun j _ => h.threads j⟩

theorem resumePush_indexed (h : Indexed s σ) {pc : PushPc} (hpc : σ.threads i = .pushing pc) :
    Indexed s (resumePush s σ i pc) := by
  have hloaded := h.threads i
  rw [hpc] at hloaded
  match pc with
  | .loadWriteIdx m => exact h.move h.writeIdx
  | .loadReadIdx m writeIdx =>
      simp only [resumePush]
      split
      · exact h.move trivial
      · next hok => exact h.move (h.reserve hloaded.lt hok)
  | .compareExchange m writeIdx next =>
      simp only [resumePush]
      split
      · exact ⟨h.readIdx, hloaded.1, forall_update trivial fun j _ => h.threads j⟩
      · exact h.move trivial
  | .copy ticket (chunk :: pending) =>
      exact ⟨h.readIdx, h.writeIdx, forall_update trivial fun j _ => h.threads j⟩
  | .copy ticket [] => exact h.move trivial

theorem resumePop_indexed (h : Indexed s σ) {pc : PopPc} (hpc : σ.threads i = .popping pc) :
    Indexed s (resumePop s σ i pc) := by
  have hloaded := h.threads i
  rw [hpc] at hloaded
  match pc with
  | .loadReadIdx => exact h.move h.readIdx
  | .loadWriteIdx readIdx =>
      simp only [resumePop]
      split
      · exact h.move trivial
      · next hne =>
          -- one of the two indices has been moved
          have hroom : sizeofSize ≤ s.capacity := by
            by_cases hzero : readIdx = 0
            · exact h.writeIdx.roomy fun hw => hne (hzero.trans hw.symm)
            · exact hloaded.roomy hzero
          exact h.move ⟨hloaded.lt, hroom⟩
  | .readHeader readIdx (run :: runs) got => exact h.move hloaded
  | .readHeader readIdx [] got =>
      simp only [resumePop]
      split
      · exact h.move trivial
      · exact h.move hloaded
  | .compareExchange readIdx msgSize =>
      simp only [resumePop]
      split
      · exact ⟨⟨Nat.mod_lt _ s.capacity_pos, fun _ => hloaded.2⟩, h.writeIdx,
          forall_update trivial fun j _ => h.threads j⟩
      · exact h.move trivial
  | .readPayload claim (run :: runs) got => exact h.move trivial
  | .readPayload claim [] got =>
      exact ⟨h.readIdx, h.writeIdx, forall_update trivial fun j _ => h.threads j⟩

theorem step_indexed (σ : System ι) (l : Label ι) (σ' : System ι) (h : Indexed s σ)
    (hstep : step s σ l = some σ') : Indexed s σ' := by
  cases l with
  | tryPush i m =>
      simp only [step, Option.ite_none_right_eq_some, Option.some.injEq] at hstep
      obtain ⟨-, rfl⟩ := hstep
      exact h.move trivial
  | tryPop i =>
      simp only [step, Option.ite_none_right_eq_some, Option.some.injEq] at hstep
      obtain ⟨-, rfl⟩ := hstep
      exact h.move trivial
  | resume i =>
      simp only [step] at hstep
      split at hstep
      · next pc hpc => cases hstep; exact resumePush_indexed h hpc
      · next pc hpc => cases hstep; exact resumePop_indexed h hpc
      · cases hstep

/-- No assertion of `try_push` or `try_pop` fails, however the threads interleave. -/
theorem asserts_hold (s : RingShape) (σ : System ι)
    (h : Reachable (step s) (System.init ι) σ) (i : ι) : Asserted s (σ.threads i) :=
  ((h.induction (indexed_init s) step_indexed).threads i).asserted

end Asserts

end InterProcess.LockFree.MessageRingBuffer
