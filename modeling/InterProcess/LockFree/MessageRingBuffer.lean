import InterProcess.Lib.Bytes
import InterProcess.Lib.Circular

/-!
# `lock_free::message_ring_buffer`

The buffer is an array of `Capacity` elements of type `message_t`, each
`sizeof(message_t)` bytes wide, with a read and a write index that count
elements. A message of `k` bytes is stored as an 8-byte length header and `k`
payload bytes, and takes `8 + k` *elements*: `copy_data` copies `count` bytes
at the first byte of element `buffer_idx`, in two runs when it has to wrap.

`std::size_t` is 64 bits. The array is an object, so its size in bytes, and
with it every sum of two indices, stays below `2 ^ 64`; the one sum that can
wrap is `required_message_storage` of a caller's length, which keeps its
`% 2 ^ 64`.
-/

namespace InterProcess.LockFree

open Bytes Circular

/-- `core::error_code`. -/
inductive ErrorCode
  | again
  | full
  | empty
  | notEnoughSpace
  deriving DecidableEq, Repr

/-- One instance of the template: `Capacity` and `sizeof(message_t)`. -/
structure RingShape where
  capacity : ℕ
  stride : ℕ
  one_lt_capacity : 1 < capacity
  stride_pos : 0 < stride
  fits : capacity * stride < 2 ^ 63

namespace RingShape

variable (s : RingShape)

theorem capacity_pos : 0 < s.capacity := Nat.lt_of_succ_lt s.one_lt_capacity

theorem capacity_lt : s.capacity < 2 ^ 63 :=
  lt_of_le_of_lt (Nat.le_mul_of_pos_right _ s.stride_pos) s.fits

end RingShape

/-- `sizeof(std::size_t)`. -/
def sizeofSize : ℕ := 8

/-- The object representation of a `std::size_t`. -/
def sizeBytes (n : ℕ) : List UInt8 := littleEndian sizeofSize n

@[simp] theorem sizeBytes_length (n : ℕ) : (sizeBytes n).length = sizeofSize := by
  simp [sizeBytes]

theorem ofLittleEndian_sizeBytes {n : ℕ} (h : n < 2 ^ 64) :
    ofLittleEndian (sizeBytes n) = n := by
  rw [sizeBytes, ofLittleEndian_littleEndian]
  exact Nat.mod_eq_of_lt h

namespace MessageRingBuffer

/-- `required_message_storage`. -/
def requiredMessageStorage (messageSize : ℕ) : ℕ := (sizeofSize + messageSize) % 2 ^ 64

theorem requiredMessageStorage_eq {n : ℕ} (h : sizeofSize + n < 2 ^ 64) :
    requiredMessageStorage n = sizeofSize + n := Nat.mod_eq_of_lt h

/-- The runs `copy_data` copies and the index it leaves in `buffer_idx`. -/
def copyData (capacity bufferIdx count : ℕ) : List Run × ℕ :=
  let tailSize := min count (capacity - bufferIdx)
  if tailSize < count then
    let headSize := count - tailSize
    ([⟨bufferIdx, tailSize⟩, ⟨0, headSize⟩], headSize)
  else
    ([⟨bufferIdx, tailSize⟩], (bufferIdx + tailSize) % capacity)

/-- The checks of `try_push` on the two loaded indices: the next write index,
or the error it returns without touching the buffer. The fullness test compares
`write_idx + 1` with `read_idx` as they are, without a modulus. -/
def reserve (capacity writeIdx readIdx requiredMem : ℕ) : Except ErrorCode ℕ :=
  if writeIdx + 1 = readIdx then .error .full
  else
    let availableMem :=
      if readIdx ≤ writeIdx then (capacity - writeIdx) + readIdx - 1
      else readIdx - writeIdx - 1
    if availableMem < requiredMem then .error .notEnoughSpace
    else .ok ((writeIdx + requiredMem) % capacity)

/-- The member data of the class. -/
structure Buffer where
  bytes : Memory
  readIdx : ℕ
  writeIdx : ℕ

/-- A buffer as the default member initialisers leave it. -/
def Buffer.fresh : Buffer := { bytes := fun _ => 0, readIdx := 0, writeIdx := 0 }

variable (s : RingShape)

/-- `write`: copy `bytes` into the buffer from `write_idx` on. -/
def write (mem : Memory) (writeIdx : ℕ) (bytes : List UInt8) : Memory × ℕ :=
  let copied := copyData s.capacity writeIdx bytes.length
  (storeAll s.stride mem (chunks copied.1 bytes), copied.2)

/-- `read`: copy `count` bytes out of the buffer from `read_idx` on. -/
def read (mem : Memory) (readIdx count : ℕ) : List UInt8 × ℕ :=
  let copied := copyData s.capacity readIdx count
  (loadRuns s.stride mem copied.1, copied.2)

/-- `try_push`, run without interruption. The span's elements are
`sizeof(message_t)` wide too, but only the first `message.size()` bytes behind
its `data()` are copied: `message` is those bytes. -/
def tryPush (buffer : Buffer) (message : List UInt8) : Except ErrorCode Unit × Buffer :=
  let writeIdx := buffer.writeIdx
  let readIdx := buffer.readIdx
  match reserve s.capacity writeIdx readIdx (requiredMessageStorage message.length) with
  | .error error => (.error error, buffer)
  | .ok nextWriteIdx =>
      if buffer.writeIdx = writeIdx then
        let header := write s buffer.bytes writeIdx (sizeBytes message.length)
        let payload := write s header.1 header.2 message
        (.ok (), { buffer with bytes := payload.1, writeIdx := nextWriteIdx })
      else (.error .again, buffer)

/-- The storage of a `std::vector<message_t>`, byte by byte: `size()` elements
of `stride` bytes each. -/
abbrev MessageVector := List UInt8

/-- `message.resize(count)`: kept elements keep their bytes, new ones are zero. -/
def resize (message : MessageVector) (count : ℕ) : MessageVector :=
  message.take (count * s.stride) ++ List.replicate (count * s.stride - message.length) 0

/-- `memcpy(message.data(), …)`: overwrite the first bytes of the vector's storage. -/
def overwrite (message : MessageVector) (bytes : List UInt8) : MessageVector :=
  bytes ++ message.drop bytes.length

/-- `try_pop`, run without interruption, on the caller's vector. -/
def tryPop (buffer : Buffer) (message : MessageVector) :
    Except ErrorCode Unit × MessageVector × Buffer :=
  let readIdx := buffer.readIdx
  if readIdx = buffer.writeIdx then (.error .empty, message, buffer)
  else
    let header := read s buffer.bytes readIdx sizeofSize
    let msgSize := ofLittleEndian header.1
    if msgSize > s.capacity then (.error .again, message, buffer)
    else
      let nextReadIdx := (readIdx + (sizeofSize + msgSize)) % s.capacity
      if buffer.readIdx = readIdx then
        let payload := read s buffer.bytes header.2 msgSize
        (.ok (), overwrite (resize s message msgSize) payload.1,
          { buffer with readIdx := nextReadIdx })
      else (.error .again, message, buffer)

/-- `empty`. -/
def isEmpty (buffer : Buffer) : Bool := buffer.readIdx == buffer.writeIdx

/-- `full`. -/
def isFull (buffer : Buffer) : Bool := (buffer.writeIdx + 1) % s.capacity == buffer.readIdx

/-! ## What `copy_data` copies -/

section CopyData

variable {n idx count : ℕ}

/-- One run when the bytes fit before the end of the array, two when they wrap. -/
theorem copyData_cases (n idx count : ℕ) :
    (count ≤ n - idx ∧ copyData n idx count = ([⟨idx, count⟩], (idx + count) % n)) ∨
    (n - idx < count ∧ copyData n idx count =
      ([⟨idx, n - idx⟩, ⟨0, count - (n - idx)⟩], count - (n - idx))) := by
  rcases Nat.lt_or_ge (n - idx) count with h | h
  · refine .inr ⟨h, ?_⟩
    simp [copyData, Nat.min_eq_right h.le, h]
  · refine .inl ⟨h, ?_⟩
    simp [copyData, Nat.min_eq_left h]

/-- The runs together copy `count` bytes. -/
theorem copyData_size (n idx count : ℕ) : ((copyData n idx count).1.map Run.size).sum = count := by
  rcases copyData_cases n idx count with ⟨h, heq⟩ | ⟨h, heq⟩
  · simp [heq]
  · simp only [heq, List.map_cons, List.map_nil, List.sum_cons, List.sum_nil]
    omega

/-- The index is left just behind the copied elements. -/
theorem copyData_idx (hidx : idx < n) (hcount : count ≤ n) :
    (copyData n idx count).2 = (idx + count) % n := by
  rcases copyData_cases n idx count with ⟨h, heq⟩ | ⟨h, heq⟩
  · rw [heq]
  · rw [heq, show idx + count = (count - (n - idx)) + n by omega, Nat.add_mod_right,
      Nat.mod_eq_of_lt (by omega)]

/-- Every element a run touches is one of the `count` elements from `idx` on. -/
theorem copyData_cells (hidx : idx < n) (hcount : count ≤ n) :
    ∀ r ∈ (copyData n idx count).1, r.cells ⊆ Segment n idx count := by
  have htail : ∀ c, idx ≤ c → c < idx + count → c < n → c ∈ Segment n idx count :=
    fun c hle hlt hn => ⟨c - idx, by omega, by
      rw [Nat.add_sub_cancel' hle, Nat.mod_eq_of_lt hn]⟩
  have hhead : ∀ c, c + (n - idx) < count → c ∈ Segment n idx count :=
    fun c hlt => ⟨n - idx + c, by omega, by
      rw [show idx + (n - idx + c) = c + n by omega, Nat.add_mod_right,
        Nat.mod_eq_of_lt (by omega)]⟩
  intro r hr c hc
  obtain ⟨hle, hlt⟩ := Run.mem_cells.mp hc
  rcases copyData_cases n idx count with ⟨h, heq⟩ | ⟨h, heq⟩
  · rw [heq] at hr
    obtain rfl := List.mem_singleton.mp hr
    simp only at hle hlt
    exact htail c hle hlt (by omega)
  · rw [heq] at hr
    rcases List.mem_pair.mp hr with rfl | rfl
    · simp only at hle hlt
      exact htail c hle (by omega) (by omega)
    · simp only at hlt
      exact hhead c (by omega)

/-- The two runs of a wrapped copy do not meet. -/
theorem copyData_pairwise (hidx : idx < n) (hcount : count ≤ n) :
    (copyData n idx count).1.Pairwise fun r r' => Disjoint r.cells r'.cells := by
  rcases copyData_cases n idx count with ⟨h, heq⟩ | ⟨h, heq⟩
  · rw [heq]
    exact List.pairwise_singleton _ _
  · rw [heq]
    refine List.pairwise_pair.mpr (Set.disjoint_left.mpr fun c hc hc' => ?_)
    rw [Run.mem_cells] at hc hc'
    simp only at hc hc'
    omega

end CopyData

end MessageRingBuffer

end InterProcess.LockFree
