import InterProcess.LockFree.MessageLayout

/-!
# The message ring buffer is a FIFO queue

One thread at a time: any sequence of `try_push` and `try_pop` calls on a
fresh buffer behaves as a queue of byte strings whose storage is bounded by
`Capacity - 1`. The abstract queue (`runQueue`) is what the buffer is for; the
relation `Holds` ties the two indices and the bytes between them to it, and
every call keeps it (`tryPush_spec`, `tryPop_spec`). `messageRingBuffer_fifo`
is the result over whole sequences of calls.
-/

namespace InterProcess.LockFree.MessageRingBuffer

open Bytes Circular

/-! ## Sequences of calls -/

/-- A call with its argument. -/
inductive Call
  | tryPush (message : Message)
  | tryPop (vector : MessageVector)

/-- The buffer a call leaves behind. -/
def callBuffer (s : RingShape) (buffer : Buffer) : Call → Buffer
  | .tryPush message => (tryPush s buffer message.bytes).2
  | .tryPop vector => (tryPop s buffer vector).2.2

def runCalls (s : RingShape) (buffer : Buffer) (calls : List Call) : Buffer :=
  calls.foldl (callBuffer s) buffer

/-! ## The abstract queue -/

/-- The messages pushed and not yet popped, oldest first. -/
abbrev Queue := List (List UInt8)

/-- The budget of the queue: one element of the array always stays free. -/
def Accepts (s : RingShape) (q : Queue) (m : List UInt8) : Prop :=
  storage m + storageSum q ≤ s.capacity - 1

instance (s : RingShape) (q : Queue) (m : List UInt8) : Decidable (Accepts s q m) :=
  inferInstanceAs (Decidable (_ ≤ _))

def callQueue (s : RingShape) (q : Queue) : Call → Queue
  | .tryPush message => if Accepts s q message.bytes then q ++ [message.bytes] else q
  | .tryPop _ => q.tail

def runQueue (s : RingShape) (q : Queue) (calls : List Call) : Queue :=
  calls.foldl (callQueue s) q

/-- The buffer answers its callers as the queue `q` would: `try_push` as long as
the budget lasts, `try_pop` with the oldest message, and a call that fails
leaves the buffer and the caller's vector as they were. -/
structure BehavesAs (s : RingShape) (buffer : Buffer) (q : Queue) : Prop where
  push_ok : ∀ m : Message,
    (tryPush s buffer m.bytes).1 = .ok () ↔ Accepts s q m.bytes
  push_error : ∀ (m : Message) (error : ErrorCode),
    (tryPush s buffer m.bytes).1 = .error error → (tryPush s buffer m.bytes).2 = buffer
  pop_ok : ∀ v : MessageVector, (tryPop s buffer v).1 = .ok () ↔ q ≠ []
  pop_oldest : ∀ (v : MessageVector) (m : List UInt8), q.head? = some m →
    (tryPop s buffer v).2.1.length = m.length * s.stride ∧
      (tryPop s buffer v).2.1.take m.length = m
  pop_error : ∀ (v : MessageVector) (error : ErrorCode),
    (tryPop s buffer v).1 = .error error → (tryPop s buffer v).2 = (v, buffer)
  empty_iff : isEmpty buffer = true ↔ storageSum q = 0
  full_iff : isFull s buffer = true ↔ storageSum q = s.capacity - 1

/-! ## The relation between buffer and queue -/

/-- The messages of `q` lie behind one another from the read index on, and the
write index is where the last one ends. -/
structure Holds (s : RingShape) (buffer : Buffer) (q : Queue) : Prop where
  readIdx_lt : buffer.readIdx < s.capacity
  room : storageSum q < s.capacity
  writeIdx_eq : buffer.writeIdx = (buffer.readIdx + storageSum q) % s.capacity
  stored : ∀ k (hk : k < q.length), Stored s buffer.bytes
    ((buffer.readIdx + storageSum (q.take k)) % s.capacity) q[k]

variable {s : RingShape} {buffer : Buffer} {q : Queue}

theorem holds_fresh (s : RingShape) : Holds s .fresh [] where
  readIdx_lt := s.capacity_pos
  room := s.capacity_pos
  writeIdx_eq := by simp [Buffer.fresh]
  stored := by
    intro k hk
    cases hk

theorem Holds.writeIdx_lt (h : Holds s buffer q) : buffer.writeIdx < s.capacity := by
  rw [h.writeIdx_eq]
  exact Nat.mod_lt _ s.capacity_pos

/-- Appending a message leaves the queued ones where they are. -/
theorem Holds.push (h : Holds s buffer q) {m : List UInt8} (hm : Accepts s q m) :
    Holds s { buffer with
      bytes := storeAll s.stride buffer.bytes (pushChunks s.capacity buffer.writeIdx m)
      writeIdx := (buffer.writeIdx + storage m) % s.capacity } (q ++ [m]) := by
  have hcap := s.one_lt_capacity
  have hroom : storage m + storageSum q < s.capacity := by
    unfold Accepts at hm
    omega
  refine ⟨h.readIdx_lt, ?_, ?_, ?_⟩
  · rw [storageSum_append, storageSum_cons, storageSum_nil]
    omega
  · show (buffer.writeIdx + storage m) % s.capacity = _
    rw [h.writeIdx_eq, Nat.mod_add_mod, storageSum_append, storageSum_cons, storageSum_nil,
      Nat.add_zero, Nat.add_assoc]
  · intro k hk
    rw [List.length_append, List.length_singleton] at hk
    by_cases hold : k < q.length
    · -- an old message: its elements are not among those just written
      rw [List.getElem_append_left hold, List.take_append_of_le_length hold.le]
      have hend := storageSum_take_add_le hold
      refine (h.stored k hold).congr (Nat.mod_lt _ s.capacity_pos) (by omega) ?_
      refine pushChunks_agree h.writeIdx_lt (by omega) ?_ buffer.bytes
      rw [h.writeIdx_eq, segment_mod, segment_mod]
      exact (Segment.disjoint (by omega) (by omega)).symm
    · -- the new message, written at the old write index
      obtain rfl : k = q.length := by omega
      rw [List.getElem_concat_length rfl, List.take_left' rfl, ← h.writeIdx_eq]
      exact stored_storeAll h.writeIdx_lt (by omega) buffer.bytes

/-- Dropping the oldest message moves the read index to the next one. -/
theorem Holds.pop {m : List UInt8} (h : Holds s buffer (m :: q)) :
    Holds s { buffer with readIdx := (buffer.readIdx + storage m) % s.capacity } q := by
  have hroom := h.room
  rw [storageSum_cons] at hroom
  refine ⟨Nat.mod_lt _ s.capacity_pos, by omega, ?_, ?_⟩
  · show buffer.writeIdx = _
    rw [h.writeIdx_eq, Nat.mod_add_mod, storageSum_cons, Nat.add_assoc]
  · intro k hk
    have hnext := h.stored (k + 1) (Nat.succ_lt_succ hk)
    rw [List.take_succ_cons, storageSum_cons, ← Nat.add_assoc, List.getElem_cons_succ] at hnext
    rwa [Nat.mod_add_mod]

/-- The oldest message lies at the read index. -/
theorem Holds.oldest {m : List UInt8} (h : Holds s buffer (m :: q)) :
    Stored s buffer.bytes buffer.readIdx m := by
  have hzero := h.stored 0 (Nat.succ_pos _)
  rwa [List.take_zero, storageSum_nil, Nat.add_zero, Nat.mod_eq_of_lt h.readIdx_lt] at hzero

theorem Holds.indices_eq_iff (h : Holds s buffer q) :
    buffer.readIdx = buffer.writeIdx ↔ storageSum q = 0 := by
  have hr := h.readIdx_lt
  constructor
  · intro heq
    have hres : (buffer.readIdx + storageSum q) % s.capacity =
        (buffer.readIdx + 0) % s.capacity := by
      rw [← h.writeIdx_eq, Nat.add_zero, Nat.mod_eq_of_lt hr, heq]
    exact mod_inj_of_lt h.room s.capacity_pos hres
  · intro hzero
    rw [h.writeIdx_eq, hzero, Nat.add_zero, Nat.mod_eq_of_lt hr]

/-! ## The calls -/

/-- `try_push` on a buffer that holds `q`. -/
theorem tryPush_spec (h : Holds s buffer q) (m : Message) :
    (Accepts s q m.bytes ∧ (tryPush s buffer m.bytes).1 = .ok () ∧
      Holds s (tryPush s buffer m.bytes).2 (q ++ [m.bytes])) ∨
    (¬ Accepts s q m.bytes ∧ ∃ error, tryPush s buffer m.bytes = (.error error, buffer)) := by
  have hcap := s.one_lt_capacity
  have hreq : requiredMessageStorage m.bytes.length = storage m.bytes :=
    requiredMessageStorage_eq m.fits
  rcases reserve_cases h.readIdx_lt h.room h.writeIdx_eq (storage_pos m.bytes) with
    ⟨hfits, hok⟩ | ⟨hfull, error, herror⟩
  · have haccepts : Accepts s q m.bytes := by
      unfold Accepts
      omega
    have hpush : tryPush s buffer m.bytes = (.ok (), { buffer with
        bytes := storeAll s.stride buffer.bytes (pushChunks s.capacity buffer.writeIdx m.bytes)
        writeIdx := (buffer.writeIdx + storage m.bytes) % s.capacity }) := by
      simp [tryPush, hreq, hok, write, pushChunks, headerRuns, payloadRuns, storeAll_append]
    refine .inl ⟨haccepts, ?_, ?_⟩
    · rw [hpush]
    · rw [hpush]
      exact h.push haccepts
  · refine .inr ⟨?_, error, ?_⟩
    · unfold Accepts
      omega
    · simp [tryPush, hreq, herror]

/-- `try_pop` on a buffer that holds `q`. -/
theorem tryPop_spec (h : Holds s buffer q) (v : MessageVector) :
    (q = [] ∧ tryPop s buffer v = (.error .empty, v, buffer)) ∨
    (∃ m q', q = m :: q' ∧ (tryPop s buffer v).1 = .ok () ∧
      (tryPop s buffer v).2.1 = overwrite (resize s v m.length) m ∧
      Holds s (tryPop s buffer v).2.2 q') := by
  cases q with
  | nil =>
      have heq := h.indices_eq_iff.mpr rfl
      exact .inl ⟨rfl, by simp [tryPop, heq]⟩
  | cons m q =>
      have hne : buffer.readIdx ≠ buffer.writeIdx := by
        have hpos := storage_pos m
        rw [ne_eq, h.indices_eq_iff, storageSum_cons]
        omega
      have hroom := h.room
      rw [storageSum_cons] at hroom
      have hstored := h.oldest
      have hsize := hstored.decode (by omega)
      have hpayload := hstored.payload
      rw [headerRuns] at hsize
      rw [payloadRuns] at hpayload
      have hlen : ¬ m.length > s.capacity := by
        unfold storage at hroom
        omega
      have hpop : tryPop s buffer v = (.ok (), overwrite (resize s v m.length) m,
          { buffer with readIdx := (buffer.readIdx + storage m) % s.capacity }) := by
        simp only [tryPop, read, hne, hsize, hlen, hpayload, if_false, if_true, storage]
      refine .inr ⟨m, q, rfl, ?_, ?_, ?_⟩
      · rw [hpop]
      · rw [hpop]
      · rw [hpop]
        exact h.pop

/-- Every call keeps the relation. -/
theorem callBuffer_holds (h : Holds s buffer q) (call : Call) :
    Holds s (callBuffer s buffer call) (callQueue s q call) := by
  cases call with
  | tryPush m =>
      rcases tryPush_spec h m with ⟨haccepts, -, hnext⟩ | ⟨hrefuses, error, herror⟩
      · rw [callQueue, if_pos haccepts]
        exact hnext
      · rw [callQueue, if_neg hrefuses, callBuffer, herror]
        exact h
  | tryPop v =>
      rcases tryPop_spec h v with ⟨rfl, hempty⟩ | ⟨m, q', rfl, -, -, hnext⟩
      · rw [callBuffer, hempty]
        exact h
      · exact hnext

theorem runCalls_holds (calls : List Call) :
    ∀ {buffer : Buffer} {q : Queue}, Holds s buffer q →
      Holds s (runCalls s buffer calls) (runQueue s q calls) := by
  induction calls with
  | nil => intro buffer q h; exact h
  | cons call calls ih => intro buffer q h; exact ih (callBuffer_holds h call)

/-! ## What callers see -/

theorem resize_length (s : RingShape) (v : MessageVector) (count : ℕ) :
    (resize s v count).length = count * s.stride := by
  unfold resize
  rw [List.length_append, List.length_take, List.length_replicate]
  omega

/-- The vector `try_pop` fills has as many elements as the message has bytes. -/
theorem overwrite_resize_length (s : RingShape) (v : MessageVector) (m : List UInt8) :
    (overwrite (resize s v m.length) m).length = m.length * s.stride := by
  have hle : m.length ≤ m.length * s.stride := Nat.le_mul_of_pos_right _ s.stride_pos
  unfold overwrite
  rw [List.length_append, List.length_drop, resize_length]
  omega

/-- A buffer that holds `q` answers as `q` does. -/
theorem Holds.behavesAs (h : Holds s buffer q) : BehavesAs s buffer q where
  push_ok := by
    intro m
    rcases tryPush_spec h m with ⟨haccepts, hok, -⟩ | ⟨hrefuses, error, herror⟩
    · exact ⟨fun _ => haccepts, fun _ => hok⟩
    · refine ⟨fun hok => ?_, fun haccepts => absurd haccepts hrefuses⟩
      rw [herror] at hok
      cases hok
  push_error := by
    intro m error herror
    rcases tryPush_spec h m with ⟨-, hok, -⟩ | ⟨-, error', herror'⟩
    · rw [hok] at herror
      cases herror
    · rw [herror']
  pop_ok := by
    intro v
    rcases tryPop_spec h v with ⟨rfl, hempty⟩ | ⟨m, q', rfl, hok, -, -⟩
    · refine ⟨fun hok => ?_, fun hne => absurd rfl hne⟩
      rw [hempty] at hok
      cases hok
    · exact ⟨fun _ => List.cons_ne_nil m q', fun _ => hok⟩
  pop_oldest := by
    intro v m hm
    rcases tryPop_spec h v with ⟨rfl, -⟩ | ⟨m', q', rfl, -, hvector, -⟩
    · cases hm
    · obtain rfl : m' = m := Option.some.inj hm
      rw [hvector]
      exact ⟨overwrite_resize_length s v m', List.take_left' rfl⟩
  pop_error := by
    intro v error herror
    rcases tryPop_spec h v with ⟨-, hempty⟩ | ⟨m, q', -, hok, -, -⟩
    · rw [hempty]
    · rw [hok] at herror
      cases herror
  empty_iff := by
    rw [isEmpty, beq_iff_eq]
    exact h.indices_eq_iff
  full_iff := by
    have hcap := s.one_lt_capacity
    have hroom := h.room
    have hr := h.readIdx_lt
    rw [isFull, beq_iff_eq, h.writeIdx_eq, Nat.mod_add_mod]
    rcases Nat.lt_or_ge (buffer.readIdx + storageSum q + 1) s.capacity with hlt | hge
    · rw [Nat.mod_eq_of_lt hlt]
      omega
    · rw [Nat.mod_eq_sub_mod hge, Nat.mod_eq_of_lt (by omega)]
      omega

/-- Any sequence of calls on a fresh buffer leaves it answering exactly as the
bounded queue after the same calls. -/
theorem messageRingBuffer_fifo (s : RingShape) (calls : List Call) :
    BehavesAs s (runCalls s .fresh calls) (runQueue s [] calls) :=
  (runCalls_holds calls (holds_fresh s)).behavesAs

end InterProcess.LockFree.MessageRingBuffer
