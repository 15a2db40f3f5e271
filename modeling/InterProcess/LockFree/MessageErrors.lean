import InterProcess.LockFree.MessageFifo

/-!
# What a failing `try_push` reports

The class tests twice whether the buffer is full. `full()` takes the element
behind the write index modulo the capacity; `try_push` does not, and says
`not_enough_space` instead of `full` when the write index is on the last element
and the read index on the first.
-/

namespace InterProcess.LockFree.MessageRingBuffer

variable {s : RingShape} {buffer : Buffer} {q : Queue} {n w r : ℕ}

/-- A message that does not fit is refused with `full` if the buffer is full, and with
`not_enough_space` otherwise. -/
def ReportsFullness (s : RingShape) (buffer : Buffer) (q : Queue) (m : Message) : Prop :=
  ¬Accepts s q m.bytes →
    (tryPush s buffer m.bytes).1 =
      .error (if isFull s buffer then .full else .notEnoughSpace)

theorem reserve_error {req : ℕ} {error : ErrorCode} (h : reserve n w r req = .error error) :
    error = if w + 1 = r then .full else .notEnoughSpace := by
  by_cases hfull : w + 1 = r
  · rw [reserve, if_pos hfull, Except.error.injEq] at h
    rw [if_pos hfull, h]
  · by_cases hspace : (if r ≤ w then (n - w) + r - 1 else r - w - 1) < req
    · simp only [reserve, hfull, hspace, if_false, if_true, Except.error.injEq] at h
      rw [if_neg hfull, h]
    · simp [reserve, hfull, hspace] at h

/-- The indices meet at the end of the array, or anywhere else. -/
theorem next_eq_iff (hw : w < n) (hr : r < n) :
    (w + 1) % n = r ↔ w + 1 = r ∨ (w = n - 1 ∧ r = 0) := by
  rcases Nat.lt_or_ge (w + 1) n with hlt | hge
  · rw [Nat.mod_eq_of_lt hlt]
    omega
  · obtain rfl : n = w + 1 := by omega
    rw [Nat.mod_self]
    omega

/-- What `try_push` reports is its own test. -/
theorem Holds.tryPush_error (h : Holds s buffer q) {m : Message} (hm : ¬Accepts s q m.bytes) :
    (tryPush s buffer m.bytes).1 =
      .error (if buffer.writeIdx + 1 = buffer.readIdx then .full else .notEnoughSpace) := by
  have hcap := s.one_lt_capacity
  have hreq : requiredMessageStorage m.bytes.length = storage m.bytes :=
    requiredMessageStorage_eq m.fits
  rcases reserve_cases h.readIdx_lt h.room h.writeIdx_eq (storage_pos m.bytes) with
    ⟨hfits, -⟩ | ⟨-, error, herror⟩
  · exfalso
    unfold Accepts at hm
    omega
  · rw [← reserve_error herror]
    simp [tryPush, hreq, herror]

theorem Holds.isFull_iff (h : Holds s buffer q) :
    isFull s buffer = true ↔ buffer.writeIdx + 1 = buffer.readIdx ∨
      (buffer.writeIdx = s.capacity - 1 ∧ buffer.readIdx = 0) := by
  rw [isFull, beq_iff_eq]
  exact next_eq_iff h.writeIdx_lt h.readIdx_lt

/-- A full buffer takes no message. -/
theorem Holds.not_accepts (h : Holds s buffer q) (hfull : isFull s buffer = true)
    (m : Message) : ¬Accepts s q m.bytes := by
  have hsum := h.behavesAs.full_iff.mp hfull
  have hpos := storage_pos m.bytes
  unfold Accepts
  omega

theorem Holds.reportsFullness_iff (h : Holds s buffer q) (m : Message) :
    ReportsFullness s buffer q m ↔
      ¬(buffer.writeIdx = s.capacity - 1 ∧ buffer.readIdx = 0) := by
  constructor
  · rintro hreports ⟨hw, hr⟩
    have hfull : isFull s buffer = true := h.isFull_iff.mpr (.inr ⟨hw, hr⟩)
    have hrefused := h.not_accepts hfull m
    have herror := hreports hrefused
    rw [h.tryPush_error hrefused, if_neg (by omega), if_pos hfull] at herror
    cases herror
  · intro hmeet hrefused
    rw [h.tryPush_error hrefused]
    have hsame : buffer.writeIdx + 1 = buffer.readIdx ↔ isFull s buffer = true :=
      ⟨fun hnext => h.isFull_iff.mpr (.inl hnext), fun hfull =>
        (h.isFull_iff.mp hfull).resolve_right hmeet⟩
    simp only [hsame]

/-- After any calls the two tests agree iff the write index is not on the last element with
the read index on the first. -/
theorem tryPush_reportsFullness_iff (s : RingShape) (calls : List Call) (m : Message) :
    ReportsFullness s (runCalls s .fresh calls) (runQueue s [] calls) m ↔
      ¬((runCalls s .fresh calls).writeIdx = s.capacity - 1 ∧
        (runCalls s .fresh calls).readIdx = 0) :=
  (runCalls_holds calls (holds_fresh s)).reportsFullness_iff m

/-- An empty message fills the nine elements but one. -/
theorem not_reportsFullness : ¬∀ (s : RingShape) (calls : List Call) (m : Message),
    ReportsFullness s (runCalls s .fresh calls) (runQueue s [] calls) m := by
  let s : RingShape := ⟨9, 16, by decide, by decide, by decide⟩
  let m : Message := ⟨[], by decide⟩
  intro h
  have herror := h s [.tryPush m] m (by decide)
  exact absurd herror (by decide)

end InterProcess.LockFree.MessageRingBuffer
