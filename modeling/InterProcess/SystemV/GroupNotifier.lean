import InterProcess.SystemV.SemaphoreSet

/-!
# `unix::ipc::system_v::group_notifier`

A semaphore counts what has happened and not been waited for. `wait_for(count)`
lowers it by `count`, `notify(count)` raises it. Both pass an `int` on to
`change_value`, where 16 bits of it are kept: the semaphore moves by `count`
only if `count`, or its negation, is a signed 16-bit number.

A larger count moves the semaphore by its residue, which can be 0 or of the
other sign. `waitFor_notify_exact` says when: unless the call cannot succeed,
at once or after it has slept, it may have changed the semaphore by something
else than `count`.
-/

namespace InterProcess.SystemV

open SemaphoreSet

/-- The semaphore of a notifier in a set of `count`, and the size of its group. -/
structure GroupNotifier (count : ℕ) where
  index : Fin count
  groupSize : Increment

namespace SemaphoreSet

theorem Increment.toInt_pos (count : Increment) : 0 < count.val.toInt :=
  Int32.lt_iff_toInt_lt.mp count.pos

theorem Increment.toInt_neg (count : Increment) : (-count.val).toInt = -count.val.toInt := by
  have hpos := count.toInt_pos
  have hlt := count.val.toInt_lt
  rw [Int32.toInt_neg, Int.bmod_def]
  omega

theorem Increment.neg_lt (count : Increment) : -count.val < 0 := by
  have hpos := count.toInt_pos
  rw [Int32.lt_iff_toInt_lt, count.toInt_neg, Int32.toInt_zero]
  omega

theorem Increment.one_pos : (0 : Int32) < 1 := by decide

/-- `-count`, which `decrease_value` is called with. -/
def Increment.negated (count : Increment) : Decrement := ⟨-count.val, count.neg_lt⟩

def Increment.one : Increment := ⟨1, Increment.one_pos⟩

end SemaphoreSet

namespace GroupNotifier

variable {n : ℕ}

def waitForOne (g : GroupNotifier n) (set : SemaphoreSet n) : Attempt (SemaphoreSet n) :=
  set.decreaseValue g.index Increment.one.negated

def waitFor (g : GroupNotifier n) (set : SemaphoreSet n) (count : Increment) :
    Attempt (SemaphoreSet n) :=
  set.decreaseValue g.index count.negated

def waitForAll (g : GroupNotifier n) (set : SemaphoreSet n) : Attempt (SemaphoreSet n) :=
  set.decreaseValue g.index g.groupSize.negated

def notifyOne (g : GroupNotifier n) (set : SemaphoreSet n) : Attempt (SemaphoreSet n) :=
  set.increaseValue g.index Increment.one

def notify (g : GroupNotifier n) (set : SemaphoreSet n) (count : Increment) :
    Attempt (SemaphoreSet n) :=
  set.increaseValue g.index count

def notifyAll (g : GroupNotifier n) (set : SemaphoreSet n) : Attempt (SemaphoreSet n) :=
  set.increaseValue g.index g.groupSize

def waitTillNone (g : GroupNotifier n) (set : SemaphoreSet n) : Attempt (SemaphoreSet n) :=
  set.changeValue g.index 0

def tryWaitingForOne (g : GroupNotifier n) (set : SemaphoreSet n) : Attempt (SemaphoreSet n) :=
  set.tryDecreasingValue g.index Increment.one.negated

/-- Whenever a call begun at `entry` succeeds, it has moved the notifier's semaphore by `change`. -/
def MovesBy (g : GroupNotifier n) (entry : SemaphoreSet n)
    (call : SemaphoreSet n → Attempt (SemaphoreSet n)) (change : ℤ) : Prop :=
  ∀ before after, Succeeds call entry before after →
    ((after g.index).value : ℤ) = (before g.index).value + change

/-- A wait for `count` that is begun at this value cannot succeed: what 16 bits keep of `-count`
can be taken from no value, or is positive and cannot be added to this one. -/
def WaitRefused (value : ℕ) (count : ℤ) : Prop :=
  count % 65536 = 32768 ∨
  (32768 < count % 65536 ∧ semvmx < value + (65536 - count % 65536))

/-- The same for a notification: what 16 bits keep of `count` can be taken from no value, or is
positive and cannot be added to this one. -/
def NotifyRefused (value : ℕ) (count : ℤ) : Prop :=
  count % 65536 = 32768 ∨
  (0 < count % 65536 ∧ count % 65536 ≤ 32767 ∧ semvmx < value + count % 65536)

instance (value : ℕ) (count : ℤ) : Decidable (WaitRefused value count) :=
  inferInstanceAs (Decidable (_ ∨ _))

instance (value : ℕ) (count : ℤ) : Decidable (NotifyRefused value count) :=
  inferInstanceAs (Decidable (_ ∨ _))

-- calls that sleep at first, and then take 1 or wait for the value 0
example : ¬ WaitRefused 0 65537 ∧ ¬ NotifyRefused 5 65536 := by decide

variable {g : GroupNotifier n} {set after : SemaphoreSet n}

/-! ## Counts of 16 bits -/

/-- A change that 16 bits hold is carried out as it is. -/
theorem changeValue_of_narrow {index : Fin n} {change : Int32}
    (hlo : -32768 ≤ change.toInt) (hhi : change.toInt ≤ 32767) (hne : change.toInt ≠ 0) :
    set.changeValue index change = .done after ↔
      ((after index).value : ℤ) = (set index).value + change.toInt ∧
        ∀ i, i ≠ index → after i = set i := by
  have hkept : change.toInt.bmod (2 ^ 16) = change.toInt := by
    rw [Int.bmod_def]
    omega
  rw [changeValue_eq_done_iff, hkept]
  simp only [hne, false_imp_iff, true_and]

/-- `wait_for(count)` of a count up to 32768 takes `count` from a semaphore that has it. -/
theorem waitFor_eq_done_iff {count : Increment} (hle : count.val.toInt ≤ 32768) :
    g.waitFor set count = .done after ↔
      ((after g.index).value : ℤ) + count.val.toInt = (set g.index).value ∧
        ∀ i, i ≠ g.index → after i = set i := by
  have hpos := count.toInt_pos
  have hneg := count.toInt_neg
  unfold waitFor decreaseValue
  rw [changeValue_of_narrow] <;> simp only [Increment.negated, hneg]
  · constructor
    · rintro ⟨hvalue, hframe⟩
      exact ⟨by omega, hframe⟩
    · rintro ⟨hvalue, hframe⟩
      exact ⟨by omega, hframe⟩
  all_goals omega

/-- `notify(count)` of a count up to 32767 adds `count`. -/
theorem notify_eq_done_iff {count : Increment} (hle : count.val.toInt ≤ 32767) :
    g.notify set count = .done after ↔
      ((after g.index).value : ℤ) = (set g.index).value + count.val.toInt ∧
        ∀ i, i ≠ g.index → after i = set i := by
  have hpos := count.toInt_pos
  exact changeValue_of_narrow (by omega) hle (by omega)

/-- A wait for `count` gets through a semaphore of at least `count`, and leaves the rest. -/
theorem waitFor_leaves_iff {count : Increment} {amount left : ℕ}
    (hamount : count.val.toInt = amount) (hle : amount ≤ 32768) :
    (∃ after, g.waitFor set count = .done after ∧ (after g.index).value = left) ↔
      amount ≤ (set g.index).value ∧ left = (set g.index).value - amount := by
  have hmax := (set g.index).value_le
  have hnarrow : count.val.toInt ≤ 32768 := by omega
  simp only [waitFor_eq_done_iff hnarrow, hamount]
  constructor
  · rintro ⟨after, ⟨hvalue, -⟩, rfl⟩
    omega
  · rintro ⟨henough, rfl⟩
    refine ⟨Function.update set g.index ⟨(set g.index).value - amount, by omega⟩, ⟨?_, ?_⟩, ?_⟩
    · rw [Function.update_self]
      simp only
      omega
    · exact fun i hi => Function.update_of_ne hi _ _
    · rw [Function.update_self]

/-! ## Any count -/

/-- A change by another number than asked for is the alternative to no success. -/
theorem movesBy_changeValue_iff (g : GroupNotifier n) (set : SemaphoreSet n) (change : Int32) :
    g.MovesBy set (fun set => set.changeValue g.index change) change.toInt ↔
      (-32768 ≤ change.toInt ∧ change.toInt ≤ 32767) ∨
        ¬ ∃ before after,
          Succeeds (fun set => set.changeValue g.index change) set before after := by
  constructor
  · intro h
    by_contra hno
    rw [not_or, not_not] at hno
    obtain ⟨hwide, before, after, hsucceeds⟩ := hno
    have hmoves := h before after hsucceeds
    have hvalue := (changeValue_eq_done_iff.mp hsucceeds.eq_done).1.2
    rw [Int.bmod_def] at hvalue
    omega
  · rintro (⟨hlo, hhi⟩ | hrefused) before after hsucceeds
    · rw [(changeValue_eq_done_iff.mp hsucceeds.eq_done).1.2, Int.bmod_def]
      omega
    · exact absurd ⟨before, after, hsucceeds⟩ hrefused

theorem waitFor_refused_iff {count : Increment} :
    (¬ ∃ before after, Succeeds (fun set => g.waitFor set count) set before after) ↔
      WaitRefused (set g.index).value count.val.toInt := by
  have hneg := count.toInt_neg
  have hle := (set g.index).value_le
  unfold waitFor decreaseValue WaitRefused
  rw [exists_succeeds_changeValue_iff, Increment.negated, hneg, Int.bmod_def]
  unfold semvmx at *
  omega

theorem notify_refused_iff {count : Increment} :
    (¬ ∃ before after, Succeeds (fun set => g.notify set count) set before after) ↔
      NotifyRefused (set g.index).value count.val.toInt := by
  have hle := (set g.index).value_le
  unfold notify increaseValue NotifyRefused
  rw [exists_succeeds_changeValue_iff, Int.bmod_def]
  unfold semvmx at *
  omega

/-- `wait_for(count)` lowers the semaphore by `count` whenever it succeeds, at once or after it has
slept, iff the negated count fits 16 bits or the call cannot succeed; the same for `notify(count)`,
which raises it. -/
theorem waitFor_notify_exact (g : GroupNotifier n) (set : SemaphoreSet n) (count : Increment) :
    (g.MovesBy set (fun set => g.waitFor set count) (-count.val.toInt) ↔
      count.val.toInt ≤ 32768 ∨ WaitRefused (set g.index).value count.val.toInt) ∧
    (g.MovesBy set (fun set => g.notify set count) count.val.toInt ↔
      count.val.toInt ≤ 32767 ∨ NotifyRefused (set g.index).value count.val.toInt) := by
  have hpos := count.toInt_pos
  have hneg := count.toInt_neg
  constructor
  · rw [← waitFor_refused_iff, ← hneg]
    have h := movesBy_changeValue_iff g set count.negated.val
    refine Iff.trans h (or_congr_left ?_)
    show -32768 ≤ (-count.val).toInt ∧ (-count.val).toInt ≤ 32767 ↔ _
    omega
  · rw [← notify_refused_iff]
    have h := movesBy_changeValue_iff g set count.val
    refine Iff.trans h (or_congr_left ?_)
    omega

/-- On a semaphore of value 0 `wait_for(40000)` succeeds: it raises the value to 25536. -/
theorem waitFor_raises :
    ¬ ∀ (n : ℕ) (g : GroupNotifier n) (set : SemaphoreSet n) (count : Increment),
      g.MovesBy set (fun set => g.waitFor set count) (-count.val.toInt) ∧
      g.MovesBy set (fun set => g.notify set count) count.val.toInt := by
  intro h
  have hall := (h 1 ⟨Fin.last 0, .one⟩ (fun _ => ⟨0, by decide⟩) ⟨40000, by decide⟩).1
  exact absurd (hall _ _ (.done rfl)) (by decide)

end GroupNotifier

end InterProcess.SystemV
