import Mathlib.Algebra.Group.Nat.Defs
import Mathlib.Data.Int.Notation
import Mathlib.Data.Nat.Notation
import Mathlib.Logic.Function.Basic
import Mathlib.Tactic.TypeStar

/-!
# `unix::ipc::system_v::semaphore_set`

A System V semaphore holds a value between 0 and `SEMVMX`. `semop` adds a
signed 16-bit number to it, if the sum is such a value again: below 0 the
caller waits, above `SEMVMX` the call fails. Adding 0 is an operation of its
own, which waits for the value 0.

`change_value` takes the change as an `int` and stores it in the field
`sem_op` of a `sembuf`, which keeps its 16 low bits.
-/

namespace InterProcess.SystemV

open Function

/-- `SEMVMX`. -/
def semvmx : ℕ := 32767

/-- One semaphore of a set. -/
structure Semaphore where
  value : ℕ
  value_le : value ≤ semvmx
  deriving DecidableEq, Repr

/-- What an attempt of a semaphore operation comes to: it is carried out, the
caller goes to sleep until the value changes, or the call returns an error. -/
inductive Attempt (α : Type*)
  | done (after : α)
  | waits
  | again
  | range
  deriving DecidableEq, Repr

def Attempt.map {α β : Type*} (f : α → β) : Attempt α → Attempt β
  | .done after => .done (f after)
  | .waits => .waits
  | .again => .again
  | .range => .range

/-- A call that has succeeded. An attempt is made when it is begun, at `entry`, and another when
it is woken, after others have changed the semaphores, as long as it has gone to sleep. The attempt
that is carried out finds `before` and leaves `after`. -/
inductive Succeeds {α : Type*} (attempt : α → Attempt α) : α → α → α → Prop
  | done {before after : α} (h : attempt before = .done after) :
      Succeeds attempt before before after
  | slept {entry woken before after : α} (hsleep : attempt entry = .waits)
      (h : Succeeds attempt woken before after) : Succeeds attempt entry before after

theorem Succeeds.eq_done {α : Type*} {attempt : α → Attempt α} {entry before after : α}
    (h : Succeeds attempt entry before after) : attempt before = .done after := by
  induction h with
  | done h => exact h
  | slept _ _ ih => exact ih

/-- The kernel's side of `semop` with one operation, `ipcNowait` being its flag. -/
def semop (sem : Semaphore) (semOp : Int16) (ipcNowait : Bool) : Attempt Semaphore :=
  let wouldBlock := if ipcNowait then .again else .waits
  let result : ℤ := sem.value + semOp.toInt
  if semOp.toInt = 0 ∧ sem.value ≠ 0 then wouldBlock
  else if result < 0 then wouldBlock
  else if h : result.toNat ≤ semvmx then .done ⟨result.toNat, h⟩
  else .range

/-- The values of the `count` semaphores of a set. -/
abbrev SemaphoreSet (count : ℕ) := Fin count → Semaphore

namespace SemaphoreSet

variable {count : ℕ}

/-- An operation on the semaphore `index`. -/
def semopAt (set : SemaphoreSet count) (index : Fin count) (semOp : Int16)
    (ipcNowait : Bool) : Attempt (SemaphoreSet count) :=
  (semop (set index) semOp ipcNowait).map (update set index)

def changeValue (set : SemaphoreSet count) (index : Fin count) (change : Int32) :
    Attempt (SemaphoreSet count) :=
  set.semopAt index change.toInt16 false

def tryChangingValue (set : SemaphoreSet count) (index : Fin count) (change : Int32) :
    Attempt (SemaphoreSet count) :=
  set.semopAt index change.toInt16 true

/-- What `increase_value` asserts of its argument. -/
structure Increment where
  val : Int32
  pos : 0 < val

/-- What `decrease_value` asserts of its argument. -/
structure Decrement where
  val : Int32
  neg : val < 0

def increaseValue (set : SemaphoreSet count) (index : Fin count) (increment : Increment) :
    Attempt (SemaphoreSet count) :=
  set.changeValue index increment.val

def decreaseValue (set : SemaphoreSet count) (index : Fin count) (decrement : Decrement) :
    Attempt (SemaphoreSet count) :=
  set.changeValue index decrement.val

def tryIncreasingValue (set : SemaphoreSet count) (index : Fin count)
    (increment : Increment) : Attempt (SemaphoreSet count) :=
  set.tryChangingValue index increment.val

def tryDecreasingValue (set : SemaphoreSet count) (index : Fin count)
    (decrement : Decrement) : Attempt (SemaphoreSet count) :=
  set.tryChangingValue index decrement.val

end SemaphoreSet

/-! ## One operation -/

/-- An operation other than 0 is carried out iff the sum is a value of a
semaphore, and its effect is the sum. -/
theorem semop_eq_done_iff {sem after : Semaphore} {semOp : Int16} {ipcNowait : Bool} :
    semop sem semOp ipcNowait = .done after ↔
      (semOp.toInt = 0 → sem.value = 0) ∧ (after.value : ℤ) = sem.value + semOp.toInt := by
  have hle := after.value_le
  unfold semop
  constructor
  · intro h
    simp only at h
    split at h
    · next hzero => cases ipcNowait <;> cases h
    next hzero =>
    split at h
    · next hneg => cases ipcNowait <;> cases h
    next hneg =>
    split at h
    · next hmax =>
        cases h
        refine ⟨fun h0 => ?_, ?_⟩
        · by_contra hvalue
          exact hzero ⟨h0, hvalue⟩
        · exact Int.toNat_of_nonneg (by omega)
    · cases h
  · rintro ⟨hzero, hsum⟩
    rw [if_neg fun h => h.2 (hzero h.1), if_neg (by omega), dif_pos (by omega)]
    obtain ⟨value, hvalue⟩ := after
    simp only [Attempt.done.injEq, Semaphore.mk.injEq]
    simp only at hsum
    omega

/-- Some value is reached iff the sum is a value of a semaphore. -/
theorem exists_semop_eq_done_iff {sem : Semaphore} {semOp : Int16} {ipcNowait : Bool} :
    (∃ after, semop sem semOp ipcNowait = .done after) ↔
      (semOp.toInt = 0 → sem.value = 0) ∧
        0 ≤ sem.value + semOp.toInt ∧ sem.value + semOp.toInt ≤ semvmx := by
  simp only [semop_eq_done_iff]
  constructor
  · rintro ⟨after, hzero, hsum⟩
    have hle := after.value_le
    exact ⟨hzero, by omega, by omega⟩
  · rintro ⟨hzero, hnonneg, hmax⟩
    exact ⟨⟨(sem.value + semOp.toInt).toNat, by omega⟩, hzero, Int.toNat_of_nonneg hnonneg⟩

/-- The caller goes to sleep when the value is too small, and for the value 0. -/
theorem semop_eq_waits_iff {sem : Semaphore} {semOp : Int16} :
    semop sem semOp false = .waits ↔
      (semOp.toInt = 0 ∧ sem.value ≠ 0) ∨ sem.value + semOp.toInt < 0 := by
  unfold semop
  simp only
  split
  · next hzero => exact ⟨fun _ => .inl hzero, fun _ => rfl⟩
  next hzero =>
  split
  · next hneg => exact ⟨fun _ => .inr hneg, fun _ => rfl⟩
  next hneg =>
  refine ⟨fun h => ?_, fun h => absurd h (not_or.mpr ⟨hzero, hneg⟩)⟩
  split at h <;> cases h

/-- An operation that may wait does, or it is carried out, or the sum is too large. -/
theorem semop_cases (sem : Semaphore) (semOp : Int16) :
    semop sem semOp false = .waits ∨ (∃ after, semop sem semOp false = .done after) ∨
      (semvmx < sem.value + semOp.toInt ∧ semop sem semOp false = .range) := by
  unfold semop
  simp only
  split
  · exact .inl rfl
  split
  · exact .inl rfl
  split
  · exact .inr (.inl ⟨_, rfl⟩)
  · next hmax => exact .inr (.inr ⟨by omega, rfl⟩)

namespace SemaphoreSet

variable {count : ℕ} {set after : SemaphoreSet count} {index : Fin count} {change : Int32}

theorem semopAt_eq_done_iff {semOp : Int16} {ipcNowait : Bool} :
    set.semopAt index semOp ipcNowait = .done after ↔
      semop (set index) semOp ipcNowait = .done (after index) ∧
        ∀ i, i ≠ index → after i = set i := by
  unfold semopAt
  constructor
  · intro h
    cases hop : semop (set index) semOp ipcNowait with
    | done sem =>
        rw [hop] at h
        cases h
        exact ⟨by rw [update_self], fun i hi => update_of_ne hi _ _⟩
    | waits | again | range => rw [hop] at h; cases h
  · rintro ⟨hop, hframe⟩
    rw [hop, Attempt.map]
    congr 1
    exact (eq_update_iff.mpr ⟨rfl, hframe⟩).symm

/-- What a successful `change_value` has done: it has added the residue of the
change between `-2^15` and `2^15` to the semaphore, and left the others alone. -/
theorem changeValue_eq_done_iff :
    set.changeValue index change = .done after ↔
      ((change.toInt.bmod (2 ^ 16) = 0 → (set index).value = 0) ∧
        ((after index).value : ℤ) = (set index).value + change.toInt.bmod (2 ^ 16)) ∧
      ∀ i, i ≠ index → after i = set i := by
  rw [changeValue, semopAt_eq_done_iff, semop_eq_done_iff, Int32.toInt_toInt16]

/-- When `change_value` succeeds. -/
theorem exists_changeValue_eq_done_iff :
    (∃ after, set.changeValue index change = .done after) ↔
      (change.toInt.bmod (2 ^ 16) = 0 → (set index).value = 0) ∧
        0 ≤ (set index).value + change.toInt.bmod (2 ^ 16) ∧
        (set index).value + change.toInt.bmod (2 ^ 16) ≤ semvmx := by
  have hop := @exists_semop_eq_done_iff (set index) change.toInt16 false
  rw [← Int32.toInt_toInt16, ← hop]
  constructor
  · rintro ⟨after, h⟩
    exact ⟨after index, (semopAt_eq_done_iff.mp h).1⟩
  · rintro ⟨sem, hsem⟩
    exact ⟨update set index sem, semopAt_eq_done_iff.mpr
      ⟨by rw [update_self]; exact hsem, fun i hi => update_of_ne hi _ _⟩⟩

theorem changeValue_eq_waits_iff :
    set.changeValue index change = .waits ↔
      (change.toInt.bmod (2 ^ 16) = 0 ∧ (set index).value ≠ 0) ∨
        (set index).value + change.toInt.bmod (2 ^ 16) < 0 := by
  rw [← Int32.toInt_toInt16, ← semop_eq_waits_iff, changeValue, semopAt]
  cases semop (set index) change.toInt16 false <;> simp [Attempt.map]

/-- A call of `change_value` can succeed, at once or after a sleep, unless 16 bits keep of the
change a number no value can be lowered by, or one that raises this value too far. -/
theorem exists_succeeds_changeValue_iff :
    (∃ before after, Succeeds (fun set => set.changeValue index change) set before after) ↔
      -32767 ≤ change.toInt.bmod (2 ^ 16) ∧
        (set index).value + change.toInt.bmod (2 ^ 16) ≤ semvmx := by
  have hmax : semvmx = 32767 := rfl
  constructor
  · rintro ⟨before, after, h⟩
    induction h with
    | @done set after h =>
        have hle := (set index).value_le
        obtain ⟨-, hnonneg, hsum⟩ := exists_changeValue_eq_done_iff.mp ⟨after, h⟩
        exact ⟨by omega, hsum⟩
    | @slept set _ _ _ hsleep _ ih =>
        have hle := (set index).value_le
        have hwaits := changeValue_eq_waits_iff.mp hsleep
        exact ⟨ih.1, by omega⟩
  · rintro ⟨hlo, hsum⟩
    by_cases hwaits : set.changeValue index change = .waits
    · -- it sleeps until the value is what the operation takes from it
      have hsmall := changeValue_eq_waits_iff.mp hwaits
      have hvalue : (-change.toInt.bmod (2 ^ 16)).toNat ≤ semvmx := by omega
      let woken : SemaphoreSet count := update set index ⟨_, hvalue⟩
      have hwoken : ((woken index).value : ℤ) = -change.toInt.bmod (2 ^ 16) := by
        rw [show woken index = ⟨_, hvalue⟩ from update_self ..]
        exact Int.toNat_of_nonneg (by omega)
      obtain ⟨after, h⟩ := exists_changeValue_eq_done_iff.mpr
        (show (change.toInt.bmod (2 ^ 16) = 0 → (woken index).value = 0) ∧
          0 ≤ (woken index).value + change.toInt.bmod (2 ^ 16) ∧
          (woken index).value + change.toInt.bmod (2 ^ 16) ≤ semvmx by omega)
      exact ⟨woken, after, .slept hwaits (.done h)⟩
    · have hlarge := mt changeValue_eq_waits_iff.mpr hwaits
      obtain ⟨after, h⟩ := exists_changeValue_eq_done_iff.mpr
        (show (change.toInt.bmod (2 ^ 16) = 0 → (set index).value = 0) ∧
          0 ≤ (set index).value + change.toInt.bmod (2 ^ 16) ∧
          (set index).value + change.toInt.bmod (2 ^ 16) ≤ semvmx by omega)
      exact ⟨set, after, .done h⟩

/-- A change downwards waits or is carried out. -/
theorem changeValue_of_neg (set : SemaphoreSet count) (index : Fin count)
    (hlo : -32768 ≤ change.toInt) (hneg : change.toInt < 0) :
    set.changeValue index change = .waits ∨
      ∃ after, set.changeValue index change = .done after := by
  have hkept : change.toInt16.toInt = change.toInt := by
    rw [Int32.toInt_toInt16, Int.bmod_def]
    omega
  have hle := (set index).value_le
  unfold changeValue semopAt
  rcases semop_cases (set index) change.toInt16 with h | ⟨sem, h⟩ | ⟨hover, -⟩
  · exact .inl (by rw [h, Attempt.map])
  · exact .inr ⟨_, by rw [h, Attempt.map]⟩
  · omega

end SemaphoreSet

end InterProcess.SystemV
