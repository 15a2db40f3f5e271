import InterProcess.Lib.Lts
import InterProcess.Lib.Threads
import InterProcess.SystemV.GroupNotifier
import Mathlib.Data.List.FinRange

/-!
# `create_processes`

The parent forks its children, waits until every one of them has increased a
semaphore, asks for the termination of the last one, and then calls `wait` until
there is no child left. Any process may be slow: each step of a process, and the
delivery of a signal, may come between any two steps of the others.

The calls that signal and await readiness stand in an `assert`, so without
asserts nobody waits for anybody.

* `terminate_afterReady` — no child is asked to terminate before all are ready;
* `reaped_all` — when the loop ends, every child has been waited for, once;
* `run_ends` — a run comes to an end, and it ends only with the program.
-/

namespace InterProcess.Processes

open Function Lts Threads SystemV SystemV.SemaphoreSet

/-- What `wait` tells of a child that has terminated. -/
inductive Exit
  | exited (status : ℕ)
  | signaled (signal : ℕ)
  deriving DecidableEq

def semIndex : Fin 1 := Fin.last 0

def exitSuccess : ℕ := 0

def sigabrt : ℕ := 6

def sigterm : ℕ := 15

/-- Where a child is. A `zombie` has terminated and not been waited for. -/
inductive Child
  | absent
  | starting
  | processing
  | zombie (exit : Exit)
  | reaped (exit : Exit)
  deriving DecidableEq

/-- Where the parent is; `forking` counts the children created. -/
inductive Parent
  | forking (childProcessesCount : ℕ)
  | waitReady
  | requestTermination
  | waiting
  | remove
  | finished
  | aborted
  deriving DecidableEq

/-- The processes, the semaphore, the signals sent and not delivered yet, and what the parent has
printed of the children that have terminated. -/
structure State (n : ℕ) where
  parent : Parent
  children : Fin n → Child
  pending : Fin n → Bool
  semaphore : SemaphoreSet 1
  printed : List (Fin n × Exit)

/-- After `set_value(0, 0)`. -/
def State.init (n : ℕ) : State n :=
  { parent := .forking 0
    children := fun _ => .absent
    pending := fun _ => false
    semaphore := fun _ => ⟨0, Nat.zero_le _⟩
    printed := [] }

/-- What happens next: the parent goes on, its `fork` fails, its `wait` returns a child or
`ECHILD`, a child goes on, or a signal is delivered. -/
inductive Label (n : ℕ)
  | parent
  | forkFails
  | reap (i : Fin n)
  | noChild
  | child (i : Fin n)
  | deliver (i : Fin n)

section Steps

variable {n : ℕ}

def State.setChild (σ : State n) (i : Fin n) (child : Child) : State n :=
  { σ with children := update σ.children i child }

/-- The `int` the count of the children is converted to when it is negated. -/
def readyDecrement (n : ℕ) : Int32 := Int32.ofInt (-n)

/-- `assert(semaphore.decrease_value(sem_index, -child_processes_count))`. -/
def waitReady (asserts : Bool) (σ : State n) : Option (State n) :=
  if asserts then
    if hneg : readyDecrement n < 0 then
      match σ.semaphore.decreaseValue semIndex ⟨readyDecrement n, hneg⟩ with
      | .done semaphore => some { σ with semaphore := semaphore, parent := .requestTermination }
      | .waits => none
      | _ => some { σ with parent := .aborted }
    else some { σ with parent := .aborted }
  else some { σ with parent := .requestTermination }

def stepParent (asserts : Bool) (σ : State n) : Option (State n) :=
  match σ.parent with
  | .forking created =>
      if h : created < n then
        some { σ.setChild ⟨created, h⟩ .starting with parent := .forking (created + 1) }
      else some { σ with parent := .waitReady }
  | .waitReady => waitReady asserts σ
  | .requestTermination =>
      some { σ with
        parent := .waiting
        pending := fun i => σ.pending i || decide (i.val + 1 = n) }
  | .remove => some { σ with parent := .finished }
  | _ => none

/-- `assert(semaphore.increase_value(sem_index, 1))`, then `sleep`, then the end. -/
def stepChild (asserts : Bool) (σ : State n) (i : Fin n) : Option (State n) :=
  match σ.children i with
  | .starting =>
      if asserts then
        match σ.semaphore.increaseValue semIndex Increment.one with
        | .done semaphore => some { σ.setChild i .processing with semaphore := semaphore }
        | .waits => none
        | _ => some (σ.setChild i (.zombie (.signaled sigabrt)))
      else some (σ.setChild i .processing)
  | .processing => some (σ.setChild i (.zombie (.exited exitSuccess)))
  | _ => none

/-- The child is there and has not been waited for. -/
def Child.isWaitedFor : Child → Bool
  | .absent | .reaped _ => false
  | _ => true

def step (asserts : Bool) (σ : State n) : Label n → Option (State n)
  | .parent => stepParent asserts σ
  | .forkFails =>
      match σ.parent with
      | .forking created => if created < n then some { σ with parent := .aborted } else none
      | _ => none
  | .reap i =>
      match σ.parent, σ.children i with
      | .waiting, .zombie exit =>
          some { σ.setChild i (.reaped exit) with printed := σ.printed ++ [(i, exit)] }
      | _, _ => none
  | .noChild =>
      if σ.parent = .waiting ∧ ∀ i, (σ.children i).isWaitedFor = false then
        some { σ with parent := .remove }
      else none
  | .child i => stepChild asserts σ i
  | .deliver i =>
      if σ.pending i then
        match σ.children i with
        | .starting | .processing =>
            some { σ.setChild i (.zombie (.signaled sigterm)) with
              pending := update σ.pending i false }
        | _ => none
      else none

end Steps

/-! ## What the semaphore lets through -/

section Semaphore

variable {n : ℕ} {σ σ' : State n}

theorem readyDecrement_toInt (hle : n ≤ semvmx) : (readyDecrement n).toInt = -n := by
  unfold semvmx at hle
  rw [readyDecrement, Int32.toInt_ofInt, Int.bmod_def, Int32.size]
  omega

theorem readyDecrement_neg (hpos : 0 < n) (hle : n ≤ semvmx) : readyDecrement n < 0 := by
  rw [Int32.lt_iff_toInt_lt, readyDecrement_toInt hle, Int32.toInt_zero]
  omega

/-- The parent gets past the semaphore when its value is `n` at least, and takes `n`. -/
theorem waitReady_eq_some_iff (hpos : 0 < n) (hle : n ≤ semvmx) :
    waitReady true σ = some σ' ↔
      ∃ semaphore : SemaphoreSet 1,
        (semaphore semIndex).value + n = (σ.semaphore semIndex).value ∧
          σ' = { σ with semaphore := semaphore, parent := .requestTermination } := by
  have hneg := readyDecrement_neg hpos hle
  have htoInt := readyDecrement_toInt hle
  have hrange : -32768 ≤ (readyDecrement n).toInt ∧ (readyDecrement n).toInt ≤ 32767 := by
    unfold semvmx at hle
    omega
  have hdone : ∀ semaphore,
      σ.semaphore.decreaseValue semIndex ⟨readyDecrement n, hneg⟩ = .done semaphore ↔
        (semaphore semIndex).value + n = (σ.semaphore semIndex).value := by
    intro semaphore
    unfold decreaseValue
    rw [GroupNotifier.changeValue_of_narrow hrange.1 hrange.2 (by omega), htoInt]
    constructor
    · rintro ⟨hvalue, -⟩
      omega
    · intro hvalue
      exact ⟨by omega, fun i hi => absurd (Subsingleton.elim i semIndex) hi⟩
  unfold waitReady
  rw [if_pos rfl, dif_pos hneg]
  constructor
  · intro h
    rcases changeValue_of_neg σ.semaphore semIndex hrange.1 (by omega) with
      hop | ⟨semaphore, hop⟩
    · rw [decreaseValue, hop] at h
      cases h
    · rw [decreaseValue, hop] at h
      exact ⟨semaphore, (hdone semaphore).mp hop, (Option.some.inj h).symm⟩
  · rintro ⟨semaphore, hvalue, rfl⟩
    rw [(hdone semaphore).mpr hvalue]

/-- A child that is ready says so, unless the semaphore is full. -/
theorem increaseValue_eq_done_iff {set semaphore : SemaphoreSet 1} :
    set.increaseValue semIndex Increment.one = .done semaphore ↔
      (semaphore semIndex).value = (set semIndex).value + 1 := by
  have hone : Increment.one.val.toInt = 1 := by decide
  unfold increaseValue
  rw [GroupNotifier.changeValue_of_narrow] <;> rw [hone]
  · constructor
    · rintro ⟨hvalue, -⟩
      omega
    · intro hvalue
      exact ⟨by omega, fun i hi => absurd (Subsingleton.elim i semIndex) hi⟩
  all_goals omega

theorem exists_increaseValue_eq_done {set : SemaphoreSet 1} (h : (set semIndex).value < semvmx) :
    ∃ semaphore, set.increaseValue semIndex Increment.one = .done semaphore :=
  ⟨fun _ => ⟨(set semIndex).value + 1, h⟩, increaseValue_eq_done_iff.mpr rfl⟩

end Semaphore

/-! ## What a step does -/

/-- The program has called `fork` for every child. -/
def Parent.hasForked : Parent → Bool
  | .forking _ | .aborted => false
  | _ => true

/-- The parent is past the semaphore. -/
def Parent.isPast : Parent → Bool
  | .requestTermination | .waiting | .remove | .finished => true
  | _ => false

/-- The child has increased the semaphore, or ended. -/
def Child.signalled : Child → ℕ
  | .absent | .starting => 0
  | _ => 1

def Child.exit? : Child → Option Exit
  | .zombie exit | .reaped exit => some exit
  | _ => none

section Moves

variable {n : ℕ} {asserts : Bool} {σ σ' : State n} {l : Label n}

inductive Moves (asserts : Bool) (σ : State n) : Label n → State n → Prop
  | forks {created : ℕ} (hparent : σ.parent = .forking created) (hlt : created < n) :
      Moves asserts σ .parent
        { σ.setChild ⟨created, hlt⟩ .starting with parent := .forking (created + 1) }
  | allForked {created : ℕ} (hparent : σ.parent = .forking created) (hlast : ¬ created < n) :
      Moves asserts σ .parent { σ with parent := .waitReady }
  | passes {semaphore : SemaphoreSet 1} (hparent : σ.parent = .waitReady)
      (hready : asserts = true →
        (semaphore semIndex).value + n = (σ.semaphore semIndex).value) :
      Moves asserts σ .parent { σ with semaphore := semaphore, parent := .requestTermination }
  | terminates (hparent : σ.parent = .requestTermination) :
      Moves asserts σ .parent { σ with
        parent := .waiting
        pending := fun i => σ.pending i || decide (i.val + 1 = n) }
  | finishes (hparent : σ.parent = .remove) :
      Moves asserts σ .parent { σ with parent := .finished }
  | forkFails {created : ℕ} (hparent : σ.parent = .forking created) :
      Moves asserts σ .forkFails { σ with parent := .aborted }
  | reaps {i : Fin n} {exit : Exit} (hparent : σ.parent = .waiting)
      (hchild : σ.children i = .zombie exit) :
      Moves asserts σ (.reap i)
        { σ.setChild i (.reaped exit) with printed := σ.printed ++ [(i, exit)] }
  | noChild (hparent : σ.parent = .waiting)
      (hnone : ∀ i, (σ.children i).isWaitedFor = false) :
      Moves asserts σ .noChild { σ with parent := .remove }
  | signals {i : Fin n} {semaphore : SemaphoreSet 1} (hchild : σ.children i = .starting)
      (hvalue : asserts = true →
        (semaphore semIndex).value = (σ.semaphore semIndex).value + 1) :
      Moves asserts σ (.child i) { σ.setChild i .processing with semaphore := semaphore }
  | exits {i : Fin n} (hchild : σ.children i = .processing) :
      Moves asserts σ (.child i) (σ.setChild i (.zombie (.exited exitSuccess)))
  | killed {i : Fin n} (hpending : σ.pending i = true)
      (hchild : σ.children i = .starting ∨ σ.children i = .processing) :
      Moves asserts σ (.deliver i)
        { σ.setChild i (.zombie (.signaled sigterm)) with
          pending := update σ.pending i false }

/-- As long as the semaphore has room for those that have not increased it yet, these are all the
steps there are. -/
theorem moves_of_step (hpos : 0 < n) (hle : n ≤ semvmx)
    (hroom : asserts = true → ∀ i, σ.children i = .starting → (σ.semaphore semIndex).value < semvmx)
    (h : step asserts σ l = some σ') : Moves asserts σ l σ' := by
  cases l with
  | parent =>
      simp only [step, stepParent] at h
      split at h
      · next created hparent =>
          split at h
          · next hlt =>
              cases h
              exact .forks hparent hlt
          · next hlast =>
              cases h
              exact .allForked hparent hlast
      · next hparent =>
          cases asserts with
          | false =>
              cases h
              exact .passes hparent (fun hno => absurd hno Bool.false_ne_true)
          | true =>
              obtain ⟨semaphore, hvalue, rfl⟩ := (waitReady_eq_some_iff hpos hle).mp h
              exact .passes hparent (fun _ => hvalue)
      · next hparent =>
          cases h
          exact .terminates hparent
      · next hparent =>
          cases h
          exact .finishes hparent
      · cases h
  | forkFails =>
      simp only [step] at h
      split at h
      · next created hparent =>
          split at h
          · cases h
            exact .forkFails hparent
          · cases h
      · cases h
  | reap i =>
      simp only [step] at h
      split at h
      · next hparent hchild =>
          cases h
          exact .reaps hparent hchild
      · cases h
  | noChild =>
      simp only [step] at h
      split at h
      · next hnone =>
          cases h
          exact .noChild hnone.1 hnone.2
      · cases h
  | child i =>
      simp only [step, stepChild] at h
      split at h
      · next hchild =>
          cases asserts with
          | false =>
              cases h
              exact .signals hchild (fun hno => absurd hno Bool.false_ne_true)
          | true =>
              obtain ⟨semaphore, hdone⟩ := exists_increaseValue_eq_done (hroom rfl i hchild)
              rw [if_pos rfl, hdone] at h
              cases h
              exact .signals hchild (fun _ => increaseValue_eq_done_iff.mp hdone)
      · next hchild =>
          cases h
          exact .exits hchild
      · cases h
  | deliver i =>
      simp only [step] at h
      split at h
      · next hpending =>
          split at h
          · next hchild =>
              cases h
              exact .killed hpending (.inl hchild)
          · next hchild =>
              cases h
              exact .killed hpending (.inr hchild)
          · cases h
      · cases h

end Moves

/-! ## Who is there -/

section Invariants

variable {n : ℕ} {asserts : Bool} {σ σ' : State n} {l : Label n} {parent : Parent}
  {children : Fin n → Child} {i : Fin n} {child : Child}

/-- The children are created in order, and all of them before the parent goes on. -/
structure Forked (parent : Parent) (children : Fin n → Child) : Prop where
  forking : ∀ {created}, parent = .forking created →
    ∀ i : Fin n, children i = .absent ↔ created ≤ i.val
  present : parent.hasForked = true → ∀ i, children i ≠ .absent

/-- A child that is there may go on. -/
theorem Forked.update (h : Forked parent children) (hthere : children i ≠ .absent)
    (hchild : child ≠ .absent) : Forked parent (update children i child) where
  forking := by
    intro created hparent j
    have hj := h.forking hparent j
    by_cases hji : j = i
    · subst hji
      rw [update_self]
      exact ⟨fun hno => absurd hno hchild, fun hle => absurd (hj.mpr hle) hthere⟩
    · rw [update_of_ne hji]
      exact hj
  present := by
    intro hforked
    exact forall_update (P := fun c : Child => c ≠ .absent) hchild fun j _ => h.present hforked j

/-- The parent may go on once it has created them. -/
theorem Forked.past {parent' : Parent} (h : Forked parent children)
    (hforked : parent.hasForked = true) (hno : ∀ created, parent' ≠ .forking created) :
    Forked parent' children where
  forking := fun hparent => absurd hparent (hno _)
  present := fun _ => h.present hforked

theorem Moves.forked (hmove : Moves asserts σ l σ') (h : Forked σ.parent σ.children) :
    Forked σ'.parent σ'.children := by
  cases hmove with
  | @forks created hparent hlt =>
      have hcreated := h.forking hparent
      constructor
      · intro created' hparent' j
        cases hparent'
        have hj := hcreated j
        by_cases hjc : j = ⟨created, hlt⟩
        · subst hjc
          show update σ.children _ _ _ = _ ↔ _
          rw [update_self]
          exact ⟨fun hno => Child.noConfusion hno, fun hle => absurd hle (Nat.not_succ_le_self _)⟩
        · show update σ.children _ _ _ = _ ↔ _
          rw [update_of_ne hjc, hj]
          have hval : j.val ≠ created := fun heq => hjc (Fin.ext heq)
          omega
      · intro hforked
        cases hforked
  | @allForked created hparent hlast =>
      constructor
      · intro created' hparent'
        cases hparent'
      · intro _ j habsent
        have hle := (h.forking hparent j).mp habsent
        have hlt := j.isLt
        omega
  | passes hparent _ | terminates hparent | finishes hparent | noChild hparent _ =>
      exact h.past (by rw [hparent]; rfl) (fun _ hno => Parent.noConfusion hno)
  | forkFails hparent =>
      exact ⟨fun hno => Parent.noConfusion hno, fun hno => absurd hno Bool.false_ne_true⟩
  | reaps hparent hchild =>
      exact h.update (by rw [hchild]; exact Child.noConfusion) Child.noConfusion
  | signals hchild _ => exact h.update (by rw [hchild]; exact Child.noConfusion) Child.noConfusion
  | exits hchild => exact h.update (by rw [hchild]; exact Child.noConfusion) Child.noConfusion
  | killed _ hchild =>
      refine h.update ?_ Child.noConfusion
      rcases hchild with hchild | hchild <;> rw [hchild] <;> exact Child.noConfusion

/-! ## Who is ready -/

/-- The value of the semaphore is the number of the children that are ready, until the parent has
taken it, and then all of them are. -/
structure Counted (parent : Parent) (children : Fin n → Child) (value : ℕ) : Prop where
  value : parent.isPast = false → value = total Child.signalled children
  ready : parent.isPast = true → ∀ i, (children i).signalled = 1

theorem Child.signalled_le (child : Child) : child.signalled ≤ 1 := by
  cases child <;> simp [Child.signalled]

/-- A child that is not ready keeps the value below the number of children. -/
theorem Counted.lt {value : ℕ} (h : Counted parent children value)
    (hi : (children i).signalled = 0) : value < n := by
  cases hpast : parent.isPast with
  | true =>
      have hready := h.ready hpast i
      omega
  | false =>
      rw [h.value hpast]
      calc total Child.signalled children < Fintype.card (Fin n) * 1 :=
            total_lt_card_mul (i := i) (fun j => (children j).signalled_le) (by omega)
        _ = n := by rw [Fintype.card_fin, Nat.mul_one]

/-- A child that goes on without the semaphore has been counted already. -/
theorem Counted.update_of_eq {value : ℕ} (h : Counted parent children value)
    (hchild : child.signalled = (children i).signalled) :
    Counted parent (update children i child) value where
  value := fun hpast => by rw [total_update_of_eq _ _ _ _ hchild, h.value hpast]
  ready := by
    intro hpast
    refine forall_update (P := fun c : Child => c.signalled = 1) ?_ fun j _ => h.ready hpast j
    rw [hchild, h.ready hpast i]

theorem Moves.counted (hmove : Moves true σ l σ') (hforked : Forked σ.parent σ.children)
    (hpending : ∀ i, σ.pending i = true → σ.parent.isPast = true)
    (h : Counted σ.parent σ.children (σ.semaphore semIndex).value) :
    Counted σ'.parent σ'.children (σ'.semaphore semIndex).value := by
  cases hmove with
  | @forks created hparent hlt =>
      have habsent := (hforked.forking hparent ⟨created, hlt⟩).mpr (Nat.le_refl _)
      have hvalue : Counted _ (update σ.children ⟨created, hlt⟩ .starting) _ :=
        h.update_of_eq (by rw [habsent]; rfl)
      rw [hparent] at hvalue
      exact ⟨hvalue.value, fun hno => absurd hno Bool.false_ne_true⟩
  | allForked hparent _ | forkFails hparent =>
      rw [hparent] at h
      exact ⟨h.value, fun hno => absurd hno Bool.false_ne_true⟩
  | passes hparent hready =>
      have htaken := hready rfl
      refine ⟨fun hno => absurd hno.symm Bool.false_ne_true, fun _ => ?_⟩
      rw [hparent] at h
      have htotal := h.value rfl
      show ∀ i, (σ.children i).signalled = 1
      refine forall_eq_of_card_mul_le_total (fun j => (σ.children j).signalled_le) ?_
      rw [Fintype.card_fin, Nat.mul_one]
      omega
  | terminates hparent | finishes hparent | noChild hparent _ =>
      rw [hparent] at h
      exact ⟨fun hno => absurd hno.symm Bool.false_ne_true, fun _ => h.ready rfl⟩
  | reaps hparent hchild => exact h.update_of_eq (by rw [hchild]; rfl)
  | @signals i semaphore hchild hvalue =>
      have hupdate := total_update Child.signalled σ.children i .processing
      rw [hchild] at hupdate
      have hone := hvalue rfl
      constructor
      · intro hpast
        have htotal := h.value hpast
        show (semaphore semIndex).value = total Child.signalled (update σ.children i .processing)
        change _ + 0 = _ + 1 at hupdate
        omega
      · intro hpast
        exact forall_update (P := fun c : Child => c.signalled = 1) rfl fun j _ => h.ready hpast j
  | exits hchild => exact h.update_of_eq (by rw [hchild]; rfl)
  | @killed i hsent hchild =>
      refine h.update_of_eq ?_
      rw [h.ready (hpending i hsent) i]
      rfl

/-! ## Who ends, and how -/

/-- The signal is for the last child, and whoever did not end by it ran to its end. -/
structure Ends (parent : Parent) (children : Fin n → Child) (pending : Fin n → Bool) : Prop where
  sent : ∀ i, pending i = true → parent.isPast = true ∧ i.val + 1 = n
  exits : ∀ i exit, (children i).exit? = some exit → exit = .exited exitSuccess ∨
    (exit = .signaled sigterm ∧ parent.isPast = true ∧ i.val + 1 = n)

theorem Ends.past {parent' : Parent} {pending : Fin n → Bool} (h : Ends parent children pending)
    (hpast : parent.isPast = true → parent'.isPast = true) : Ends parent' children pending where
  sent := fun i hi => ⟨hpast (h.sent i hi).1, (h.sent i hi).2⟩
  exits := by
    intro i exit hexit
    rcases h.exits i exit hexit with hsuccess | ⟨hterm, hp, hlast⟩
    · exact .inl hsuccess
    · exact .inr ⟨hterm, hpast hp, hlast⟩

theorem Ends.update {pending : Fin n → Bool} (h : Ends parent children pending)
    (hchild : ∀ exit, child.exit? = some exit → exit = .exited exitSuccess ∨
      (exit = .signaled sigterm ∧ parent.isPast = true ∧ i.val + 1 = n)) :
    Ends parent (update children i child) pending where
  sent := h.sent
  exits := by
    intro j
    by_cases hji : j = i
    · subst hji
      rw [update_self]
      exact hchild
    · rw [update_of_ne hji]
      exact h.exits j

theorem Moves.ends (hmove : Moves asserts σ l σ') (h : Ends σ.parent σ.children σ.pending) :
    Ends σ'.parent σ'.children σ'.pending := by
  cases hmove with
  | forks hparent hlt =>
      refine Ends.update (h.past ?_) ?_
      · rw [hparent]
        exact id
      · intro exit hexit
        cases hexit
  | allForked hparent _ | forkFails hparent =>
      refine h.past ?_
      rw [hparent]
      exact id
  | passes hparent _ | finishes hparent | noChild hparent _ => exact h.past fun _ => rfl
  | terminates hparent =>
      have hpast : σ.parent.isPast = true := by rw [hparent]; rfl
      refine ⟨fun i hi => ?_, (h.past fun _ => rfl).exits⟩
      rcases Bool.or_eq_true_iff.mp hi with hi | hi
      · exact ⟨rfl, (h.sent i hi).2⟩
      · exact ⟨rfl, of_decide_eq_true hi⟩
  | reaps hparent hchild =>
      refine h.update fun exit hexit => h.exits _ exit ?_
      rw [hchild]
      exact hexit
  | signals hchild _ =>
      refine h.update fun exit hexit => ?_
      cases hexit
  | exits hchild =>
      refine h.update fun exit hexit => ?_
      cases hexit
      exact .inl rfl
  | @killed i hsent hchild =>
      have hterm : ∀ exit, (Child.zombie (.signaled sigterm)).exit? = some exit →
          exit = .exited exitSuccess ∨
            (exit = .signaled sigterm ∧ σ.parent.isPast = true ∧ i.val + 1 = n) := by
        intro exit hexit
        cases hexit
        exact .inr ⟨rfl, h.sent i hsent⟩
      refine ⟨fun j hj => h.sent j ?_, (h.update hterm).exits⟩
      by_cases hji : j = i
      · subst hji
        exact hsent
      · change Function.update σ.pending i false j = true at hj
        rwa [update_of_ne hji] at hj

/-! ## Who has been waited for -/

/-- What is printed tells of the children waited for, of each of them once; the loop is left when
that is everybody. -/
structure Reported (parent : Parent) (children : Fin n → Child) (printed : List (Fin n × Exit)) :
    Prop where
  mem : ∀ i exit, (i, exit) ∈ printed ↔ children i = .reaped exit
  nodup : (printed.map Prod.fst).Nodup
  all : parent = .remove ∨ parent = .finished → ∀ i, ∃ exit, children i = .reaped exit

/-- A child that has not been waited for, and will not be in this step. -/
theorem Reported.update {printed : List (Fin n × Exit)} (h : Reported parent children printed)
    (hbefore : ∀ exit, children i ≠ .reaped exit) (hafter : ∀ exit, child ≠ .reaped exit) :
    Reported parent (update children i child) printed where
  mem := by
    intro j exit
    by_cases hji : j = i
    · subst hji
      rw [update_self, h.mem]
      exact ⟨fun hno => absurd hno (hbefore exit), fun hno => absurd hno (hafter exit)⟩
    · rw [update_of_ne hji]
      exact h.mem j exit
  nodup := h.nodup
  all := by
    intro hend
    obtain ⟨exit, hexit⟩ := h.all hend i
    exact absurd hexit (hbefore exit)

theorem Reported.past {parent' : Parent} {printed : List (Fin n × Exit)}
    (h : Reported parent children printed)
    (hall : parent' = .remove ∨ parent' = .finished → ∀ i, ∃ exit, children i = .reaped exit) :
    Reported parent' children printed :=
  ⟨h.mem, h.nodup, hall⟩

theorem Moves.reported (hmove : Moves asserts σ l σ') (hforked : Forked σ.parent σ.children)
    (h : Reported σ.parent σ.children σ.printed) :
    Reported σ'.parent σ'.children σ'.printed := by
  cases hmove with
  | @forks created hparent hlt =>
      have habsent := (hforked.forking hparent ⟨created, hlt⟩).mpr (Nat.le_refl _)
      refine Reported.update (h.past ?_) ?_ fun _ hno => Child.noConfusion hno
      · rintro (hno | hno) <;> cases hno
      · intro exit hno
        rw [habsent] at hno
        cases hno
  | allForked _ _ | forkFails _ | passes _ _ | terminates _ =>
      refine h.past ?_
      rintro (hno | hno) <;> cases hno
  | finishes hparent => exact h.past fun _ => h.all (.inl hparent)
  | noChild hparent hnone =>
      refine h.past fun _ i => ?_
      have hpresent := hforked.present (by rw [hparent]; rfl) i
      have hi := hnone i
      cases hchild : σ.children i with
      | reaped exit => exact ⟨exit, rfl⟩
      | absent => exact absurd hchild hpresent
      | starting | processing | zombie =>
          rw [hchild] at hi
          cases hi
  | @reaps i exit hparent hchild =>
      have hnew : ∀ exit', (i, exit') ∉ σ.printed := by
        intro exit' hmem
        rw [h.mem, hchild] at hmem
        cases hmem
      refine ⟨fun j exit' => ?_, ?_, ?_⟩
      · show _ ∈ σ.printed ++ [(i, exit)] ↔ Function.update σ.children i _ j = _
        rw [List.mem_append, List.mem_singleton]
        by_cases hji : j = i
        · subst hji
          rw [update_self]
          constructor
          · rintro (hmem | heq)
            · exact absurd hmem (hnew exit')
            · cases heq
              rfl
          · intro heq
            cases heq
            exact .inr rfl
        · rw [update_of_ne hji, h.mem]
          constructor
          · rintro (hmem | heq)
            · exact hmem
            · cases heq
              exact absurd rfl hji
          · exact .inl
      · show ((σ.printed ++ [(i, exit)]).map Prod.fst).Nodup
        rw [List.map_append, List.nodup_append]
        refine ⟨h.nodup, List.nodup_singleton _, ?_⟩
        rintro j hj j' hj' rfl
        obtain ⟨⟨_, exit'⟩, hmem, rfl⟩ := List.mem_map.mp hj
        rw [List.map_singleton, List.mem_singleton] at hj'
        cases hj'
        exact hnew exit' hmem
      · intro hend
        change σ.parent = _ ∨ σ.parent = _ at hend
        rw [hparent] at hend
        rcases hend with hno | hno <;> cases hno
  | signals hchild _ =>
      refine h.update (fun exit hno => ?_) fun _ hno => Child.noConfusion hno
      rw [hchild] at hno
      cases hno
  | exits hchild =>
      refine h.update (fun exit hno => ?_) fun _ hno => Child.noConfusion hno
      rw [hchild] at hno
      cases hno
  | killed _ hchild =>
      refine h.update (fun exit hno => ?_) fun _ hno => Child.noConfusion hno
      rcases hchild with hchild | hchild <;> rw [hchild] at hno <;> cases hno

/-! ## Every reachable state -/

structure Inv (asserts : Bool) (σ : State n) : Prop where
  forked : Forked σ.parent σ.children
  counted : asserts = true → Counted σ.parent σ.children (σ.semaphore semIndex).value
  ends : Ends σ.parent σ.children σ.pending
  reported : Reported σ.parent σ.children σ.printed

theorem Inv.init (asserts : Bool) : Inv asserts (.init n) where
  forked := by
    refine ⟨fun {created} hparent i => ?_, fun hno => absurd hno Bool.false_ne_true⟩
    cases hparent
    exact ⟨fun _ => Nat.zero_le _, fun _ => rfl⟩
  counted := fun _ => ⟨fun _ => (total_eq_zero fun _ => rfl).symm,
    fun hno => absurd hno Bool.false_ne_true⟩
  ends := ⟨fun _ hno => absurd hno Bool.false_ne_true, fun _ _ hno => by cases hno⟩
  reported := by
    refine ⟨fun i exit => ?_, List.nodup_nil, ?_⟩
    · exact ⟨fun hno => absurd hno List.not_mem_nil, fun hno => Child.noConfusion hno⟩
    · rintro (hno | hno) <;> cases hno

theorem Inv.room (h : Inv asserts σ) (hle : n ≤ semvmx) (hasserts : asserts = true) (i : Fin n)
    (hchild : σ.children i = .starting) : (σ.semaphore semIndex).value < semvmx :=
  ((h.counted hasserts).lt (i := i) (by rw [hchild]; rfl)).trans_le hle

theorem Inv.moves (h : Inv asserts σ) (hpos : 0 < n) (hle : n ≤ semvmx)
    (hstep : step asserts σ l = some σ') : Moves asserts σ l σ' :=
  moves_of_step hpos hle (h.room hle) hstep

theorem Inv.step (h : Inv asserts σ) (hpos : 0 < n) (hle : n ≤ semvmx)
    (hstep : step asserts σ l = some σ') : Inv asserts σ' := by
  have hmove := h.moves hpos hle hstep
  refine ⟨hmove.forked h.forked, ?_, hmove.ends h.ends, hmove.reported h.forked h.reported⟩
  rintro rfl
  exact hmove.counted h.forked (fun i hi => (h.ends.sent i hi).1) (h.counted rfl)

theorem inv_of_reachable (hpos : 0 < n) (hle : n ≤ semvmx)
    (h : Reachable (Processes.step asserts) (.init n) σ) : Inv asserts σ :=
  h.induction (Inv.init asserts) fun _ _ _ hinv hstep => hinv.step hpos hle hstep

/-- Two children get ready, and the second one ends by the signal before the first is done. -/
def twoChildren : List (Label 2) :=
  let first : Fin 2 := ⟨0, Nat.zero_lt_two⟩
  let last : Fin 2 := Fin.last 1
  [.parent, .child first, .parent, .parent, .child last, .parent, .parent, .deliver last,
    .reap last, .child first, .reap first, .noChild, .parent]

/-- Whoever has been sent the signal, or has ended by it, is the last child, and was sent it when
every child was ready. -/
theorem terminate_afterReady (hle : n ≤ semvmx)
    (h : Reachable (Processes.step true) (.init n) σ) {i : Fin n}
    (hsent : σ.pending i = true ∨ (σ.children i).exit? = some (.signaled sigterm)) :
    i.val + 1 = n ∧ ∀ j, σ.children j ≠ .absent ∧ σ.children j ≠ .starting := by
  have hinv := inv_of_reachable (Nat.zero_lt_of_lt i.isLt) hle h
  have hpast : σ.parent.isPast = true ∧ i.val + 1 = n := by
    rcases hsent with hpending | hexit
    · exact hinv.ends.sent i hpending
    · rcases hinv.ends.exits i _ hexit with hno | ⟨-, hpast⟩
      · cases hno
      · exact hpast
  refine ⟨hpast.2, fun j => ?_⟩
  have hready := (hinv.counted rfl).ready hpast.1 j
  refine ⟨fun hno => ?_, fun hno => ?_⟩
  · rw [hno] at hready
    cases hready
  · rw [hno] at hready
    cases hready

theorem terminate_afterReady_twoChildren :
    ∃ σ, run (Processes.step true) (.init 2) (twoChildren.take 8) = some σ ∧
      ∀ j, σ.children j ≠ .absent ∧ σ.children j ≠ .starting :=
  ⟨_, rfl,
    (terminate_afterReady (by decide) ⟨twoChildren.take 8, rfl⟩ (i := Fin.last 1) (.inr rfl)).2⟩

/-- When the loop has ended every child has been reported, once, and all but the last with the
status of a child that ran to its end. -/
theorem reaped_all (hpos : 0 < n) (hle : n ≤ semvmx)
    (h : Reachable (Processes.step asserts) (.init n) σ)
    (hend : σ.parent = .remove ∨ σ.parent = .finished) :
    (σ.printed.map Prod.fst).Perm (List.finRange n) ∧
      ∀ i exit, (i, exit) ∈ σ.printed → exit = .exited exitSuccess ∨
        (exit = .signaled sigterm ∧ i.val + 1 = n) := by
  have hinv := inv_of_reachable hpos hle h
  constructor
  · refine (List.perm_ext_iff_of_nodup hinv.reported.nodup (List.nodup_finRange n)).mpr fun i => ?_
    obtain ⟨exit, hexit⟩ := hinv.reported.all hend i
    have hmem := (hinv.reported.mem i exit).mpr hexit
    exact ⟨fun _ => List.mem_finRange i, fun _ => List.mem_map.mpr ⟨_, hmem, rfl⟩⟩
  · intro i exit hmem
    have hexit := (hinv.reported.mem i exit).mp hmem
    rcases hinv.ends.exits i exit (by rw [hexit]; rfl) with hsuccess | ⟨hterm, -, hlast⟩
    · exact .inl hsuccess
    · exact .inr ⟨hterm, hlast⟩

theorem reaped_all_twoChildren :
    ∃ σ, run (Processes.step true) (.init 2) twoChildren = some σ ∧
      (σ.printed.map Prod.fst).Perm (List.finRange 2) :=
  ⟨_, rfl, (reaped_all (by decide) (by decide)
    (⟨twoChildren, rfl⟩ : Reachable (Processes.step true) _ _) (.inr rfl)).1⟩

/-! ## How long a run is -/

def Parent.rank (n : ℕ) : Parent → ℕ
  | .forking created => min created n
  | .waitReady => n + 1
  | .requestTermination => n + 2
  | .waiting => n + 3
  | .remove => n + 4
  | .finished | .aborted => n + 5

def Child.rank : Child → ℕ
  | .absent => 0
  | .starting => 1
  | .processing => 2
  | .zombie _ => 3
  | .reaped _ => 4

def State.rank (σ : State n) : ℕ := σ.parent.rank n + total Child.rank σ.children

/-- A step takes the parent or a child further. -/
theorem Moves.rank_lt (hmove : Moves asserts σ l σ') (hforked : Forked σ.parent σ.children) :
    σ.rank < σ'.rank := by
  have hmoved : ∀ i child, (σ.children i).rank < child.rank →
      total Child.rank σ.children < total Child.rank (update σ.children i child) := by
    intro i child hlt
    have hupdate := total_update Child.rank σ.children i child
    omega
  cases hmove with
  | @forks created hparent hlt =>
      have habsent := (hforked.forking hparent ⟨created, hlt⟩).mpr (Nat.le_refl _)
      have hchild := hmoved ⟨created, hlt⟩ .starting (by rw [habsent]; exact Nat.zero_lt_one)
      have hrank : σ.parent.rank n ≤ (Parent.forking (created + 1)).rank n := by
        rw [hparent]
        simp only [Parent.rank]
        omega
      exact Nat.add_lt_add_of_le_of_lt hrank hchild
  | @allForked created hparent hlast =>
      refine Nat.add_lt_add_right (?_ : σ.parent.rank n < Parent.waitReady.rank n) _
      rw [hparent]
      simp only [Parent.rank]
      omega
  | passes hparent _ | terminates hparent | finishes hparent | noChild hparent _ =>
      refine Nat.add_lt_add_right ?_ _
      rw [hparent]
      exact Nat.lt_succ_self _
  | @forkFails created hparent =>
      refine Nat.add_lt_add_right (?_ : σ.parent.rank n < Parent.aborted.rank n) _
      rw [hparent]
      simp only [Parent.rank]
      omega
  | reaps _ hchild | signals hchild _ | exits hchild =>
      refine Nat.add_lt_add_left (hmoved _ _ ?_) _
      rw [hchild]
      exact Nat.lt_succ_self _
  | killed _ hchild =>
      refine Nat.add_lt_add_left (hmoved _ _ ?_) _
      rcases hchild with hchild | hchild <;> rw [hchild] <;> simp [Child.rank]

theorem State.rank_le (σ : State n) : σ.rank ≤ 5 * n + 5 := by
  have hparent : σ.parent.rank n ≤ n + 5 := by
    cases σ.parent <;> simp only [Parent.rank] <;> omega
  have hchild : ∀ i, (σ.children i).rank ≤ 4 := by
    intro i
    cases σ.children i <;> simp [Child.rank]
  have hchildren := total_le_card_mul hchild
  rw [Fintype.card_fin] at hchildren
  unfold State.rank
  omega

/-! ## How a run ends -/

/-- While the parent is not at its end somebody can go on. -/
theorem Inv.exists_step (h : Inv asserts σ) (hpos : 0 < n) (hle : n ≤ semvmx)
    (hend : σ.parent ≠ .finished ∧ σ.parent ≠ .aborted) :
    ∃ l, l ≠ .forkFails ∧ (Processes.step asserts σ l).isSome := by
  have hstarting : ∀ i, σ.children i = .starting →
      (Processes.step asserts σ (.child i)).isSome := by
    intro i hchild
    simp only [Processes.step, stepChild, hchild]
    cases asserts with
    | false => rfl
    | true =>
        obtain ⟨semaphore, hdone⟩ := exists_increaseValue_eq_done (h.room hle rfl i hchild)
        rw [if_pos rfl, hdone]
        rfl
  cases hparent : σ.parent with
  | forking created =>
      refine ⟨.parent, nofun, ?_⟩
      simp only [Processes.step, stepParent, hparent]
      split <;> rfl
  | waitReady =>
      by_cases hall : asserts = true ∧ ∃ i, σ.children i = .starting
      · obtain ⟨-, i, hchild⟩ := hall
        exact ⟨.child i, nofun, hstarting i hchild⟩
      · refine ⟨.parent, nofun, ?_⟩
        simp only [Processes.step, stepParent, hparent]
        cases asserts with
        | false => rfl
        | true =>
            have hready : ∀ i, (σ.children i).signalled = 1 := by
              intro i
              have hpresent := h.forked.present (by rw [hparent]; rfl) i
              have hno : σ.children i ≠ .starting := fun hi => hall ⟨rfl, i, hi⟩
              cases hchild : σ.children i with
              | absent => exact absurd hchild hpresent
              | starting => exact absurd hchild hno
              | processing | zombie | reaped => rfl
            have hvalue := (h.counted rfl).value (by rw [hparent]; rfl)
            rw [total_eq_card_mul hready, Fintype.card_fin, Nat.mul_one] at hvalue
            rw [Option.isSome_iff_exists]
            exact ⟨_, (waitReady_eq_some_iff hpos hle).mpr
              ⟨fun _ => ⟨0, Nat.zero_le _⟩, by rw [hvalue, Nat.zero_add], rfl⟩⟩
  | requestTermination | remove =>
      refine ⟨.parent, nofun, ?_⟩
      simp only [Processes.step, stepParent, hparent]
      rfl
  | waiting =>
      by_cases hnone : ∀ i, (σ.children i).isWaitedFor = false
      · refine ⟨.noChild, nofun, ?_⟩
        simp only [Processes.step]
        rw [if_pos ⟨hparent, hnone⟩]
        rfl
      · obtain ⟨i, hi⟩ := not_forall.mp hnone
        cases hchild : σ.children i with
        | absent | reaped =>
            rw [hchild] at hi
            exact absurd rfl hi
        | starting => exact ⟨.child i, nofun, hstarting i hchild⟩
        | processing =>
            refine ⟨.child i, nofun, ?_⟩
            simp only [Processes.step, stepChild, hchild]
            rfl
        | zombie exit =>
            refine ⟨.reap i, nofun, ?_⟩
            simp only [Processes.step, hparent, hchild]
            rfl
  | finished => exact absurd hparent hend.1
  | aborted => exact absurd hparent hend.2

/-- The parent aborts only when a `fork` fails. -/
theorem Moves.ne_aborted (hmove : Moves asserts σ l σ') (hl : l ≠ .forkFails)
    (h : σ.parent ≠ .aborted) : σ'.parent ≠ .aborted := by
  cases hmove with
  | forkFails _ => exact absurd rfl hl
  | reaps _ _ | signals _ _ | exits _ | killed _ _ => exact h
  | forks _ _ | allForked _ _ | passes _ _ | terminates _ | finishes _ | noChild _ _ =>
      exact Parent.noConfusion

theorem ne_aborted_of_run (hpos : 0 < n) (hle : n ≤ semvmx) {ls : List (Label n)}
    (h : Inv asserts σ) (hne : σ.parent ≠ .aborted)
    (hls : ∀ l ∈ ls, l ≠ .forkFails) (hrun : run (Processes.step asserts) σ ls = some σ') :
    σ'.parent ≠ .aborted := by
  induction ls generalizing σ with
  | nil =>
      rw [run_nil, Option.some.injEq] at hrun
      exact hrun ▸ hne
  | cons l ls ih =>
      rw [run_cons, Option.bind_eq_some_iff] at hrun
      obtain ⟨σ₁, hσ₁, hrun⟩ := hrun
      have hfirst := (h.moves hpos hle hσ₁).ne_aborted (hls l List.mem_cons_self) hne
      exact ih (h.step hpos hle hσ₁) hfirst (fun l hl => hls l (List.mem_cons_of_mem _ hl)) hrun

/-- No run goes on for ever, and one in which every `fork` succeeds can be continued until the
parent has finished. -/
theorem run_ends (asserts : Bool) (hpos : 0 < n) (hle : n ≤ semvmx) {ls : List (Label n)}
    (hrun : run (Processes.step asserts) (.init n) ls = some σ) :
    ls.length ≤ 5 * n + 5 ∧
      ((∀ l ∈ ls, l ≠ .forkFails) → σ.parent ≠ .finished →
        ∃ l, l ≠ .forkFails ∧ (Processes.step asserts σ l).isSome) := by
  have hinv := Inv.init (n := n) asserts
  constructor
  · have hlength := @length_le_of_rank _ _ (Processes.step asserts) (Inv asserts) State.rank
      (fun _ _ _ h hstep => h.step hpos hle hstep)
      (fun _ _ _ h hstep => (h.moves hpos hle hstep).rank_lt h.forked) ls _ _ hinv hrun
    have hle := σ.rank_le
    omega
  · intro hls hfinished
    have hne := ne_aborted_of_run hpos hle hinv (fun hno => Parent.noConfusion hno) hls hrun
    exact (inv_of_reachable hpos hle ⟨ls, hrun⟩).exists_step hpos hle ⟨hfinished, hne⟩

/-- All thirteen steps, and one more after the first eight, when a child has ended. -/
theorem run_ends_twoChildren : twoChildren.length ≤ 5 * 2 + 5 ∧
    ∃ σ, run (Processes.step true) (.init 2) (twoChildren.take 8) = some σ ∧
      ∃ l, l ≠ .forkFails ∧ (Processes.step true σ l).isSome := by
  have hforks : ∀ l ∈ twoChildren.take 8, l ≠ .forkFails := by
    simp [twoChildren]
  have hall := run_ends true (by decide) (by decide)
    (rfl : run (Processes.step true) (.init 2) twoChildren = some _)
  have hfirst := run_ends true (by decide) (by decide)
    (rfl : run (Processes.step true) (.init 2) (twoChildren.take 8) = some _)
  exact ⟨hall.1, _, rfl, hfirst.2 hforks nofun⟩

end Invariants

end InterProcess.Processes
