import InterProcess.LockFree.RingBuffer
import InterProcess.Lib.Lts

/-!
# Threads that try to push and pop

Any number of threads call `try_push` and `try_pop` of one `ring_buffer`. The
check for a full or an empty ring and the compare-exchange are separate steps,
and the compare-exchange only sees that the index is the one the check has been
made for. By then the other threads may have gone round the whole ring: the
index is the same again, and the check is stale.

`within_iff`: the number of values in the ring stays between 0 and
`capacity - 1` iff at every successful compare-exchange the check would still
succeed.
-/

namespace InterProcess.LockFree.TryThreads

open Function Lts Circular RingBuffer

variable {ι α : Type}

/-- Where a thread is in a call. -/
inductive Thread (α : Type)
  | idle
  | pushing (value : α) (pc : TryPushPc)
  | popping (pc : TryPopPc)

structure State (ι α : Type) where
  ring : RingBuffer α
  threads : ι → Thread α

def State.init (ι α : Type) [Inhabited α] : State ι α :=
  { ring := .fresh, threads := fun _ => .idle }

/-! ## The indices and the counts -/

/-- Successful pushes less successful pops are between 0 and `capacity - 1`. -/
structure Within (capacity : ℕ) (ring : RingBuffer α) : Prop where
  pops_le : ring.pops ≤ ring.pushes
  pushes_le : ring.pushes ≤ ring.pops + (capacity - 1)

/-- The indices are the counts, wrapped. -/
structure Wrapped (capacity : ℕ) (ring : RingBuffer α) : Prop where
  within : Within capacity ring
  readIdx_eq : ring.readIdx = ring.pops % capacity
  writeIdx_eq : ring.writeIdx = ring.pushes % capacity

variable {capacity : ℕ} {ring : RingBuffer α}

theorem Wrapped.fresh [Inhabited α] (capacity : ℕ) : Wrapped capacity (.fresh : RingBuffer α) :=
  ⟨⟨le_rfl, Nat.zero_le _⟩, (Nat.zero_mod _).symm, (Nat.zero_mod _).symm⟩

/-- The check of `try_push` fails iff the ring is full. -/
theorem Wrapped.full_iff (h : Wrapped capacity ring) (hcap : 1 < capacity) :
    (ring.writeIdx + 1) % capacity = ring.readIdx ↔ ring.pushes + 1 = ring.pops + capacity := by
  obtain ⟨⟨hpops, hpushes⟩, hread, hwrite⟩ := h
  rw [hread, hwrite, Nat.mod_add_mod]
  constructor
  · intro heq
    by_contra hne
    exact mod_ne_of_lt_of_lt (a := ring.pops) (b := ring.pushes + 1) (by omega) (by omega) heq.symm
  · intro heq
    rw [heq, Nat.add_mod_right]

/-- The check of `try_pop` fails iff the ring is empty. -/
theorem Wrapped.empty_iff (h : Wrapped capacity ring) (hcap : 1 < capacity) :
    ring.readIdx = ring.writeIdx ↔ ring.pops = ring.pushes := by
  obtain ⟨⟨hpops, hpushes⟩, hread, hwrite⟩ := h
  rw [hread, hwrite]
  constructor
  · intro heq
    by_contra hne
    exact mod_ne_of_lt_of_lt (a := ring.pops) (b := ring.pushes) (by omega) (by omega) heq
  · intro heq
    rw [heq]

/-- A push goes well iff the ring is not full. -/
theorem Wrapped.claimSlot_iff (h : Wrapped capacity ring) (hcap : 1 < capacity) :
    Within capacity (ring.claimSlot capacity ring.writeIdx) ↔
      (ring.writeIdx + 1) % capacity ≠ ring.readIdx := by
  have hle := h.within.pops_le
  rw [Ne, h.full_iff hcap]
  constructor
  · intro hwithin hfull
    have hpushes : ring.pushes + 1 ≤ ring.pops + (capacity - 1) := hwithin.pushes_le
    omega
  · intro hroom
    have hpushes := h.within.pushes_le
    refine ⟨hle.trans (Nat.le_succ _), ?_⟩
    show ring.pushes + 1 ≤ ring.pops + (capacity - 1)
    omega

/-- A pop goes well iff the ring is not empty. -/
theorem Wrapped.releaseSlot_iff (h : Wrapped capacity ring) (hcap : 1 < capacity) :
    Within capacity (ring.releaseSlot capacity ring.readIdx) ↔ ring.readIdx ≠ ring.writeIdx := by
  have hle := h.within.pops_le
  rw [Ne, h.empty_iff hcap]
  constructor
  · intro hwithin hempty
    have hpops : ring.pops + 1 ≤ ring.pushes := hwithin.pops_le
    omega
  · intro hsome
    have hpushes := h.within.pushes_le
    refine ⟨?_, ?_⟩
    · show ring.pops + 1 ≤ ring.pushes
      omega
    · show ring.pushes ≤ ring.pops + 1 + (capacity - 1)
      omega

theorem Wrapped.claimSlot (h : Wrapped capacity ring)
    (hwithin : Within capacity (ring.claimSlot capacity ring.writeIdx)) :
    Wrapped capacity (ring.claimSlot capacity ring.writeIdx) := by
  refine ⟨hwithin, h.readIdx_eq, ?_⟩
  show (ring.writeIdx + 1) % capacity = (ring.pushes + 1) % capacity
  rw [h.writeIdx_eq, Nat.mod_add_mod]

theorem Wrapped.releaseSlot (h : Wrapped capacity ring)
    (hwithin : Within capacity (ring.releaseSlot capacity ring.readIdx)) :
    Wrapped capacity (ring.releaseSlot capacity ring.readIdx) := by
  refine ⟨hwithin, ?_, h.writeIdx_eq⟩
  show (ring.readIdx + 1) % capacity = (ring.pops + 1) % capacity
  rw [h.readIdx_eq, Nat.mod_add_mod]

/-! ## The steps -/

/-- A thread calls one of the two functions, or goes on in its call. -/
inductive Label (ι α : Type)
  | tryPush (i : ι) (value : α)
  | tryPop (i : ι)
  | resume (i : ι)

variable [DecidableEq ι]

def State.move (σ : State ι α) (i : ι) (thread : Thread α) : State ι α :=
  { σ with threads := update σ.threads i thread }

/-- The next step of thread `i` in its call. -/
def resume (capacity : ℕ) (σ : State ι α) (i : ι) : Option (State ι α) :=
  match σ.threads i with
  | .idle => none
  | .pushing value pc =>
      match RingBuffer.tryPush capacity value σ.ring pc with
      | (ring, .inl pc) => some ({ σ with ring := ring }.move i (.pushing value pc))
      | (ring, .inr _) => some ({ σ with ring := ring }.move i .idle)
  | .popping pc =>
      match RingBuffer.tryPop capacity σ.ring pc with
      | (ring, .inl pc) => some ({ σ with ring := ring }.move i (.popping pc))
      | (ring, .inr _) => some ({ σ with ring := ring }.move i .idle)

def step (capacity : ℕ) (σ : State ι α) : Label ι α → Option (State ι α)
  | .tryPush i value =>
      match σ.threads i with
      | .idle => some (σ.move i (.pushing value .loadWriteIdx))
      | _ => none
  | .tryPop i =>
      match σ.threads i with
      | .idle => some (σ.move i (.popping .loadReadIdx))
      | _ => none
  | .resume i => resume capacity σ i

/-- If the step is a compare-exchange that succeeds, the check for a full or an
empty ring would still succeed. -/
def NotStale (capacity : ℕ) (σ : State ι α) : Label ι α → Prop
  | .resume i =>
      match σ.threads i with
      | .pushing _ (.compareExchange writeIdx) =>
          σ.ring.writeIdx = writeIdx → (writeIdx + 1) % capacity ≠ σ.ring.readIdx
      | .popping (.compareExchange readIdx) =>
          σ.ring.readIdx = readIdx → readIdx ≠ σ.ring.writeIdx
      | _ => True
  | _ => True

/-! ## What a step does to the ring -/

/-- A step leaves the indices alone or is a compare-exchange that succeeds. -/
inductive RingStep (capacity : ℕ) (σ σ' : State ι α) : Label ι α → Prop
  | quiet {l : Label ι α} {data : ℕ → α} (hring : σ'.ring = { σ.ring with data := data })
      (hfresh : NotStale capacity σ l) : RingStep capacity σ σ' l
  | push {i : ι} {value : α}
      (hpc : σ.threads i = .pushing value (.compareExchange σ.ring.writeIdx))
      (hring : σ'.ring = σ.ring.claimSlot capacity σ.ring.writeIdx) :
      RingStep capacity σ σ' (.resume i)
  | pop {i : ι} (hpc : σ.threads i = .popping (.compareExchange σ.ring.readIdx))
      (hring : σ'.ring = σ.ring.releaseSlot capacity σ.ring.readIdx) :
      RingStep capacity σ σ' (.resume i)

theorem resume_ring {σ σ' : State ι α} {i : ι} (h : resume capacity σ i = some σ') :
    RingStep capacity σ σ' (.resume i) := by
  unfold resume at h
  cases hpc : σ.threads i with
  | idle => simp [hpc] at h
  | pushing value pc =>
      cases pc with
      | loadWriteIdx | store =>
          simp only [hpc, RingBuffer.tryPush, Option.some.injEq] at h
          subst h
          exact .quiet rfl (by simp [NotStale, hpc])
      | loadReadIdx writeIdx =>
          by_cases hfull : (writeIdx + 1) % capacity = σ.ring.readIdx
          · simp only [hpc, RingBuffer.tryPush, if_pos hfull, Option.some.injEq] at h
            subst h
            exact .quiet rfl (by simp [NotStale, hpc])
          · simp only [hpc, RingBuffer.tryPush, if_neg hfull, Option.some.injEq] at h
            subst h
            exact .quiet rfl (by simp [NotStale, hpc])
      | compareExchange writeIdx =>
          by_cases hwin : σ.ring.writeIdx = writeIdx
          · subst hwin
            simp only [hpc, RingBuffer.tryPush, if_true, Option.some.injEq] at h
            subst h
            exact .push hpc rfl
          · simp only [hpc, RingBuffer.tryPush, if_neg hwin, Option.some.injEq] at h
            subst h
            exact .quiet rfl (by simp [NotStale, hpc, hwin])
  | popping pc =>
      cases pc with
      | loadReadIdx | read =>
          simp only [hpc, RingBuffer.tryPop, Option.some.injEq] at h
          subst h
          exact .quiet rfl (by simp [NotStale, hpc])
      | loadWriteIdx readIdx =>
          by_cases hempty : readIdx = σ.ring.writeIdx
          · simp only [hpc, RingBuffer.tryPop, if_pos hempty, Option.some.injEq] at h
            subst h
            exact .quiet rfl (by simp [NotStale, hpc])
          · simp only [hpc, RingBuffer.tryPop, if_neg hempty, Option.some.injEq] at h
            subst h
            exact .quiet rfl (by simp [NotStale, hpc])
      | compareExchange readIdx =>
          by_cases hwin : σ.ring.readIdx = readIdx
          · subst hwin
            simp only [hpc, RingBuffer.tryPop, if_true, Option.some.injEq] at h
            subst h
            exact .pop hpc rfl
          · simp only [hpc, RingBuffer.tryPop, if_neg hwin, Option.some.injEq] at h
            subst h
            exact .quiet rfl (by simp [NotStale, hpc, hwin])

theorem step_ring {σ σ' : State ι α} {l : Label ι α} (h : step capacity σ l = some σ') :
    RingStep capacity σ σ' l := by
  cases l with
  | tryPush i value =>
      simp only [step] at h
      split at h <;> cases h
      exact .quiet rfl trivial
  | tryPop i =>
      simp only [step] at h
      split at h <;> cases h
      exact .quiet rfl trivial
  | resume i => exact resume_ring h

theorem Wrapped.step {σ σ' : State ι α} {l : Label ι α} (h : Wrapped capacity σ.ring)
    (hcap : 1 < capacity) (hok : NotStale capacity σ l)
    (hstep : TryThreads.step capacity σ l = some σ') : Wrapped capacity σ'.ring := by
  cases step_ring hstep with
  | quiet hring =>
      obtain ⟨⟨hpops, hpushes⟩, hread, hwrite⟩ := h
      rw [hring]
      exact ⟨⟨hpops, hpushes⟩, hread, hwrite⟩
  | push hpc hring =>
      simp only [NotStale, hpc, forall_const] at hok
      rw [hring]
      exact h.claimSlot ((h.claimSlot_iff hcap).mpr hok)
  | pop hpc hring =>
      simp only [NotStale, hpc, forall_const] at hok
      rw [hring]
      exact h.releaseSlot ((h.releaseSlot_iff hcap).mpr hok)

/-- A compare-exchange on a stale check pushes onto a full ring or pops from an
empty one. -/
theorem not_within {σ σ' : State ι α} {l : Label ι α} (h : Wrapped capacity σ.ring)
    (hcap : 1 < capacity) (hok : ¬ NotStale capacity σ l)
    (hstep : TryThreads.step capacity σ l = some σ') : ¬ Within capacity σ'.ring := by
  cases step_ring hstep with
  | quiet _ hfresh => exact absurd hfresh hok
  | push hpc hring =>
      simp only [NotStale, hpc, forall_const] at hok
      rw [hring]
      exact mt (h.claimSlot_iff hcap).mp hok
  | pop hpc hring =>
      simp only [NotStale, hpc, forall_const] at hok
      rw [hring]
      exact mt (h.releaseSlot_iff hcap).mp hok

/-- In a run the ring never holds less than no or more than `capacity - 1`
values iff no compare-exchange succeeds on a stale check. -/
theorem within_iff [Inhabited α] (capacity : ℕ) (hcap : 1 < capacity) (ls : List (Label ι α)) :
    Along (step capacity) (fun σ => Within capacity σ.ring) (State.init ι α) ls ↔
      StepsMeet (step capacity) (NotStale capacity) (State.init ι α) ls :=
  along_iff_stepsMeet (fun σ (h : Wrapped capacity σ.ring) => h.within)
    (fun _ _ _ h hok hstep => h.step hcap hok hstep)
    (fun _ _ _ h hok hstep => not_within h hcap hok hstep) (Wrapped.fresh capacity)

/-- One thread loads both indices of an empty ring of two slots. The other one
pushes, pops and pushes, and the write index is back where it was. The first
goes on. -/
def roundTheRing : List (Label Bool ℕ) :=
  [.tryPush false 7, .resume false, .resume false] ++
    .tryPush true 8 :: .replicate 4 (.resume true) ++ .tryPop true :: .replicate 4 (.resume true) ++
    .tryPush true 9 :: .replicate 4 (.resume true) ++ [.resume false]

/-- Two threads push at once on a ring for one value. The one that has claimed no slot pops the
value of the other, and its next push takes the other slot. -/
def pushAtOnce : List (Label Bool ℕ) :=
  [.tryPush false 7, .tryPush true 8, .resume false, .resume true, .resume false, .resume true,
    .resume true, .resume false, .tryPop false, .resume false, .resume false, .resume true,
    .resume false, .resume false, .tryPush false 9, .resume false, .resume false, .resume false,
    .resume false]

theorem within_iff_pushAtOnce :
    Along (step 2) (fun σ => Within 2 σ.ring) (State.init Bool ℕ) pushAtOnce :=
  (within_iff 2 Nat.one_lt_two _).mpr <|
    .cons trivial rfl <| .cons trivial rfl <| .cons trivial rfl <| .cons trivial rfl <|
    .cons trivial rfl <| .cons trivial rfl <|
    -- both are at their compare-exchange now, and one is late
    .cons (fun _ => by decide) rfl <| .cons (fun h => absurd h (by decide)) rfl <|
    .cons trivial rfl <| .cons trivial rfl <| .cons trivial rfl <| .cons trivial rfl <|
    .cons (fun _ => by decide) rfl <| .cons trivial rfl <| .cons trivial rfl <|
    .cons trivial rfl <| .cons trivial rfl <| .cons (fun _ => by decide) rfl <|
    .cons trivial rfl trivial

/-- Not in every run: after `roundTheRing` two pushes have succeeded more than
pops, on a ring for one value. -/
theorem not_along_within :
    ¬ ∀ (ι α : Type) [DecidableEq ι] [Inhabited α] (capacity : ℕ) (ls : List (Label ι α)),
      1 < capacity →
        Along (step capacity) (fun σ => Within capacity σ.ring) (State.init ι α) ls := by
  intro hall
  refine not_along_of_run (fun σ => (σ.ring.pushes, σ.ring.pops)) (3, 1) ?_ ?_
    (hall Bool ℕ 2 roundTheRing Nat.one_lt_two)
  · decide +kernel
  · intro σ' hobs hwithin
    obtain ⟨hpushes, hpops⟩ := Prod.mk.inj hobs
    have hle := hwithin.pushes_le
    rw [hpushes, hpops] at hle
    exact absurd hle (by decide)

end InterProcess.LockFree.TryThreads
