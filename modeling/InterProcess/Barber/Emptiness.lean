import InterProcess.Barber.Chairs

/-!
# What `empty` says of the queue

The ring has as many slots as there are chairs, and the chairs let it fill up
completely. Its indices are equal again then, and `empty` takes it for empty
although nobody has been served.

`emptyMeansPopped_iff`: that this never comes about is to say that no generator
completes the only push under way while all chairs are occupied.
-/

namespace InterProcess.Barber

open Function LockFree Lts Threads Circular

variable {g : ℕ}

/-- The generator is inside `push`. -/
def GeneratorPc.pushing : GeneratorPc → Bool
  | .push _ _ => true
  | _ => false

/-- With no `push` in progress, `empty` is true iff every customer pushed has
been popped. -/
def EmptyMeansPopped (σ : Shop g) : Prop :=
  (∀ i, (σ.generators i).pushing = false) →
    (σ.customerQueue.isEmpty = true ↔ σ.customerQueue.pops = σ.customerQueue.pushes)

/-- If the step completes the only `push` in progress, some chair is not
occupied by a customer in the queue. -/
def ChairLeft (σ : Shop g) : Label g → Prop
  | .generator i _ => ∀ customer slot, σ.generators i = .push customer (.store slot) →
      (∀ j, j ≠ i → (σ.generators j).pushing = false) →
        σ.customerQueue.pushes < σ.customerQueue.pops + waitingChairCount
  | _ => True

/-- The indices are equal in an empty ring and in a full one. -/
theorem Chairs.isEmpty_iff {σ : Shop g} (h : Chairs σ) : σ.customerQueue.isEmpty = true ↔
    σ.customerQueue.pops = σ.customerQueue.pushes ∨
      σ.customerQueue.pops + waitingChairCount = σ.customerQueue.pushes := by
  have hle := h.accounts.pops_le
  have hroom := h.room
  rw [RingBuffer.isEmpty, beq_iff_eq, h.accounts.readIdx_eq, h.accounts.writeIdx_eq]
  constructor
  · intro heq
    by_contra hne
    exact mod_ne_of_lt_of_lt (a := σ.customerQueue.pops) (b := σ.customerQueue.pushes)
      (by omega) (by omega) heq
  · rintro (heq | heq)
    · rw [heq]
    · rw [← heq, Nat.add_mod_right]

/-- Only the step that stores leaves `push`. -/
theorem GeneratorMoves.outside {σ σ' : Shop g} {i : Fin g} (h : GeneratorMoves σ i σ')
    (houtside : (σ'.generators i).pushing = false) :
    σ'.customerQueue.pushes = σ.customerQueue.pushes ∧
      ((σ.generators i).pushing = false ∨
        ∃ customer slot, σ.generators i = .push customer (.store slot)) := by
  cases h with
  | store hpc => exact ⟨rfl, .inr ⟨_, _, hpc⟩⟩
  | load hpc | reload hpc | claim hpc | fetch hpc =>
      simp [Shop.setGenerator, GeneratorPc.pushing] at houtside
  | chairFails hpc | takeChair hpc | occupied hpc | leave hpc | stay hpc | fetchFailed hpc
  | fetchRefused hpc | refuse hpc | notifyFails hpc | notifyWaiting hpc =>
      exact ⟨rfl, .inl (by rw [hpc]; rfl)⟩

/-- Customers leave the queue. -/
theorem BarberMoves.le_pops {σ σ' : Shop g} (h : BarberMoves σ σ') :
    σ.customerQueue.pops ≤ σ'.customerQueue.pops := by
  cases h with
  | release | tryRelease => exact Nat.le_succ _
  | _ => exact le_rfl

/-- The queue is not full when nobody pushes. -/
structure NotFull (σ : Shop g) : Prop where
  chairs : Chairs σ
  chairLeft : (∀ i, (σ.generators i).pushing = false) →
    σ.customerQueue.pushes < σ.customerQueue.pops + waitingChairCount

theorem NotFull.emptyMeansPopped {σ : Shop g} (h : NotFull σ) : EmptyMeansPopped σ := by
  intro hquiet
  have hleft := h.chairLeft hquiet
  rw [h.chairs.isEmpty_iff]
  omega

theorem NotFull.init : NotFull (Shop.init g) := ⟨Chairs.init, fun _ => Nat.succ_pos 4⟩

theorem NotFull.step {σ σ' : Shop g} {l : Label g} (h : NotFull σ) (hleft : ChairLeft σ l)
    (hstep : Barber.step σ l = some σ') : NotFull σ' := by
  refine ⟨h.chairs.step hstep, fun hquiet => ?_⟩
  cases l with
  | generator i ok =>
      have hmove := stepGenerator_moves hstep
      have hpops := hmove.frame_queue.2
      obtain ⟨pc, hgenerators, -, -⟩ := hmove.chairs
      have hothers : ∀ j, j ≠ i → (σ.generators j).pushing = false := by
        intro j hj
        have hj' := hquiet j
        rwa [hgenerators, update_of_ne hj] at hj'
      obtain ⟨hpushes, hpushing | ⟨customer, slot, hpc⟩⟩ := hmove.outside (hquiet i)
      · have hquiet₀ : ∀ j, (σ.generators j).pushing = false := by
          intro j
          by_cases hj : j = i
          · rw [hj, hpushing]
          · exact hothers j hj
        rw [hpushes, hpops]
        exact h.chairLeft hquiet₀
      · rw [hpushes, hpops]
        exact hleft customer slot hpc hothers
  | barber ok =>
      have hmove := stepBarber_moves hstep
      obtain ⟨hgenerators, -, -, -, -, hpushes, -⟩ := hmove.frame
      have hpops := hmove.le_pops
      rw [hgenerators] at hquiet
      have hlt := h.chairLeft hquiet
      omega
  | parent ok =>
      cases stepParent_moves hstep with
      | closeShop | notifyChairs | notifyWaiting => exact h.chairLeft hquiet

/-- The step that fills the queue makes `empty` true. -/
theorem not_emptyMeansPopped {σ σ' : Shop g} {l : Label g} (h : NotFull σ)
    (hleft : ¬ ChairLeft σ l) (hstep : Barber.step σ l = some σ') : ¬ EmptyMeansPopped σ' := by
  cases l with
  | generator i ok =>
      simp only [ChairLeft, Classical.not_imp, not_forall] at hleft
      obtain ⟨customer, slot, hpc, hothers, hfull⟩ := hleft
      simp only [Barber.step, stepGenerator, hpc, RingBuffer.push, Option.some.injEq] at hstep
      subst hstep
      have hquiet : ∀ j, (update σ.generators i (.notifyWaiting customer) j).pushing = false :=
        forall_update (P := fun pc : GeneratorPc => pc.pushing = false) rfl hothers
      have hroom := h.chairs.room
      have hempty : σ.customerQueue.isEmpty = true := h.chairs.isEmpty_iff.mpr (.inr (by omega))
      intro hmeans
      have hpopped : σ.customerQueue.pops = σ.customerQueue.pushes := (hmeans hquiet).mp hempty
      have hchairs : 0 < waitingChairCount := Nat.succ_pos 4
      omega
  | barber ok | parent ok => exact absurd trivial hleft

/-- In every state of a run with no `push` in progress, `empty` is true iff all
customers pushed have been popped, iff no step of it completes the only `push`
in progress while the queue is full. -/
theorem emptyMeansPopped_iff (g : ℕ) (ls : List (Label g)) :
    Along step EmptyMeansPopped (Shop.init g) ls ↔ StepsMeet step ChairLeft (Shop.init g) ls :=
  along_iff_stepsMeet (fun _ h => h.emptyMeansPopped)
    (fun _ _ _ h hleft hstep => h.step hleft hstep)
    (fun _ _ _ h hleft hstep => not_emptyMeansPopped h hleft hstep) NotFull.init

/-- One generator has five customers come in while the barber sleeps; it has
stored the fifth and not notified the barber. -/
def fiveCustomers : List (Label 1) := .replicate 34 (.generator (Fin.last 0) true)

/-- Not in every run: after `fiveCustomers` the queue is full and `empty` true. -/
theorem not_along_emptyMeansPopped :
    ¬ ∀ (g : ℕ) (ls : List (Label g)), 1 ≤ g →
      Along step EmptyMeansPopped (Shop.init g) ls := by
  intro hall
  refine not_along_of_run
    (fun σ => (σ.generators, σ.customerQueue.isEmpty, σ.customerQueue.pops,
      σ.customerQueue.pushes))
    (fun _ => .notifyWaiting 4, true, 0, 5) ?_ ?_ (hall 1 fiveCustomers le_rfl)
  · decide +kernel
  · intro σ' hobs hmeans
    obtain ⟨hgenerators, hqueue⟩ := Prod.mk.inj hobs
    obtain ⟨hempty, hcounts⟩ := Prod.mk.inj hqueue
    obtain ⟨hpops, hpushes⟩ := Prod.mk.inj hcounts
    have hpopped := (hmeans fun i => by rw [hgenerators]; rfl).mp hempty
    rw [hpops, hpushes] at hpopped
    cases hpopped

end InterProcess.Barber
