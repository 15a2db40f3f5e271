import InterProcess.Barber.Closing
import InterProcess.Lib.Circular

/-!
# The waiting chairs

`push` does not look whether the queue has room for a customer; the chair its
generator has taken is the room. While the shop is open a chair is free, taken
by a generator, occupied by a customer in the queue or held back by the barber
(`Chairs.taken`). Closing breaks that: it adds chairs nobody has left, and the
barber gives none back. But a generator that takes a chair once the shop is
closed leaves, so what counts are the generators committed before
(`Chairs.room`).

`unread_le`: the queue is never asked to hold more customers than it can.
-/

namespace InterProcess.Barber

open Function LockFree Lts Threads Circular

variable {g : ℕ}

/-- The generator has taken a chair for a customer not yet in the queue. -/
def GeneratorPc.seating : GeneratorPc → ℕ
  | .loadShopClosed .taken | .fetchCustomer .taken | .push _ .load
  | .push _ (.compareExchange _) => 1
  | _ => 0

/-- The barber has popped a customer and not given the chair back. -/
def BarberPc.owing : BarberPc → ℕ
  | .pop (.read _) | .trim _ | .notifyChair => 1
  | _ => 0

/-- The barber is in a `pop` that has released its slot and not read it. -/
def BarberPc.reading : BarberPc → ℕ
  | .pop (.read _) | .tryPop (.read _) => 1
  | _ => 0

theorem GeneratorPc.committed_le (pc : GeneratorPc) : pc.committed.toNat ≤ pc.seating := by
  cases pc with
  | loadShopClosed chair | fetchCustomer chair =>
      cases chair <;> exact Nat.le_of_ble_eq_true rfl
  | push customer pc => cases pc <;> exact Nat.le_of_ble_eq_true rfl
  | _ => exact Nat.zero_le _

/-- The barber calls `try_pop` only when it has seen the shop closed. -/
theorem BarberPc.reading_le {pc : BarberPc} (h : pc.closing = false) : pc.reading ≤ pc.owing := by
  cases pc with
  | pop pc => cases pc <;> exact Nat.le_of_ble_eq_true rfl
  | tryPop pc => cases h
  | _ => exact Nat.zero_le _

theorem BarberPc.reading_le_trimming (pc : BarberPc) : pc.reading ≤ pc.trimming := by
  cases pc with
  | pop pc => cases pc <;> exact Nat.le_of_ble_eq_true rfl
  | tryPop pc => cases pc <;> exact Nat.le_of_ble_eq_true rfl
  | _ => exact Nat.zero_le _

/-- Customers whose `pop` or `try_pop` has completed. -/
def Shop.popsCompleted (σ : Shop g) : ℕ := σ.customerQueue.pops - σ.barber.reading

/-- Customer number `m` is stored in slot `m % capacity`. The slot holds a
customer that has been pushed and whose pop has not completed. -/
def Unread (σ : Shop g) (slot : ℕ) : Prop :=
  ∃ m, σ.popsCompleted ≤ m ∧ m < σ.customerQueue.pushes ∧ m % waitingChairCount = slot

/-! ## Where the chairs are -/

/-- The chairs against the customers in the queue. -/
structure Chairs (σ : Shop g) : Prop where
  accounts : Accounts σ
  taken : σ.shopClosed = false →
    σ.emptyChair + total GeneratorPc.seating σ.generators + σ.customerQueue.pushes +
      σ.barber.owing ≤ σ.customerQueue.pops + waitingChairCount
  room : total (fun pc => pc.committed.toNat) σ.generators + σ.customerQueue.pushes +
    σ.barber.reading ≤ σ.customerQueue.pops + waitingChairCount

/-- A generator exchanges its chair for a place in the queue. -/
theorem GeneratorMoves.chairs {σ σ' : Shop g} {i : Fin g} (h : GeneratorMoves σ i σ') :
    ∃ pc, σ'.generators = update σ.generators i pc ∧
      σ'.emptyChair + pc.seating + σ'.customerQueue.pushes ≤
        σ.emptyChair + (σ.generators i).seating + σ.customerQueue.pushes ∧
      (σ.shopClosed = true → pc.committed.toNat + σ'.customerQueue.pushes ≤
        (σ.generators i).committed.toNat + σ.customerQueue.pushes) := by
  cases h with
  | claim hpc =>
      refine ⟨_, rfl, ?_, fun _ => ?_⟩
      · rw [hpc]
        show σ.emptyChair + 0 + (σ.customerQueue.pushes + 1) ≤
          σ.emptyChair + 1 + σ.customerQueue.pushes
        omega
      · rw [hpc]
        show 0 + (σ.customerQueue.pushes + 1) ≤ 1 + σ.customerQueue.pushes
        omega
  | takeChair hpc hle =>
      refine ⟨_, rfl, ?_, fun _ => ?_⟩
      · rw [hpc]
        show σ.emptyChair - 1 + 1 + σ.customerQueue.pushes ≤
          σ.emptyChair + 0 + σ.customerQueue.pushes
        omega
      · rw [hpc]
        exact le_rfl
  | @stay chair hpc hopen =>
      refine ⟨_, rfl, ?_, fun hclosed => ?_⟩
      · rw [hpc]
        cases chair <;> exact le_rfl
      · rw [hopen] at hclosed
        cases hclosed
  | @leave chair hpc =>
      -- the chair is lost
      refine ⟨_, rfl, ?_, fun _ => ?_⟩
      · exact Nat.add_le_add_right (Nat.add_le_add_left (Nat.zero_le _) _) _
      · rw [hpc]
        exact le_rfl
  | chairFails hpc | occupied hpc | fetchFailed hpc | fetchRefused hpc | fetch hpc | refuse hpc
  | load hpc | reload hpc | store hpc | notifyFails hpc | notifyWaiting hpc =>
      refine ⟨_, rfl, ?_, fun _ => ?_⟩ <;> rw [hpc] <;> exact le_rfl

/-- The barber gives back at most one chair for each customer. -/
theorem BarberMoves.chairs {σ σ' : Shop g} (h : BarberMoves σ σ') :
    σ'.emptyChair + σ'.barber.owing + σ.customerQueue.pops ≤
        σ.emptyChair + σ.barber.owing + σ'.customerQueue.pops ∧
      σ'.barber.reading + σ.customerQueue.pops ≤ σ.barber.reading + σ'.customerQueue.pops := by
  cases h with
  | release hpc | tryRelease hpc =>
      rw [hpc]
      simp only [RingBuffer.releaseSlot, BarberPc.owing, BarberPc.reading]
      omega
  | waitFails hpc | waitForCustomer hpc | closing hpc | failed hpc | startPop hpc
  | loadReadIdx hpc | leave hpc | drain hpc | tryLoad hpc | tryEmpty hpc | tryNotEmpty hpc
  | tryLose hpc | tryRead hpc | trimLast hpc | load hpc | reload hpc | read hpc | trim hpc
  | notifyFails hpc | notifyChair hpc =>
      rw [hpc]
      simp only [BarberPc.owing, BarberPc.reading]
      omega

/-- While the shop is open every committed generator has a chair. -/
theorem room_of_taken {σ : Shop g} (hclosing : σ.barber.closing = false)
    (h : σ.emptyChair + total GeneratorPc.seating σ.generators + σ.customerQueue.pushes +
      σ.barber.owing ≤ σ.customerQueue.pops + waitingChairCount) :
    total (fun pc => pc.committed.toNat) σ.generators + σ.customerQueue.pushes +
      σ.barber.reading ≤ σ.customerQueue.pops + waitingChairCount := by
  have hcommitted := total_mono GeneratorPc.committed_le σ.generators
  have hreading := BarberPc.reading_le hclosing
  omega

theorem Accounts.not_closing {σ : Shop g} (h : Accounts σ) (hopen : σ.shopClosed = false) :
    σ.barber.closing = false := by
  cases hclosing : σ.barber.closing with
  | false => rfl
  | true => exact absurd (h.closing hclosing) (Bool.eq_false_iff.mp hopen)

theorem Chairs.init : Chairs (Shop.init g) := by
  have hseating : total GeneratorPc.seating (Shop.init g).generators = 0 :=
    total_eq_zero fun _ => rfl
  have htaken : (Shop.init g).emptyChair + total GeneratorPc.seating (Shop.init g).generators +
      (Shop.init g).customerQueue.pushes + (Shop.init g).barber.owing ≤
        (Shop.init g).customerQueue.pops + waitingChairCount := by
    rw [hseating]
    exact le_rfl
  exact ⟨Accounts.init, fun _ => htaken, room_of_taken rfl htaken⟩

theorem Chairs.generator {σ σ' : Shop g} {i : Fin g} (h : Chairs σ)
    (hmove : GeneratorMoves σ i σ') : Chairs σ' := by
  have haccounts := h.accounts.generator hmove
  obtain ⟨pc, hgenerators, hchair, hcommit⟩ := hmove.chairs
  obtain ⟨hbarber, -, hclosed, -⟩ := hmove.frame
  obtain ⟨-, hpops⟩ := hmove.frame_queue
  have hseating := total_update GeneratorPc.seating σ.generators i pc
  have hcommitted := total_update (fun pc => pc.committed.toNat) σ.generators i pc
  have htaken : σ.shopClosed = false →
      σ'.emptyChair + total GeneratorPc.seating σ'.generators + σ'.customerQueue.pushes +
        σ'.barber.owing ≤ σ'.customerQueue.pops + waitingChairCount := by
    intro hopen
    have htaken := h.taken hopen
    rw [hgenerators, hbarber, hpops]
    omega
  refine ⟨haccounts, fun hopen => htaken (hclosed ▸ hopen), ?_⟩
  cases hshop : σ.shopClosed with
  | false => exact room_of_taken (haccounts.not_closing (hclosed.trans hshop)) (htaken hshop)
  | true =>
      have hroom := h.room
      have hcommit := hcommit hshop
      rw [hgenerators, hbarber, hpops]
      omega

theorem Chairs.barber {σ σ' : Shop g} (h : Chairs σ) (hmove : BarberMoves σ σ') : Chairs σ' := by
  obtain ⟨hgenerators, -, hclosed, -, -, hpushes, -⟩ := hmove.frame
  obtain ⟨hchair, hreading⟩ := hmove.chairs
  refine ⟨h.accounts.barber hmove, fun hopen => ?_, ?_⟩
  · have htaken := h.taken (hclosed ▸ hopen)
    rw [hgenerators, hpushes]
    omega
  · have hroom := h.room
    rw [hgenerators, hpushes]
    omega

theorem Chairs.parent {σ σ' : Shop g} {ok : Bool} (h : Chairs σ) (hmove : ParentMoves σ ok σ') :
    Chairs σ' := by
  have haccounts := h.accounts.parent hmove
  cases hmove with
  | closeShop hpc => exact ⟨haccounts, nofun, h.room⟩
  | notifyChairs hpc =>
      -- the shop is closed: the new chairs seat nobody
      have hclosed := h.accounts.parent_closed (by simp [hpc])
      exact ⟨haccounts, fun hopen => absurd hclosed (Bool.eq_false_iff.mp hopen), h.room⟩
  | notifyWaiting hpc => exact ⟨haccounts, h.taken, h.room⟩

theorem Chairs.step {σ σ' : Shop g} {l : Label g} (h : Chairs σ)
    (hstep : Barber.step σ l = some σ') : Chairs σ' := by
  cases l with
  | generator i ok => exact h.generator (stepGenerator_moves hstep)
  | barber ok => exact h.barber (stepBarber_moves hstep)
  | parent ok => exact h.parent (stepParent_moves hstep)

/-! ## The queue has room -/

theorem Chairs.outstanding_le {σ : Shop g} (h : Chairs σ) :
    σ.customerQueue.pushes - σ.popsCompleted ≤ waitingChairCount := by
  have hroom := h.room
  have hserved := h.accounts.served
  have hreading := σ.barber.reading_le_trimming
  unfold Shop.popsCompleted
  omega

/-- A committed generator finds its slot free of customers. -/
theorem Chairs.not_unread {σ : Shop g} (h : Chairs σ) {i : Fin g}
    (hcommitted : (σ.generators i).committed = true) :
    ¬ Unread σ σ.customerQueue.writeIdx := by
  rintro ⟨m, hle, hlt, hslot⟩
  have hone : (σ.generators i).committed.toNat ≤
      total (fun pc => pc.committed.toNat) σ.generators :=
    le_total (fun pc : GeneratorPc => pc.committed.toNat) _ i
  rw [hcommitted, Bool.toNat_true] at hone
  have hroom := h.room
  have hserved := h.accounts.served
  have hreading := σ.barber.reading_le_trimming
  rw [h.accounts.writeIdx_eq] at hslot
  unfold Shop.popsCompleted at hle
  exact mod_ne_of_lt_of_lt hlt (by omega) hslot

/-- Never more customers are pushed and not completely popped than the queue has
slots, and no `push` claims the slot of a customer not yet read. -/
theorem unread_le (g : ℕ) (σ : Shop g) (h : Reachable step (Shop.init g) σ) :
    σ.customerQueue.pushes - σ.popsCompleted ≤ waitingChairCount ∧
      ∀ i customer,
        σ.generators i = .push customer (.compareExchange σ.customerQueue.writeIdx) →
          ¬ Unread σ σ.customerQueue.writeIdx := by
  have hchairs : Chairs σ := h.induction Chairs.init fun _ _ _ hσ hstep => hσ.step hstep
  exact ⟨hchairs.outstanding_le, fun i customer hpc => hchairs.not_unread (by rw [hpc]; rfl)⟩

/-- With one customer in the queue, the generator is about to push the next. -/
theorem unread_le_nextCustomer :
    ∃ σ, run step (Shop.init 1) (.replicate 11 (.generator (Fin.last 0) true)) = some σ ∧
      σ.customerQueue.writeIdx = 1 ∧ σ.customerQueue.pushes - σ.popsCompleted ≤ waitingChairCount ∧
      ¬ Unread σ 1 := by
  have hrun := (Option.some_get (show (run step (Shop.init 1)
    (.replicate 11 (.generator (Fin.last 0) true))).isSome from rfl)).symm
  obtain ⟨hle, hunread⟩ := unread_le 1 _ ⟨_, hrun⟩
  exact ⟨_, hrun, rfl, hle, hunread (Fin.last 0) 1 rfl⟩

end InterProcess.Barber
