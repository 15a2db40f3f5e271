import InterProcess.Barber.Shop

/-!
# The steps of the sleeping barber program

The step functions read backwards, one constructor for each thing a step can do.
The barber is the only one to pop,
so whatever it has read from the read index stays true; the generators race on
the write index.
-/

namespace InterProcess.Barber

open Function LockFree

variable {g : ℕ}

/-- A step of `generate_customers`. -/
inductive GeneratorMoves (σ : Shop g) (i : Fin g) : Shop g → Prop
  | chairFails (hpc : σ.generators i = .tryWait) :
      GeneratorMoves σ i (σ.setGenerator i (.loadShopClosed .failed))
  | takeChair (hpc : σ.generators i = .tryWait) (hle : 1 ≤ σ.emptyChair) :
      GeneratorMoves σ i ({ σ with
        emptyChair := σ.emptyChair - 1 }.setGenerator i (.loadShopClosed .taken))
  | occupied (hpc : σ.generators i = .tryWait) (hnone : σ.emptyChair = 0) :
      GeneratorMoves σ i (σ.setGenerator i (.loadShopClosed .occupied))
  | leave {chair : Chair} (hpc : σ.generators i = .loadShopClosed chair)
      (hclosed : σ.shopClosed = true) :
      GeneratorMoves σ i (σ.setGenerator i (.returned .shopClosed))
  | stay {chair : Chair} (hpc : σ.generators i = .loadShopClosed chair)
      (hopen : σ.shopClosed = false) :
      GeneratorMoves σ i (σ.setGenerator i (.fetchCustomer chair))
  | fetchFailed (hpc : σ.generators i = .fetchCustomer .failed) :
      GeneratorMoves σ i ({ σ with
        nextCustomerId := σ.nextCustomerId + 1 }.setGenerator i (.returned .chairFailed))
  | fetchRefused (hpc : σ.generators i = .fetchCustomer .occupied) :
      GeneratorMoves σ i ({ σ with
        nextCustomerId := σ.nextCustomerId + 1 }.setGenerator i (.refuse σ.nextCustomerId))
  | fetch (hpc : σ.generators i = .fetchCustomer .taken) :
      GeneratorMoves σ i ({ σ with
        nextCustomerId := σ.nextCustomerId + 1 }.setGenerator i (.push σ.nextCustomerId .load))
  | refuse {customer : ℕ} (hpc : σ.generators i = .refuse customer) :
      GeneratorMoves σ i ({ σ with
        refusedCustomers := σ.refusedCustomers + 1 }.setGenerator i .tryWait)
  | load {customer : ℕ} (hpc : σ.generators i = .push customer .load) :
      GeneratorMoves σ i (σ.setGenerator i
        (.push customer (.compareExchange σ.customerQueue.writeIdx)))
  | reload {customer writeIdx : ℕ}
      (hpc : σ.generators i = .push customer (.compareExchange writeIdx)) :
      GeneratorMoves σ i (σ.setGenerator i
        (.push customer (.compareExchange σ.customerQueue.writeIdx)))
  | claim {customer : ℕ}
      (hpc : σ.generators i = .push customer (.compareExchange σ.customerQueue.writeIdx)) :
      GeneratorMoves σ i ({ σ with
        customerQueue := σ.customerQueue.claimSlot waitingChairCount
          σ.customerQueue.writeIdx }.setGenerator i
            (.push customer (.store σ.customerQueue.writeIdx)))
  | store {customer writeIdx : ℕ}
      (hpc : σ.generators i = .push customer (.store writeIdx)) :
      GeneratorMoves σ i ({ σ with
        customerQueue := { σ.customerQueue with
          data := update σ.customerQueue.data writeIdx customer } }.setGenerator i
            (.notifyWaiting customer))
  | notifyFails {customer : ℕ} (hpc : σ.generators i = .notifyWaiting customer) :
      GeneratorMoves σ i (σ.setGenerator i (.returned .notifyFailed))
  | notifyWaiting {customer : ℕ} (hpc : σ.generators i = .notifyWaiting customer) :
      GeneratorMoves σ i ({ σ with
        customerWaiting := σ.customerWaiting + 1 }.setGenerator i .tryWait)

theorem stepGenerator_moves {σ σ' : Shop g} {i : Fin g} {ok : Bool}
    (h : stepGenerator σ i ok = some σ') : GeneratorMoves σ i σ' := by
  unfold stepGenerator at h
  cases hpc : σ.generators i with
  | tryWait =>
      simp only [hpc] at h
      split at h
      · cases h; exact .chairFails hpc
      · split at h
        · next hle => cases h; exact .takeChair hpc hle
        · next hnone => cases h; exact .occupied hpc (by omega)
  | loadShopClosed chair =>
      simp only [hpc] at h
      split at h
      · next hclosed => cases h; exact .leave hpc hclosed
      · next hopen => cases h; exact .stay hpc (by simpa using hopen)
  | fetchCustomer chair =>
      cases chair with
      | taken => simp only [hpc, Option.some.injEq] at h; exact h ▸ .fetch hpc
      | occupied => simp only [hpc, Option.some.injEq] at h; exact h ▸ .fetchRefused hpc
      | failed => simp only [hpc, Option.some.injEq] at h; exact h ▸ .fetchFailed hpc
  | refuse customer =>
      simp only [hpc, Option.some.injEq] at h
      exact h ▸ .refuse hpc
  | push customer pc =>
      cases pc with
      | load =>
          simp only [hpc, RingBuffer.push, Option.some.injEq] at h
          exact h ▸ .load hpc
      | compareExchange writeIdx =>
          by_cases hwin : σ.customerQueue.writeIdx = writeIdx
          · subst hwin
            simp only [hpc, RingBuffer.push, if_true, Option.some.injEq] at h
            exact h ▸ .claim hpc
          · simp only [hpc, RingBuffer.push, if_neg hwin, Option.some.injEq] at h
            exact h ▸ .reload hpc
      | store writeIdx =>
          simp only [hpc, RingBuffer.push, Option.some.injEq] at h
          exact h ▸ .store hpc
  | notifyWaiting customer =>
      simp only [hpc] at h
      split at h
      · cases h; exact .notifyFails hpc
      · cases h; exact .notifyWaiting hpc
  | returned exit => simp [hpc] at h

/-- A step of `serve_customer`. -/
inductive BarberMoves (σ : Shop g) : Shop g → Prop
  | waitFails (hpc : σ.barber = .waitForCustomer) :
      BarberMoves σ { σ with barber := .loadShopClosed false }
  | waitForCustomer (hpc : σ.barber = .waitForCustomer) (hle : 1 ≤ σ.customerWaiting) :
      BarberMoves σ { σ with
        customerWaiting := σ.customerWaiting - 1, barber := .loadShopClosed true }
  | closing {waiting : Bool} (hpc : σ.barber = .loadShopClosed waiting)
      (hclosed : σ.shopClosed = true) : BarberMoves σ { σ with barber := .empty .loadReadIdx }
  | failed (hpc : σ.barber = .loadShopClosed false) :
      BarberMoves σ { σ with barber := .returned false }
  | startPop (hpc : σ.barber = .loadShopClosed true) (hopen : σ.shopClosed = false) :
      BarberMoves σ { σ with barber := .pop .load }
  | loadReadIdx (hpc : σ.barber = .empty .loadReadIdx) :
      BarberMoves σ { σ with barber := .empty (.loadWriteIdx σ.customerQueue.readIdx) }
  | leave (hpc : σ.barber = .empty (.loadWriteIdx σ.customerQueue.writeIdx)) :
      BarberMoves σ { σ with barber := .returned true }
  | drain {readIdx : ℕ} (hpc : σ.barber = .empty (.loadWriteIdx readIdx))
      (hne : readIdx ≠ σ.customerQueue.writeIdx) :
      BarberMoves σ { σ with barber := .tryPop .loadReadIdx }
  | tryLoad (hpc : σ.barber = .tryPop .loadReadIdx) :
      BarberMoves σ { σ with barber := .tryPop (.loadWriteIdx σ.customerQueue.readIdx) }
  | tryEmpty (hpc : σ.barber = .tryPop (.loadWriteIdx σ.customerQueue.writeIdx)) :
      BarberMoves σ { σ with barber := .empty .loadReadIdx }
  | tryNotEmpty {readIdx : ℕ} (hpc : σ.barber = .tryPop (.loadWriteIdx readIdx))
      (hne : readIdx ≠ σ.customerQueue.writeIdx) :
      BarberMoves σ { σ with barber := .tryPop (.compareExchange readIdx) }
  | tryRelease (hpc : σ.barber = .tryPop (.compareExchange σ.customerQueue.readIdx)) :
      BarberMoves σ { σ with
        customerQueue := σ.customerQueue.releaseSlot waitingChairCount σ.customerQueue.readIdx
        barber := .tryPop (.read σ.customerQueue.readIdx) }
  | tryLose {readIdx : ℕ} (hpc : σ.barber = .tryPop (.compareExchange readIdx)) :
      BarberMoves σ { σ with barber := .empty .loadReadIdx }
  | tryRead {readIdx : ℕ} (hpc : σ.barber = .tryPop (.read readIdx)) :
      BarberMoves σ { σ with barber := .trimLast (σ.customerQueue.data readIdx) }
  | trimLast {customer : ℕ} (hpc : σ.barber = .trimLast customer) :
      BarberMoves σ { σ with
        servedCustomers := σ.servedCustomers + 1, barber := .empty .loadReadIdx }
  | load (hpc : σ.barber = .pop .load) :
      BarberMoves σ { σ with barber := .pop (.compareExchange σ.customerQueue.readIdx) }
  | reload {readIdx : ℕ} (hpc : σ.barber = .pop (.compareExchange readIdx)) :
      BarberMoves σ { σ with barber := .pop (.compareExchange σ.customerQueue.readIdx) }
  | release (hpc : σ.barber = .pop (.compareExchange σ.customerQueue.readIdx)) :
      BarberMoves σ { σ with
        customerQueue := σ.customerQueue.releaseSlot waitingChairCount σ.customerQueue.readIdx
        barber := .pop (.read σ.customerQueue.readIdx) }
  | read {readIdx : ℕ} (hpc : σ.barber = .pop (.read readIdx)) :
      BarberMoves σ { σ with barber := .trim (σ.customerQueue.data readIdx) }
  | trim {customer : ℕ} (hpc : σ.barber = .trim customer) :
      BarberMoves σ { σ with
        servedCustomers := σ.servedCustomers + 1, barber := .notifyChair }
  | notifyFails (hpc : σ.barber = .notifyChair) :
      BarberMoves σ { σ with barber := .returned false }
  | notifyChair (hpc : σ.barber = .notifyChair) :
      BarberMoves σ { σ with emptyChair := σ.emptyChair + 1, barber := .waitForCustomer }

theorem stepBarber_moves {σ σ' : Shop g} {ok : Bool} (h : stepBarber σ ok = some σ') :
    BarberMoves σ σ' := by
  unfold stepBarber at h
  cases hpc : σ.barber with
  | waitForCustomer =>
      simp only [hpc] at h
      split at h
      · cases h; exact .waitFails hpc
      · split at h
        · next hle => cases h; exact .waitForCustomer hpc hle
        · cases h
  | loadShopClosed waiting =>
      simp only [hpc] at h
      split at h
      · next hclosed => cases h; exact .closing hpc hclosed
      · next hopen =>
          cases waiting with
          | false => cases h; exact .failed hpc
          | true => cases h; exact .startPop hpc (by simpa using hopen)
  | empty pc =>
      cases pc with
      | loadReadIdx =>
          simp only [hpc, RingBuffer.empty, Option.some.injEq] at h
          exact h ▸ .loadReadIdx hpc
      | loadWriteIdx readIdx =>
          by_cases heq : readIdx = σ.customerQueue.writeIdx
          · subst heq
            simp only [hpc, RingBuffer.empty, beq_self_eq_true, Option.some.injEq] at h
            exact h ▸ .leave hpc
          · simp only [hpc, RingBuffer.empty, beq_false_of_ne heq, Option.some.injEq] at h
            exact h ▸ .drain hpc heq
  | tryPop pc =>
      cases pc with
      | loadReadIdx =>
          simp only [hpc, RingBuffer.tryPop, Option.some.injEq] at h
          exact h ▸ .tryLoad hpc
      | loadWriteIdx readIdx =>
          by_cases heq : readIdx = σ.customerQueue.writeIdx
          · subst heq
            simp only [hpc, RingBuffer.tryPop, if_true, Option.some.injEq] at h
            exact h ▸ .tryEmpty hpc
          · simp only [hpc, RingBuffer.tryPop, if_neg heq, Option.some.injEq] at h
            exact h ▸ .tryNotEmpty hpc heq
      | compareExchange readIdx =>
          by_cases hwin : σ.customerQueue.readIdx = readIdx
          · subst hwin
            simp only [hpc, RingBuffer.tryPop, if_true, Option.some.injEq] at h
            exact h ▸ .tryRelease hpc
          · simp only [hpc, RingBuffer.tryPop, if_neg hwin, Option.some.injEq] at h
            exact h ▸ .tryLose hpc
      | read readIdx =>
          simp only [hpc, RingBuffer.tryPop, Option.some.injEq] at h
          exact h ▸ .tryRead hpc
  | trimLast customer =>
      simp only [hpc, Option.some.injEq] at h
      exact h ▸ .trimLast hpc
  | pop pc =>
      cases pc with
      | load =>
          simp only [hpc, RingBuffer.pop, Option.some.injEq] at h
          exact h ▸ .load hpc
      | compareExchange readIdx =>
          by_cases hwin : σ.customerQueue.readIdx = readIdx
          · subst hwin
            simp only [hpc, RingBuffer.pop, if_true, Option.some.injEq] at h
            exact h ▸ .release hpc
          · simp only [hpc, RingBuffer.pop, if_neg hwin, Option.some.injEq] at h
            exact h ▸ .reload hpc
      | read readIdx =>
          simp only [hpc, RingBuffer.pop, Option.some.injEq] at h
          exact h ▸ .read hpc
  | trim customer =>
      simp only [hpc, Option.some.injEq] at h
      exact h ▸ .trim hpc
  | notifyChair =>
      simp only [hpc] at h
      split at h
      · cases h; exact .notifyFails hpc
      · cases h; exact .notifyChair hpc
  | returned result => simp [hpc] at h

/-- A step of the parent. -/
inductive ParentMoves (σ : Shop g) (ok : Bool) : Shop g → Prop
  | closeShop (hpc : σ.parent = .closeShop) :
      ParentMoves σ ok { σ with shopClosed := true, parent := .notifyChairs }
  | notifyChairs (hpc : σ.parent = .notifyChairs) :
      ParentMoves σ ok { σ with
        emptyChair := if ok then σ.emptyChair + g else σ.emptyChair
        parent := .notifyWaiting }
  | notifyWaiting (hpc : σ.parent = .notifyWaiting) :
      ParentMoves σ ok { σ with
        customerWaiting := if ok then σ.customerWaiting + 1 else σ.customerWaiting
        parent := .waitForChildren }

theorem stepParent_moves {σ σ' : Shop g} {ok : Bool} (h : stepParent σ ok = some σ') :
    ParentMoves σ ok σ' := by
  unfold stepParent at h
  cases hpc : σ.parent with
  | closeShop => simp only [hpc, Option.some.injEq] at h; exact h ▸ .closeShop hpc
  | notifyChairs => simp only [hpc, Option.some.injEq] at h; exact h ▸ .notifyChairs hpc
  | notifyWaiting => simp only [hpc, Option.some.injEq] at h; exact h ▸ .notifyWaiting hpc
  | waitForChildren => simp [hpc] at h

end InterProcess.Barber
