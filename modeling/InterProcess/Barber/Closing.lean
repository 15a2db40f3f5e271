import InterProcess.Barber.Moves
import InterProcess.Lib.Lts
import InterProcess.Lib.Threads

/-!
# Closing the shop

When the shop closes the barber serves whoever is in the queue until
`queue.empty()` says that nobody is. It can be wrong about that in two ways. A
full ring has equal indices, so five waiting customers look like none. And a
generator that took a chair and found the shop still open may push its customer
only after the barber has looked.

`served_add_refused_iff`: in a complete run the counters add up iff the barber
leaves an empty queue that nobody is about to push to.
-/

namespace InterProcess.Barber

open Function LockFree Lts Threads

variable {g : ℕ}

/-- The generator's customer has an id and is neither refused nor in the queue. -/
def GeneratorPc.arriving : GeneratorPc → ℕ
  | .refuse _ | .push _ .load | .push _ (.compareExchange _) | .returned .chairFailed => 1
  | _ => 0

/-- The generator's customer is in the queue, the barber is not notified. -/
def GeneratorPc.toNotify : GeneratorPc → ℕ
  | .push _ (.store _) | .notifyWaiting _ => 1
  | _ => 0

/-- The generator has taken a chair, found the shop open and has not pushed. -/
def GeneratorPc.committed : GeneratorPc → Bool
  | .fetchCustomer .taken | .push _ .load | .push _ (.compareExchange _) => true
  | _ => false

/-- The barber has popped a customer it has not served. -/
def BarberPc.trimming : BarberPc → ℕ
  | .tryPop (.read _) | .trimLast _ | .pop (.read _) | .trim _ => 1
  | _ => 0

/-- The barber has taken a notification and not popped the customer for it. -/
def BarberPc.holding : BarberPc → ℕ
  | .loadShopClosed true | .pop .load | .pop (.compareExchange _) => 1
  | _ => 0

/-- The barber has seen that the shop is closed. -/
def BarberPc.closing : BarberPc → Bool
  | .empty _ | .tryPop _ | .trimLast _ | .returned true => true
  | _ => false

/-- What the barber knows about the queue. -/
def BarberPc.Knows (ring : RingBuffer ℕ) : BarberPc → Prop
  | .pop .load | .pop (.compareExchange _) | .tryPop (.compareExchange _) =>
      ring.pops < ring.pushes
  | .tryPop (.loadWriteIdx readIdx) => readIdx = ring.readIdx
  | _ => True

/-- The customers are accounted for. -/
structure Accounts (σ : Shop g) : Prop where
  arrived : σ.nextCustomerId = σ.refusedCustomers + σ.customerQueue.pushes +
    total GeneratorPc.arriving σ.generators
  served : σ.servedCustomers + σ.barber.trimming = σ.customerQueue.pops
  /-- the barber is notified of customers only, until the shop closes -/
  notified : σ.shopClosed = false →
    σ.customerWaiting + σ.barber.holding + σ.customerQueue.pops +
      total GeneratorPc.toNotify σ.generators ≤ σ.customerQueue.pushes
  pops_le : σ.customerQueue.pops ≤ σ.customerQueue.pushes
  knows : σ.barber.Knows σ.customerQueue
  readIdx_eq : σ.customerQueue.readIdx = σ.customerQueue.pops % waitingChairCount
  writeIdx_eq : σ.customerQueue.writeIdx = σ.customerQueue.pushes % waitingChairCount
  closing : σ.barber.closing = true → σ.shopClosed = true
  parent_closed : σ.parent ≠ .closeShop → σ.shopClosed = true

/-! ## The generators -/

theorem GeneratorMoves.frame {σ σ' : Shop g} {i : Fin g} (h : GeneratorMoves σ i σ') :
    σ'.barber = σ.barber ∧ σ'.parent = σ.parent ∧ σ'.shopClosed = σ.shopClosed ∧
      σ'.servedCustomers = σ.servedCustomers := by
  cases h <;> exact ⟨rfl, rfl, rfl, rfl⟩

theorem GeneratorMoves.frame_queue {σ σ' : Shop g} {i : Fin g} (h : GeneratorMoves σ i σ') :
    σ'.customerQueue.readIdx = σ.customerQueue.readIdx ∧
      σ'.customerQueue.pops = σ.customerQueue.pops := by
  cases h <;> exact ⟨rfl, rfl⟩

/-- A generator accounts for its own customer. -/
theorem GeneratorMoves.accounts {σ σ' : Shop g} {i : Fin g} (h : GeneratorMoves σ i σ')
    (hwrite : σ.customerQueue.writeIdx = σ.customerQueue.pushes % waitingChairCount) :
    ∃ pc, σ'.generators = update σ.generators i pc ∧
      σ'.nextCustomerId + σ.refusedCustomers + σ.customerQueue.pushes +
          (σ.generators i).arriving =
        σ.nextCustomerId + σ'.refusedCustomers + σ'.customerQueue.pushes + pc.arriving ∧
      σ'.customerWaiting + pc.toNotify + σ.customerQueue.pushes ≤
        σ.customerWaiting + (σ.generators i).toNotify + σ'.customerQueue.pushes ∧
      σ.customerQueue.pushes ≤ σ'.customerQueue.pushes ∧
      σ'.customerQueue.writeIdx = σ'.customerQueue.pushes % waitingChairCount := by
  cases h with
  | claim hpc =>
      -- the customer is in the queue from here on
      refine ⟨_, rfl, ?_, ?_, Nat.le_succ _, ?_⟩
      · rw [hpc]
        show σ.nextCustomerId + σ.refusedCustomers + σ.customerQueue.pushes + 1 =
          σ.nextCustomerId + σ.refusedCustomers + (σ.customerQueue.pushes + 1) + 0
        omega
      · rw [hpc]
        show σ.customerWaiting + 1 + σ.customerQueue.pushes ≤
          σ.customerWaiting + 0 + (σ.customerQueue.pushes + 1)
        omega
      · show (σ.customerQueue.writeIdx + 1) % waitingChairCount =
          (σ.customerQueue.pushes + 1) % waitingChairCount
        rw [hwrite, Nat.mod_add_mod]
  | chairFails hpc | takeChair hpc | occupied hpc | leave hpc | stay hpc | fetchFailed hpc
  | fetchRefused hpc | fetch hpc | refuse hpc | load hpc | reload hpc | store hpc
  | notifyFails hpc | notifyWaiting hpc =>
      refine ⟨_, rfl, ?_, ?_, le_rfl, hwrite⟩ <;> rw [hpc] <;>
        simp only [Shop.setGenerator, GeneratorPc.arriving, GeneratorPc.toNotify] <;> omega

/-- A generator commits itself only while the shop is open, and a committed one
pushes its customer. -/
theorem GeneratorMoves.committed {σ σ' : Shop g} {i : Fin g} (h : GeneratorMoves σ i σ') :
    ∃ pc, σ'.generators = update σ.generators i pc ∧
      (pc.committed = true → (σ.generators i).committed = true ∨ σ.shopClosed = false) ∧
      ((σ.generators i).committed = true →
        pc.committed = true ∨ σ.customerQueue.pushes < σ'.customerQueue.pushes) ∧
      (σ.customerQueue.pushes < σ'.customerQueue.pushes →
        (σ.generators i).committed = true) := by
  cases h with
  | claim hpc =>
      refine ⟨_, rfl, fun hcommitted => ?_, fun _ => .inr (Nat.lt_succ_self _), fun _ => ?_⟩
      · cases hcommitted
      · rw [hpc]; rfl
  | stay hpc hopen =>
      refine ⟨_, rfl, fun _ => .inr hopen, fun hcommitted => ?_, fun hlt => ?_⟩
      · rw [hpc] at hcommitted; cases hcommitted
      · exact absurd hlt (Nat.lt_irrefl _)
  | chairFails hpc | takeChair hpc | occupied hpc | leave hpc | fetchFailed hpc
  | fetchRefused hpc | fetch hpc | refuse hpc | load hpc | reload hpc | store hpc
  | notifyFails hpc | notifyWaiting hpc =>
      refine ⟨_, rfl, ?_, ?_, fun hlt => absurd hlt (Nat.lt_irrefl _)⟩ <;> rw [hpc] <;>
        simp [GeneratorPc.committed]

/-- What the barber knows it still knows after somebody has pushed. -/
theorem BarberPc.Knows.mono {ring ring' : RingBuffer ℕ} {pc : BarberPc} (h : pc.Knows ring)
    (hread : ring'.readIdx = ring.readIdx) (hpops : ring'.pops = ring.pops)
    (hpushes : ring.pushes ≤ ring'.pushes) : pc.Knows ring' := by
  cases pc with
  | pop pc =>
      cases pc with
      | load | compareExchange =>
          show ring'.pops < ring'.pushes
          have hlt : ring.pops < ring.pushes := h
          omega
      | read => trivial
  | tryPop pc =>
      cases pc with
      | loadWriteIdx readIdx =>
          show readIdx = ring'.readIdx
          rw [hread]
          exact h
      | compareExchange =>
          show ring'.pops < ring'.pushes
          have hlt : ring.pops < ring.pushes := h
          omega
      | loadReadIdx | read => trivial
  | _ => trivial

theorem Accounts.generator {σ σ' : Shop g} {i : Fin g} (h : Accounts σ)
    (hmove : GeneratorMoves σ i σ') : Accounts σ' := by
  obtain ⟨hbarber, hparent, hclosed, hserved⟩ := hmove.frame
  obtain ⟨hread, hpops⟩ := hmove.frame_queue
  obtain ⟨pc, hgenerators, harrived, hnotified, hpushes, hwrite⟩ := hmove.accounts h.writeIdx_eq
  have harriving := total_update GeneratorPc.arriving σ.generators i pc
  have htoNotify := total_update GeneratorPc.toNotify σ.generators i pc
  have harrived₀ := h.arrived
  have hpops_le := h.pops_le
  refine ⟨?_, ?_, fun hopen => ?_, ?_, ?_, ?_, hwrite, ?_, ?_⟩
  · rw [hgenerators]
    omega
  · rw [hserved, hbarber, hpops]
    exact h.served
  · rw [hclosed] at hopen
    have hnotified₀ := h.notified hopen
    rw [hbarber, hpops, hgenerators]
    omega
  · omega
  · rw [hbarber]
    exact h.knows.mono hread hpops hpushes
  · rw [hread, hpops]
    exact h.readIdx_eq
  · rw [hbarber, hclosed]
    exact h.closing
  · rw [hparent, hclosed]
    exact h.parent_closed

/-! ## The barber and the parent -/

theorem BarberMoves.frame {σ σ' : Shop g} (h : BarberMoves σ σ') :
    σ'.generators = σ.generators ∧ σ'.parent = σ.parent ∧ σ'.shopClosed = σ.shopClosed ∧
      σ'.nextCustomerId = σ.nextCustomerId ∧ σ'.refusedCustomers = σ.refusedCustomers ∧
      σ'.customerQueue.pushes = σ.customerQueue.pushes ∧
      σ'.customerQueue.writeIdx = σ.customerQueue.writeIdx := by
  cases h <;> exact ⟨rfl, rfl, rfl, rfl, rfl, rfl, rfl⟩

/-- The barber serves what it pops. -/
theorem BarberMoves.served {σ σ' : Shop g} (h : BarberMoves σ σ') :
    σ'.servedCustomers + σ'.barber.trimming + σ.customerQueue.pops =
      σ.servedCustomers + σ.barber.trimming + σ'.customerQueue.pops := by
  cases h with
  | tryRelease hpc | release hpc =>
      rw [hpc]
      show σ.servedCustomers + 1 + σ.customerQueue.pops =
        σ.servedCustomers + 0 + (σ.customerQueue.pops + 1)
      omega
  | waitFails hpc | waitForCustomer hpc | closing hpc | failed hpc | startPop hpc
  | loadReadIdx hpc | leave hpc | drain hpc | tryLoad hpc | tryEmpty hpc | tryNotEmpty hpc
  | tryLose hpc | tryRead hpc | trimLast hpc | load hpc | reload hpc | read hpc | trim hpc
  | notifyFails hpc | notifyChair hpc => rw [hpc]; rfl

/-- While the shop is open the barber pops one customer for each notification. -/
theorem BarberMoves.holding {σ σ' : Shop g} (h : BarberMoves σ σ')
    (hopen : σ.shopClosed = false) (hclosing : σ.barber.closing = true → σ.shopClosed = true) :
    σ'.customerWaiting + σ'.barber.holding + σ'.customerQueue.pops ≤
      σ.customerWaiting + σ.barber.holding + σ.customerQueue.pops := by
  cases h with
  | closing _ hclosed => rw [hopen] at hclosed; cases hclosed
  | waitForCustomer hpc hle =>
      rw [hpc]
      show σ.customerWaiting - 1 + 1 + σ.customerQueue.pops ≤
        σ.customerWaiting + 0 + σ.customerQueue.pops
      omega
  | release hpc =>
      rw [hpc]
      show σ.customerWaiting + 0 + (σ.customerQueue.pops + 1) ≤
        σ.customerWaiting + 1 + σ.customerQueue.pops
      omega
  | tryRelease hpc =>
      -- the barber calls `try_pop` only after the shop has closed
      have hclosed := hclosing (by rw [hpc]; rfl)
      rw [hopen] at hclosed
      cases hclosed
  | waitFails hpc | failed hpc | startPop hpc | loadReadIdx hpc | leave hpc | drain hpc
  | tryLoad hpc | tryEmpty hpc | tryNotEmpty hpc | tryLose hpc | tryRead hpc | trimLast hpc
  | load hpc | reload hpc | read hpc | trim hpc | notifyFails hpc | notifyChair hpc =>
      rw [hpc]
      exact le_rfl

/-- The barber never pops more customers than have been pushed. -/
theorem BarberMoves.pops_le {σ σ' : Shop g} (h : BarberMoves σ σ')
    (hknows : σ.barber.Knows σ.customerQueue)
    (hle : σ.customerQueue.pops ≤ σ.customerQueue.pushes) :
    σ'.customerQueue.pops ≤ σ.customerQueue.pushes := by
  cases h with
  | tryRelease hpc | release hpc =>
      rw [hpc] at hknows
      exact hknows
  | waitFails | waitForCustomer | closing | failed | startPop | loadReadIdx | leave | drain
  | tryLoad | tryEmpty | tryNotEmpty | tryLose | tryRead | trimLast | load | reload | read
  | trim | notifyFails | notifyChair => exact hle

theorem BarberMoves.readIdx_eq {σ σ' : Shop g} (h : BarberMoves σ σ')
    (hread : σ.customerQueue.readIdx = σ.customerQueue.pops % waitingChairCount) :
    σ'.customerQueue.readIdx = σ'.customerQueue.pops % waitingChairCount := by
  cases h with
  | tryRelease hpc | release hpc =>
      show (σ.customerQueue.readIdx + 1) % waitingChairCount =
        (σ.customerQueue.pops + 1) % waitingChairCount
      rw [hread, Nat.mod_add_mod]
  | waitFails | waitForCustomer | closing | failed | startPop | loadReadIdx | leave | drain
  | tryLoad | tryEmpty | tryNotEmpty | tryLose | tryRead | trimLast | load | reload | read
  | trim | notifyFails | notifyChair => exact hread

/-- A barber about to pop has a notification for a customer, or has seen that
the indices differ. -/
theorem Accounts.knows_barber {σ σ' : Shop g} (h : Accounts σ) (hmove : BarberMoves σ σ') :
    σ'.barber.Knows σ'.customerQueue := by
  have hknows := h.knows
  cases hmove with
  | startPop hpc hopen =>
      -- the notification it holds is for a customer it has not popped
      have hnotified := h.notified hopen
      rw [hpc] at hnotified
      show σ.customerQueue.pops < σ.customerQueue.pushes
      simp only [BarberPc.holding] at hnotified
      omega
  | tryNotEmpty hpc hne =>
      rw [hpc] at hknows
      show σ.customerQueue.pops < σ.customerQueue.pushes
      -- with as many pops as pushes the indices would be equal
      refine lt_of_le_of_ne h.pops_le fun heq => hne ?_
      rw [show _ = σ.customerQueue.readIdx from hknows, h.readIdx_eq, h.writeIdx_eq, heq]
  | load hpc | reload hpc =>
      rw [hpc] at hknows
      exact hknows
  | tryLoad => rfl
  | waitFails | waitForCustomer | closing | failed | loadReadIdx | leave | drain | tryEmpty
  | tryRelease | tryLose | tryRead | trimLast | release | read | trim | notifyFails
  | notifyChair => trivial

theorem BarberMoves.closing_eq {σ σ' : Shop g} (h : BarberMoves σ σ')
    (hclosing : σ.barber.closing = true → σ.shopClosed = true) :
    σ'.barber.closing = true → σ'.shopClosed = true := by
  cases h with
  | closing _ hclosed => exact fun _ => hclosed
  | loadReadIdx hpc | leave hpc | drain hpc | tryLoad hpc | tryEmpty hpc | tryNotEmpty hpc
  | tryRelease hpc | tryLose hpc | tryRead hpc | trimLast hpc =>
      exact fun _ => hclosing (by rw [hpc]; rfl)
  | waitFails | waitForCustomer | failed | startPop | load | reload | release | read | trim
  | notifyFails | notifyChair => exact fun hfalse => by cases hfalse

theorem Accounts.barber {σ σ' : Shop g} (h : Accounts σ) (hmove : BarberMoves σ σ') :
    Accounts σ' := by
  obtain ⟨hgenerators, hparent, hclosed, hnext, hrefused, hpushes, hwrite⟩ := hmove.frame
  have hserved := hmove.served
  have hserved₀ := h.served
  refine ⟨?_, by omega, fun hopen => ?_, ?_, h.knows_barber hmove, hmove.readIdx_eq h.readIdx_eq,
    ?_, hmove.closing_eq h.closing, ?_⟩
  · rw [hnext, hrefused, hpushes, hgenerators]
    exact h.arrived
  · rw [hclosed] at hopen
    have hholding := hmove.holding hopen h.closing
    have hnotified := h.notified hopen
    rw [hgenerators, hpushes]
    omega
  · rw [hpushes]
    exact hmove.pops_le h.knows h.pops_le
  · rw [hwrite, hpushes]
    exact h.writeIdx_eq
  · rw [hparent, hclosed]
    exact h.parent_closed

theorem Accounts.parent {σ σ' : Shop g} {ok : Bool} (h : Accounts σ)
    (hmove : ParentMoves σ ok σ') : Accounts σ' := by
  cases hmove with
  | closeShop hpc =>
      exact ⟨h.arrived, h.served, nofun, h.pops_le, h.knows, h.readIdx_eq,
        h.writeIdx_eq, fun _ => rfl, fun _ => rfl⟩
  | notifyChairs hpc =>
      exact ⟨h.arrived, h.served, h.notified, h.pops_le, h.knows, h.readIdx_eq, h.writeIdx_eq,
        h.closing, fun _ => h.parent_closed (by simp [hpc])⟩
  | notifyWaiting hpc =>
      -- this notification is for no customer, but the shop is closed
      have hclosed := h.parent_closed (by simp [hpc])
      exact ⟨h.arrived, h.served, fun hopen => (Bool.false_ne_true (hopen.symm.trans hclosed)).elim,
        h.pops_le, h.knows, h.readIdx_eq, h.writeIdx_eq, h.closing, fun _ => hclosed⟩

theorem Accounts.init : Accounts (Shop.init g) := by
  have harriving : total GeneratorPc.arriving (Shop.init g).generators = 0 :=
    total_eq_zero fun _ => rfl
  have htoNotify : total GeneratorPc.toNotify (Shop.init g).generators = 0 :=
    total_eq_zero fun _ => rfl
  refine ⟨by rw [harriving]; rfl, rfl, fun _ => by rw [htoNotify]; exact le_rfl, le_rfl, trivial,
    rfl, rfl, nofun, fun h => absurd rfl h⟩

theorem Accounts.step {σ σ' : Shop g} {l : Label g} (h : Accounts σ)
    (hstep : Barber.step σ l = some σ') : Accounts σ' := by
  cases l with
  | generator i ok => exact h.generator (stepGenerator_moves hstep)
  | barber ok => exact h.barber (stepBarber_moves hstep)
  | parent ok => exact h.parent (stepParent_moves hstep)

/-- At the end the counters add up iff all customers pushed have been popped. -/
theorem Accounts.add_up_iff {σ : Shop g} (h : Accounts σ) (hreturned : AllReturned σ) :
    σ.servedCustomers + σ.refusedCustomers = σ.nextCustomerId ↔
      σ.customerQueue.pushes = σ.customerQueue.pops := by
  have harriving : total GeneratorPc.arriving σ.generators = 0 := by
    refine total_eq_zero fun i => ?_
    obtain ⟨exit, hexit, hresult⟩ := hreturned.generators i
    rw [hexit]
    cases exit with
    | shopClosed | notifyFailed => rfl
    | chairFailed => cases hresult
  have harrived := h.arrived
  have hserved := h.served
  rw [harriving] at harrived
  rw [hreturned.barber] at hserved
  simp only [BarberPc.trimming] at hserved
  omega

/-! ## The last look at the queue -/

/-- Nobody is in the queue or about to be pushed. -/
structure NobodyLeft (σ : Shop g) : Prop where
  empty : σ.customerQueue.outstanding = 0
  uncommitted : ∀ i, (σ.generators i).committed = false

/-- If in this step the barber finds the indices of the queue equal and leaves,
nobody is in the queue or about to be pushed. -/
def Careful (σ : Shop g) : Label g → Prop
  | .barber _ => σ.barber = .empty (.loadWriteIdx σ.customerQueue.writeIdx) → NobodyLeft σ
  | _ => True

/-- The barber has left, and somebody is still there. -/
structure Missed (σ : Shop g) : Prop where
  left : σ.barber = .returned true
  missed : ¬ NobodyLeft σ

/-- The barber has left only if nobody was there. -/
def NoneMissed (σ : Shop g) : Prop := σ.barber = .returned true → NobodyLeft σ

theorem BarberMoves.not_returned {σ σ' : Shop g} (h : BarberMoves σ σ') (result : Bool) :
    σ.barber ≠ .returned result := by
  intro hreturned
  cases h <;> simp_all

/-- With the barber gone and the shop closed, nobody new comes in. -/
theorem NobodyLeft.generator {σ σ' : Shop g} {i : Fin g} (h : NobodyLeft σ)
    (hclosed : σ.shopClosed = true) (hmove : GeneratorMoves σ i σ') : NobodyLeft σ' := by
  obtain ⟨pc, hgenerators, hcommits, -, hpushed⟩ := hmove.committed
  have hi := h.uncommitted i
  have hempty := h.empty
  refine ⟨?_, ?_⟩
  · have hle : σ'.customerQueue.pushes ≤ σ.customerQueue.pushes := by
      by_contra hlt
      have hcommitted := hpushed (by omega)
      rw [hi] at hcommitted
      cases hcommitted
    unfold RingBuffer.outstanding at hempty ⊢
    rw [hmove.frame_queue.2]
    omega
  · rw [hgenerators]
    refine forall_update (P := fun pc : GeneratorPc => pc.committed = false) ?_
      fun j _ => h.uncommitted j
    cases hpc : pc.committed with
    | false => rfl
    | true =>
        rcases hcommits hpc with hcommitted | hopen
        · cases hi.symm.trans hcommitted
        · cases hclosed.symm.trans hopen

/-- Whoever is still there stays, committed or in the queue. -/
theorem Missed.generator {σ σ' : Shop g} {i : Fin g} (h : Missed σ) (hacc : Accounts σ)
    (hmove : GeneratorMoves σ i σ') : Missed σ' := by
  refine ⟨hmove.frame.1.trans h.left, fun hnobody => h.missed ⟨?_, fun j => ?_⟩⟩
  · obtain ⟨pc, -, -, -, hpushes, -⟩ := hmove.accounts hacc.writeIdx_eq
    have hempty := hnobody.empty
    unfold RingBuffer.outstanding at hempty ⊢
    rw [hmove.frame_queue.2] at hempty
    omega
  · obtain ⟨pc, hgenerators, -, hstays, -⟩ := hmove.committed
    have hj := hnobody.uncommitted j
    rw [hgenerators] at hj
    by_cases hij : j = i
    · subst hij
      rw [update_self] at hj
      cases hcommitted : (σ.generators j).committed with
      | false => rfl
      | true =>
          -- its customer would be in the queue now
          rcases hstays hcommitted with hpc | hlt
          · cases hj.symm.trans hpc
          · have hempty := hnobody.empty
            have hle := hacc.pops_le
            unfold RingBuffer.outstanding at hempty
            rw [hmove.frame_queue.2] at hempty
            omega
    · rwa [update_of_ne hij] at hj

theorem ParentMoves.frame {σ σ' : Shop g} {ok : Bool} (h : ParentMoves σ ok σ') :
    σ'.barber = σ.barber ∧ σ'.customerQueue = σ.customerQueue ∧
      σ'.generators = σ.generators := by
  cases h <;> exact ⟨rfl, rfl, rfl⟩

/-- Who is still there depends on the queue and the generators only. -/
theorem NobodyLeft.congr {σ σ' : Shop g} (h : NobodyLeft σ)
    (hqueue : σ'.customerQueue = σ.customerQueue) (hgenerators : σ'.generators = σ.generators) :
    NobodyLeft σ' :=
  ⟨by rw [hqueue]; exact h.empty, by rw [hgenerators]; exact h.uncommitted⟩

theorem NoneMissed.step {σ σ' : Shop g} {l : Label g} (h : NoneMissed σ) (hacc : Accounts σ)
    (hok : Careful σ l) (hstep : Barber.step σ l = some σ') : NoneMissed σ' := by
  intro hreturned
  cases l with
  | generator i ok =>
      have hmove := stepGenerator_moves hstep
      rw [hmove.frame.1] at hreturned
      exact (h hreturned).generator (hacc.closing (by rw [hreturned]; rfl)) hmove
  | barber ok =>
      cases stepBarber_moves hstep with
      | leave hpc => exact (hok hpc).congr rfl rfl
      | _ => cases hreturned
  | parent ok =>
      obtain ⟨hbarber, hqueue, hgenerators⟩ := (stepParent_moves hstep).frame
      rw [hbarber] at hreturned
      exact (h hreturned).congr hqueue hgenerators

theorem Missed.step {σ σ' : Shop g} {l : Label g} (h : Missed σ) (hacc : Accounts σ)
    (hstep : Barber.step σ l = some σ') : Missed σ' := by
  cases l with
  | generator i ok => exact h.generator hacc (stepGenerator_moves hstep)
  | barber ok => exact absurd h.left ((stepBarber_moves hstep).not_returned true)
  | parent ok =>
      obtain ⟨hbarber, hqueue, hgenerators⟩ := (stepParent_moves hstep).frame
      exact ⟨hbarber.trans h.left,
        fun hnobody => h.missed (hnobody.congr hqueue.symm hgenerators.symm)⟩

theorem missed_of_not_careful {σ σ' : Shop g} {l : Label g} (hok : ¬ Careful σ l)
    (hstep : Barber.step σ l = some σ') : Missed σ' := by
  cases l with
  | generator i ok => exact absurd trivial hok
  | parent ok => exact absurd trivial hok
  | barber ok =>
      simp only [Careful, Classical.not_imp] at hok
      obtain ⟨hpc, hsomebody⟩ := hok
      simp only [Barber.step, stepBarber, hpc, RingBuffer.empty, beq_self_eq_true,
        Option.some.injEq] at hstep
      subst hstep
      exact ⟨rfl, fun hnobody => hsomebody (hnobody.congr rfl rfl)⟩

/-- When all children have returned `true`, the customers served and refused are
those that have arrived iff the barber left an empty queue nobody was about to
push to. -/
theorem served_add_refused_iff (g : ℕ) (ls : List (Label g)) (σ : Shop g)
    (hrun : run step (Shop.init g) ls = some σ) (hreturned : AllReturned σ) :
    σ.servedCustomers + σ.refusedCustomers = σ.nextCustomerId ↔
      StepsMeet step Careful (Shop.init g) ls := by
  have hacc : Accounts σ := invariant_of_run (fun _ _ _ h hstep => h.step hstep) ls .init hrun
  rw [hacc.add_up_iff hreturned]
  constructor
  · intro hall
    -- whom the barber misses nobody serves later, and at the end nobody is left
    refine StepsMeet.of_run (fun _ _ _ h _ hstep => Accounts.step h hstep)
      (fun _ _ _ _ _ hok hstep => missed_of_not_careful hok hstep)
      (fun _ _ _ h hmissed _ hstep => Missed.step hmissed h hstep) .init (stepsMeet_true _ _) hrun
      fun hmissed => hmissed.missed ⟨?_, fun i => ?_⟩
    · unfold RingBuffer.outstanding
      omega
    · obtain ⟨exit, hexit, -⟩ := hreturned.generators i
      rw [hexit]
      rfl
  · intro hcareful
    have halong : Along step (fun σ => Accounts σ ∧ NoneMissed σ) (Shop.init g) ls :=
      along_of_stepsMeet (fun _ _ _ h hok hstep => ⟨h.1.step hstep, h.2.step h.1 hok hstep⟩)
        ⟨.init, nofun⟩ hcareful
    have hempty := ((halong.last hrun).2 hreturned.barber).empty
    have hle := hacc.pops_le
    unfold RingBuffer.outstanding at hempty
    omega

/-- The only generator brings a customer to the queue and notifies the barber. -/
def bringCustomer : List (Label 1) := List.replicate 7 (.generator (Fin.last 0) true)

/-- The parent closes the shop and the generator finds it closed. -/
def close : List (Label 1) :=
  List.replicate 3 (.parent true) ++ List.replicate 2 (.generator (Fin.last 0) true)

/-- Two generators bring six customers at once, and one finds no chair. The shop closes while the
second one is being served. -/
def rushHour : List (Label 2) :=
  (List.replicate 19 ((List.finRange 2).map fun i => .generator i true)).flatten ++
    (List.replicate 2 [.generator ⟨0, Nat.two_pos⟩ true, .barber true]).flatten ++
    List.replicate 8 (.barber true) ++ List.replicate 3 (.parent true) ++
    (List.replicate 2 ((List.finRange 2).map fun i => .generator i true)).flatten ++
    List.replicate 29 (.barber true)

theorem served_add_refused_rushHour :
    ∃ σ, run step (Shop.init 2) rushHour = some σ ∧ σ.nextCustomerId = 6 ∧
      σ.servedCustomers = 5 ∧ AllReturned σ ∧ StepsMeet step Careful (Shop.init 2) rushHour := by
  have hrun := (Option.some_get (show (run step (Shop.init 2) rushHour).isSome from rfl)).symm
  have hreturned : AllReturned ((run step (Shop.init 2) rushHour).get rfl) :=
    ⟨rfl, fun i => ⟨.shopClosed, by match i with | 0 | 1 => rfl, rfl⟩⟩
  exact ⟨_, hrun, rfl, rfl, hreturned, (served_add_refused_iff 2 _ _ hrun hreturned).mp rfl⟩

/-- Five customers wait when the shop closes: the ring is full, its indices are
equal. -/
def fiveWaiting : List (Label 1) :=
  bringCustomer ++ bringCustomer ++ bringCustomer ++ bringCustomer ++ bringCustomer ++ close ++
    List.replicate 4 (.barber true)

/-- The barber leaves without serving any of them. -/
theorem not_served_add_refused :
    ¬ ∀ (g : ℕ) (ls : List (Label g)) (σ : Shop g), 1 ≤ g →
      run step (Shop.init g) ls = some σ → AllReturned σ →
        σ.servedCustomers + σ.refusedCustomers = σ.nextCustomerId := by
  intro hclaim
  have hrun := (Option.some_get (show (run step (Shop.init 1) fiveWaiting).isSome from rfl)).symm
  have hreturned : AllReturned ((run step (Shop.init 1) fiveWaiting).get rfl) :=
    ⟨rfl, fun i => ⟨.shopClosed, by rw [Fin.fin_one_eq_zero i]; rfl, rfl⟩⟩
  have hzero : (0 : ℕ) = 5 := hclaim 1 fiveWaiting _ le_rfl hrun hreturned
  cases hzero

end InterProcess.Barber
