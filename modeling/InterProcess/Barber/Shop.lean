import InterProcess.LockFree.RingBuffer

/-!
# The sleeping barber program

Generators of customers, one barber and the parent, which closes the shop after
a while. They share a ring of waiting customers, a few counters and two
semaphores. The model starts when all processes are set up: the shared data is
constructed, the semaphores have their initial values.

A step is one semaphore operation or one access to shared memory. Every
semaphore operation may fail; a label says whether it does. The counters are
natural numbers: runs long enough to overflow an `int32` are left out, and so
are the sleeps and the messages printed to the console.
-/

namespace InterProcess.Barber

open Function LockFree

/-- `waiting_chair_count`, which is also the capacity of the queue. -/
def waitingChairCount : ℕ := 5

/-- What `try_waiting_for_one` for a chair came to; `occupied` is `EAGAIN`. -/
inductive Chair
  | taken
  | occupied
  | failed
  deriving DecidableEq

/-- How `generate_customers` comes to an end. -/
inductive GeneratorExit
  | shopClosed
  | chairFailed
  | notifyFailed
  deriving DecidableEq

/-- What `generate_customers` returns. -/
def GeneratorExit.result : GeneratorExit → Bool
  | .shopClosed => true
  | .chairFailed | .notifyFailed => false

/-- Where a generator is in `generate_customers`. -/
inductive GeneratorPc
  | tryWait
  | loadShopClosed (chair : Chair)
  | fetchCustomer (chair : Chair)
  | refuse (customer : ℕ)
  | push (customer : ℕ) (pc : RingBuffer.PushPc)
  | notifyWaiting (customer : ℕ)
  | returned (exit : GeneratorExit)
  deriving DecidableEq

/-- Where the barber is in `serve_customer`. `waiting` is the outcome of its
wait, which is looked at after `shop_closed`. -/
inductive BarberPc
  | waitForCustomer
  | loadShopClosed (waiting : Bool)
  | empty (pc : RingBuffer.EmptyPc)
  | tryPop (pc : RingBuffer.TryPopPc)
  | trimLast (customer : ℕ)
  | pop (pc : RingBuffer.PopPc)
  | trim (customer : ℕ)
  | notifyChair
  | returned (result : Bool)
  deriving DecidableEq

/-- Where the parent is when the shop closes. After `waitForChildren` it reads
the counters, when no other process is left to change them. -/
inductive ParentPc
  | closeShop
  | notifyChairs
  | notifyWaiting
  | waitForChildren
  deriving DecidableEq

/-- The semaphores, `shared_data`, the processes. -/
structure Shop (g : ℕ) where
  emptyChair : ℕ
  customerWaiting : ℕ
  shopClosed : Bool
  nextCustomerId : ℕ
  servedCustomers : ℕ
  refusedCustomers : ℕ
  customerQueue : RingBuffer ℕ
  generators : Fin g → GeneratorPc
  barber : BarberPc
  parent : ParentPc

/-- All processes are ready, the shop is open. -/
def Shop.init (g : ℕ) : Shop g :=
  { emptyChair := waitingChairCount
    customerWaiting := 0
    shopClosed := false
    nextCustomerId := 0
    servedCustomers := 0
    refusedCustomers := 0
    customerQueue := .fresh
    generators := fun _ => .tryWait
    barber := .waitForCustomer
    parent := .closeShop }

/-- Which process moves, and whether its semaphore operation succeeds. -/
inductive Label (g : ℕ)
  | generator (i : Fin g) (ok : Bool)
  | barber (ok : Bool)
  | parent (ok : Bool)

variable {g : ℕ}

def Shop.setGenerator (σ : Shop g) (i : Fin g) (pc : GeneratorPc) : Shop g :=
  { σ with generators := update σ.generators i pc }

/-- A step of `generate_customers`. -/
def stepGenerator (σ : Shop g) (i : Fin g) (ok : Bool) : Option (Shop g) :=
  match σ.generators i with
  | .tryWait =>
      if !ok then some (σ.setGenerator i (.loadShopClosed .failed))
      else if 1 ≤ σ.emptyChair then
        some ({ σ with emptyChair := σ.emptyChair - 1 }.setGenerator i (.loadShopClosed .taken))
      else some (σ.setGenerator i (.loadShopClosed .occupied))
  | .loadShopClosed chair =>
      -- a chair already taken is not given back
      if σ.shopClosed then some (σ.setGenerator i (.returned .shopClosed))
      else some (σ.setGenerator i (.fetchCustomer chair))
  | .fetchCustomer chair =>
      let after := { σ with nextCustomerId := σ.nextCustomerId + 1 }
      match chair with
      | .failed => some (after.setGenerator i (.returned .chairFailed))
      | .occupied => some (after.setGenerator i (.refuse σ.nextCustomerId))
      | .taken => some (after.setGenerator i (.push σ.nextCustomerId .load))
  | .refuse _ =>
      some ({ σ with refusedCustomers := σ.refusedCustomers + 1 }.setGenerator i .tryWait)
  | .push customer pc =>
      match RingBuffer.push waitingChairCount customer σ.customerQueue pc with
      | (ring, .inl pc) =>
          some ({ σ with customerQueue := ring }.setGenerator i (.push customer pc))
      | (ring, .inr ()) =>
          some ({ σ with customerQueue := ring }.setGenerator i (.notifyWaiting customer))
  | .notifyWaiting _ =>
      if !ok then some (σ.setGenerator i (.returned .notifyFailed))
      else some ({ σ with customerWaiting := σ.customerWaiting + 1 }.setGenerator i .tryWait)
  | .returned _ => none

/-- A step of `serve_customer`. -/
def stepBarber (σ : Shop g) (ok : Bool) : Option (Shop g) :=
  match σ.barber with
  | .waitForCustomer =>
      if !ok then some { σ with barber := .loadShopClosed false }
      else if 1 ≤ σ.customerWaiting then
        some { σ with customerWaiting := σ.customerWaiting - 1, barber := .loadShopClosed true }
      else none
  | .loadShopClosed waiting =>
      if σ.shopClosed then some { σ with barber := .empty .loadReadIdx }
      else if !waiting then some { σ with barber := .returned false }
      else some { σ with barber := .pop .load }
  | .empty pc =>
      match RingBuffer.empty σ.customerQueue pc with
      | .inl pc => some { σ with barber := .empty pc }
      | .inr true => some { σ with barber := .returned true }
      | .inr false => some { σ with barber := .tryPop .loadReadIdx }
  | .tryPop pc =>
      match RingBuffer.tryPop waitingChairCount σ.customerQueue pc with
      | (ring, .inl pc) => some { σ with customerQueue := ring, barber := .tryPop pc }
      | (ring, .inr none) => some { σ with customerQueue := ring, barber := .empty .loadReadIdx }
      | (ring, .inr (some customer)) =>
          some { σ with customerQueue := ring, barber := .trimLast customer }
  | .trimLast _ =>
      some { σ with servedCustomers := σ.servedCustomers + 1, barber := .empty .loadReadIdx }
  | .pop pc =>
      match RingBuffer.pop waitingChairCount σ.customerQueue pc with
      | (ring, .inl pc) => some { σ with customerQueue := ring, barber := .pop pc }
      | (ring, .inr customer) => some { σ with customerQueue := ring, barber := .trim customer }
  | .trim _ => some { σ with servedCustomers := σ.servedCustomers + 1, barber := .notifyChair }
  | .notifyChair =>
      if !ok then some { σ with barber := .returned false }
      else some { σ with emptyChair := σ.emptyChair + 1, barber := .waitForCustomer }
  | .returned _ => none

/-- A step of the parent. It does not look at what the notifications return. -/
def stepParent (σ : Shop g) (ok : Bool) : Option (Shop g) :=
  match σ.parent with
  | .closeShop => some { σ with shopClosed := true, parent := .notifyChairs }
  | .notifyChairs =>
      some { σ with
        emptyChair := if ok then σ.emptyChair + g else σ.emptyChair
        parent := .notifyWaiting }
  | .notifyWaiting =>
      -- one barber
      some { σ with
        customerWaiting := if ok then σ.customerWaiting + 1 else σ.customerWaiting
        parent := .waitForChildren }
  | .waitForChildren => none

/-- One step of the program. -/
def step (σ : Shop g) : Label g → Option (Shop g)
  | .generator i ok => stepGenerator σ i ok
  | .barber ok => stepBarber σ ok
  | .parent ok => stepParent σ ok

/-- All children have returned `true`. -/
structure AllReturned (σ : Shop g) : Prop where
  barber : σ.barber = .returned true
  generators : ∀ i, ∃ exit, σ.generators i = .returned exit ∧ exit.result = true

end InterProcess.Barber
