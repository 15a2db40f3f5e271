import InterProcess.Barber.Moves
import InterProcess.Lib.Launch
import InterProcess.Lib.Threads

/-!
# The start of the sleeping barber program

Every process constructs `shared_data` anew. A child then signals that it is
ready and goes to work at once; only the parent waits until all are ready. So a
generator may have a customer come in while another process is still to
construct the data.

`noneConstructs_iff_fetch`: in a run no process constructs the data once it is
in use iff every customer finds it constructed by all; that is so in every run
only if there is no generator.
-/

namespace InterProcess.Barber

open Function LockFree Lts Threads

/-- `main` up to the work of the process: a child signals that it is ready, the
parent waits for all of them. -/
inductive Phase
  | getReady
  | working
  | failed
  deriving DecidableEq

/-- `g` generators and `b` barbers. -/
inductive Process (g b : ℕ)
  | parent
  | child (child : Fin g ⊕ Fin b)
  deriving DecidableEq

/-- The program from the construction of the data on. `shop.barber` is the
barber that has moved last. -/
structure Opening (g b : ℕ) where
  readiness : ℕ
  parent : Phase
  children : Fin g ⊕ Fin b → Phase
  shop : Shop g
  barbers : Fin b → BarberPc

variable {g b : ℕ}

def Opening.init (g b : ℕ) : Opening g b :=
  { readiness := 0
    parent := .getReady
    children := fun _ => .getReady
    shop := .init g
    barbers := fun _ => .waitForCustomer }

/-- `new (memory.get()) barber::shared_data{}`. -/
def Opening.construct (σ : Opening g b) : Opening g b :=
  { σ with shop := { σ.shop with
      shopClosed := false
      nextCustomerId := 0
      servedCustomers := 0
      refusedCustomers := 0
      customerQueue := .fresh } }

def Opening.setChild (σ : Opening g b) (child : Fin g ⊕ Fin b) (phase : Phase) : Opening g b :=
  { σ with children := update σ.children child phase }

/-- A step of `generate_customers` or `serve_customer`. -/
def stepWork (σ : Opening g b) (ok : Bool) : Fin g ⊕ Fin b → Option (Opening g b)
  | .inl i => (stepGenerator σ.shop i ok).map fun shop => { σ with shop := shop }
  | .inr k =>
      (stepBarber { σ.shop with barber := σ.barbers k } ok).map fun shop =>
        { σ with shop := shop, barbers := update σ.barbers k shop.barber }

/-- A step of the parent once all children are ready. -/
def stepClosing (σ : Opening g b) (ok : Bool) : Option (Opening g b) :=
  match σ.shop.parent with
  | .notifyWaiting =>
      some { σ with shop := { σ.shop with
        customerWaiting :=
          if ok then σ.shop.customerWaiting + b else σ.shop.customerWaiting
        parent := .waitForChildren } }
  | _ => (stepParent σ.shop ok).map fun shop => { σ with shop := shop }

/-- One step: which process moves, and whether its semaphore operation succeeds. -/
def stepOpening (σ : Opening g b) : Process g b × Bool → Option (Opening g b)
  | (.parent, ok) =>
      match σ.parent with
      | .getReady =>
          if !ok then some { σ with parent := .failed }
          else if g + b ≤ σ.readiness then
            some { σ with readiness := σ.readiness - (g + b), parent := .working }
          else none
      | .working => stepClosing σ ok
      | .failed => none
  | (.child child, ok) =>
      match σ.children child with
      | .getReady =>
          if !ok then some (σ.setChild child .failed)
          else some ({ σ with readiness := σ.readiness + 1 }.setChild child .working)
      | .working => stepWork σ ok child
      | .failed => none

/-- A customer is pushed, a counter incremented or the shop closed. -/
def usesSharedData (σ σ' : Opening g b) : Bool :=
  decide (σ'.shop.customerQueue.pushes ≠ σ.shop.customerQueue.pushes ∨
    σ'.shop.nextCustomerId ≠ σ.shop.nextCustomerId ∨
    σ'.shop.servedCustomers ≠ σ.shop.servedCustomers ∨
    σ'.shop.refusedCustomers ≠ σ.shop.refusedCustomers ∨
    σ'.shop.shopClosed ≠ σ.shop.shopClosed)

/-- `main`: a process constructs the data, then gets ready and works. -/
def setup (g b : ℕ) : Launch.Setup (Opening g b) (Process g b × Bool) (Process g b) :=
  { step := stepOpening
    process := Prod.fst
    construct := Opening.construct
    uses := usesSharedData }

/-- If in this step a generator increments `next_customer_id`, every process has
constructed the data. -/
def FetchFindsAll (σ : Launch (Opening g b) (Process g b) × Bool) :
    Launch.Move (Process g b × Bool) (Process g b) → Prop
  | .run (.child (.inl i), _) =>
      σ.1.program.children (.inl i) = .working →
        ∀ chair, σ.1.program.shop.generators i = .fetchCustomer chair →
          ∀ p, σ.1.constructed p = true
  | _ => True

/-! ## Before the first customer -/

/-- The generator has not had a customer come in. -/
def GeneratorPc.unfetched : GeneratorPc → Bool
  | .tryWait | .loadShopClosed _ | .fetchCustomer _ => true
  | _ => false

/-- The barber has not been notified of a customer. -/
def BarberPc.unnotified : BarberPc → Bool
  | .waitForCustomer | .loadShopClosed false | .returned false => true
  | _ => false

def Phase.signalled : Phase → ℕ
  | .working => 1
  | _ => 0

/-- No customer has come in and the shop is not to be closed: the data is not in use. -/
structure Idle (σ : Opening g b) : Prop where
  parent : σ.parent ≠ .working
  readiness : σ.readiness = total Phase.signalled σ.children
  shopClosed : σ.shop.shopClosed = false
  customerWaiting : σ.shop.customerWaiting = 0
  generators : ∀ i, (σ.shop.generators i).unfetched = true
  barbers : ∀ k, (σ.barbers k).unnotified = true

theorem Idle.init : Idle (Opening.init g b) := by
  have hsignalled : total Phase.signalled (Opening.init g b).children = 0 :=
    total_eq_zero fun _ => rfl
  exact ⟨fun h => (by cases h), hsignalled.symm, rfl, rfl, fun _ => rfl, fun _ => rfl⟩

theorem Idle.construct {σ : Opening g b} (h : Idle σ) : Idle σ.construct :=
  ⟨h.parent, h.readiness, rfl, h.customerWaiting, h.generators, h.barbers⟩

/-- What a step does while the data is not in use: the parent has found all
children ready, a customer comes in, or the data stays as it is. -/
inductive IdleStep (σ σ' : Opening g b) : Process g b → Prop
  | ready (hall : g + b ≤ σ.readiness) : IdleStep σ σ' .parent
  | fetch {i : Fin g} {chair : Chair} (hphase : σ.children (.inl i) = .working)
      (hpc : σ.shop.generators i = .fetchCustomer chair)
      (huse : usesSharedData σ σ' = true) : IdleStep σ σ' (.child (.inl i))
  | idle {p : Process g b} (h : Idle σ') (hunused : usesSharedData σ σ' = false)
      (hchildren : ∀ child, σ'.children child = .working →
        σ.children child = .working ∨ p = .child child) : IdleStep σ σ' p

theorem Idle.generator {σ : Opening g b} {i : Fin g} {shop : Shop g} (h : Idle σ)
    (hphase : σ.children (.inl i) = .working) (hmove : GeneratorMoves σ.shop i shop) :
    IdleStep σ { σ with shop := shop } (.child (.inl i)) := by
  have hpc := h.generators i
  have hkeep {pc : GeneratorPc} (hpc : pc.unfetched = true) :
      ∀ j, (update σ.shop.generators i pc j).unfetched = true :=
    forall_update (P := fun pc : GeneratorPc => pc.unfetched = true) hpc fun j _ => h.generators j
  cases hmove with
  | chairFails | takeChair | occupied | stay =>
      refine .idle ⟨h.parent, h.readiness, h.shopClosed, h.customerWaiting, hkeep rfl, h.barbers⟩
        ?_ fun _ hchild => .inl hchild
      simp [usesSharedData, Shop.setGenerator]
  | fetchFailed hpc | fetchRefused hpc | fetch hpc =>
      refine .fetch hphase hpc ?_
      simp [usesSharedData, Shop.setGenerator]
  | leave hpc hclosed =>
      rw [h.shopClosed] at hclosed
      cases hclosed
  | refuse hpc' | load hpc' | reload hpc' | claim hpc' | store hpc' | notifyFails hpc'
  | notifyWaiting hpc' =>
      rw [hpc'] at hpc
      cases hpc

theorem Idle.barber {σ : Opening g b} {k : Fin b} {shop : Shop g} (h : Idle σ)
    (hmove : BarberMoves { σ.shop with barber := σ.barbers k } shop) :
    IdleStep σ { σ with shop := shop, barbers := update σ.barbers k shop.barber }
      (.child (.inr k)) := by
  have hpc := h.barbers k
  have hkeep {pc : BarberPc} (hpc : pc.unnotified = true) :
      ∀ j, (update σ.barbers k pc j).unnotified = true :=
    forall_update (P := fun pc : BarberPc => pc.unnotified = true) hpc fun j _ => h.barbers j
  cases hmove with
  | waitFails | failed =>
      refine .idle ⟨h.parent, h.readiness, h.shopClosed, h.customerWaiting, h.generators,
        hkeep rfl⟩ ?_ fun _ hchild => .inl hchild
      simp [usesSharedData]
  | waitForCustomer _ hle =>
      have hnone := h.customerWaiting
      have hle : 1 ≤ σ.shop.customerWaiting := hle
      omega
  | closing _ hclosed =>
      rw [show _ = false from h.shopClosed] at hclosed
      cases hclosed
  | startPop hpc' | loadReadIdx hpc' | leave hpc' | drain hpc' | tryLoad hpc' | tryEmpty hpc'
  | tryNotEmpty hpc' | tryRelease hpc' | tryLose hpc' | tryRead hpc' | trimLast hpc' | load hpc'
  | reload hpc' | release hpc' | read hpc' | trim hpc' | notifyFails hpc' | notifyChair hpc' =>
      rw [show σ.barbers k = _ from hpc'] at hpc
      cases hpc

/-- A child gets ready: it signals that, or fails to. -/
theorem Idle.child {σ : Opening g b} {child : Fin g ⊕ Fin b} (h : Idle σ)
    (hphase : σ.children child = .getReady) (phase : Phase) :
    Idle ({ σ with readiness := σ.readiness + phase.signalled }.setChild child phase) := by
  have htotal := total_update Phase.signalled σ.children child phase
  rw [hphase, show Phase.signalled .getReady = 0 from rfl, Nat.add_zero, ← h.readiness] at htotal
  exact ⟨h.parent, htotal.symm, h.shopClosed, h.customerWaiting, h.generators, h.barbers⟩

theorem Idle.step {σ σ' : Opening g b} {l : Process g b × Bool} (h : Idle σ)
    (hstep : stepOpening σ l = some σ') : IdleStep σ σ' l.1 := by
  obtain ⟨p, ok⟩ := l
  cases p with
  | parent =>
      cases hphase : σ.parent with
      | getReady =>
          simp only [stepOpening, hphase] at hstep
          split at hstep
          · cases hstep
            refine .idle ⟨fun hp => (by cases hp), h.readiness, h.shopClosed, h.customerWaiting,
              h.generators, h.barbers⟩ ?_ fun _ hchild => .inl hchild
            simp [usesSharedData]
          · split at hstep
            · next hall => exact .ready hall
            · cases hstep
      | working => exact absurd hphase h.parent
      | failed => simp [stepOpening, hphase] at hstep
  | child child =>
      cases hphase : σ.children child with
      | getReady =>
          have hchildren (phase : Phase) (child' : Fin g ⊕ Fin b)
              (hchild : update σ.children child phase child' = .working) :
              σ.children child' = .working ∨
                (Process.child child : Process g b) = .child child' := by
            by_cases heq : child' = child
            · exact .inr (congrArg _ heq.symm)
            · exact .inl (by rwa [update_of_ne heq] at hchild)
          simp only [stepOpening, hphase] at hstep
          split at hstep
          · cases hstep
            exact .idle (h.child hphase .failed) (by simp [usesSharedData, Opening.setChild])
              (hchildren .failed)
          · cases hstep
            exact .idle (h.child hphase .working) (by simp [usesSharedData, Opening.setChild])
              (hchildren .working)
      | working =>
          simp only [stepOpening, hphase] at hstep
          cases child with
          | inl i =>
              obtain ⟨shop, hshop, rfl⟩ := Option.map_eq_some_iff.mp hstep
              exact h.generator hphase (stepGenerator_moves hshop)
          | inr k =>
              obtain ⟨shop, hshop, rfl⟩ := Option.map_eq_some_iff.mp hstep
              exact h.barber (stepBarber_moves hshop)
      | failed => simp [stepOpening, hphase] at hstep

/-! ## Nobody constructs the data once it is in use -/

/-- The data is not in use, and whoever works has constructed it. -/
structure NotOpened (σ : Launch (Opening g b) (Process g b)) : Prop where
  program : Idle σ.program
  constructed : ∀ child, σ.program.children child = .working →
    σ.constructed (.child child) = true

theorem NotOpened.init : NotOpened (Launch.init (Opening.init g b)) :=
  ⟨Idle.init, fun _ h => by cases h⟩

/-- As many signals as children: all are ready. -/
theorem NotOpened.all_constructed {σ : Launch (Opening g b) (Process g b)} (h : NotOpened σ)
    (hle : g + b ≤ σ.program.readiness) (hparent : σ.constructed .parent = true) :
    ∀ p, σ.constructed p = true := by
  have hcard : Fintype.card (Fin g ⊕ Fin b) * 1 ≤ total Phase.signalled σ.program.children := by
    rw [← h.program.readiness, Fintype.card_sum, Fintype.card_fin, Fintype.card_fin, Nat.mul_one]
    exact hle
  have hbound (child : Fin g ⊕ Fin b) : (σ.program.children child).signalled ≤ 1 := by
    cases σ.program.children child <;> decide
  have hsignalled := forall_eq_of_card_mul_le_total hbound hcard
  intro p
  cases p with
  | parent => exact hparent
  | child child =>
      refine h.constructed child ?_
      have hone := hsignalled child
      cases hphase : σ.program.children child with
      | working => rfl
      | getReady | failed =>
          rw [hphase] at hone
          cases hone

/-- Constructing the data moves no process. -/
theorem NotOpened.construct {σ σ' : Launch (Opening g b) (Process g b)} {p : Process g b}
    (h : NotOpened σ) (hstep : Launch.step (setup g b) σ (.construct p) = some σ') :
    NotOpened σ' := by
  obtain ⟨-, hprogram, -⟩ := Launch.step_construct hstep
  refine ⟨?_, fun child hchild => ?_⟩
  · rw [hprogram]
    exact h.program.construct
  · rw [hprogram] at hchild
    exact Launch.constructed_mono hstep (h.constructed child hchild)

theorem NotOpened.run {σ σ' : Launch (Opening g b) (Process g b) × Bool}
    {l : Process g b × Bool} (h : NotOpened σ.1) (hok : FetchFindsAll σ (.run l))
    (hstep : Launch.step (setup g b) σ.1 (.run l) = some σ'.1) :
    (NotOpened σ'.1 ∧ usesSharedData σ.1.program σ'.1.program = false) ∨
      ∀ p, σ.1.constructed p = true := by
  obtain ⟨hprocess, hprogram, hsame⟩ := Launch.step_run hstep
  obtain ⟨p, ok⟩ := l
  have hprocess : σ.1.constructed p = true := hprocess
  cases h.program.step hprogram with
  | ready hready => exact .inr (h.all_constructed hready hprocess)
  | fetch hphase hpc => exact .inr (hok hphase _ hpc)
  | idle hidle huse hchildren =>
      refine .inl ⟨⟨hidle, fun child hchild => ?_⟩, huse⟩
      rw [hsame]
      rcases hchildren child hchild with hbefore | hp
      · exact h.constructed child hbefore
      · exact hp ▸ hprocess

/-- Each customer gets an id. -/
theorem usesSharedData_fetch {σ σ' : Opening g b} {i : Fin g} {ok : Bool} {chair : Chair}
    (hphase : σ.children (.inl i) = .working) (hpc : σ.shop.generators i = .fetchCustomer chair)
    (hstep : stepOpening σ (.child (.inl i), ok) = some σ') : usesSharedData σ σ' = true := by
  simp only [stepOpening, hphase] at hstep
  obtain ⟨shop, hshop, rfl⟩ := Option.map_eq_some_iff.mp hstep
  have hmove := stepGenerator_moves hshop
  cases hmove with
  | fetchFailed | fetchRefused | fetch => simp [usesSharedData, Shop.setGenerator]
  | chairFails hpc' | takeChair hpc' | occupied hpc' | leave hpc' | stay hpc' | refuse hpc'
  | load hpc' | reload hpc' | claim hpc' | store hpc' | notifyFails hpc' | notifyWaiting hpc' =>
      rw [hpc] at hpc'
      cases hpc'

/-- A customer that comes in too early may see the data constructed again. -/
theorem not_noneConstructs {σ σ' : Launch (Opening g b) (Process g b) × Bool}
    {m : Launch.Move (Process g b × Bool) (Process g b)} (hok : ¬ FetchFindsAll σ m)
    (hstep : Launch.watched (setup g b) σ m = some σ') :
    ¬ Launch.NoneConstructs (setup g b) σ' := by
  obtain ⟨hstep, hseen⟩ := watch_eq_some.mp hstep
  intro hnone
  rw [Launch.noneConstructs_iff] at hnone
  unfold FetchFindsAll at hok
  split at hok
  · next i ok =>
      simp only [Classical.not_imp, not_forall] at hok
      obtain ⟨hphase, chair, hpc, p, hp⟩ := hok
      obtain ⟨-, hprogram, hsame⟩ := Launch.step_run hstep
      have huse : usesSharedData σ.1.program σ'.1.program = true :=
        usesSharedData_fetch hphase hpc hprogram
      have hused : σ'.2 = true := by
        rw [hseen, Bool.or_eq_true]
        exact .inr huse
      exact hp (hsame ▸ hnone hused p)
  · exact hok trivial

/-- A generator runs on its own: it constructs the data, signals that it is
ready, takes a chair and has a customer come in. -/
def firstCustomer (i : Fin g) : List (Launch.Move (Process g b × Bool) (Process g b)) :=
  .construct (.child (.inl i)) :: .replicate 4 (.run (.child (.inl i), true))

/-- The parent has not constructed the data by then. -/
theorem not_along_noneConstructs (i : Fin g) :
    ¬ Along (Launch.watched (setup g b)) (Launch.NoneConstructs (setup g b))
      (Launch.init (Opening.init g b), false) (firstCustomer i) := by
  refine not_along_of_run (fun σ => (σ.2, σ.1.constructed .parent)) (true, false) ?_ ?_
  · simp [firstCustomer, run, Launch.watched, watch, Launch.step, Launch.use, Launch.init, setup,
      stepOpening, stepWork, stepGenerator, Opening.setChild, Opening.init, Opening.construct,
      Shop.init, Shop.setGenerator, usesSharedData, waitingChairCount, List.replicate]
  · intro σ' hobs hnone
    obtain ⟨hused, hparent⟩ := Prod.mk.inj hobs
    have hall := Launch.noneConstructs_iff.mp hnone hused .parent
    rw [hparent] at hall
    cases hall

/-- In a run no process constructs the data once it is in use iff every process
has constructed it when a customer comes in. All runs are like that iff there
is no generator. -/
theorem noneConstructs_iff_fetch (g b : ℕ) :
    (∀ ms, Along (Launch.watched (setup g b)) (Launch.NoneConstructs (setup g b))
        (Launch.init (Opening.init g b), false) ms ↔
      StepsMeet (Launch.watched (setup g b)) FetchFindsAll
        (Launch.init (Opening.init g b), false) ms) ∧
    ((∀ ms, Along (Launch.watched (setup g b)) (Launch.NoneConstructs (setup g b))
        (Launch.init (Opening.init g b), false) ms) ↔ g = 0) := by
  have hiff : ∀ ms, Along (Launch.watched (setup g b)) (Launch.NoneConstructs (setup g b))
        (Launch.init (Opening.init g b), false) ms ↔
      StepsMeet (Launch.watched (setup g b)) FetchFindsAll
        (Launch.init (Opening.init g b), false) ms := by
    intro ms
    exact along_iff_stepsMeet (fun _ (h : Launch.Guarded NotOpened _) => h.noneConstructs)
      (fun _ _ _ h hok hstep => h.step hstep (fun _ hnot => hnot.construct)
        fun _ hm hnot => hnot.run (hm ▸ hok))
      (fun _ _ _ _ hok hstep => not_noneConstructs hok hstep) (.inl ⟨NotOpened.init, rfl⟩)
  refine ⟨hiff, fun hall => ?_, ?_⟩
  · by_contra hne
    exact not_along_noneConstructs ⟨0, Nat.pos_of_ne_zero hne⟩ (hall _)
  · rintro rfl ms
    rw [hiff]
    have hok : ∀ (σ : Launch (Opening 0 b) (Process 0 b) × Bool)
        (m : Launch.Move (Process 0 b × Bool) (Process 0 b)), True → FetchFindsAll σ m := by
      intro σ m _
      unfold FetchFindsAll
      split
      · next i _ => exact i.elim0
      · trivial
    exact stepsMeet_of_invariant hok (fun _ _ _ _ _ => trivial) trivial

/-- Not in every run: one generator is enough. -/
theorem not_noneConstructs_firstCustomer :
    ¬ ∀ (g b : ℕ) (ms : List (Launch.Move (Process g b × Bool) (Process g b))),
      Along (Launch.watched (setup g b)) (Launch.NoneConstructs (setup g b))
        (Launch.init (Opening.init g b), false) ms :=
  fun hall => not_along_noneConstructs (0 : Fin 1) (hall 1 1 _)

end InterProcess.Barber
