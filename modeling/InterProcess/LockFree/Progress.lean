import InterProcess.Lib.Retry
import InterProcess.LockFree.GroupNotifier
import InterProcess.LockFree.MessageThreads
import InterProcess.LockFree.Notified

/-!
# Lock freedom

The operations of the library load an index or a counter, and try to exchange
it. None of them holds a lock: when an exchange fails, another one has
succeeded in the meantime. Counted over whole runs, whatever the schedule, `n`
threads make at most `n` attempts for each operation that gets through
(`push_lockFree`, `tryPush_lockFree`, `waitForOne_lockFree`).
-/

namespace InterProcess.LockFree

open Function Lts Retry

/-! ## `ring_buffer` -/

namespace RingBuffer

variable {α : Type}

/-- The index the next compare-exchange of `push` compares with. -/
def PushPc.expected : PushPc → Option ℕ
  | .compareExchange writeIdx => some writeIdx
  | _ => none

def PopPc.expected : PopPc → Option ℕ
  | .compareExchange readIdx => some readIdx
  | _ => none

theorem push_access (capacity : ℕ) (value : α) (ring : RingBuffer α) (pc : PushPc) :
    Access ring.writeIdx (push capacity value ring pc).1.writeIdx ring.pushes
      (push capacity value ring pc).1.pushes pc.expected
      ((push capacity value ring pc).2.elim PushPc.expected fun _ => none)
      pc.expected.isSome := by
  cases pc with
  | load => exact .quiet rfl (Nat.le_refl _) (.inr (.inl rfl))
  | store writeIdx => exact .quiet rfl (Nat.le_refl _) (.inl rfl)
  | compareExchange writeIdx =>
      by_cases hwin : ring.writeIdx = writeIdx
      · simp only [push, if_pos hwin]
        exact .won (Nat.le_refl _) rfl
      · simp only [push, if_neg hwin]
        exact .lost rfl (Nat.le_refl _) rfl (Ne.symm hwin) (.inr rfl)

theorem pop_access (capacity : ℕ) (ring : RingBuffer α) (pc : PopPc) :
    Access ring.readIdx (pop capacity ring pc).1.readIdx ring.pops
      (pop capacity ring pc).1.pops pc.expected
      ((pop capacity ring pc).2.elim PopPc.expected fun _ => none) pc.expected.isSome := by
  cases pc with
  | load => exact .quiet rfl (Nat.le_refl _) (.inr (.inl rfl))
  | read readIdx => exact .quiet rfl (Nat.le_refl _) (.inl rfl)
  | compareExchange readIdx =>
      by_cases hwin : ring.readIdx = readIdx
      · simp only [pop, if_pos hwin]
        exact .won (Nat.le_refl _) rfl
      · simp only [pop, if_neg hwin]
        exact .lost rfl (Nat.le_refl _) rfl (Ne.symm hwin) (.inr rfl)

theorem push_readIdx (capacity : ℕ) (value : α) (ring : RingBuffer α) (pc : PushPc) :
    (push capacity value ring pc).1.readIdx = ring.readIdx ∧
      (push capacity value ring pc).1.pops = ring.pops := by
  cases pc with
  | compareExchange writeIdx =>
      simp only [push]
      split <;> exact ⟨rfl, rfl⟩
  | _ => exact ⟨rfl, rfl⟩

theorem pop_writeIdx (capacity : ℕ) (ring : RingBuffer α) (pc : PopPc) :
    (pop capacity ring pc).1.writeIdx = ring.writeIdx ∧
      (pop capacity ring pc).1.pushes = ring.pushes := by
  cases pc with
  | compareExchange readIdx =>
      simp only [pop]
      split <;> exact ⟨rfl, rfl⟩
  | _ => exact ⟨rfl, rfl⟩

end RingBuffer

namespace Notified

open RingBuffer

variable {ι κ α : Type}

def Pusher.expected : Pusher α → Option ℕ
  | .push _ _ pc => pc.expected
  | _ => none

def Popper.expected : Popper → Option ℕ
  | .pop _ pc => pc.expected
  | .wait => none

/-- The pushers exchange the write index. -/
def pushing (ι κ α : Type) : Contention (State ι κ α) ι (Pusher α) ℕ where
  value σ := σ.ring.writeIdx
  threads := State.pushers
  holding := Pusher.expected
  wins σ := σ.ring.pushes

/-- The poppers exchange the read index. -/
def popping (ι κ α : Type) : Contention (State ι κ α) κ Popper ℕ where
  value σ := σ.ring.readIdx
  threads := State.poppers
  holding := Popper.expected
  wins σ := σ.ring.pops

/-- The step is a compare-exchange of `push`. -/
def pushAttempt (σ : State ι κ α) : Label ι κ α → Bool
  | .pusher i => (σ.pushers i).expected.isSome
  | _ => false

/-- The step is a compare-exchange of `pop`. -/
def popAttempt (σ : State ι κ α) : Label ι κ α → Bool
  | .popper k => (σ.poppers k).expected.isSome
  | _ => false

section Turns

variable [DecidableEq ι] [DecidableEq κ] {capacity : ℕ} {σ σ' : State ι κ α}

theorem stepPusher_turn {i : ι} (h : stepPusher capacity σ i = some σ') :
    (pushing ι κ α).Turn σ σ' (σ.pushers i).expected.isSome ∧
      (popping ι κ α).Turn σ σ' false := by
  unfold stepPusher at h
  cases hpc : σ.pushers i with
  | outside => simp [hpc] at h
  | notify =>
      simp only [hpc, Option.some.injEq] at h
      subst h
      exact ⟨.access rfl (.quiet rfl (Nat.le_refl _) (.inl rfl)), .away rfl rfl (Nat.le_refl _)⟩
  | push value claim pc =>
      have haccess := push_access capacity ⟨value, some claim⟩ σ.ring pc
      have hread := push_readIdx capacity ⟨value, some claim⟩ σ.ring pc
      have hheld : (pushing ι κ α).holding ((pushing ι κ α).threads σ i) = pc.expected := by
        show (σ.pushers i).expected = _
        rw [hpc]
        rfl
      simp only [hpc] at h
      rcases hpush : RingBuffer.push capacity ⟨value, some claim⟩ σ.ring pc with
          ⟨ring, pc' | ⟨⟩⟩ <;>
        rw [hpush] at h haccess hread <;> simp only [Option.some.injEq] at h <;> subst h
      · refine ⟨.access rfl ?_, .away rfl hread.1 (Nat.le_of_eq hread.2.symm)⟩
        rw [hheld]
        exact haccess
      · refine ⟨.access rfl ?_, .away rfl hread.1 (Nat.le_of_eq hread.2.symm)⟩
        rw [hheld]
        exact haccess

theorem stepPopper_turn {k : κ} (h : stepPopper capacity σ k = some σ') :
    (popping ι κ α).Turn σ σ' (σ.poppers k).expected.isSome ∧
      (pushing ι κ α).Turn σ σ' false := by
  unfold stepPopper at h
  cases hpc : σ.poppers k with
  | wait =>
      simp only [hpc] at h
      split at h
      · cases h
        exact ⟨.access rfl (.quiet rfl (Nat.le_refl _) (.inl rfl)), .away rfl rfl (Nat.le_refl _)⟩
      · cases h
  | pop position pc =>
      have haccess := pop_access capacity σ.ring pc
      have hwrite := pop_writeIdx capacity σ.ring pc
      have hheld : (popping ι κ α).holding ((popping ι κ α).threads σ k) = pc.expected := by
        show (σ.poppers k).expected = _
        rw [hpc]
        rfl
      simp only [hpc] at h
      rcases hpop : RingBuffer.pop capacity σ.ring pc with ⟨ring, pc' | entry⟩ <;>
        rw [hpop] at h haccess hwrite <;> simp only [Option.some.injEq] at h <;> subst h
      · refine ⟨.access rfl ?_, .away rfl hwrite.1 (Nat.le_of_eq hwrite.2.symm)⟩
        rw [hheld]
        exact haccess
      · refine ⟨.access rfl ?_, .away rfl hwrite.1 (Nat.le_of_eq hwrite.2.symm)⟩
        rw [hheld]
        exact haccess

theorem step_turn {l : Label ι κ α} (h : step capacity σ l = some σ') :
    (pushing ι κ α).Turn σ σ' (pushAttempt σ l) ∧ (popping ι κ α).Turn σ σ' (popAttempt σ l) := by
  cases l with
  | push i value =>
      simp only [step] at h
      cases hpc : σ.pushers i with
      | outside =>
          rw [hpc] at h
          cases h
          exact ⟨.access rfl (.quiet rfl (Nat.le_refl _) (.inl rfl)),
            .away rfl rfl (Nat.le_refl _)⟩
      | push | notify =>
          rw [hpc] at h
          cases h
  | pusher i => exact stepPusher_turn h
  | popper k => exact (stepPopper_turn h).symm

end Turns

/-- In every run the pushers try at most as many compare-exchanges for each push as there are
pushers, and the poppers for each pop as there are poppers. -/
theorem push_lockFree (capacity : ℕ) [Inhabited α] [Fintype ι] [DecidableEq ι] [Fintype κ]
    [DecidableEq κ] (ls : List (Label ι κ α)) (σ : State ι κ α)
    (hrun : run (step capacity) (.init ι κ α) ls = some σ) :
    tally (step capacity) (fun σ l => (pushAttempt σ l).toNat) (.init ι κ α) ls ≤
        Fintype.card ι * σ.ring.pushes ∧
      tally (step capacity) (fun σ l => (popAttempt σ l).toNat) (.init ι κ α) ls ≤
        Fintype.card κ * σ.ring.pops := by
  have hinv : ∀ (σ : State ι κ α) l σ', True → step capacity σ l = some σ' → True :=
    fun _ _ _ _ _ => trivial
  have hpush := (pushing ι κ α).attempts_le hinv (fun σ l σ' _ h => (step_turn h).1) ls trivial
    (fun _ => rfl) hrun
  have hpop := (popping ι κ α).attempts_le hinv (fun σ l σ' _ h => (step_turn h).2) ls trivial
    (fun _ => rfl) hrun
  exact ⟨hpush, hpop⟩

/-- Two pushers load the same index, and one compare-exchange goes wrong. -/
def collision : List (Label Bool Unit ℕ) :=
  [.push true 1, .push false 2, .pusher true, .pusher false, .pusher true, .pusher false,
    .pusher false]

theorem push_lockFree_collision :
    ∃ σ, run (step 4) (.init Bool Unit ℕ) collision = some σ ∧
      tally (step 4) (fun σ l => (pushAttempt σ l).toNat) (.init Bool Unit ℕ) collision ≤
        Fintype.card Bool * σ.ring.pushes :=
  ⟨_, rfl, (push_lockFree 4 collision _ rfl).1⟩

end Notified

/-! ## `message_ring_buffer` -/

namespace MessageRingBuffer

variable {ι : Type}

/-- The write index the thread has loaded and is to compare with. -/
def Thread.writeExpected : Thread → Option ℕ
  | .pushing (.loadReadIdx _ writeIdx) => some writeIdx
  | .pushing (.compareExchange _ writeIdx _) => some writeIdx
  | _ => none

def Thread.readExpected : Thread → Option ℕ
  | .popping (.loadWriteIdx readIdx) => some readIdx
  | .popping (.readHeader readIdx _ _) => some readIdx
  | .popping (.compareExchange readIdx _) => some readIdx
  | _ => none

def writing (ι : Type) : Contention (System ι) ι Thread ℕ where
  value σ := σ.buffer.writeIdx
  threads := System.threads
  holding := Thread.writeExpected
  wins σ := σ.claimed.length

def reading (ι : Type) : Contention (System ι) ι Thread ℕ where
  value σ := σ.buffer.readIdx
  threads := System.threads
  holding := Thread.readExpected
  wins := System.popCount

/-- The step is the compare-exchange of `try_push`. -/
def pushAttempt (σ : System ι) : Label ι → Bool
  | .resume i =>
      match σ.threads i with
      | .pushing (.compareExchange _ _ _) => true
      | _ => false
  | _ => false

/-- The step is the compare-exchange of `try_pop`. -/
def popAttempt (σ : System ι) : Label ι → Bool
  | .resume i =>
      match σ.threads i with
      | .popping (.compareExchange _ _) => true
      | _ => false
  | _ => false

section Turns

variable [DecidableEq ι] {s : RingShape} {σ σ' : System ι} {i : ι}

/-- A step that leaves the write index alone, and whose thread holds what it has held. -/
theorem writing_quiet {t : Thread} (hthreads : σ'.threads = update σ.threads i t)
    (hvalue : σ'.buffer.writeIdx = σ.buffer.writeIdx)
    (hclaimed : σ'.claimed.length = σ.claimed.length)
    (hheld : t.writeExpected = none ∨ t.writeExpected = some σ.buffer.writeIdx ∨
      t.writeExpected = (σ.threads i).writeExpected) : (writing ι).Turn σ σ' false :=
  .access hthreads (.quiet hvalue (Nat.le_of_eq hclaimed.symm) hheld)

theorem reading_quiet {t : Thread} (hthreads : σ'.threads = update σ.threads i t)
    (hvalue : σ'.buffer.readIdx = σ.buffer.readIdx) (hpops : σ'.popCount = σ.popCount)
    (hheld : t.readExpected = none ∨ t.readExpected = some σ.buffer.readIdx ∨
      t.readExpected = (σ.threads i).readExpected) : (reading ι).Turn σ σ' false :=
  .access hthreads (.quiet hvalue (Nat.le_of_eq hpops.symm) hheld)

theorem resumePush_writing {pc : PushPc} (hpc : σ.threads i = .pushing pc) :
    (writing ι).Turn σ (resumePush s σ i pc) (pushAttempt σ (.resume i)) := by
  have hheld : (writing ι).holding ((writing ι).threads σ i) =
      (Thread.pushing pc).writeExpected := by
    show (σ.threads i).writeExpected = _
    rw [hpc]
  match pc with
  | .loadWriteIdx m =>
      simp only [pushAttempt, hpc]
      exact writing_quiet rfl rfl rfl (.inr (.inl rfl))
  | .loadReadIdx m writeIdx =>
      simp only [pushAttempt, hpc, resumePush]
      split
      · exact writing_quiet rfl rfl rfl (.inl rfl)
      · exact writing_quiet rfl rfl rfl (.inr (.inr (by rw [hpc]; rfl)))
  | .compareExchange m writeIdx next =>
      simp only [pushAttempt, hpc, resumePush]
      split
      · refine .access rfl (.won ?_ rfl)
        show σ.claimed.length + 1 ≤ (σ.claimed ++ [m.bytes]).length
        rw [List.length_append, List.length_singleton]
      · next hlost => exact .access rfl (.lost rfl (Nat.le_refl _) hheld (Ne.symm hlost) (.inl rfl))
  | .copy ticket (chunk :: pending) =>
      simp only [pushAttempt, hpc]
      exact writing_quiet rfl rfl rfl (.inl rfl)
  | .copy ticket [] =>
      simp only [pushAttempt, hpc]
      exact writing_quiet rfl rfl rfl (.inl rfl)

theorem resumePop_reading {pc : PopPc} (hpc : σ.threads i = .popping pc) :
    (reading ι).Turn σ (resumePop s σ i pc) (popAttempt σ (.resume i)) := by
  have hheld : (reading ι).holding ((reading ι).threads σ i) =
      (Thread.popping pc).readExpected := by
    show (σ.threads i).readExpected = _
    rw [hpc]
  match pc with
  | .loadReadIdx =>
      simp only [popAttempt, hpc]
      exact reading_quiet rfl rfl rfl (.inr (.inl rfl))
  | .loadWriteIdx readIdx =>
      simp only [popAttempt, hpc, resumePop]
      split
      · exact reading_quiet rfl rfl rfl (.inl rfl)
      · exact reading_quiet rfl rfl rfl (.inr (.inr (by rw [hpc]; rfl)))
  | .readHeader readIdx (run :: runs) got =>
      simp only [popAttempt, hpc]
      exact reading_quiet rfl rfl rfl (.inr (.inr (by rw [hpc]; rfl)))
  | .readHeader readIdx [] got =>
      simp only [popAttempt, hpc, resumePop]
      split
      · exact reading_quiet rfl rfl rfl (.inl rfl)
      · exact reading_quiet rfl rfl rfl (.inr (.inr (by rw [hpc]; rfl)))
  | .compareExchange readIdx msgSize =>
      simp only [popAttempt, hpc, resumePop]
      split
      · exact .access rfl (.won (Nat.le_refl _) rfl)
      · next hlost => exact .access rfl (.lost rfl (Nat.le_refl _) hheld (Ne.symm hlost) (.inl rfl))
  | .readPayload claim (run :: runs) got =>
      simp only [popAttempt, hpc]
      exact reading_quiet rfl rfl rfl (.inl rfl)
  | .readPayload claim [] got =>
      simp only [popAttempt, hpc]
      exact reading_quiet rfl rfl rfl (.inl rfl)

/-- `try_push` leaves the read index alone. -/
theorem PushMoves.reading (h : PushMoves s σ i σ') : (reading ι).Turn σ σ' false := by
  cases h with
  | @offer t hold hnew =>
      refine reading_quiet rfl rfl rfl (.inl ?_)
      cases t with
      | popping => cases hnew
      | _ => rfl
  | claim | write | written => exact reading_quiet rfl rfl rfl (.inl rfl)

/-- `try_pop` leaves the write index alone. -/
theorem PopMoves.writing (h : PopMoves s σ i σ') : (writing ι).Turn σ σ' false := by
  cases h with
  | @search t hold hnew =>
      refine writing_quiet rfl rfl rfl (.inl ?_)
      cases t with
      | pushing => cases hnew
      | _ => rfl
  | take | copy | deliver => exact writing_quiet rfl rfl rfl (.inl rfl)

theorem step_turn {l : Label ι} (h : step s σ l = some σ') :
    (writing ι).Turn σ σ' (pushAttempt σ l) ∧ (reading ι).Turn σ σ' (popAttempt σ l) := by
  cases l with
  | tryPush i m | tryPop i =>
      simp only [step] at h
      split at h
      · cases h
        exact ⟨writing_quiet rfl rfl rfl (.inl rfl), reading_quiet rfl rfl rfl (.inl rfl)⟩
      · cases h
  | resume i =>
      simp only [step] at h
      cases hpc : σ.threads i with
      | idle | pushed | popped =>
          rw [hpc] at h
          cases h
      | pushing pc =>
          rw [hpc] at h
          cases h
          refine ⟨resumePush_writing hpc, ?_⟩
          simp only [popAttempt, hpc]
          exact (resumePush_moves hpc).reading
      | popping pc =>
          rw [hpc] at h
          cases h
          refine ⟨?_, resumePop_reading hpc⟩
          simp only [pushAttempt, hpc]
          exact (resumePop_moves hpc).writing

end Turns

/-- In every run `n` threads try at most `n` compare-exchanges of `try_push` for each message
pushed, and `n` of `try_pop` for each message popped; the others return `again`. -/
theorem tryPush_lockFree (s : RingShape) [Fintype ι] [DecidableEq ι] (ls : List (Label ι))
    (σ : System ι) (hrun : run (step s) (.init ι) ls = some σ) :
    tally (step s) (fun σ l => (pushAttempt σ l).toNat) (.init ι) ls ≤
        Fintype.card ι * σ.claimed.length ∧
      tally (step s) (fun σ l => (popAttempt σ l).toNat) (.init ι) ls ≤
        Fintype.card ι * σ.popCount := by
  have hinv : ∀ (σ : System ι) l σ', True → step s σ l = some σ' → True :=
    fun _ _ _ _ _ => trivial
  have hpush := (writing ι).attempts_le hinv (fun σ l σ' _ h => (step_turn h).1) ls trivial
    (fun _ => rfl) hrun
  have hpop := (reading ι).attempts_le hinv (fun σ l σ' _ h => (step_turn h).2) ls trivial
    (fun _ => rfl) hrun
  exact ⟨hpush, hpop⟩

def ring16 : RingShape :=
  ⟨16, 16, Nat.le_of_ble_eq_true rfl, Nat.le_of_ble_eq_true rfl, Nat.le_of_ble_eq_true rfl⟩

/-- Two threads offer a message at the same index; one is told to try again. -/
def contended : List (Label Bool) :=
  let m : Message := ⟨[], by decide⟩
  [.tryPush true m, .tryPush false m, .resume true, .resume false, .resume true, .resume false,
    .resume true, .resume false]

theorem tryPush_lockFree_contended :
    ∃ σ, run (step ring16) (.init Bool) contended = some σ ∧
      tally (step ring16) (fun σ l => (pushAttempt σ l).toNat) (.init Bool) contended ≤
        Fintype.card Bool * σ.claimed.length :=
  ⟨_, rfl, (tryPush_lockFree ring16 contended _ rfl).1⟩

end MessageRingBuffer

/-! ## `group_notifier` -/

namespace GroupNotifier

variable {ι : Type}

/-- The value of the counter the thread is to compare with. -/
def Pc.expected : Pc → Option Int
  | .wait expected | .compareExchange expected => some expected
  | _ => none

def counting (ι : Type) : Contention (State ι) ι Pc Int where
  value := State.counter
  threads := State.threads
  holding := Pc.expected
  wins σ := (σ.returned + σ.notified).toNat

/-- The step is a compare-exchange that does not fail without a reason. -/
def waitAttempt (σ : State ι) : Label ι → Bool
  | .resume i false =>
      match σ.threads i with
      | .compareExchange _ => true
      | _ => false
  | _ => false

/-- Nothing is returned or notified before the start. -/
structure Counted (σ : State ι) : Prop where
  returned_nonneg : 0 ≤ σ.returned
  notified_nonneg : 0 ≤ σ.notified

section Turns

variable [DecidableEq ι] {g : GroupNotifier} {σ σ' : State ι}

theorem resume_turn {i : ι} {spurious : Bool} (hcounted : Counted σ)
    (h : resume σ i spurious = some σ') :
    (counting ι).Turn σ σ' (waitAttempt σ (.resume i spurious)) := by
  have hheld : (counting ι).holding ((counting ι).threads σ i) = (σ.threads i).expected := rfl
  unfold resume at h
  cases hpc : σ.threads i with
  | idle => simp [hpc] at h
  | load =>
      have hattempt : waitAttempt σ (.resume i spurious) = false := by
        cases spurious <;> simp [waitAttempt, hpc]
      rw [hattempt]
      simp only [hpc] at h
      split at h <;> cases h <;> exact .access rfl (.quiet rfl (Nat.le_refl _) (.inr (.inl rfl)))
  | wait expected =>
      have hattempt : waitAttempt σ (.resume i spurious) = false := by
        cases spurious <;> simp [waitAttempt, hpc]
      rw [hattempt]
      simp only [hpc] at h
      split at h
      · cases h
        refine .access rfl (.quiet rfl (Nat.le_refl _) (.inr (.inr ?_)))
        rw [hheld, hpc]
        rfl
      · cases h
  | compareExchange expected =>
      simp only [hpc] at h
      split at h
      · next hwin =>
          obtain ⟨rfl, -⟩ := hwin
          cases h
          simp only [waitAttempt, hpc]
          refine .access rfl (.won ?_ rfl)
          show (σ.returned + σ.notified).toNat + 1 ≤ (σ.returned + 1 + σ.notified).toNat
          have hreturned := hcounted.returned_nonneg
          have hnotified := hcounted.notified_nonneg
          omega
      · next hlost =>
          cases h
          cases spurious with
          | true => exact .access rfl (.quiet rfl (Nat.le_refl _) (.inl rfl))
          | false =>
              simp only [waitAttempt, hpc]
              have hne : expected ≠ σ.counter := fun heq => hlost ⟨rfl, heq.symm⟩
              refine .access rfl (.lost rfl (Nat.le_refl _) ?_ hne (.inl rfl))
              rw [hheld, hpc]
              rfl

theorem notify_turn {amount : Int} (hcounted : Counted σ) (hamount : 1 ≤ amount) :
    (counting ι).Turn σ (σ.fetchAdd amount) false := by
  refine .written ?_
  show (σ.returned + σ.notified).toNat + 1 ≤ (σ.returned + (σ.notified + amount)).toNat
  have hreturned := hcounted.returned_nonneg
  have hnotified := hcounted.notified_nonneg
  omega

theorem step_turn {l : Label ι} (hcounted : Counted σ) (h : step g σ l = some σ') :
    (counting ι).Turn σ σ' (waitAttempt σ l) := by
  have hgroup := g.groupSize_pos
  cases l with
  | waitForOne i =>
      simp only [step] at h
      split at h
      · cases h
        exact .access rfl (.quiet rfl (Nat.le_refl _) (.inl rfl))
      · cases h
  | notifyOne i =>
      simp only [step] at h
      split at h
      · cases h
        exact notify_turn hcounted (by omega)
      · cases h
  | notifyAll i =>
      simp only [step] at h
      split at h
      · cases h
        exact notify_turn hcounted (by omega)
      · cases h
  | resume i spurious => exact resume_turn hcounted h

theorem step_counted {l : Label ι} (hcounted : Counted σ) (h : step g σ l = some σ') :
    Counted σ' := by
  obtain ⟨hreturned, hnotified⟩ := hcounted
  have hgroup := g.groupSize_pos
  cases l with
  | waitForOne i =>
      simp only [step] at h
      split at h
      · cases h
        exact ⟨hreturned, hnotified⟩
      · cases h
  | notifyOne i | notifyAll i =>
      simp only [step] at h
      split at h
      · cases h
        exact ⟨hreturned, by simp only [State.fetchAdd]; omega⟩
      · cases h
  | resume i spurious =>
      rcases resume_cases h with ⟨-, rfl⟩ | ⟨-, rfl⟩ | ⟨e, -, rfl⟩ | ⟨e, -, rfl⟩ |
        ⟨e, -, -, -, rfl⟩
      · exact ⟨hreturned, hnotified⟩
      · exact ⟨hreturned, hnotified⟩
      · exact ⟨hreturned, hnotified⟩
      · exact ⟨hreturned, hnotified⟩
      · exact ⟨by simp only; omega, hnotified⟩

end Turns

/-- In every run `n` threads try at most `n` compare-exchanges for each `wait_for_one` that has
returned and each notification, not counting those that fail without a reason. -/
theorem waitForOne_lockFree (g : GroupNotifier) [Fintype ι] [DecidableEq ι] (ls : List (Label ι))
    (σ : State ι) (hrun : run (step g) g.init ls = some σ) :
    tally (step g) (fun σ l => (waitAttempt σ l).toNat) g.init ls ≤
      Fintype.card ι * (σ.returned + σ.notified).toNat :=
  (counting ι).attempts_le (fun _ _ _ h hstep => step_counted h hstep)
    (fun _ _ _ h hstep => step_turn h hstep) ls ⟨Int.le_refl 0, Int.le_refl 0⟩ (fun _ => rfl) hrun

def oneToken : GroupNotifier := ⟨1, 1, by decide, by decide, by decide⟩

/-- Two waiters and one token. -/
def bothWait : List (Label Bool) :=
  [.waitForOne true, .waitForOne false, .resume true false, .resume false false,
    .resume true false, .resume false false]

theorem waitForOne_lockFree_oneToken :
    ∃ σ, run (step oneToken) oneToken.init bothWait = some σ ∧
      tally (step oneToken) (fun σ l => (waitAttempt σ l).toNat) oneToken.init bothWait ≤
        Fintype.card Bool * (σ.returned + σ.notified).toNat :=
  ⟨_, rfl, waitForOne_lockFree oneToken bothWait _ rfl⟩

end GroupNotifier

end InterProcess.LockFree
