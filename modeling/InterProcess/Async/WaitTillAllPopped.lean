import InterProcess.Async.Conservation
import InterProcess.SystemV.GroupNotifier

/-!
# `async::logger::wait_till_all_popped`

The call waits on the semaphore of the byte tokens for all of
`MessageQueueCapacity`, its group size. Such a wait takes what it waits for,
and nothing in the call gives it back: it is not the observation that no
message is left, but the taking of all tokens there are.

The call is added to the logger: while the logging thread is inside it, only
writers move. `waitTillAllPopped_exact` says that the semaphore holds the
capacity afterwards iff it has come to hold it twice. When the writers measure
what they pop it never holds more than once the capacity; the call leaves 0,
and no later `log` gets past its `wait_for` (`log_blocks`).
-/

namespace InterProcess.Async

open Function Lts LockFree LockFree.MessageRingBuffer Threads SystemV

variable {c : QueueConfig} {n : ℕ}

/-- Where the logging thread is in `wait_till_all_popped`. -/
inductive CallPc
  | outside
  | waitForAll
  | returnTrue
  deriving DecidableEq

/-- The logger and the call. `credited` is history: the tokens the semaphore held at the
call, and those it has been given since. -/
structure Caller (c : QueueConfig) (n : ℕ) where
  logger : Logger c n
  call : CallPc
  credited : ℕ

/-- Besides the logger's own events: the logging thread calls, its `semop` succeeds or
fails, it returns `true`. -/
inductive CallEvent (c : QueueConfig) (n : ℕ)
  | event (e : Event c n)
  | call
  | semop
  | semopFails
  | returnTrue

def Caller.init (c : QueueConfig) (n : ℕ) : Caller c n :=
  { logger := Logger.init c n, call := .outside, credited := 0 }

/-- An event of the logger during the call is a writer's. -/
def Event.ofWriter : Event c n → Bool
  | .step (.writer _) => true
  | _ => false

/-- A writer moves, or a thread outside the call. -/
def Caller.follow (τ : Caller c n) (σ : Logger c n) : Caller c n :=
  { τ with
    logger := σ
    credited := τ.credited + σ.readMessageBytes - τ.logger.readMessageBytes }

def stepCall (τ : Caller c n) : CallEvent c n → Option (Caller c n)
  | .event e =>
      if τ.call = .outside ∨ e.ofWriter then (stepOrFail τ.logger e).map τ.follow else none
  | .call =>
      match τ.call, τ.logger.log with
      | .outside, .idle =>
          some { τ with call := .waitForAll, credited := τ.logger.readMessageBytes }
      | _, _ => none
  | .semop =>
      if τ.call = .waitForAll ∧ c.ring.capacity ≤ τ.logger.readMessageBytes then
        some { τ with
          call := .returnTrue
          logger := { τ.logger with
            readMessageBytes := τ.logger.readMessageBytes - c.ring.capacity } }
      else none
  | .semopFails => if τ.call = .waitForAll then some { τ with call := .outside } else none
  | .returnTrue => if τ.call = .returnTrue then some { τ with call := .outside } else none

/-- What the call is to find, and to leave: every message popped, all tokens in the
semaphore. -/
def AllPopped (σ : Logger c n) : Prop :=
  queued σ = [] ∧ σ.readMessageBytes = c.ring.capacity

def MeasuredCall (τ : Caller c n) : CallEvent c n → Prop
  | .event e => OnSteps Measured τ.logger e
  | _ => True

/-! ## The semaphore -/

section Semaphore

variable {k : ℕ} {g : GroupNotifier k} {set : SemaphoreSet k} {σ : Logger c n} {left : ℕ}

/-- The `wait_for` of `log` on the semaphore that holds the byte tokens. -/
theorem waitForBytes_iff {m : LogMessage c} {count : SemaphoreSet.Increment}
    (hcount : count.val.toInt = storage m.bytes)
    (hset : (set g.index).value = σ.readMessageBytes) :
    (∃ after, g.waitFor set count = .done after ∧ (after g.index).value = left) ↔
      storage m.bytes ≤ σ.readMessageBytes ∧ left = σ.readMessageBytes - storage m.bytes := by
  have hfits := m.fits
  have hcap := c.capacity_le
  rw [← hset]
  exact GroupNotifier.waitFor_leaves_iff hcount (by omega)

/-- The `wait_for_all` of `wait_till_all_popped`, whose group is all of the queue. -/
theorem waitForAll_iff (hgroup : g.groupSize.val.toInt = c.ring.capacity)
    (hset : (set g.index).value = σ.readMessageBytes) :
    (∃ after, g.waitForAll set = .done after ∧ (after g.index).value = left) ↔
      c.ring.capacity ≤ σ.readMessageBytes ∧ left = σ.readMessageBytes - c.ring.capacity := by
  have hcap := c.capacity_le
  rw [← hset]
  exact GroupNotifier.waitFor_leaves_iff hgroup (by omega)

end Semaphore

/-! ## What the call leaves -/

section Call

variable {τ τ' : Caller c n}

/-- What a step does; during the call an event of the logger is a move of a writer. -/
inductive CallMoves (τ : Caller c n) : CallEvent c n → Caller c n → Prop
  | event {e : Event c n} {σ' : Logger c n}
      (hwriter : τ.call ≠ .outside → ∃ w, e = .step (.writer w))
      (hevent : stepOrFail τ.logger e = some σ') : CallMoves τ (.event e) (τ.follow σ')
  | call (hcall : τ.call = .outside) (hlog : τ.logger.log = .idle) :
      CallMoves τ .call { τ with call := .waitForAll, credited := τ.logger.readMessageBytes }
  | semop (hcall : τ.call = .waitForAll) (hle : c.ring.capacity ≤ τ.logger.readMessageBytes) :
      CallMoves τ .semop { τ with
        call := .returnTrue
        logger := { τ.logger with
          readMessageBytes := τ.logger.readMessageBytes - c.ring.capacity } }
  | semopFails (hcall : τ.call = .waitForAll) :
      CallMoves τ .semopFails { τ with call := .outside }
  | returnTrue (hcall : τ.call = .returnTrue) :
      CallMoves τ .returnTrue { τ with call := .outside }

theorem stepCall_moves {e : CallEvent c n} (h : stepCall τ e = some τ') : CallMoves τ e τ' := by
  cases e with
  | event e =>
      simp only [stepCall] at h
      split at h
      · next hallowed =>
          obtain ⟨σ', hσ', rfl⟩ := Option.map_eq_some_iff.mp h
          refine .event (fun hcall => ?_) hσ'
          have hwriter := hallowed.resolve_left hcall
          cases e with
          | waitFails => cases hwriter
          | step l =>
              cases l with
              | writer w => exact ⟨w, rfl⟩
              | _ => cases hwriter
      · cases h
  | call =>
      simp only [stepCall] at h
      split at h
      · next hcall hlog => cases h; exact .call hcall hlog
      · cases h
  | semop =>
      simp only [stepCall] at h
      split at h
      · next hok => cases h; exact .semop hok.1 hok.2
      · cases h
  | semopFails =>
      simp only [stepCall] at h
      split at h
      · next hcall => cases h; exact .semopFails hcall
      · cases h
  | returnTrue =>
      simp only [stepCall] at h
      split at h
      · next hcall => cases h; exact .returnTrue hcall
      · cases h

/-- How the tokens in the semaphore follow from what it was given. -/
def Credits (τ : Caller c n) : Prop :=
  match τ.call with
  | .outside => True
  | .waitForAll => τ.logger.readMessageBytes = τ.credited
  | .returnTrue => τ.logger.readMessageBytes + c.ring.capacity = τ.credited

theorem credits_init (c : QueueConfig) (n : ℕ) : Credits (Caller.init c n) := trivial

theorem credits_step (τ : Caller c n) (e : CallEvent c n) (τ' : Caller c n) (h : Credits τ)
    (hstep : stepCall τ e = some τ') : Credits τ' := by
  unfold Credits at h
  cases stepCall_moves hstep with
  | event =>
      unfold Credits Caller.follow
      cases hcall : τ.call with
      | outside => trivial
      | waitForAll | returnTrue =>
          simp only [hcall] at h ⊢
          omega
  | call => rfl
  | semop hcall hle =>
      simp only [hcall] at h
      show τ.logger.readMessageBytes - c.ring.capacity + c.ring.capacity = τ.credited
      rw [Nat.sub_add_cancel hle]
      exact h
  | semopFails | returnTrue => trivial

/-- No tokens are left anywhere, and none are taken for a message. -/
def Drained (σ : Logger c n) : Prop := balance σ = 0 ∧ ∀ m, σ.log ≠ .tryPush m

theorem Drained.readMessageBytes_eq {σ : Logger c n} (h : Drained σ) :
    σ.readMessageBytes = 0 := by
  have hbalance := h.1
  unfold balance at hbalance
  omega

/-- The invariant of a run whose writers measure what they pop. -/
structure CallInv (τ : Caller c n) : Prop where
  ledger : Ledger τ.logger
  log : τ.call ≠ .outside → τ.logger.log = .idle
  drained : τ.call = .returnTrue → Drained τ.logger

theorem ne_outside_of_returnTrue (h : τ.call = .returnTrue) : τ.call ≠ .outside := by
  rw [h]
  exact nofun

theorem callInv_init (c : QueueConfig) (n : ℕ) : CallInv (Caller.init c n) where
  ledger := ledger_init c n
  log h := absurd rfl h
  drained h := by cases h

/-- With the tokens all in the semaphore, to take the capacity is to take them all. -/
theorem Ledger.semop {σ : Logger c n} (h : Ledger σ) (hlog : σ.log = .idle)
    (hle : c.ring.capacity ≤ σ.readMessageBytes) :
    Ledger { σ with readMessageBytes := σ.readMessageBytes - c.ring.capacity } ∧
      Drained { σ with readMessageBytes := σ.readMessageBytes - c.ring.capacity } := by
  have hall := h.balance_le
  have hpos := c.ring.capacity_pos
  have hbalance : balance ({ σ with readMessageBytes := σ.readMessageBytes - c.ring.capacity } :
      Logger c n) + c.ring.capacity = balance σ := by
    unfold balance reserved used Logger.view
    simp only
    omega
  have hidle : ∀ m, σ.log ≠ .tryPush m := by
    intro m hm
    rw [hlog] at hm
    cases hm
  exact ⟨⟨h.inRange, h.popCount_le, h.used_eq, fun m hm => absurd hm (hidle m), by omega,
    fun _ => .inl (by omega)⟩, by omega, hidle⟩

/-- A writer takes no tokens, and has none to give back. -/
theorem Drained.writer {σ σ' : Logger c n} {w : Fin n} (h : Drained σ) (hledger : Ledger σ)
    (hmeasured : Measured σ (.writer w)) (hmove : WriterMoves σ w σ') : Drained σ' := by
  refine ⟨(hledger.balance_writer hmeasured hmove).trans h.1, ?_⟩
  rw [hmove.log_eq]
  exact h.2

theorem callInv_step (τ : Caller c n) (e : CallEvent c n) (τ' : Caller c n) (h : CallInv τ)
    (hmeasured : MeasuredCall τ e) (hstep : stepCall τ e = some τ') : CallInv τ' := by
  cases stepCall_moves hstep with
  | event hwriter hevent =>
      refine ⟨(h.ledger.step hmeasured hevent).1, fun hcall => ?_, fun hcall => ?_⟩
      · obtain ⟨w, rfl⟩ := hwriter hcall
        exact (stepWriter_moves hevent).log_eq.trans (h.log hcall)
      · obtain ⟨w, rfl⟩ := hwriter (ne_outside_of_returnTrue hcall)
        exact (h.drained hcall).writer h.ledger hmeasured (stepWriter_moves hevent)
  | call hcall hlog => exact ⟨h.ledger, fun _ => hlog, fun hret => by cases hret⟩
  | semop hcall hle =>
      have hlog := h.log (by rw [hcall]; exact nofun)
      obtain ⟨hledger, hdrained⟩ := h.ledger.semop hlog hle
      exact ⟨hledger, fun _ => hlog, fun _ => hdrained⟩
  | semopFails | returnTrue =>
      exact ⟨h.ledger, fun hcall => absurd rfl hcall, fun hret => by cases hret⟩

/-! ## After the call -/

theorem Drained.waitForBytes {σ : Logger c n} (h : Drained σ) {m : LogMessage c}
    (hlog : σ.log = .waitForBytes m) : stepMain σ = none := by
  have hpos := storage_pos m.bytes
  have hzero := h.readMessageBytes_eq
  unfold stepMain
  simp only [hlog]
  exact if_neg (by omega)

theorem Drained.outside {σ σ' : Logger c n} (h : Drained σ) (hlog : ∀ m, σ'.log ≠ .tryPush m)
    (hqueue : σ'.queue = σ.queue) (hbytes : σ'.readMessageBytes = σ.readMessageBytes)
    (hview : σ'.view = σ.view) : Drained σ' :=
  ⟨(balance_outside h.2 hlog hqueue hbytes hview).trans h.1, hlog⟩

/-- Nobody is inside `try_push`, and nobody gets there. -/
theorem Drained.step {σ σ' : Logger c n} {e : Event c n} (h : Drained σ) (hledger : Ledger σ)
    (hmeasured : OnSteps Measured σ e) (hstep : stepOrFail σ e = some σ') : Drained σ' := by
  cases e with
  | waitFails =>
      simp only [stepOrFail] at hstep
      split at hstep
      · cases hstep
        exact h.outside (fun m hm => by cases hm) rfl rfl rfl
      · cases hstep
  | step l =>
      have hmove := step_moves hstep
      by_cases hl : ∃ w, l = .writer w
      · obtain ⟨w, rfl⟩ := hl
        exact h.writer hledger hmeasured (stepWriter_moves hstep)
      · have hview := hmove.view_eq fun w hw => hl ⟨w, hw⟩
        cases hmove with
        | writer => exact absurd ⟨_, rfl⟩ hl
        | push hlog | pushed hlog | pushAgain hlog | pushFailed hlog => exact absurd hlog (h.2 _)
        | waitForBytes hlog hle =>
            exact absurd (hstep.symm.trans (h.waitForBytes hlog)) (Option.some_ne_none _)
        | log | destroy | notifyOne | stop | notifyAll | join =>
            exact h.outside (fun m hm => by cases hm) rfl rfl hview

theorem callInv_of_run {es : List (CallEvent c n)}
    (hmeasured : StepsMeet stepCall MeasuredCall (Caller.init c n) es)
    (hrun : run stepCall (Caller.init c n) es = some τ) : CallInv τ :=
  (along_of_stepsMeet callInv_step (callInv_init c n) hmeasured).last hrun

/-- After the call has returned `true`, no `log` gets past its wait for bytes. -/
theorem log_blocks {es es' : List (CallEvent c n)}
    (hmeasured : StepsMeet stepCall MeasuredCall (Caller.init c n) es)
    (hrun : run stepCall (Caller.init c n) es = some τ) (hret : τ.call = .returnTrue)
    (hmeasured' : StepsMeet stepCall MeasuredCall τ es') (hrun' : run stepCall τ es' = some τ')
    {m : LogMessage c} (hlog : τ'.logger.log = .waitForBytes m) : stepMain τ'.logger = none := by
  have h := callInv_of_run hmeasured hrun
  have halong : Along stepCall (fun τ => CallInv τ ∧ Drained τ.logger) τ es' := by
    refine along_of_stepsMeet ?_ ⟨h, h.drained hret⟩ hmeasured'
    rintro τ e τ' ⟨hinv, hdrained⟩ hok hstep
    refine ⟨callInv_step τ e τ' hinv hok hstep, ?_⟩
    cases stepCall_moves hstep with
    | event hwriter hevent => exact hdrained.step hinv.ledger hok hevent
    | semop hcall hle =>
        have hzero := hdrained.readMessageBytes_eq
        have hpos := c.ring.capacity_pos
        omega
    | call | semopFails | returnTrue => exact hdrained
  exact (halong.last hrun').2.waitForBytes hlog

/-! ## One writer -/

theorem SingleInv.semop {σ : Logger c 1} (h : SingleInv σ) (hlog : σ.log = .idle) (amount : ℕ) :
    SingleInv ({ σ with readMessageBytes := σ.readMessageBytes - amount } : Logger c 1) := by
  have hbytes := h.accounts.bytes_le
  have hreserved : reserved σ = 0 := reserved_eq_zero fun m hm => by rw [hlog] at hm; cases hm
  have haccounts : Accounts ({ σ with readMessageBytes := σ.readMessageBytes - amount } :
      Logger c 1) := by
    refine ⟨?_, h.accounts.formatted_eq⟩
    unfold reserved Logger.view at *
    simp only
    omega
  exact ⟨⟨h.queue, ⟨h.roles.main, h.roles.writers⟩,
    ⟨h.counts.searching_le, h.counts.tokens_le, h.counts.stop_first⟩, haccounts⟩, h.reader,
    h.in_order⟩

/-- What a call around a logger with one writer keeps. -/
structure SingleCall (τ : Caller c 1) : Prop where
  single : SingleInv τ.logger
  log : τ.call ≠ .outside → τ.logger.log = .idle

theorem singleCall_step (τ : Caller c 1) (e : CallEvent c 1) (τ' : Caller c 1)
    (h : SingleCall τ) (hstep : stepCall τ e = some τ') : SingleCall τ' := by
  cases stepCall_moves hstep with
  | event hwriter hevent =>
      refine ⟨h.single.stepOrFail hevent, fun hcall => ?_⟩
      obtain ⟨w, rfl⟩ := hwriter hcall
      exact (stepWriter_moves hevent).log_eq.trans (h.log hcall)
  | call hcall hlog => exact ⟨h.single, fun _ => hlog⟩
  | semop hcall hle =>
      have hlog := h.log (by rw [hcall]; exact nofun)
      exact ⟨h.single.semop hlog c.ring.capacity, fun _ => hlog⟩
  | semopFails | returnTrue => exact ⟨h.single, fun hcall => absurd rfl hcall⟩

/-- A single writer measures every message it pops. -/
theorem stepsMeet_measuredCall (c : QueueConfig) (es : List (CallEvent c 1)) :
    StepsMeet stepCall MeasuredCall (Caller.init c 1) es := by
  refine stepsMeet_of_invariant ?_ singleCall_step ⟨singleInv_init c, fun h => absurd rfl h⟩
  rintro τ (e | _ | _ | _ | _) h
  · exact h.single.measured e
  all_goals trivial

end Call

/-! ## The property -/

theorem Drained.queued_eq {σ : Logger c n} (h : Drained σ) (hledger : Ledger σ) :
    queued σ = [] := by
  have hzero : storageSum (queued σ) = 0 := by
    have hbalance := h.1
    have hused := hledger.used_eq
    unfold balance at hbalance
    omega
  cases hqueue : queued σ with
  | nil => rfl
  | cons m ms =>
      rw [hqueue, storageSum_cons] at hzero
      have hpos := storage_pos m
      omega

/-- When the call returns `true`, every message is popped and the semaphore holds
the capacity iff it has come to hold it twice. With writers that measure what
they pop, everything is popped indeed, and the semaphore holds nothing. -/
theorem waitTillAllPopped_exact (c : QueueConfig) (n : ℕ) (es : List (CallEvent c n))
    (τ : Caller c n) (hrun : run stepCall (Caller.init c n) es = some τ)
    (hret : τ.call = .returnTrue) :
    (AllPopped τ.logger ↔ queued τ.logger = [] ∧ τ.credited = 2 * c.ring.capacity) ∧
    (StepsMeet stepCall MeasuredCall (Caller.init c n) es →
      queued τ.logger = [] ∧ τ.logger.readMessageBytes = 0 ∧ ¬AllPopped τ.logger) := by
  constructor
  · have hcredits : Credits τ :=
      (along_of_invariant credits_step (credits_init c n)).last hrun
    unfold Credits at hcredits
    rw [hret] at hcredits
    unfold AllPopped
    constructor
    · rintro ⟨hqueue, hbytes⟩
      exact ⟨hqueue, by simp only at hcredits; omega⟩
    · rintro ⟨hqueue, htwice⟩
      exact ⟨hqueue, by simp only at hcredits; omega⟩
  · intro hmeasured
    have hinv := callInv_of_run hmeasured hrun
    have hdrained := hinv.drained hret
    have hzero := hdrained.readMessageBytes_eq
    refine ⟨hdrained.queued_eq hinv.ledger, hzero, ?_⟩
    rintro ⟨-, hall⟩
    have hpos := c.ring.capacity_pos
    omega

/-- One message is logged, popped and acknowledged, and another one taken by the writer. -/
def logTwice : List (Label queue36 1) :=
  .log (text 1 ((Fin.last 10).castAdd 18)) :: List.replicate 9 .main ++
    List.replicate 12 (.writer ⟨0, Nat.one_pos⟩) ++
    .log (text 2 ((Fin.last 9).castAdd 19)) :: List.replicate 9 .main ++
    List.replicate 7 (.writer ⟨0, Nat.one_pos⟩)

/-- The second message is acknowledged during the call. -/
def logThenCall : List (CallEvent queue36 1) :=
  logTwice.map (fun l => .event (.step l)) ++
    .call :: List.replicate 4 (.event (.step (.writer ⟨0, Nat.one_pos⟩))) ++ [.semop]

theorem waitTillAllPopped_logThenCall :
    ∃ τ, run stepCall (Caller.init queue36 1) logThenCall = some τ ∧
      τ.logger.pushed.length = 2 ∧
      queued τ.logger = [] ∧ τ.logger.readMessageBytes = 0 ∧ ¬AllPopped τ.logger := by
  have hrun := (Option.some_get
    (show (run stepCall (Caller.init queue36 1) logThenCall).isSome from rfl)).symm
  exact ⟨_, hrun, rfl, (waitTillAllPopped_exact queue36 1 logThenCall _ hrun rfl).2
    (stepsMeet_measuredCall queue36 logThenCall)⟩

/-- The call on a logger that has logged nothing. -/
def callAtOnce : List (CallEvent queue36 1) := [.call, .semop]

theorem not_allPopped : ¬∀ (c : QueueConfig) (n : ℕ) (es : List (CallEvent c n)) (τ : Caller c n),
    run stepCall (Caller.init c n) es = some τ → τ.call = .returnTrue → AllPopped τ.logger := by
  intro hall
  have hrun := (Option.some_get
    (show (run stepCall (Caller.init queue36 1) callAtOnce).isSome from rfl)).symm
  have hfull := (hall queue36 1 callAtOnce _ hrun rfl).2
  cases hfull

end InterProcess.Async
