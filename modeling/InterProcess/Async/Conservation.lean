import InterProcess.Async.FlowControl

/-!
# The byte tokens are conserved

Between two calls of `log`, with all messages popped given back, the byte tokens
in the semaphore and the elements of the queued messages make up the capacity,
unless a `try_push` has failed before: `log` returns `false` then and keeps the
tokens it has waited for. They are lost for good, so `conserved_iff` is exact: a
run ends balanced iff its every `try_push` found a token left over.

`balance` is what the tokens come to at any time, `Lost` that some are gone or
about to go. A writer gives back what it has read, which is what was taken when
its length header is that of the oldest message (`Measured`); a single writer's
always is.
-/

namespace InterProcess.Async

open Bytes Circular Function Lts LockFree LockFree.MessageRingBuffer Threads

variable {c : QueueConfig} {n : ℕ}

/-- What can happen: a step of the logger, or a `wait_for` that fails, after
which `log` returns `false`. -/
inductive Event (c : QueueConfig) (n : ℕ)
  | step (l : Label c n)
  | waitFails

def stepOrFail (σ : Logger c n) : Event c n → Option (Logger c n)
  | .step l => step σ l
  | .waitFails =>
      match σ.log with
      | .waitForBytes _ => some { σ with log := .idle }
      | _ => none

/-- A condition on the steps of the logger. -/
def OnSteps (ok : Logger c n → Label c n → Prop) (σ : Logger c n) : Event c n → Prop
  | .step l => ok σ l
  | .waitFails => True

/-- A writer that wins its compare-exchange has read the length of the message
that is oldest now. -/
def Measured (σ : Logger c n) : Label c n → Prop
  | .writer w =>
      match σ.queue.threads (some w) with
      | .popping (.compareExchange readIdx msgSize) =>
          σ.queue.buffer.readIdx = readIdx →
            ∃ m, σ.queue.claimed[σ.queue.popCount]? = some m ∧ m.length = msgSize
      | _ => True
  | _ => True

/-- The messages in the queue, oldest first. -/
def queued (σ : Logger c n) : List (List UInt8) := σ.queue.claimed.drop σ.queue.popCount

/-- The thread is inside `log`. -/
def LogPc.calling : LogPc c → Bool
  | .waitForBytes _ | .tryPush _ | .notifyOne => true
  | _ => false

/-- No `log` call is in progress, every message popped is acknowledged. -/
structure Quiet (σ : Logger c n) : Prop where
  log : σ.log.calling = false
  acknowledged : ∀ w, owing (σ.view w) = []

/-! ## The balance -/

/-- The byte tokens in the semaphore, taken for the message being pushed, taken
for the elements in use, and owed by a writer. -/
def balance (σ : Logger c n) : ℕ :=
  σ.readMessageBytes + reserved σ + used c.ring σ.queue.buffer + total owed σ.view

/-- Tokens are gone, or will be when `log` sees that its `try_push` has failed. -/
def Lost (σ : Logger c n) : Prop :=
  balance σ < c.ring.capacity ∨ (∃ m, σ.log = .tryPush m) ∧ ¬NeverFull σ

structure Ledger (σ : Logger c n) : Prop where
  inRange : InRange c.ring σ.queue.buffer
  popCount_le : σ.queue.popCount ≤ σ.queue.claimed.length
  used_eq : used c.ring σ.queue.buffer = storageSum (queued σ)
  offering : ∀ m, σ.log = .tryPush m →
    Offers c.ring σ.queue m.toMessage (σ.queue.threads none) ∨ ¬NeverFull σ
  balance_le : balance σ ≤ c.ring.capacity
  failed : ¬NeverFull σ → Lost σ

theorem ledger_init (c : QueueConfig) (n : ℕ) : Ledger (Logger.init c n) where
  inRange := (budget_init c n).inRange
  popCount_le := le_rfl
  used_eq := rfl
  offering _ hlog := by cases hlog
  balance_le := (budget_init c n).tokens.le
  failed hfull := absurd (budget_init c n).neverFull hfull

section Ledger

variable {σ σ' : Logger c n}

/-- As long as no tokens are lost the budget holds. -/
theorem Ledger.budget (h : Ledger σ) (hlost : ¬Lost σ) : Budget σ := by
  have hnever : NeverFull σ := by
    by_contra hfull
    exact hlost (h.failed hfull)
  have hle := h.balance_le
  have hge : ¬balance σ < c.ring.capacity := fun hlt => hlost (.inl hlt)
  refine ⟨h.inRange, ?_, ?_⟩
  · unfold Offering
    split
    · next m hlog => exact (h.offering m hlog).resolve_right (not_not.2 hnever)
    · exact hnever
  · unfold balance at hle hge
    omega

theorem Budget.not_lost (h : Budget σ) : ¬Lost σ := by
  have htokens := h.tokens
  rintro (hlt | ⟨-, hfull⟩)
  · unfold balance at hlt
    omega
  · exact hfull h.neverFull

theorem Ledger.noOvertake {l : Label c n} (h : Ledger σ) (hmeasured : Measured σ l) :
    NoOvertake σ l := by
  cases l with
  | writer w =>
      simp only [NoOvertake]
      split
      · next readIdx msgSize hthread =>
          intro hwin
          simp only [Measured, hthread] at hmeasured
          obtain ⟨m, hm, rfl⟩ := hmeasured hwin
          have hle := storage_le_drop (Nat.le_refl σ.queue.popCount) hm
          rw [h.used_eq]
          exact hle
      · trivial
  | _ => trivial

/-! ## A step of a writer -/

/-- A message popped is taken out of the elements in use and out of the queue. -/
theorem used_queued_pop {ι : Type} [DecidableEq ι] {s : RingShape} {q q' : System ι} {i : ι}
    (hrange : InRange s q.buffer) (hle : q.popCount ≤ q.claimed.length)
    (hused : used s q.buffer = storageSum (q.claimed.drop q.popCount))
    (hmeasured : ∀ msgSize, q.threads i = .popping (.compareExchange q.buffer.readIdx msgSize) →
      ∃ m, q.claimed[q.popCount]? = some m ∧ m.length = msgSize)
    (h : PopMoves s q i q') :
    q'.popCount ≤ q'.claimed.length ∧
      used s q'.buffer = storageSum (q'.claimed.drop q'.popCount) := by
  cases h with
  | search | copy | deliver => exact ⟨hle, hused⟩
  | take hpc =>
      obtain ⟨m, hm, rfl⟩ := hmeasured _ hpc
      obtain ⟨hlt, rfl⟩ := List.getElem?_eq_some_iff.mp hm
      rw [List.drop_eq_getElem_cons hlt, storageSum_cons] at hused
      have hover : sizeofSize + q.claimed[q.popCount].length ≤
          distance s.capacity q.buffer.readIdx q.buffer.writeIdx :=
        (Nat.le_add_right _ _).trans hused.ge
      have hless := distance_add_left hrange.readIdx_lt hrange.writeIdx_lt hover
      unfold used storage at hused
      have hrest : distance s.capacity
          ((q.buffer.readIdx + (sizeofSize + q.claimed[q.popCount].length)) % s.capacity)
          q.buffer.writeIdx = storageSum (q.claimed.drop (q.popCount + 1)) := by
        omega
      exact ⟨hlt, hrest⟩

/-- A writer gives back what it has taken. -/
theorem Ledger.balance_writer {w : Fin n} (h : Ledger σ) (hmeasured : Measured σ (.writer w))
    (hmove : WriterMoves σ w σ') : balance σ' = balance σ := by
  obtain ⟨-, -, hsum⟩ := hmove.owed h.inRange (h.noOvertake hmeasured)
  have htotal := total_update owed σ.view w (σ'.view w)
  rw [← hmove.view_eq] at htotal
  have hreserved := hmove.reserved_eq
  unfold balance
  omega

theorem Ledger.writer {w : Fin n} (h : Ledger σ) (hmeasured : Measured σ (.writer w))
    (hmove : WriterMoves σ w σ') : Ledger σ' ∧ (Lost σ → Lost σ') := by
  obtain ⟨hrange, hless, -⟩ := hmove.owed h.inRange (h.noOvertake hmeasured)
  have hbalance := h.balance_writer hmeasured hmove
  have hnever : NeverFull σ' ↔ NeverFull σ := by
    unfold NeverFull
    rw [hmove.thread_none]
  have hlost : Lost σ ↔ Lost σ' := by
    unfold Lost
    rw [hbalance, hnever, hmove.log_eq]
  have hqueue : σ'.queue.popCount ≤ σ'.queue.claimed.length ∧
      used c.ring σ'.queue.buffer = storageSum (queued σ') := by
    cases hmove with
    | @pop pc hpc hthread =>
        refine used_queued_pop h.inRange h.popCount_le h.used_eq ?_
          (resumePop_moves (s := c.ring) hthread)
        intro msgSize hcas
        simp only [Measured, hcas] at hmeasured
        exact hmeasured trivial
    | _ => exact ⟨h.popCount_le, h.used_eq⟩
  refine ⟨⟨hrange, hqueue.1, hqueue.2, ?_, hbalance ▸ h.balance_le, ?_⟩, hlost.1⟩
  · intro m hlog
    rw [hmove.log_eq] at hlog
    rw [hmove.thread_none, hnever]
    exact (h.offering m hlog).imp_left fun hoffers => hoffers.mono hmove.writeIdx_eq hless
  · rw [hnever]
    exact fun hfull => hlost.1 (h.failed hfull)

/-! ## A step of the logging thread -/

/-- A step that keeps the balance and leaves no failed `try_push` behind. -/
theorem Ledger.kept (h : Ledger σ) (hlost : Lost σ → balance σ < c.ring.capacity)
    (hrange : InRange c.ring σ'.queue.buffer)
    (hqueue : σ'.queue.popCount ≤ σ'.queue.claimed.length ∧
      used c.ring σ'.queue.buffer = storageSum (queued σ'))
    (hoffering : ∀ m, σ'.log = .tryPush m →
      Offers c.ring σ'.queue m.toMessage (σ'.queue.threads none))
    (hbalance : balance σ' = balance σ) (hnever : NeverFull σ') :
    Ledger σ' ∧ (Lost σ → Lost σ') := by
  refine ⟨⟨hrange, hqueue.1, hqueue.2, fun m hlog => .inl (hoffering m hlog), ?_, ?_⟩, ?_⟩
  · exact hbalance ▸ h.balance_le
  · exact fun hfull => absurd hnever hfull
  · exact fun hgone => .inl (hbalance ▸ hlost hgone)

theorem neverFull_callTryPush (σ : Logger c n) (m : LogMessage c) :
    NeverFull (σ.callTryPush m) := by
  simp [NeverFull, Logger.callTryPush, System.move]

/-- Inside `try_push` nothing is lost but what was lost before. -/
theorem NeverFull.lost (h : NeverFull σ) (hlost : Lost σ) : balance σ < c.ring.capacity := by
  rcases hlost with hlt | ⟨-, hfull⟩
  · exact hlt
  · exact absurd h hfull

theorem balance_outside (hlog : ∀ m, σ.log ≠ .tryPush m) (hlog' : ∀ m, σ'.log ≠ .tryPush m)
    (hqueue : σ'.queue = σ.queue) (hbytes : σ'.readMessageBytes = σ.readMessageBytes)
    (hview : σ'.view = σ.view) : balance σ' = balance σ := by
  unfold balance
  rw [reserved_eq_zero hlog, reserved_eq_zero hlog', hqueue, hbytes, hview]

/-- A step outside `try_push` that touches neither the queue nor the tokens. -/
theorem Ledger.outside (h : Ledger σ) (hlog : ∀ m, σ.log ≠ .tryPush m)
    (hlog' : ∀ m, σ'.log ≠ .tryPush m) (hqueue : σ'.queue = σ.queue)
    (hbytes : σ'.readMessageBytes = σ.readMessageBytes) (hview : σ'.view = σ.view) :
    Ledger σ' ∧ (Lost σ → Lost σ') := by
  have hbalance := balance_outside hlog hlog' hqueue hbytes hview
  have hlost : Lost σ → Lost σ' := by
    rintro (hlt | ⟨⟨m, hm⟩, -⟩)
    · exact .inl (hbalance ▸ hlt)
    · exact absurd hm (hlog m)
  refine ⟨⟨hqueue ▸ h.inRange, hqueue ▸ h.popCount_le, ?_, fun m hm => absurd hm (hlog' m),
    hbalance ▸ h.balance_le, fun hfull => hlost (h.failed ?_)⟩, hlost⟩
  · unfold queued
    rw [hqueue]
    exact h.used_eq
  · unfold NeverFull at hfull ⊢
    rwa [hqueue] at hfull

/-- A `try_push` that finds no room: `log` is going to lose the tokens it has taken. -/
theorem Ledger.noRoom {m : LogMessage c} {error : ErrorCode} (h : Ledger σ)
    (hlog : σ.log = .tryPush m) (hlog' : σ'.log = .tryPush m)
    (hoffering : (σ.queue.threads none).isOffering)
    (hmoved : σ'.queue = σ.queue.move none (.pushed (.error error)))
    (herror : error = .full ∨ error = .notEnoughSpace)
    (hbytes : σ'.readMessageBytes = σ.readMessageBytes) (hview : σ'.view = σ.view) :
    Ledger σ' ∧ (Lost σ → Lost σ') := by
  have hthread : σ'.queue.threads none = .pushed (.error error) := by
    rw [hmoved]
    simp [System.move]
  have hfull : ¬NeverFull σ' := by
    rcases herror with rfl | rfl
    · exact fun hnever => hnever.1 hthread
    · exact fun hnever => hnever.2 hthread
  have hlost : Lost σ' := .inr ⟨⟨m, hlog'⟩, hfull⟩
  have hbalance : balance σ' = balance σ := by
    have hoffering' : (σ'.queue.threads none).isOffering := by rw [hthread]; rfl
    have hbuffer : σ'.queue.buffer = σ.queue.buffer := by rw [hmoved]; rfl
    unfold balance
    rw [hview, hbytes, hbuffer, reserved_offering hlog hoffering,
      reserved_offering hlog' hoffering']
  refine ⟨⟨?_, ?_, ?_, fun _ _ => .inr hfull, hbalance ▸ h.balance_le, fun _ => hlost⟩,
    fun _ => hlost⟩
  · rw [hmoved]
    exact h.inRange
  · rw [hmoved]
    exact h.popCount_le
  · unfold queued
    rw [hmoved]
    exact h.used_eq

/-- A step of `try_push` finds room, or fails. -/
theorem Ledger.push {m : LogMessage c} {pc : PushPc} (h : Ledger σ) (hlog : σ.log = .tryPush m)
    (hthread : σ.queue.threads none = .pushing pc)
    (hσ' : σ' = { σ with queue := resumePush c.ring σ.queue none pc })
    (hview : σ'.view = σ.view) : Ledger σ' ∧ (Lost σ → Lost σ') := by
  have hqueue : σ'.queue = resumePush c.ring σ.queue none pc := by rw [hσ']
  have hlog' : σ'.log = .tryPush m := by rw [hσ']; exact hlog
  have hbytes : σ'.readMessageBytes = σ.readMessageBytes := by rw [hσ']
  have hnever : NeverFull σ := by simp [NeverFull, hthread]
  have hoffers := (h.offering m hlog).resolve_right (not_not.2 hnever)
  have hmoves : PushMoves c.ring σ.queue none σ'.queue := hqueue ▸ resumePush_moves hthread
  have hmessage : ∀ m' writeIdx next,
      σ.queue.threads none = .pushing (.compareExchange m' writeIdx next) → m' = m.toMessage := by
    intro m' writeIdx next hcas
    rw [hcas] at hoffers
    exact hoffers.1
  have hqueued := reserved_push h.popCount_le hmessage hmoves
  have hlength : σ'.queue.popCount ≤ σ'.queue.claimed.length := by
    rw [hmoves.popCount_eq]
    exact h.popCount_le.trans hmoves.length_le
  have hused := h.used_eq
  rw [hthread] at hoffers hqueued
  by_cases hroom : ∀ m' writeIdx, pc = .loadReadIdx m' writeIdx →
      used c.ring σ.queue.buffer + storage m.toMessage.bytes < c.ring.capacity
  · have hresume := hoffers.resume (i := none) h.inRange hroom
    rw [← hqueue] at hresume
    obtain ⟨hrange, hoffers', hsum⟩ := hresume
    refine h.kept hnever.lost hrange ⟨hlength, ?_⟩ ?_ ?_ hoffers'.not_full
    · unfold queued at hused ⊢
      omega
    · intro m' hm'
      rw [hlog'] at hm'
      cases hm'
      exact hoffers'
    · unfold balance
      rw [hview, hbytes]
      simp only [reserved, hlog, hlog', hthread, LogMessage.toMessage_bytes] at hsum ⊢
      omega
  · simp only [not_forall, not_lt] at hroom
    obtain ⟨m', writeIdx, rfl, hfull⟩ := hroom
    obtain ⟨rfl, rfl⟩ := hoffers
    rcases reserve_used h.inRange m.toMessage with ⟨hlt, -⟩ | ⟨-, error, herror⟩
    · omega
    · have hmoved : σ'.queue = σ.queue.move none (.pushed (.error error)) := by
        rw [hqueue, resumePush, herror]
      have hoffering : (σ.queue.threads none).isOffering := by rw [hthread]; rfl
      exact h.noRoom hlog hlog' hoffering hmoved (reserve_error herror) hbytes hview

theorem Ledger.main {l : Label c n} (h : Ledger σ) (hstep : step σ l = some σ')
    (hl : ∀ w, l ≠ .writer w) : Ledger σ' ∧ (Lost σ → Lost σ') := by
  have hmove := step_moves hstep
  have hview := hmove.view_eq hl
  have hqueue : σ.queue.popCount ≤ σ.queue.claimed.length ∧
      used c.ring σ.queue.buffer = storageSum (queued σ) := ⟨h.popCount_le, h.used_eq⟩
  cases hmove with
  | writer => exact absurd rfl (hl _)
  | push hlog hthread => exact h.push hlog hthread rfl hview
  | @waitForBytes m hlog hle =>
      have hzero : reserved σ = 0 := reserved_eq_zero fun m' hm' => by rw [hlog] at hm'; cases hm'
      refine h.kept ?_ h.inRange hqueue ?_ ?_ (neverFull_callTryPush _ m)
      · rintro (hlt | ⟨⟨m', hm'⟩, -⟩)
        · exact hlt
        · rw [hlog] at hm'
          cases hm'
      · rintro m' hm'
        cases hm'
        exact offers_callTryPush _ m
      · unfold balance
        rw [hview, reserved_callTryPush, hzero]
        simp only [Logger.callTryPush, System.move]
        omega
  | @pushed m hlog hthread =>
      have hnever : NeverFull σ := by simp [NeverFull, hthread]
      have hzero : reserved σ = 0 := reserved_pushed hlog (by rw [hthread]; rfl)
      refine h.kept hnever.lost h.inRange hqueue (fun m' hm' => by cases hm') ?_ hnever
      unfold balance
      rw [hview, hzero]
      rfl
  | @pushAgain m hlog hthread =>
      have hnever : NeverFull σ := by simp [NeverFull, hthread]
      have hstorage := reserved_offering hlog (by rw [hthread]; rfl)
      refine h.kept hnever.lost h.inRange hqueue ?_ ?_ (neverFull_callTryPush σ m)
      · rintro m' hm'
        cases hm'
        exact offers_callTryPush σ m
      · unfold balance
        rw [hview, reserved_callTryPush, hstorage]
        rfl
  | @pushFailed m error hlog hthread =>
      -- `log` returns with the tokens it has taken
      have hstorage := reserved_offering hlog (by rw [hthread]; rfl)
      have hgone : balance ({ σ with log := .idle } : Logger c n) + storage m.bytes =
          balance σ := by
        unfold balance
        rw [hview, hstorage]
        simp only [reserved]
        omega
      have hpos := storage_pos m.bytes
      have hle := h.balance_le
      have hlost : Lost ({ σ with log := .idle } : Logger c n) := .inl (by omega)
      exact ⟨⟨h.inRange, h.popCount_le, h.used_eq, (fun m' hm' => by cases hm'), by omega,
        fun _ => hlost⟩, fun _ => hlost⟩
  | log hlog | destroy hlog | notifyOne hlog | stop hlog | notifyAll hlog | join hlog =>
      exact h.outside (fun m hm => by rw [hlog] at hm; cases hm) (fun m hm => by cases hm) rfl rfl
        hview

/-! ## Runs -/

theorem Ledger.step {e : Event c n} (h : Ledger σ) (hmeasured : OnSteps Measured σ e)
    (hstep : stepOrFail σ e = some σ') : Ledger σ' ∧ (Lost σ → Lost σ') := by
  cases e with
  | step l =>
      by_cases hl : ∃ w, l = .writer w
      · obtain ⟨w, rfl⟩ := hl
        exact h.writer hmeasured (stepWriter_moves hstep)
      · exact h.main hstep fun w hw => hl ⟨w, hw⟩
  | waitFails =>
      simp only [stepOrFail] at hstep
      split at hstep
      · next m hlog =>
          cases hstep
          exact h.outside (fun m hm => by rw [hlog] at hm; cases hm) (fun m hm => by cases hm)
            rfl rfl rfl
      · cases hstep

/-- A step whose `try_push` finds a token left loses none. -/
theorem Ledger.not_lost {e : Event c n} (h : Ledger σ) (hlost : ¬Lost σ)
    (hmeasured : OnSteps Measured σ e) (hok : OnSteps TokenLeft σ e)
    (hstep : stepOrFail σ e = some σ') : ¬Lost σ' := by
  have hbudget := h.budget hlost
  cases e with
  | step l => exact (budget_step σ l σ' hbudget (h.noOvertake hmeasured) hok hstep).not_lost
  | waitFails =>
      simp only [stepOrFail] at hstep
      split at hstep
      · next m hlog =>
          cases hstep
          rintro (hlt | ⟨⟨m, hm⟩, -⟩)
          · refine hlost (.inl ?_)
            unfold balance reserved at hlt ⊢
            rw [hlog]
            exact hlt
          · cases hm
      · cases hstep

/-- A `try_push` that finds none left loses what `log` has taken. -/
theorem Ledger.lost {e : Event c n} (h : Ledger σ) (hmeasured : OnSteps Measured σ e)
    (hok : ¬OnSteps TokenLeft σ e) (hstep : stepOrFail σ e = some σ') : Lost σ' := by
  obtain ⟨hledger, hstays⟩ := h.step hmeasured hstep
  by_cases hlost : Lost σ
  · exact hstays hlost
  · cases e with
    | step l => exact hledger.failed (not_neverFull σ l σ' (h.budget hlost) hok hstep)
    | waitFails => exact absurd trivial hok

theorem owed_of_owing {v : WriterPc × Thread} (h : owing v = []) : owed v = 0 := by
  unfold owed
  split
  · exact absurd h (List.cons_ne_nil _ _)
  · exact absurd h (List.cons_ne_nil _ _)
  · exact absurd h (List.cons_ne_nil _ _)
  · rfl

/-- In a quiet state no tokens are lost iff the tokens and the queue make up the
capacity. -/
theorem Ledger.not_lost_iff (h : Ledger σ) (hquiet : Quiet σ) :
    ¬Lost σ ↔ σ.readMessageBytes + storageSum (queued σ) = c.ring.capacity := by
  have hlog : ∀ m, σ.log ≠ .tryPush m := by
    intro m hm
    have hcalling := hquiet.log
    rw [hm] at hcalling
    cases hcalling
  have hreserved : reserved σ = 0 := reserved_eq_zero hlog
  have howed : total owed σ.view = 0 :=
    total_eq_zero fun w => owed_of_owing (hquiet.acknowledged w)
  have hle := h.balance_le
  have hbalance : balance σ = σ.readMessageBytes + storageSum (queued σ) := by
    have hused := h.used_eq
    unfold balance
    omega
  constructor
  · intro hlost
    have hge : ¬balance σ < c.ring.capacity := fun hlt => hlost (.inl hlt)
    omega
  · rintro heq (hlt | ⟨⟨m, hm⟩, -⟩)
    · omega
    · exact hlog m hm

end Ledger

/-! ## One writer -/

theorem SingleInv.waitFails {σ : Logger c 1} (h : SingleInv σ) {m : LogMessage c}
    (hlog : σ.log = .waitForBytes m) : SingleInv ({ σ with log := .idle } : Logger c 1) := by
  have hmain := h.roles.main
  have hsearch := h.counts.searching_le
  have htokens := h.counts.tokens_le
  have hbytes := h.accounts.bytes_le
  simp only [MainOk, hlog] at hmain
  simp only [hlog] at hsearch htokens
  simp only [reserved, hlog] at hbytes
  have hroles : Roles ({ σ with log := .idle } : Logger c 1) := ⟨hmain, h.roles.writers⟩
  have hcounts : Counts ({ σ with log := .idle } : Logger c 1) := by
    refine ⟨hsearch, htokens, ?_⟩
    intro hstop
    cases hstop
  exact ⟨⟨h.queue, hroles, hcounts, ⟨hbytes, h.accounts.formatted_eq⟩⟩, h.reader, h.in_order⟩

theorem SingleInv.measured {σ : Logger c 1} (h : SingleInv σ) (e : Event c 1) :
    OnSteps Measured σ e := by
  cases e with
  | waitFails => trivial
  | step l =>
      cases l with
      | writer w => exact h.careful (.writer w)
      | _ => trivial

theorem SingleInv.stepOrFail {σ σ' : Logger c 1} {e : Event c 1} (h : SingleInv σ)
    (hstep : stepOrFail σ e = some σ') : SingleInv σ' := by
  cases e with
  | step l => exact singleInv_step σ l σ' h hstep
  | waitFails =>
      simp only [Async.stepOrFail] at hstep
      split at hstep
      · next m hlog =>
          cases hstep
          exact h.waitFails hlog
      · cases hstep

/-- A single writer measures every message it pops. -/
theorem stepsMeet_measured (c : QueueConfig) (es : List (Event c 1)) :
    StepsMeet stepOrFail (OnSteps Measured) (Logger.init c 1) es :=
  stepsMeet_of_invariant (fun _ e h => h.measured e) (fun _ _ _ h => h.stepOrFail)
    (singleInv_init c)

/-! ## Conservation -/

/-- When the writers have measured the messages they popped, the tokens in the
semaphore and the queued messages make up the capacity at the quiet end of a run
iff each of its `try_push` calls has found a token left over. -/
theorem conserved_iff (c : QueueConfig) (n : ℕ) (es : List (Event c n)) (σ : Logger c n)
    (hmeasured : StepsMeet stepOrFail (OnSteps Measured) (Logger.init c n) es)
    (hrun : run stepOrFail (Logger.init c n) es = some σ) (hquiet : Quiet σ) :
    σ.readMessageBytes + storageSum (queued σ) = c.ring.capacity ↔
      StepsMeet stepOrFail (OnSteps TokenLeft) (Logger.init c n) es := by
  have hledger : Ledger σ := (along_of_stepsMeet (fun _ _ _ h hok hstep => (h.step hok hstep).1)
    (ledger_init c n) hmeasured).last hrun
  rw [← hledger.not_lost_iff hquiet]
  constructor
  · exact StepsMeet.of_run (fun _ _ _ h hok hstep => (h.step hok hstep).1)
      (fun _ _ _ h hpre hok hstep => h.lost hpre hok hstep)
      (fun _ _ _ h hlost hpre hstep => (h.step hpre hstep).2 hlost)
      (ledger_init c n) hmeasured hrun
  · intro hok
    have halong : Along stepOrFail (fun σ => Ledger σ ∧ ¬Lost σ) (Logger.init c n) es :=
      along_of_stepsMeet
        (fun _ _ _ h hok hstep =>
          ⟨(h.1.step hok.1 hstep).1, h.1.not_lost h.2 hok.1 hok.2 hstep⟩)
        ⟨ledger_init c n, (budget_init c n).not_lost⟩ (hmeasured.and hok)
    exact (halong.last hrun).2

/-- A single writer, one message of ten bytes (eighteen elements), still queued. -/
def logTen : List (Event queue36 1) :=
  .step (.log (text 1 ((Fin.last 10).castAdd 18))) :: List.replicate 9 (.step .main)

theorem conserved_logTen : ∃ σ, run stepOrFail (Logger.init queue36 1) logTen = some σ ∧
    σ.readMessageBytes + storageSum (queued σ) = 36 := by
  have hrun := (Option.some_get
    (show (run stepOrFail (Logger.init queue36 1) logTen).isSome from rfl)).symm
  refine ⟨_, hrun, (conserved_iff queue36 1 logTen _ (stepsMeet_measured _ _) hrun
    ⟨rfl, fun _ => rfl⟩).mpr ?_⟩
  exact .cons trivial rfl <| .cons trivial rfl <| .cons trivial rfl <|
    .cons (Nat.add_pos_left (Nat.succ_pos 17) _) rfl <| .cons trivial rfl <| .cons trivial rfl <|
    .cons trivial rfl <| .cons trivial rfl <| .cons trivial rfl <| .cons trivial rfl trivial

/-- The only writer has yet to run; the message takes all the tokens, `try_push`
finds one element too few, and `log` returns `false`. -/
def logTooLarge : List (Event queue36 1) :=
  .step (.log (text 1 (Fin.last 28))) :: List.replicate 4 (.step .main)

theorem not_conserved : ¬∀ (c : QueueConfig) (n : ℕ) (es : List (Event c n)) (σ : Logger c n),
    run stepOrFail (Logger.init c n) es = some σ → Quiet σ →
      σ.readMessageBytes + storageSum (queued σ) = c.ring.capacity := by
  intro hall
  have hrun := (Option.some_get
    (show (run stepOrFail (Logger.init queue36 1) logTooLarge).isSome from rfl)).symm
  have hzero := hall queue36 1 logTooLarge _ hrun ⟨rfl, fun _ => rfl⟩
  cases hzero

end InterProcess.Async
