import InterProcess.Async.Logger
import InterProcess.LockFree.MessageDelivery

/-!
# Who does what in the logger

The logging thread is the only one that pushes and the writers only pop, so the
indices the logging thread has loaded go stale in one direction only:
`write_idx_` stays as loaded and the free space can only have grown when its
compare-exchange comes (`PushOk`). `Moves` lists what a step can do; every
later invariant is proved by cases on it.
-/

namespace InterProcess.Async

open Function LockFree LockFree.MessageRingBuffer Threads

variable {c : QueueConfig} {n : ℕ}

/-! ## What a step can do -/

inductive WriterMoves (σ : Logger c n) (w : Fin n) : Logger c n → Prop
  | waitForOne (hpc : σ.writers w = .waitForOne) (hpos : 0 < σ.writtenMessageCount) :
      WriterMoves σ w ({ σ with
        writtenMessageCount := σ.writtenMessageCount - 1 }.moveWriter w .loadStopFlag)
  | seeStop (hpc : σ.writers w = .loadStopFlag) (hstop : σ.stopFlag = true) :
      WriterMoves σ w (σ.moveWriter w .returned)
  | callTryPop (hpc : σ.writers w = .loadStopFlag) (hstop : σ.stopFlag = false) :
      WriterMoves σ w (σ.callTryPop w)
  | pop {pc : PopPc} (hpc : σ.writers w = .tryPop)
      (hthread : σ.queue.threads (some w) = .popping pc) :
      WriterMoves σ w { σ with queue := resumePop c.ring σ.queue (some w) pc }
  | popped {m : List UInt8} (hpc : σ.writers w = .tryPop)
      (hthread : σ.queue.threads (some w) = .popped (.ok m)) :
      WriterMoves σ w (σ.moveWriter w (.notify m))
  | popAgain (hpc : σ.writers w = .tryPop)
      (hthread : σ.queue.threads (some w) = .popped (.error .again)) :
      WriterMoves σ w (σ.callTryPop w)
  | popFailed {error : ErrorCode} (hpc : σ.writers w = .tryPop)
      (hthread : σ.queue.threads (some w) = .popped (.error error)) :
      WriterMoves σ w (σ.moveWriter w .returned)
  | notify {m : List UInt8} (hpc : σ.writers w = .notify m) :
      WriterMoves σ w ({ σ with
        readMessageBytes := σ.readMessageBytes + storage m }.moveWriter w (.format m))
  | format {m : List UInt8} (hpc : σ.writers w = .format m) :
      WriterMoves σ w ({ σ with
        formatted := σ.formatted ++ [m] }.moveWriter w .waitForOne)

inductive Moves (σ : Logger c n) : Label c n → Logger c n → Prop
  | log {m : LogMessage c} (hlog : σ.log = .idle) :
      Moves σ (.log m) { σ with log := .waitForBytes m }
  | destroy (hlog : σ.log = .idle) : Moves σ .destroy { σ with log := .stop }
  | waitForBytes {m : LogMessage c} (hlog : σ.log = .waitForBytes m)
      (hle : storage m.bytes ≤ σ.readMessageBytes) :
      Moves σ .main ({ σ with
        readMessageBytes := σ.readMessageBytes - storage m.bytes }.callTryPush m)
  | push {m : LogMessage c} {pc : PushPc} (hlog : σ.log = .tryPush m)
      (hthread : σ.queue.threads none = .pushing pc) :
      Moves σ .main { σ with queue := resumePush c.ring σ.queue none pc }
  | pushed {m : LogMessage c} (hlog : σ.log = .tryPush m)
      (hthread : σ.queue.threads none = .pushed (.ok ())) :
      Moves σ .main { σ with log := .notifyOne, pushed := σ.pushed ++ [m.bytes] }
  | pushAgain {m : LogMessage c} (hlog : σ.log = .tryPush m)
      (hthread : σ.queue.threads none = .pushed (.error .again)) :
      Moves σ .main (σ.callTryPush m)
  | pushFailed {m : LogMessage c} {error : ErrorCode} (hlog : σ.log = .tryPush m)
      (hthread : σ.queue.threads none = .pushed (.error error)) :
      Moves σ .main { σ with log := .idle }
  | notifyOne (hlog : σ.log = .notifyOne) : Moves σ .main
      { σ with log := .idle, writtenMessageCount := σ.writtenMessageCount + 1 }
  | stop (hlog : σ.log = .stop) : Moves σ .main { σ with log := .notifyAll, stopFlag := true }
  | notifyAll (hlog : σ.log = .notifyAll) : Moves σ .main
      { σ with log := .join, writtenMessageCount := σ.writtenMessageCount + n }
  | join (hlog : σ.log = .join) : Moves σ .main { σ with log := .destroyed }
  | writer {w : Fin n} {σ' : Logger c n} (hmove : WriterMoves σ w σ') : Moves σ (.writer w) σ'

theorem stepWriter_moves {σ σ' : Logger c n} {w : Fin n} (h : stepWriter σ w = some σ') :
    WriterMoves σ w σ' := by
  unfold stepWriter at h
  cases hpc : σ.writers w with
  | waitForOne =>
      simp only [hpc, Option.ite_none_right_eq_some, Option.some.injEq] at h
      obtain ⟨hpos, rfl⟩ := h
      exact .waitForOne hpc hpos
  | loadStopFlag =>
      simp only [hpc] at h
      split at h
      · next hstop =>
          cases h
          exact .seeStop hpc hstop
      · next hstop =>
          cases h
          exact .callTryPop hpc (by simpa using hstop)
  | tryPop =>
      simp only [hpc] at h
      split at h
      · next hthread => cases h; exact .pop hpc hthread
      · next hthread => cases h; exact .popped hpc hthread
      · next hthread => cases h; exact .popAgain hpc hthread
      · next hthread => cases h; exact .popFailed hpc hthread
      · cases h
  | notify m =>
      simp only [hpc, Option.some.injEq] at h
      exact h ▸ .notify hpc
  | format m =>
      simp only [hpc, Option.some.injEq] at h
      exact h ▸ .format hpc
  | returned => simp [hpc] at h

theorem stepMain_moves {σ σ' : Logger c n} (h : stepMain σ = some σ') : Moves σ .main σ' := by
  unfold stepMain at h
  cases hlog : σ.log with
  | idle => simp [hlog] at h
  | waitForBytes m =>
      simp only [hlog, Option.ite_none_right_eq_some, Option.some.injEq] at h
      obtain ⟨hle, rfl⟩ := h
      exact .waitForBytes hlog hle
  | tryPush m =>
      simp only [hlog] at h
      split at h
      · next hthread => cases h; exact hlog ▸ .push hlog hthread
      · next hthread => cases h; exact .pushed hlog hthread
      · next hthread => cases h; exact .pushAgain hlog hthread
      · next hthread => cases h; exact .pushFailed hlog hthread
      · cases h
  | notifyOne =>
      simp only [hlog, Option.some.injEq] at h
      exact h ▸ .notifyOne hlog
  | stop =>
      simp only [hlog, Option.some.injEq] at h
      exact h ▸ .stop hlog
  | notifyAll =>
      simp only [hlog, Option.some.injEq] at h
      exact h ▸ .notifyAll hlog
  | join =>
      simp only [hlog, Option.ite_none_right_eq_some, Option.some.injEq] at h
      exact h.2 ▸ .join hlog
  | destroyed => simp [hlog] at h

theorem step_moves {σ σ' : Logger c n} {l : Label c n} (h : step σ l = some σ') :
    Moves σ l σ' := by
  cases l with
  | log m =>
      simp only [step] at h
      split at h
      · next hlog => cases h; exact .log hlog
      · cases h
  | destroy =>
      simp only [step] at h
      split at h
      · next hlog => cases h; exact .destroy hlog
      · cases h
  | main => exact stepMain_moves h
  | writer w => exact .writer (stepWriter_moves h)

/-! ## What a step leaves alone -/

/-- A writer and where it is inside `try_pop`. -/
def Logger.view (σ : Logger c n) (w : Fin n) : WriterPc × Thread :=
  (σ.writers w, σ.queue.threads (some w))

section Frame

variable {σ σ' : Logger c n} {w : Fin n}

theorem WriterMoves.log_eq (h : WriterMoves σ w σ') : σ'.log = σ.log := by
  cases h <;> rfl

theorem WriterMoves.pushed_eq (h : WriterMoves σ w σ') : σ'.pushed = σ.pushed := by
  cases h <;> rfl

theorem WriterMoves.stopFlag_eq (h : WriterMoves σ w σ') : σ'.stopFlag = σ.stopFlag := by
  cases h <;> rfl

theorem WriterMoves.thread_none (h : WriterMoves σ w σ') :
    σ'.queue.threads none = σ.queue.threads none := by
  cases h with
  | pop hpc hthread =>
      exact (resumePop_moves hthread).threads_of_ne (Option.some_ne_none w).symm
  | callTryPop | popAgain => simp [Logger.callTryPop, System.move]
  | _ => rfl

theorem WriterMoves.claimed_eq (h : WriterMoves σ w σ') :
    σ'.queue.claimed = σ.queue.claimed := by
  cases h with
  | pop hpc hthread => exact (resumePop_moves hthread).claimed_eq
  | _ => rfl

theorem WriterMoves.writeIdx_eq (h : WriterMoves σ w σ') :
    σ'.queue.buffer.writeIdx = σ.queue.buffer.writeIdx := by
  cases h with
  | pop hpc hthread => exact (resumePop_moves hthread).writeIdx_eq
  | _ => rfl

theorem WriterMoves.popCount_le (h : WriterMoves σ w σ') :
    σ.queue.popCount ≤ σ'.queue.popCount := by
  cases h with
  | pop hpc hthread => exact (resumePop_moves hthread).popCount_le
  | _ => exact le_rfl

/-- A writer moves itself only. -/
theorem WriterMoves.view_eq (h : WriterMoves σ w σ') :
    σ'.view = update σ.view w (σ'.view w) := by
  funext v
  by_cases hv : v = w
  · subst hv
    rw [update_self]
  · rw [update_of_ne hv]
    cases h with
    | pop hpc hthread =>
        exact Prod.ext rfl ((resumePop_moves hthread).threads_of_ne (by simpa using hv))
    | callTryPop | popAgain =>
        exact Prod.ext (update_of_ne hv _ _) (update_of_ne (by simpa using hv) _ _)
    | _ => exact Prod.ext (update_of_ne hv _ _) rfl

/-- The logging thread moves no writer. -/
theorem Moves.view_eq {l : Label c n} (h : Moves σ l σ') (hl : ∀ w, l ≠ .writer w) :
    σ'.view = σ.view := by
  funext v
  cases h with
  | push hlog hthread =>
      exact Prod.ext rfl ((resumePush_moves hthread).threads_of_ne (Option.some_ne_none v))
  | waitForBytes | pushAgain => simp [Logger.view, Logger.callTryPush, System.move]
  | writer => exact absurd rfl (hl _)
  | _ => rfl

/-- Only writers pop. -/
theorem Moves.popCount_eq {l : Label c n} (h : Moves σ l σ') (hl : ∀ w, l ≠ .writer w) :
    σ'.queue.popCount = σ.queue.popCount := by
  cases h with
  | push hlog hthread => exact (resumePush_moves hthread).popCount_eq
  | writer => exact absurd rfl (hl _)
  | _ => rfl

theorem Moves.take_eq {l : Label c n} (h : Moves σ l σ') (hl : ∀ w, l ≠ .writer w)
    (hle : σ.queue.popCount ≤ σ.queue.claimed.length) :
    σ'.queue.claimed.take σ'.queue.popCount = σ.queue.claimed.take σ.queue.popCount := by
  cases h with
  | push hlog hthread => exact (resumePush_moves hthread).take_eq hle
  | writer => exact absurd rfl (hl _)
  | _ => rfl

theorem Moves.formatted_eq {l : Label c n} (h : Moves σ l σ') (hl : ∀ w, l ≠ .writer w) :
    σ'.formatted = σ.formatted := by
  cases h with
  | writer => exact absurd rfl (hl _)
  | _ => rfl

end Frame

/-! ## The logging thread -/

/-- What the logging thread knows inside `try_push` of `m`: what it has loaded
is still true, the free space up to messages popped since. -/
def PushOk {ι : Type} (s : RingShape) (q : System ι) (pushed : List (List UInt8)) (m : Message) :
    Thread → Prop
  | .pushing (.loadWriteIdx m') => m' = m ∧ q.claimed = pushed
  | .pushing (.loadReadIdx m' writeIdx) =>
      m' = m ∧ q.claimed = pushed ∧ writeIdx = q.buffer.writeIdx
  | .pushing (.compareExchange m' writeIdx _) =>
      m' = m ∧ q.claimed = pushed ∧ writeIdx = q.buffer.writeIdx ∧
        storageSum (q.claimed.drop q.popCount) + storage m.bytes < s.capacity
  | .pushing (.copy ticket _) => q.claimed = pushed ++ [m.bytes] ∧ ticket = pushed.length
  | .pushed (.ok _) => q.claimed = pushed ++ [m.bytes]
  | .pushed (.error _) => q.claimed = pushed
  | _ => False

/-- Pops keep what the logging thread knows. -/
theorem PushOk.mono {ι : Type} {s : RingShape} {q q' : System ι} {pushed : List (List UInt8)}
    {m : Message} {t : Thread} (h : PushOk s q pushed m t) (hclaimed : q'.claimed = q.claimed)
    (hw : q'.buffer.writeIdx = q.buffer.writeIdx) (hpop : q.popCount ≤ q'.popCount) :
    PushOk s q' pushed m t := by
  unfold PushOk at h ⊢
  have hroom := storageSum_drop_le (q := q.claimed) hpop
  split <;> simp only [hclaimed, hw] at h ⊢
  · exact h
  · exact h
  · -- pops only add to the free space
    exact ⟨h.1, h.2.1, h.2.2.1, by omega⟩
  · exact h
  · exact h
  · exact h

/-- The steps of a `try_push` that nobody else is calling. -/
theorem PushOk.resume {ι : Type} [Fintype ι] [DecidableEq ι] {s : RingShape} {q : System ι}
    {pushed : List (List UInt8)} {m : Message} {i : ι} {pc : PushPc} (hq : Inv s q)
    (h : PushOk s q pushed m (.pushing pc)) :
    PushOk s (resumePush s q i pc) pushed m ((resumePush s q i pc).threads i) := by
  match pc with
  | .loadWriteIdx m' =>
      obtain ⟨rfl, hclaimed⟩ := h
      simp only [resumePush, System.move, update_self]
      exact ⟨rfl, hclaimed, rfl⟩
  | .loadReadIdx m' writeIdx =>
      obtain ⟨rfl, hclaimed, rfl⟩ := h
      have hreq : requiredMessageStorage m'.bytes.length = storage m'.bytes :=
        requiredMessageStorage_eq m'.fits
      -- nothing has been claimed since `write_idx` was loaded, so the test is exact
      rcases reserve_cases (hq.readIdx_eq ▸ q.start_lt s _) hq.room hq.writeIdx_from_readIdx
        (storage_pos m'.bytes) with ⟨hroom, hok⟩ | ⟨-, error, herror⟩
      · simp only [resumePush, hreq, hok, System.move, update_self]
        exact ⟨rfl, hclaimed, rfl, hroom⟩
      · simp only [resumePush, hreq, herror, System.move, update_self]
        exact hclaimed
  | .compareExchange m' writeIdx next =>
      obtain ⟨rfl, hclaimed, rfl, hroom⟩ := h
      simp only [resumePush, if_true, System.claim, update_self]
      exact ⟨by rw [hclaimed], by rw [hclaimed]⟩
  | .copy ticket (chunk :: pending) =>
      simp only [resumePush, System.write, update_self]
      exact h
  | .copy ticket [] =>
      simp only [resumePush, System.move, update_self]
      exact h.1

/-- The logging thread uses the ring in `log` only, and what it has pushed is
what has been claimed. -/
def MainOk (σ : Logger c n) : Prop :=
  match σ.log with
  | .tryPush m => PushOk c.ring σ.queue σ.pushed m.toMessage (σ.queue.threads none)
  | _ => (σ.queue.threads none).isFree ∧ σ.queue.claimed = σ.pushed

/-- A writer uses the ring in `try_pop` only. -/
def WriterOk (v : WriterPc × Thread) : Prop :=
  match v.1 with
  | .tryPop => v.2.isPop
  | _ => v.2.isFree

theorem WriterOk.writes_eq {v : WriterPc × Thread} (h : WriterOk v) : v.2.writes = none := by
  obtain ⟨pc, t⟩ := v
  cases t with
  | pushing _ => cases pc <;> cases h
  | _ => rfl

structure Roles (σ : Logger c n) : Prop where
  main : MainOk σ
  writers : ∀ w, WriterOk (σ.view w)

theorem roles_init (c : QueueConfig) (n : ℕ) : Roles (Logger.init c n) where
  main := ⟨rfl, rfl⟩
  writers := fun _ => rfl

section Facts

variable {σ : Logger c n}

/-- What is pushed is what is claimed, but for the message being written. -/
theorem Roles.pushed_prefix (h : Roles σ) : σ.pushed <+: σ.queue.claimed := by
  have hmain := h.main
  unfold MainOk at hmain
  split at hmain
  · unfold PushOk at hmain
    split at hmain
    · rw [hmain.2]
    · rw [hmain.2.1]
    · rw [hmain.2.1]
    · -- claimed, but its `try_push` has not returned
      rw [hmain.1]
      exact List.prefix_append _ _
    · rw [hmain]
      exact List.prefix_append _ _
    · rw [hmain]
    · exact hmain.elim
  · rw [hmain.2]

/-- A message whose `try_push` has succeeded is not being written. -/
theorem Roles.settled (h : Roles σ) {k : ℕ} (hk : k < σ.pushed.length) :
    σ.queue.Settled k := by
  intro i hi
  cases i with
  | some w =>
      have hw : (σ.queue.threads (some w)).writes = none := (h.writers w).writes_eq
      rw [hw] at hi
      cases hi
  | none =>
      have hmain := h.main
      unfold Thread.writes at hi
      split at hi
      · next ticket c pending heq =>
          cases hi
          unfold MainOk at hmain
          rw [heq] at hmain
          split at hmain
          · -- the message being written is the one after those pushed
            have hticket := hmain.2
            omega
          · cases hmain.1
      · cases hi

end Facts

section Step

variable {σ σ' : Logger c n}

theorem mainOk_of_writer (h : MainOk σ) {w : Fin n} (hmove : WriterMoves σ w σ') : MainOk σ' := by
  unfold MainOk at h ⊢
  rw [hmove.log_eq, hmove.pushed_eq, hmove.thread_none, hmove.claimed_eq]
  split at h
  · exact h.mono hmove.claimed_eq hmove.writeIdx_eq hmove.popCount_le
  · exact h

theorem writerOk_of_writer {w : Fin n} (h : WriterOk (σ.view w)) (hmove : WriterMoves σ w σ') :
    WriterOk (σ'.view w) := by
  unfold WriterOk Logger.view at h ⊢
  cases hmove with
  | pop hpc hthread =>
      simp only [hpc]
      exact (resumePop_moves hthread).isPop
  | callTryPop | popAgain => simp [Logger.callTryPop, System.move, Thread.isPop]
  | popped hpc hthread | popFailed hpc hthread =>
      simp [Logger.moveWriter, hthread, Thread.isFree]
  | waitForOne hpc | seeStop hpc | notify hpc | format hpc =>
      simp only [hpc] at h
      simpa [Logger.moveWriter] using h

theorem Roles.step {l : Label c n} (hq : Inv c.ring σ.queue) (h : Roles σ)
    (hmove : Moves σ l σ') : Roles σ' := by
  have hmain := h.main
  have hwriters : (∀ w, l ≠ .writer w) → ∀ w, WriterOk (σ'.view w) := fun hl => by
    rw [hmove.view_eq hl]
    exact h.writers
  cases hmove with
  | log hlog =>
      refine ⟨?_, hwriters (by simp)⟩
      simp only [MainOk, hlog] at hmain ⊢
      exact hmain
  | destroy hlog =>
      refine ⟨?_, hwriters (by simp)⟩
      simp only [MainOk, hlog] at hmain ⊢
      exact hmain
  | waitForBytes hlog hle =>
      refine ⟨?_, hwriters (by simp)⟩
      simp only [MainOk, hlog] at hmain
      simp only [MainOk, Logger.callTryPush, System.move, update_self]
      exact ⟨rfl, hmain.2⟩
  | push hlog hthread =>
      refine ⟨?_, hwriters (by simp)⟩
      simp only [MainOk, hlog, hthread] at hmain ⊢
      exact hmain.resume hq
  | pushed hlog hthread =>
      refine ⟨?_, hwriters (by simp)⟩
      simp only [MainOk, hlog, hthread] at hmain ⊢
      exact ⟨rfl, hmain⟩
  | pushAgain hlog hthread =>
      refine ⟨?_, hwriters (by simp)⟩
      simp only [MainOk, hlog, hthread] at hmain
      simp only [MainOk, Logger.callTryPush, System.move, update_self]
      exact ⟨rfl, hmain⟩
  | pushFailed hlog hthread =>
      refine ⟨?_, hwriters (by simp)⟩
      simp only [MainOk, hlog, hthread] at hmain ⊢
      exact ⟨rfl, hmain⟩
  | notifyOne hlog | stop hlog | notifyAll hlog | join hlog =>
      refine ⟨?_, hwriters (by simp)⟩
      simp only [MainOk, hlog] at hmain ⊢
      exact hmain
  | writer hmove =>
      refine ⟨mainOk_of_writer hmain hmove, ?_⟩
      rw [hmove.view_eq]
      exact forall_update (writerOk_of_writer (h.writers _) hmove) fun v _ => h.writers v

end Step

end InterProcess.Async
