import InterProcess.Async.Roles

/-!
# The tokens of `written_message_count`

The notifications are never ahead of the messages pushed: a writer that
searches the ring has a message of its own to find (`Counts`).
-/

namespace InterProcess.Async

open Function LockFree LockFree.MessageRingBuffer Threads

variable {c : QueueConfig} {n : ℕ}

/-! ## Notifications -/

/-- The writer has taken a notification and not looked at the stop flag yet. -/
def checking (v : WriterPc × Thread) : ℕ :=
  match v.1 with
  | .loadStopFlag => 1
  | _ => 0

/-- The writer looks for the message it was notified of. -/
def searching (v : WriterPc × Thread) : ℕ :=
  match v.1 with
  | .tryPop => if v.2.isSearching then 1 else 0
  | _ => 0

/-- A message is pushed and no writer notified of it yet. -/
def LogPc.owed : LogPc c → ℕ
  | .notifyOne => 1
  | _ => 0

structure Counts (σ : Logger c n) : Prop where
  searching_le : total searching σ.view + σ.queue.popCount + σ.log.owed ≤ σ.pushed.length
  tokens_le : σ.stopFlag = false → σ.writtenMessageCount + total checking σ.view +
    total searching σ.view + σ.queue.popCount + σ.log.owed ≤ σ.pushed.length
  stop_first : σ.log = .notifyAll → σ.stopFlag = true

theorem counts_init (c : QueueConfig) (n : ℕ) : Counts (Logger.init c n) := by
  have hchecking : total checking (Logger.init c n).view = 0 := total_eq_zero fun _ => rfl
  have hsearching : total searching (Logger.init c n).view = 0 := total_eq_zero fun _ => rfl
  refine ⟨?_, fun _ => ?_, fun h => by cases h⟩
  · rw [hsearching]
    exact le_rfl
  · rw [hchecking, hsearching]
    exact le_rfl

/-- How a pop changes the number of searching writers. -/
theorem searching_pop {s : RingShape} {ι : Type} [DecidableEq ι] {q q' : System ι} {i : ι}
    (h : PopMoves s q i q') :
    searching (.tryPop, q'.threads i) + q'.popCount =
      searching (.tryPop, q.threads i) + q.popCount := by
  cases h with
  | search hold hnew => simp [searching, System.move, hold, hnew]
  | take hpc =>
      -- the writer has found its message, which counts as popped now
      simp [searching, System.take, hpc, Thread.isSearching]
      omega
  | copy hpc => simp [searching, System.move, hpc, Thread.isSearching]
  | deliver hpc => simp [searching, System.deliver, hpc, Thread.isSearching]

/-- What the move of a writer does to the notifications it holds: none is made up. -/
theorem WriterMoves.counts {σ σ' : Logger c n} {w : Fin n} (h : WriterMoves σ w σ') :
    searching (σ'.view w) + σ'.queue.popCount ≤
        checking (σ.view w) + searching (σ.view w) + σ.queue.popCount ∧
    (σ.stopFlag = true → searching (σ'.view w) + σ'.queue.popCount ≤
      searching (σ.view w) + σ.queue.popCount) ∧
    σ'.writtenMessageCount + checking (σ'.view w) + searching (σ'.view w) + σ'.queue.popCount ≤
      σ.writtenMessageCount + checking (σ.view w) + searching (σ.view w) + σ.queue.popCount := by
  unfold Logger.view
  cases h with
  | waitForOne hpc hpos =>
      simp only [Logger.moveWriter, update_self, hpc, checking, searching]
      omega
  | seeStop hpc hstop => simp [Logger.moveWriter, hpc, checking, searching]
  | callTryPop hpc hstop =>
      -- a writer that has seen the stop flag does not come here
      simp [Logger.callTryPop, System.move, hpc, hstop, checking, searching, Thread.isSearching]
  | pop hpc hthread =>
      have hpop := searching_pop (resumePop_moves (s := c.ring) hthread)
      simp only [hpc, checking]
      omega
  | popped hpc hthread => simp [Logger.moveWriter, hpc, checking, searching]
  | popAgain hpc hthread =>
      simp [Logger.callTryPop, System.move, hpc, hthread, checking, searching,
        Thread.isSearching]
  | popFailed hpc hthread => simp [Logger.moveWriter, hpc, checking, searching]
  | notify hpc => simp [Logger.moveWriter, hpc, checking, searching]
  | format hpc => simp [Logger.moveWriter, hpc, checking, searching]

theorem Counts.writer {σ σ' : Logger c n} {w : Fin n} (h : Counts σ)
    (hmove : WriterMoves σ w σ') : Counts σ' := by
  have hsearch := h.searching_le
  have htokens := h.tokens_le
  have htotal := total_update searching σ.view w (σ'.view w)
  have htotal' := total_update checking σ.view w (σ'.view w)
  rw [← hmove.view_eq] at htotal htotal'
  have hle := le_total checking σ.view w
  obtain ⟨hany, hstopped, hall⟩ := hmove.counts
  refine ⟨?_, ?_, ?_⟩ <;> rw [hmove.log_eq]
  · rw [hmove.pushed_eq]
    cases hflag : σ.stopFlag with
    | true =>
        -- nobody starts to search any more
        have hkeep := hstopped hflag
        omega
    | false =>
        -- a writer that starts to search has a notification for it
        have hbound := htokens hflag
        omega
  · rw [hmove.stopFlag_eq, hmove.pushed_eq]
    intro hflag
    have hbound := htokens hflag
    omega
  · rw [hmove.stopFlag_eq]
    exact h.stop_first

theorem Counts.step {σ σ' : Logger c n} {l : Label c n} (h : Counts σ) (hmove : Moves σ l σ') :
    Counts σ' := by
  by_cases hl : ∃ w, l = .writer w
  · obtain ⟨w, rfl⟩ := hl
    cases hmove with
    | writer hmove => exact h.writer hmove
  · have hl' : ∀ w, l ≠ .writer w := fun w hw => hl ⟨w, hw⟩
    have hsearch := h.searching_le
    have htokens := h.tokens_le
    have hstop := h.stop_first
    have hview := hmove.view_eq hl'
    have hpop := hmove.popCount_eq hl'
    rw [← hview, ← hpop] at hsearch htokens
    cases hmove with
    | writer => exact absurd rfl (hl' _)
    | notifyAll hlog =>
        -- these notifications are for no message, but the stop flag is set
        refine ⟨?_, fun hflag => ?_, fun h => by cases h⟩
        · simpa [hlog, LogPc.owed] using hsearch
        · exact absurd hflag (by simp [hstop hlog])
    | stop hlog =>
        refine ⟨?_, fun hflag => ?_, fun _ => rfl⟩
        · simpa [hlog, LogPc.owed] using hsearch
        · cases hflag
    | push hlog hthread =>
        exact ⟨hsearch, htokens, hstop⟩
    | pushed hlog hthread =>
        simp only [hlog, LogPc.owed] at hsearch htokens
        refine ⟨?_, fun hflag => ?_, fun h => by cases h⟩
        · simp only [LogPc.owed, List.length_append, List.length_singleton]
          omega
        · have hbound := htokens hflag
          simp only [LogPc.owed, List.length_append, List.length_singleton]
          omega
    | notifyOne hlog =>
        simp only [hlog, LogPc.owed] at hsearch htokens
        refine ⟨?_, fun hflag => ?_, fun h => by cases h⟩
        · simp only [LogPc.owed]
          omega
        · have hbound := htokens hflag
          simp only [LogPc.owed]
          omega
    | log hlog | destroy hlog | waitForBytes hlog | pushAgain hlog | pushFailed hlog
    | join hlog =>
        simp only [hlog] at hsearch htokens
        exact ⟨hsearch, htokens, fun h => by cases h⟩

/-- The notification a searching writer has taken is for a message of its own. -/
theorem Counts.popCount_lt {σ : Logger c n} (h : Counts σ) {w : Fin n}
    (hpc : σ.writers w = .tryPop) (hthread : (σ.queue.threads (some w)).isSearching) :
    σ.queue.popCount < σ.pushed.length := by
  have hone : searching (σ.view w) = 1 := by simp [searching, Logger.view, hpc, hthread]
  have hle := le_total searching σ.view w
  have hsearch := h.searching_le
  omega

end InterProcess.Async
