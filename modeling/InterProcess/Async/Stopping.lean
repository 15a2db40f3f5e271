import InterProcess.Async.SingleWriter

/-!
# What is formatted when the logger is destroyed

`~logger` sets the stop flag, notifies all writers and joins them. A writer
tests the flag after it has taken a notification and before it looks into the
ring. A message whose notification is not taken by then, or is taken by a
writer that has not tested the flag yet, stays in the ring, although `log` has
returned true for it. The other way to leave a message behind is a writer that
goes because it takes the ring for empty: its read index is an old one, and the
write index has come round to it.

`expected` counts the messages popped and those somebody will look for; `lost` is
what a step takes away from it, and a message pushed but not expected is
`Stranded`. `all_formatted`: in careful runs the joined
writers have formatted everything iff no step has lost a message.
-/

namespace InterProcess.Async

open Bytes Function Lts LockFree LockFree.MessageRingBuffer Threads

variable {c : QueueConfig} {n : ℕ}

/-- When the logger is destroyed, the writers have formatted every message
`log` has returned true for. -/
def AllFormatted (σ : Logger c n) : Prop :=
  σ.log = .destroyed →
    (σ.pushed : Multiset (List UInt8)) ≤ (σ.formatted : Multiset (List UInt8))

/-- The step leaves no message behind: the stop flag is set when the writers
have taken all notifications and tested the flag for each, and a writer that
compares the index it has loaded with `write_idx_` does not find them equal. -/
def Attended (σ : Logger c n) : Label c n → Prop
  | .main =>
      match σ.log with
      | .stop => σ.writtenMessageCount = 0 ∧ ∀ w, checking (σ.view w) = 0
      | _ => True
  | .writer w =>
      match σ.view w with
      | (.tryPop, .popping (.loadWriteIdx readIdx)) => readIdx ≠ σ.queue.buffer.writeIdx
      | _ => True
  | _ => True

/-! ## Messages somebody will look for -/

/-- The writer is on its way to a message, and will not give up. -/
def looking : WriterPc × Thread → ℕ
  | (.tryPop, .popped (.error error)) => if error = .again then 1 else 0
  | (.tryPop, t) => if t.isSearching then 1 else 0
  | _ => 0

/-- Messages popped, and messages a writer is or will be looking for. Once the
stop flag is set, notifications count for nothing. -/
def expected (σ : Logger c n) : ℕ :=
  σ.queue.popCount + total looking σ.view + σ.log.owed +
    if σ.stopFlag then 0 else σ.writtenMessageCount + total checking σ.view

/-- The messages nobody will look for after the step, and somebody would have before. -/
def lost (σ : Logger c n) : Label c n → ℕ
  | .main =>
      match σ.log with
      | .stop => σ.writtenMessageCount + total checking σ.view
      | _ => 0
  | .writer w =>
      match σ.view w with
      | (.tryPop, .popping (.loadWriteIdx readIdx)) =>
          if readIdx = σ.queue.buffer.writeIdx then 1 else 0
      | _ => 0
  | _ => 0

theorem attended_iff {σ : Logger c n} {l : Label c n} : Attended σ l ↔ lost σ l = 0 := by
  cases l with
  | main =>
      simp only [Attended, lost]
      split
      · constructor
        · rintro ⟨hzero, hchecking⟩
          rw [hzero, total_eq_zero hchecking, Nat.add_zero]
        · intro hlost
          refine ⟨by omega, fun w => ?_⟩
          have hle := le_total checking σ.view w
          omega
      · exact iff_of_true trivial rfl
  | writer w =>
      simp only [Attended, lost]
      split
      · next readIdx _ => by_cases heq : readIdx = σ.queue.buffer.writeIdx <;> simp [heq]
      · exact iff_of_true trivial rfl
  | log m => exact iff_of_true trivial rfl
  | destroy => exact iff_of_true trivial rfl

/-- The destructor has set the stop flag. -/
def LogPc.stopped : LogPc c → Bool
  | .notifyAll | .join | .destroyed => true
  | _ => false

/-- The destructor alone sets the stop flag, and joins all writers. -/
structure Shutdown (σ : Logger c n) : Prop where
  flag : σ.stopFlag = σ.log.stopped
  joined : σ.log = .destroyed → ∀ w, σ.writers w = .returned

theorem shutdown_init (c : QueueConfig) (n : ℕ) : Shutdown (Logger.init c n) :=
  ⟨rfl, nofun⟩

section Step

variable {σ σ' : Logger c n}

theorem WriterMoves.not_returned {w : Fin n} (h : WriterMoves σ w σ') :
    σ.writers w ≠ .returned := by
  intro hreturned
  cases h <;> simp_all

/-- The destructor is done when the last writer has returned. -/
theorem returned_of_join (hlog : σ.log = .join) (hstep : stepMain σ = some σ') :
    ∀ w, σ.writers w = .returned := by
  simp only [stepMain, hlog, Option.ite_none_right_eq_some] at hstep
  intro w
  have hreturned := hstep.1 w
  cases hpc : σ.writers w with
  | returned => rfl
  | _ => simp [hpc] at hreturned

theorem Shutdown.step {l : Label c n} (h : Shutdown σ) (hstep : step σ l = some σ') :
    Shutdown σ' := by
  have hflag := h.flag
  cases step_moves hstep with
  | writer hmove =>
      refine ⟨?_, fun hdestroyed w => ?_⟩
      · rw [hmove.stopFlag_eq, hmove.log_eq]
        exact hflag
      · rw [hmove.log_eq] at hdestroyed
        exact absurd (h.joined hdestroyed _) hmove.not_returned
  | join hlog =>
      have hreturned := returned_of_join hlog hstep
      rw [hlog] at hflag
      exact ⟨hflag, fun _ => hreturned⟩
  | stop hlog => exact ⟨rfl, nofun⟩
  | push hlog => exact ⟨hflag, fun hdestroyed => by cases hlog.symm.trans hdestroyed⟩
  | log hlog | destroy hlog | waitForBytes hlog | pushed hlog | pushAgain hlog | pushFailed hlog
  | notifyOne hlog | notifyAll hlog =>
      rw [hlog] at hflag
      exact ⟨hflag, nofun⟩

/-! ## The balance of one step -/

/-- A step of `try_pop` gives up the message only when it takes the ring for
empty. -/
theorem looking_pop {s : RingShape} {ι : Type} [DecidableEq ι] {q : System ι} {i : ι} {pc : PopPc}
    (hthread : q.threads i = .popping pc) :
    looking (.tryPop, (resumePop s q i pc).threads i) + (resumePop s q i pc).popCount +
        (if pc = .loadWriteIdx q.buffer.writeIdx then 1 else 0) =
      looking (.tryPop, q.threads i) + q.popCount := by
  match pc with
  | .loadReadIdx => simp [resumePop, System.move, hthread, looking, Thread.isSearching]
  | .loadWriteIdx readIdx =>
      by_cases heq : readIdx = q.buffer.writeIdx
      · simp [resumePop, System.move, hthread, heq, looking, Thread.isSearching]
        omega
      · simp [resumePop, System.move, hthread, heq, looking, Thread.isSearching]
  | .readHeader readIdx (run :: runs) got =>
      simp [resumePop, System.move, hthread, looking, Thread.isSearching]
  | .readHeader readIdx [] got =>
      by_cases hbig : ofLittleEndian got > s.capacity <;>
        simp [resumePop, System.move, hthread, hbig, looking, Thread.isSearching]
  | .compareExchange readIdx msgSize =>
      by_cases hwin : q.buffer.readIdx = readIdx
      · -- the message has been looked for, now it is popped
        simp [resumePop, System.take, hthread, hwin, looking, Thread.isSearching]
        omega
      · simp [resumePop, System.move, hthread, hwin, looking, Thread.isSearching]
  | .readPayload claim (run :: runs) got =>
      simp [resumePop, System.move, hthread, looking, Thread.isSearching]
  | .readPayload claim [] got =>
      simp [resumePop, System.deliver, hthread, looking, Thread.isSearching]

/-- After `again` the writer tries again. -/
theorem callTryPop_of_again {w : Fin n} (hpc : σ.writers w = .tryPop)
    (hthread : σ.queue.threads (some w) = .popped (.error .again))
    (hstep : stepWriter σ w = some σ') : σ' = σ.callTryPop w := by
  simpa [stepWriter, hpc, hthread] using hstep.symm

/-- What the move of a writer does to the messages that are looked for. -/
theorem WriterMoves.looking {w : Fin n} (h : WriterMoves σ w σ')
    (hstep : stepWriter σ w = some σ') :
    looking (σ'.view w) + σ'.queue.popCount + lost σ (.writer w) +
        (if σ.stopFlag then 0 else σ'.writtenMessageCount + checking (σ'.view w)) =
      looking (σ.view w) + σ.queue.popCount +
        (if σ.stopFlag then 0 else σ.writtenMessageCount + checking (σ.view w)) := by
  unfold lost Logger.view
  cases h with
  | waitForOne hpc hpos =>
      simp only [Logger.moveWriter, update_self, hpc, checking, Async.looking]
      split <;> omega
  | seeStop hpc hstop =>
      simp [Logger.moveWriter, hpc, hstop, Async.looking]
  | callTryPop hpc hstop =>
      simp [Logger.callTryPop, System.move, hpc, hstop, checking, Async.looking,
        Thread.isSearching]
      omega
  | @pop pc hpc hthread =>
      have hpop := looking_pop (s := c.ring) hthread
      simp only [hpc, hthread, checking] at hpop ⊢
      cases pc with
      | loadWriteIdx readIdx =>
          simp only [PopPc.loadWriteIdx.injEq] at hpop ⊢
          omega
      | loadReadIdx | readHeader | compareExchange | readPayload =>
          simp only [reduceCtorEq, if_false] at hpop ⊢
          omega
  | popped hpc hthread =>
      simp [Logger.moveWriter, hpc, hthread, checking, Async.looking, Thread.isSearching]
  | popAgain hpc hthread =>
      simp [Logger.callTryPop, System.move, hpc, hthread, checking, Async.looking,
        Thread.isSearching]
  | @popFailed error hpc hthread =>
      have hne : error ≠ .again := by
        rintro rfl
        have hpc' := congrArg (fun τ => τ.writers w) (callTryPop_of_again hpc hthread hstep)
        simp [Logger.moveWriter, Logger.callTryPop] at hpc'
      simp [Logger.moveWriter, hpc, hthread, hne, checking, Async.looking]
  | notify hpc => simp [Logger.moveWriter, hpc, checking, Async.looking]
  | format hpc => simp [Logger.moveWriter, hpc, checking, Async.looking]

theorem expected_writer {w : Fin n} (hstep : stepWriter σ w = some σ') :
    expected σ' + lost σ (.writer w) = expected σ := by
  have hmove := stepWriter_moves hstep
  have hlooking := hmove.looking hstep
  have htotal := total_update looking σ.view w (σ'.view w)
  have htotal' := total_update checking σ.view w (σ'.view w)
  rw [← hmove.view_eq] at htotal htotal'
  unfold expected
  rw [hmove.stopFlag_eq, hmove.log_eq]
  cases hflag : σ.stopFlag with
  | true =>
      simp only [hflag, if_true] at hlooking ⊢
      omega
  | false =>
      simp only [hflag, Bool.false_eq_true, if_false] at hlooking ⊢
      omega

/-- What a step makes of the messages that are looked for, and of those pushed. -/
theorem expected_step {l : Label c n} (h : Shutdown σ) (hstep : step σ l = some σ') :
    expected σ' + lost σ l + σ.pushed.length = expected σ + σ'.pushed.length := by
  by_cases hl : ∃ w, l = .writer w
  · obtain ⟨w, rfl⟩ := hl
    have hbalance := expected_writer hstep
    rw [(stepWriter_moves hstep).pushed_eq]
    omega
  · have hl' : ∀ w, l ≠ .writer w := fun w hw => hl ⟨w, hw⟩
    have hmove := step_moves hstep
    have hflag := h.flag
    unfold expected
    rw [hmove.view_eq hl', hmove.popCount_eq hl']
    cases hmove with
    | writer => exact absurd rfl (hl' _)
    | notifyOne hlog =>
        rw [hlog] at hflag
        simp only [hlog, hflag, lost, LogPc.owed, LogPc.stopped, Bool.false_eq_true, if_false]
        omega
    | stop hlog =>
        -- from here on the notifications are for nobody
        rw [hlog] at hflag
        simp only [hlog, hflag, lost, LogPc.owed, LogPc.stopped, Bool.false_eq_true, if_false,
          if_true]
    | pushed hlog hthread =>
        simp only [hlog, lost, LogPc.owed, List.length_append, List.length_singleton]
        omega
    | notifyAll hlog =>
        rw [hlog] at hflag
        simp [hlog, hflag, lost, LogPc.owed, LogPc.stopped]
    | waitForBytes hlog | pushAgain hlog =>
        simp only [hlog, lost]
        rfl
    | log hlog | destroy hlog | push hlog | pushFailed hlog | join hlog =>
        simp [hlog, lost, LogPc.owed]

end Step

/-! ## At the end -/

/-- The invariant of careful runs: nobody looks for a message that is not there. -/
structure StoppingInv (σ : Logger c n) : Prop where
  logger : LoggerInv σ
  shutdown : Shutdown σ
  expected_le : expected σ ≤ σ.pushed.length

theorem stoppingInv_init (c : QueueConfig) (n : ℕ) : StoppingInv (Logger.init c n) where
  logger := loggerInv_init c n
  shutdown := shutdown_init c n
  expected_le := by
    have hlooking : total looking (Logger.init c n).view = 0 := total_eq_zero fun _ => rfl
    have hchecking : total checking (Logger.init c n).view = 0 := total_eq_zero fun _ => rfl
    unfold expected
    rw [hlooking, hchecking]
    exact le_rfl

theorem stoppingInv_step (σ : Logger c n) (l : Label c n) (σ' : Logger c n) (h : StoppingInv σ)
    (hcareful : Careful σ l) (hstep : step σ l = some σ') : StoppingInv σ' := by
  refine ⟨loggerInv_step σ l σ' h.logger hcareful hstep, h.shutdown.step hstep, ?_⟩
  have hbalance := expected_step h.shutdown hstep
  have hle := h.expected_le
  omega

/-- With all writers joined, nobody is looking for a message any more. -/
theorem StoppingInv.expected_eq {σ : Logger c n} (h : StoppingInv σ)
    (hdestroyed : σ.log = .destroyed) : expected σ = σ.queue.popCount := by
  have hflag := h.shutdown.flag
  have hlooking : total looking σ.view = 0 := by
    refine total_eq_zero fun w => ?_
    simp [looking, Logger.view, h.shutdown.joined hdestroyed w]
  rw [hdestroyed] at hflag
  simp [expected, hlooking, hdestroyed, hflag, LogPc.owed, LogPc.stopped]

/-- With all writers joined, what has been popped has been formatted. -/
theorem StoppingInv.formatted_eq {σ : Logger c n} (h : StoppingInv σ)
    (hdestroyed : σ.log = .destroyed) :
    (σ.formatted : Multiset (List UInt8)) =
      (σ.pushed.take σ.queue.popCount : List (List UInt8)) := by
  have hformatted := h.logger.accounts.formatted_eq
  have hholding : total (fun v => (holding v : Multiset (List UInt8))) σ.view = 0 := by
    refine total_eq_zero fun w => ?_
    simp [holding, owing, Logger.view, h.shutdown.joined hdestroyed w]
  rwa [hholding, add_zero, h.logger.take_eq] at hformatted

/-- A message is pushed that nobody looks for. -/
def Stranded (σ : Logger c n) : Prop := expected σ < σ.pushed.length

/-- The logger is destroyed with all messages formatted iff none is stranded. -/
theorem StoppingInv.allFormatted_iff {σ : Logger c n} (h : StoppingInv σ)
    (hdestroyed : σ.log = .destroyed) : AllFormatted σ ↔ ¬ Stranded σ := by
  have hexpected := h.expected_eq hdestroyed
  have hformatted := h.formatted_eq hdestroyed
  unfold AllFormatted Stranded
  rw [hformatted, hexpected, Nat.not_lt]
  constructor
  · intro hall
    have hcard := Multiset.card_le_card (hall hdestroyed)
    rw [Multiset.coe_card, Multiset.coe_card, List.length_take] at hcard
    omega
  · intro hle _
    rw [List.take_of_length_le hle]

/-- In a careful run whose steps all lose no message, the destroyed logger has
formatted every message; and a careful run that ends with every message
formatted has lost none on the way. -/
theorem all_formatted (c : QueueConfig) (n : ℕ) (ls : List (Label c n)) :
    (StepsMeet step (fun σ l => Careful σ l ∧ Attended σ l) (Logger.init c n) ls →
      Along step AllFormatted (Logger.init c n) ls) ∧
    ∀ σ, StepsMeet step Careful (Logger.init c n) ls → run step (Logger.init c n) ls = some σ →
      σ.log = .destroyed → AllFormatted σ → StepsMeet step Attended (Logger.init c n) ls := by
  constructor
  · intro hok
    have halong : Along step (fun σ => StoppingInv σ ∧ ¬ Stranded σ) (Logger.init c n) ls := by
      refine along_of_stepsMeet (fun σ l σ' h hok hstep => ?_)
        ⟨stoppingInv_init c n, Nat.not_lt_zero _⟩ hok
      refine ⟨stoppingInv_step σ l σ' h.1 hok.1 hstep, fun hstranded => h.2 ?_⟩
      have hbalance := expected_step h.1.shutdown hstep
      rw [attended_iff.mp hok.2] at hbalance
      unfold Stranded at hstranded ⊢
      omega
    exact halong.mono fun σ h hdestroyed => (h.1.allFormatted_iff hdestroyed).mpr h.2 hdestroyed
  · intro σ hcareful hrun hdestroyed hall
    have hinv := (along_of_stepsMeet stoppingInv_step (stoppingInv_init c n) hcareful).last hrun
    refine StepsMeet.of_run stoppingInv_step (fun σ l σ' h _ hbad hstep => ?_)
      (fun σ l σ' h hstranded _ hstep => ?_) (stoppingInv_init c n) hcareful hrun
      ((hinv.allFormatted_iff hdestroyed).mp hall)
    · have hbalance := expected_step h.shutdown hstep
      have hle := h.expected_le
      rw [attended_iff] at hbad
      unfold Stranded
      omega
    · -- a stranded message stays stranded
      have hbalance := expected_step h.shutdown hstep
      unfold Stranded at hstranded ⊢
      omega

/-- With one writer, every run is careful. -/
theorem stepsMeet_careful (c : QueueConfig) (ls : List (Label c 1)) :
    StepsMeet step Careful (Logger.init c 1) ls :=
  stepsMeet_of_invariant (fun _ l h => SingleInv.careful h l) singleInv_step (singleInv_init c)

/-- The logging thread destroys the logger, the only writer finds the stop flag set. -/
def destroy : List (Label queue36 1) :=
  .destroy :: List.replicate 2 .main ++ List.replicate 2 (.writer (Fin.last 0)) ++ [.main]

def tenBytes : LogMessage queue36 := text 1 ((Fin.last 10).castAdd 18)

/-- One message is formatted before the logger is destroyed. -/
def logFormatDestroy : List (Label queue36 1) :=
  .log tenBytes :: List.replicate 9 .main ++ List.replicate 12 (.writer (Fin.last 0)) ++
    destroy

theorem all_formatted_logFormatDestroy :
    StepsMeet step Attended (Logger.init queue36 1) logFormatDestroy := by
  have hrun := (Option.some_get
    (show (run step (Logger.init queue36 1) logFormatDestroy).isSome from rfl)).symm
  exact (all_formatted queue36 1 logFormatDestroy).2 _ (stepsMeet_careful _ _) hrun rfl
    fun _ => le_rfl

/-- The logger is destroyed right after the call of `log`. -/
def logDestroy : List (Label queue36 1) :=
  .log tenBytes :: List.replicate 9 .main ++ destroy

/-- Not in every run: after `logDestroy` the message is still in the ring. -/
theorem not_all_formatted :
    ¬ ∀ (c : QueueConfig) (n : ℕ) (ls : List (Label c n)), 1 ≤ n →
      Along step AllFormatted (Logger.init c n) ls := by
  intro hall
  refine not_along_of_run (fun σ => (σ.log, σ.formatted, σ.pushed))
    (.destroyed, [], [List.replicate 10 1]) rfl ?_ (hall queue36 1 logDestroy le_rfl)
  intro σ' hobs hformatted
  obtain ⟨hdestroyed, hlists⟩ := Prod.mk.inj hobs
  obtain ⟨hempty, hpushed⟩ := Prod.mk.inj hlists
  have hle := hformatted hdestroyed
  rw [hempty, hpushed] at hle
  exact absurd hle (by decide)

end InterProcess.Async
