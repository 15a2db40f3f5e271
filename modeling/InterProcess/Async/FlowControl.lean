import InterProcess.Async.SingleWriter

/-!
# Flow control of the logger

`log` waits until it gets as many byte tokens as its message takes, so that
there should be room for it in the ring when it calls `try_push`. There are
`MessageQueueCapacity` tokens; a ring of that capacity always keeps one element
free. The tokens, the elements in use and what the writers owe add up to the
capacity (`Budget`), so `try_push` finds no room iff the message has taken the
very last token and no writer owes any.

That is as long as no writer moves `read_idx_` past `write_idx_`, which a writer
can do whose length header is out of date (`NoOvertake`); a single writer never
does.
-/

namespace InterProcess.Async

open Bytes Circular Function Lts LockFree LockFree.MessageRingBuffer Threads

variable {c : QueueConfig} {n : ℕ}

/-- The elements of the ring in use, from `read_idx_` round to `write_idx_`. -/
def used (s : RingShape) (b : Buffer) : ℕ := distance s.capacity b.readIdx b.writeIdx

/-- The byte tokens a writer will give back for the message it has popped. -/
def owed : WriterPc × Thread → ℕ
  | (.tryPop, .popping (.readPayload _ runs got)) =>
      sizeofSize + ((runs.map Run.size).sum + got.length)
  | (.tryPop, .popped (.ok m)) => storage m
  | (.notify m, _) => storage m
  | _ => 0

/-- The last `try_push` has not failed for want of room. -/
def NeverFull (σ : Logger c n) : Prop :=
  σ.queue.threads none ≠ .pushed (.error .full) ∧
    σ.queue.threads none ≠ .pushed (.error .notEnoughSpace)

/-- A writer that wins its compare-exchange moves the read index over elements
in use only. -/
def NoOvertake (σ : Logger c n) : Label c n → Prop
  | .writer w =>
      match σ.queue.threads (some w) with
      | .popping (.compareExchange readIdx msgSize) =>
          σ.queue.buffer.readIdx = readIdx →
            sizeofSize + msgSize ≤ used c.ring σ.queue.buffer
      | _ => True
  | _ => True

/-- When `try_push` loads `read_idx_`, one more byte token is in the semaphore
or owed by a writer. -/
def TokenLeft (σ : Logger c n) : Label c n → Prop
  | .main =>
      match σ.log, σ.queue.threads none with
      | .tryPush _, .pushing (.loadReadIdx _ _) =>
          0 < σ.readMessageBytes + total owed σ.view
      | _, _ => True
  | _ => True

instance decidableNoOvertake (σ : Logger c n) : (l : Label c n) → Decidable (NoOvertake σ l)
  | .writer w =>
      match h : σ.queue.threads (some w) with
      | .popping (.compareExchange readIdx msgSize) =>
          decidable_of_iff (σ.queue.buffer.readIdx = readIdx →
            sizeofSize + msgSize ≤ used c.ring σ.queue.buffer) (by simp only [NoOvertake, h])
      | .popping .loadReadIdx | .popping (.loadWriteIdx _) | .popping (.readHeader _ _ _)
      | .popping (.readPayload _ _ _) | .idle | .pushing _ | .pushed _ | .popped _ =>
          .isTrue (by simp only [NoOvertake, h])
  | .log _ | .destroy | .main => .isTrue trivial

instance decidableTokenLeft (σ : Logger c n) : (l : Label c n) → Decidable (TokenLeft σ l)
  | .main =>
      match hlog : σ.log, h : σ.queue.threads none with
      | .tryPush _, .pushing (.loadReadIdx _ _) =>
          decidable_of_iff (0 < σ.readMessageBytes + total owed σ.view)
            (by simp only [TokenLeft, hlog, h])
      | .tryPush _, .pushing (.loadWriteIdx _) | .tryPush _, .pushing (.compareExchange _ _ _)
      | .tryPush _, .pushing (.copy _ _) | .tryPush _, .idle | .tryPush _, .pushed _
      | .tryPush _, .popping _ | .tryPush _, .popped _ | .idle, _ | .waitForBytes _, _
      | .notifyOne, _ | .stop, _ | .notifyAll, _ | .join, _ | .destroyed, _ =>
          .isTrue (by simp only [TokenLeft, hlog, h])
  | .log _ | .destroy | .writer _ => .isTrue trivial

/-! ## The logging thread -/

/-- What the logging thread knows inside `try_push` of `m`. -/
def Offers {ι : Type} (s : RingShape) (q : System ι) (m : Message) : Thread → Prop
  | .pushing (.loadWriteIdx m') => m' = m
  | .pushing (.loadReadIdx m' writeIdx) => m' = m ∧ writeIdx = q.buffer.writeIdx
  | .pushing (.compareExchange m' writeIdx next) =>
      m' = m ∧ writeIdx = q.buffer.writeIdx ∧
        next = (q.buffer.writeIdx + storage m.bytes) % s.capacity ∧
        used s q.buffer + storage m.bytes < s.capacity
  | .pushing (.copy _ _) | .pushed (.ok _) => True
  | .pushed (.error error) => error = .again
  | _ => False

section Push

variable {ι : Type} {s : RingShape} {q q' : System ι} {i : ι} {m : Message}

/-- Pops only add to the free space. -/
theorem Offers.mono {t : Thread} (h : Offers s q m t)
    (hw : q'.buffer.writeIdx = q.buffer.writeIdx) (hused : used s q'.buffer ≤ used s q.buffer) :
    Offers s q' m t := by
  unfold Offers at h ⊢
  split <;> simp only [hw] at h ⊢
  · exact h
  · exact h
  · exact ⟨h.1, h.2.1, h.2.2.1, by omega⟩
  · exact h

/-- A `try_push` that knows what it has found does not fail for want of room. -/
theorem Offers.not_full {t : Thread} (h : Offers s q m t) :
    t ≠ .pushed (.error .full) ∧ t ≠ .pushed (.error .notEnoughSpace) := by
  constructor
  · rintro rfl
    cases h
  · rintro rfl
    cases h

theorem reserve_error {capacity writeIdx readIdx requiredMem : ℕ} {error : ErrorCode}
    (h : reserve capacity writeIdx readIdx requiredMem = .error error) :
    error = .full ∨ error = .notEnoughSpace := by
  by_cases hfull : writeIdx + 1 = readIdx
  · rw [reserve, if_pos hfull] at h
    cases h
    exact .inl rfl
  · rw [reserve, if_neg hfull] at h
    dsimp only at h
    generalize (if readIdx ≤ writeIdx then _ else _) = availableMem at h
    split at h
    · cases h
      exact .inr rfl
    · cases h

/-- The read index is in range, and so is the write index. -/
structure InRange (s : RingShape) (b : Buffer) : Prop where
  readIdx_lt : b.readIdx < s.capacity
  writeIdx_lt : b.writeIdx < s.capacity

/-- The free-space test of `try_push` is about the elements in use. -/
theorem reserve_used {b : Buffer} (h : InRange s b) (m : Message) :
    (used s b + storage m.bytes < s.capacity ∧
      reserve s.capacity b.writeIdx b.readIdx (requiredMessageStorage m.bytes.length) =
        .ok ((b.writeIdx + storage m.bytes) % s.capacity)) ∨
    (s.capacity ≤ used s b + storage m.bytes ∧ ∃ error,
      reserve s.capacity b.writeIdx b.readIdx (requiredMessageStorage m.bytes.length) =
        .error error) := by
  have hreq : requiredMessageStorage m.bytes.length = storage m.bytes :=
    requiredMessageStorage_eq m.fits
  rw [hreq]
  exact reserve_cases h.readIdx_lt (distance_lt h.readIdx_lt h.writeIdx_lt)
    (add_distance h.readIdx_lt h.writeIdx_lt).symm (storage_pos m.bytes)

/-- A step of a `try_push` that nobody else is calling: it claims what it has
found free, and the storage of its message is reserved first and in use then. -/
theorem Offers.resume [DecidableEq ι] {pc : PushPc} (hrange : InRange s q.buffer)
    (hroom : ∀ m' writeIdx, pc = .loadReadIdx m' writeIdx →
      used s q.buffer + storage m.bytes < s.capacity)
    (h : Offers s q m (.pushing pc)) :
    InRange s (resumePush s q i pc).buffer ∧
    Offers s (resumePush s q i pc) m ((resumePush s q i pc).threads i) ∧
    (if ((resumePush s q i pc).threads i).isOffering then storage m.bytes else 0) +
        used s (resumePush s q i pc).buffer =
      (if (Thread.pushing pc).isOffering then storage m.bytes else 0) + used s q.buffer := by
  match pc with
  | .loadWriteIdx m' =>
      obtain rfl : m' = m := h
      simp only [resumePush, System.move, update_self]
      exact ⟨hrange, ⟨rfl, rfl⟩, rfl⟩
  | .loadReadIdx m' writeIdx =>
      obtain ⟨rfl, rfl⟩ := h
      have hlt := hroom _ _ rfl
      rcases reserve_used hrange m' with ⟨-, hok⟩ | ⟨hge, -⟩
      · simp only [resumePush, hok, System.move, update_self]
        exact ⟨hrange, ⟨rfl, rfl, rfl, hlt⟩, rfl⟩
      · omega
  | .compareExchange m' writeIdx next =>
      obtain ⟨rfl, rfl, rfl, hlt⟩ := h
      simp only [resumePush, if_true, System.claim, update_self]
      refine ⟨⟨hrange.readIdx_lt, Nat.mod_lt _ s.capacity_pos⟩, trivial, ?_⟩
      have hmore := distance_add_right hrange.readIdx_lt hrange.writeIdx_lt hlt
      simp only [used, Thread.isOffering, if_true, Bool.false_eq_true, if_false]
      omega
  | .copy ticket (chunk :: pending) =>
      simp only [resumePush, System.write, update_self]
      exact ⟨⟨hrange.readIdx_lt, hrange.writeIdx_lt⟩, trivial, rfl⟩
  | .copy ticket [] =>
      simp only [resumePush, System.move, update_self]
      exact ⟨hrange, trivial, rfl⟩

end Push

/-! ## The writers -/

/-- A step of `try_pop` that does not overtake: the message it takes goes from
the elements in use into what the writer owes. -/
theorem owed_pop {ι : Type} [DecidableEq ι] {s : RingShape} {q : System ι} {i : ι} {pc : PopPc}
    (hrange : InRange s q.buffer) (hthread : q.threads i = .popping pc)
    (hover : ∀ msgSize, pc = .compareExchange q.buffer.readIdx msgSize →
      sizeofSize + msgSize ≤ used s q.buffer) :
    InRange s (resumePop s q i pc).buffer ∧
    used s (resumePop s q i pc).buffer ≤ used s q.buffer ∧
    used s (resumePop s q i pc).buffer + owed (.tryPop, (resumePop s q i pc).threads i) =
      used s q.buffer + owed (.tryPop, q.threads i) := by
  rw [hthread]
  match pc with
  | .loadReadIdx =>
      simp only [resumePop, System.move, update_self]
      exact ⟨hrange, le_rfl, rfl⟩
  | .loadWriteIdx readIdx =>
      simp only [resumePop]
      split <;> simp only [System.move, update_self] <;> exact ⟨hrange, le_rfl, rfl⟩
  | .readHeader readIdx (run :: runs) got =>
      simp only [resumePop, System.move, update_self]
      exact ⟨hrange, le_rfl, rfl⟩
  | .readHeader readIdx [] got =>
      simp only [resumePop]
      split <;> simp only [System.move, update_self] <;> exact ⟨hrange, le_rfl, rfl⟩
  | .compareExchange readIdx msgSize =>
      by_cases hwin : q.buffer.readIdx = readIdx
      · subst hwin
        have hless := distance_add_left hrange.readIdx_lt hrange.writeIdx_lt (hover _ rfl)
        simp only [resumePop, if_true, System.take, update_self]
        refine ⟨⟨Nat.mod_lt _ s.capacity_pos, hrange.writeIdx_lt⟩, Nat.le.intro hless, ?_⟩
        simp only [owed, payloadRuns, copyData_size, List.length_nil, Nat.add_zero]
        exact hless
      · simp only [resumePop, if_neg hwin, System.move, update_self]
        exact ⟨hrange, le_rfl, rfl⟩
  | .readPayload claim (run :: runs) got =>
      simp only [resumePop, System.move, update_self]
      refine ⟨hrange, le_rfl, ?_⟩
      simp only [owed, loadRun, List.length_append, load_length, List.map_cons, List.sum_cons]
      omega
  | .readPayload claim [] got =>
      simp only [resumePop, System.deliver, update_self]
      refine ⟨hrange, le_rfl, ?_⟩
      simp only [owed, storage, List.map_nil, List.sum_nil]
      omega

theorem WriterMoves.owed {σ σ' : Logger c n} {w : Fin n} (hrange : InRange c.ring σ.queue.buffer)
    (hover : NoOvertake σ (.writer w)) (h : WriterMoves σ w σ') :
    InRange c.ring σ'.queue.buffer ∧
    used c.ring σ'.queue.buffer ≤ used c.ring σ.queue.buffer ∧
    σ'.readMessageBytes + used c.ring σ'.queue.buffer + owed (σ'.view w) =
      σ.readMessageBytes + used c.ring σ.queue.buffer + owed (σ.view w) := by
  unfold Logger.view
  cases h with
  | @pop pc hpc hthread =>
      have hover' : ∀ msgSize, pc = .compareExchange σ.queue.buffer.readIdx msgSize →
          sizeofSize + msgSize ≤ used c.ring σ.queue.buffer := by
        rintro msgSize rfl
        simp only [NoOvertake, hthread] at hover
        exact hover trivial
      obtain ⟨hrange', hused, hsum⟩ := owed_pop hrange hthread hover'
      refine ⟨hrange', hused, ?_⟩
      rw [hpc, Nat.add_assoc, Nat.add_assoc]
      exact congrArg (σ.readMessageBytes + ·) hsum
  | notify hpc =>
      refine ⟨hrange, le_rfl, ?_⟩
      simp only [Logger.moveWriter, update_self, hpc, Async.owed]
      omega
  | popped hpc hthread | popAgain hpc hthread | popFailed hpc hthread =>
      refine ⟨hrange, le_rfl, ?_⟩
      simp [Logger.moveWriter, Logger.callTryPop, System.move, hpc, hthread, Async.owed]
  | waitForOne hpc | seeStop hpc | callTryPop hpc | format hpc =>
      refine ⟨hrange, le_rfl, ?_⟩
      simp [Logger.moveWriter, Logger.callTryPop, System.move, hpc, Async.owed]

/-! ## The budget -/

/-- `try_push` knows what it has found, and has not failed otherwise. -/
def Offering (σ : Logger c n) : Prop :=
  match σ.log with
  | .tryPush m => Offers c.ring σ.queue m.toMessage (σ.queue.threads none)
  | _ => NeverFull σ

/-- The byte tokens are in the semaphore, taken for the message that is being
pushed, taken for the elements in use, or owed by a writer. -/
structure Budget (σ : Logger c n) : Prop where
  inRange : InRange c.ring σ.queue.buffer
  offering : Offering σ
  tokens : σ.readMessageBytes + reserved σ + used c.ring σ.queue.buffer + total owed σ.view =
    c.ring.capacity

theorem Budget.neverFull {σ : Logger c n} (h : Budget σ) : NeverFull σ := by
  have hoffering := h.offering
  unfold Offering at hoffering
  split at hoffering
  · exact hoffering.not_full
  · exact hoffering

theorem budget_init (c : QueueConfig) (n : ℕ) : Budget (Logger.init c n) := by
  have howed : total owed (Logger.init c n).view = 0 := total_eq_zero fun _ => rfl
  refine ⟨⟨c.ring.capacity_pos, c.ring.capacity_pos⟩, ⟨nofun, nofun⟩, ?_⟩
  rw [howed]
  rfl

section Step

variable {σ σ' : Logger c n}

theorem Budget.writer {w : Fin n} (h : Budget σ) (hover : NoOvertake σ (.writer w))
    (hmove : WriterMoves σ w σ') : Budget σ' := by
  obtain ⟨hrange, hused, hsum⟩ := hmove.owed h.inRange hover
  have htokens := h.tokens
  have htotal := total_update owed σ.view w (σ'.view w)
  rw [← hmove.view_eq] at htotal
  refine ⟨hrange, ?_, ?_⟩
  · have hoffering := h.offering
    unfold Offering NeverFull at hoffering ⊢
    rw [hmove.log_eq, hmove.thread_none]
    split at hoffering
    · exact hoffering.mono hmove.writeIdx_eq hused
    · exact hoffering
  · have hreserved := hmove.reserved_eq
    omega

theorem offers_callTryPush (σ : Logger c n) (m : LogMessage c) :
    Offers c.ring (σ.callTryPush m).queue m.toMessage ((σ.callTryPush m).queue.threads none) := by
  simp only [Logger.callTryPush, System.move, update_self]
  rfl

theorem offering_callTryPush (σ : Logger c n) (m : LogMessage c) : Offering (σ.callTryPush m) :=
  offers_callTryPush σ m

/-- `try_push` that has come back with `again` is called again. -/
theorem pushAgain_of_again {m : LogMessage c} (hlog : σ.log = .tryPush m)
    (hthread : σ.queue.threads none = .pushed (.error .again))
    (hstep : stepMain σ = some σ') : σ' = σ.callTryPush m := by
  simpa [stepMain, hlog, hthread] using hstep.symm

theorem Budget.main {l : Label c n} (h : Budget σ) (hok : TokenLeft σ l)
    (hstep : step σ l = some σ') (hl : ∀ w, l ≠ .writer w) : Budget σ' := by
  have hmove := step_moves hstep
  have hrange := h.inRange
  have hoffering := h.offering
  have htokens := h.tokens
  rw [← hmove.view_eq hl] at htokens
  cases hmove with
  | writer => exact absurd rfl (hl _)
  | @waitForBytes m hlog hle =>
      simp only [reserved, hlog] at htokens
      refine ⟨hrange, offering_callTryPush _ m, ?_⟩
      rw [reserved_callTryPush]
      simp only [Logger.callTryPush, System.move] at htokens ⊢
      omega
  | @push m pc hlog hthread =>
      simp only [Offering, hlog, hthread] at hoffering
      simp only [reserved, hlog, hthread] at htokens
      -- a token left over is an element left free
      have hroom : ∀ m' writeIdx, pc = .loadReadIdx m' writeIdx →
          used c.ring σ.queue.buffer + storage m.toMessage.bytes < c.ring.capacity := by
        rintro m' writeIdx rfl
        have hall := h.tokens
        simp only [TokenLeft, hlog, hthread] at hok
        simp only [reserved, hlog, hthread, Thread.isOffering, if_true] at hall
        rw [LogMessage.toMessage_bytes]
        omega
      obtain ⟨hrange', hoffers, hsum⟩ := hoffering.resume hrange hroom
      rw [LogMessage.toMessage_bytes] at hsum
      refine ⟨hrange', ?_, ?_⟩
      · simp only [Offering, hlog]
        exact hoffers
      · simp only [reserved, hlog]
        omega
  | pushed hlog hthread =>
      simp only [reserved, hlog, hthread, Thread.isOffering] at htokens
      refine ⟨hrange, ?_, ?_⟩
      · simp [Offering, NeverFull, hthread]
      · simpa [reserved] using htokens
  | @pushAgain m hlog hthread =>
      rw [reserved_offering hlog (by rw [hthread]; rfl)] at htokens
      refine ⟨hrange, offering_callTryPush _ m, ?_⟩
      rw [reserved_callTryPush]
      exact htokens
  | pushFailed hlog hthread =>
      simp only [Offering, hlog, hthread] at hoffering
      obtain rfl := hoffering
      have hlog' := congrArg Logger.log (pushAgain_of_again hlog hthread hstep)
      simp [Logger.callTryPush] at hlog'
  | log hlog | destroy hlog | notifyOne hlog | stop hlog | notifyAll hlog | join hlog =>
      simp only [Offering, hlog] at hoffering
      simp only [reserved, hlog] at htokens
      exact ⟨hrange, hoffering, htokens⟩

/-- The budget is kept by every step that overtakes nobody and leaves a token. -/
theorem budget_step (σ : Logger c n) (l : Label c n) (σ' : Logger c n) (h : Budget σ)
    (hover : NoOvertake σ l) (hok : TokenLeft σ l) (hstep : step σ l = some σ') : Budget σ' := by
  by_cases hl : ∃ w, l = .writer w
  · obtain ⟨w, rfl⟩ := hl
    exact h.writer hover (stepWriter_moves hstep)
  · exact h.main hok hstep fun w hw => hl ⟨w, hw⟩

/-- With no token left the message takes the one element that stays free, and
`try_push` fails. -/
theorem not_neverFull (σ : Logger c n) (l : Label c n) (σ' : Logger c n) (h : Budget σ)
    (hok : ¬ TokenLeft σ l) (hstep : step σ l = some σ') : ¬ NeverFull σ' := by
  have hoffering := h.offering
  have htokens := h.tokens
  cases l with
  | main =>
      simp only [TokenLeft] at hok
      split at hok
      · next m m' writeIdx hlog hthread =>
          simp only [Offering, hlog, hthread] at hoffering
          simp only [reserved, hlog, hthread, Thread.isOffering, if_true] at htokens
          obtain ⟨rfl, rfl⟩ := hoffering
          rcases reserve_used h.inRange m.toMessage with ⟨hlt, -⟩ | ⟨-, error, herror⟩
          · rw [LogMessage.toMessage_bytes] at hlt
            omega
          · have hthread' : σ'.queue.threads none = .pushed (.error error) := by
              simp only [step, stepMain, hlog, hthread, resumePush, herror,
                Option.some.injEq] at hstep
              subst hstep
              simp [System.move]
            rcases reserve_error herror with rfl | rfl
            · exact fun hnever => hnever.1 hthread'
            · exact fun hnever => hnever.2 hthread'
      · exact absurd trivial hok
  | log m => exact absurd trivial hok
  | destroy => exact absurd trivial hok
  | writer w => exact absurd trivial hok

end Step

/-- After a successful `wait_for` the `try_push` of a run never fails with
`full` or `not_enough_space` iff it always finds a token left over, when no
writer overtakes the write index. -/
theorem never_full (c : QueueConfig) (n : ℕ) (ls : List (Label c n))
    (hover : StepsMeet step NoOvertake (Logger.init c n) ls) :
    Along step NeverFull (Logger.init c n) ls ↔ StepsMeet step TokenLeft (Logger.init c n) ls := by
  constructor
  · intro hnever
    exact StepsMeet.of_along budget_step (fun σ l σ' h _ => not_neverFull σ l σ' h)
      (budget_init c n) hover hnever
  · intro htoken
    exact (along_of_stepsMeet (fun σ l σ' h hok => budget_step σ l σ' h hok.1 hok.2)
      (budget_init c n) (hover.and htoken)).mono fun σ h => h.neverFull

/-- A careful writer moves the read index over the oldest message, which is in use. -/
theorem LoggerInv.noOvertake {σ : Logger c n} {l : Label c n} (h : LoggerInv σ)
    (hcareful : Careful σ l) : NoOvertake σ l := by
  cases l with
  | writer w =>
      simp only [NoOvertake]
      split
      · next readIdx msgSize hthread =>
          rintro rfl
          simp only [Careful, hthread] at hcareful
          obtain ⟨m, hm, rfl⟩ := hcareful trivial
          obtain ⟨hlt, rfl⟩ := List.getElem?_eq_some_iff.mp hm
          have hr : σ.queue.buffer.readIdx < c.ring.capacity :=
            h.queue.readIdx_eq ▸ σ.queue.start_lt c.ring σ.queue.popCount
          rw [used, h.queue.writeIdx_from_readIdx, distance_of_add hr h.queue.room,
            List.drop_eq_getElem_cons hlt, storageSum_cons]
          exact Nat.le_add_right _ _
      · trivial
  | _ => trivial

/-- A single writer never overtakes. -/
theorem stepsMeet_noOvertake (c : QueueConfig) (ls : List (Label c 1)) :
    StepsMeet step NoOvertake (Logger.init c 1) ls :=
  stepsMeet_of_invariant (fun _ l h => h.toLoggerInv.noOvertake (h.careful l)) singleInv_step
    (singleInv_init c)

/-- The second message is logged while a writer holds 18 tokens, and takes all but one of the
others. -/
theorem never_full_logThrice : Along step NeverFull (Logger.init queue36 2) logThrice :=
  (never_full queue36 2 logThrice (by decide +kernel)).mpr (by decide +kernel)

/-- A message of 36 elements, all there are, is logged into the empty ring. -/
def logLargest : List (Label queue36 1) := .log (text 1 (Fin.last 28)) :: List.replicate 3 .main

/-- Not in every run: `wait_for` succeeds with the 36 tokens, `try_push` has
35 elements to offer. -/
theorem not_never_full :
    ¬ ∀ (c : QueueConfig) (n : ℕ) (ls : List (Label c n)),
      Along step NeverFull (Logger.init c n) ls := by
  intro hall
  exact not_along_of_run (fun σ => σ.queue.threads none) (.pushed (.error .notEnoughSpace)) rfl
    (fun _ hobs hnever => hnever.2 hobs) (hall queue36 1 logLargest)

end InterProcess.Async
