import InterProcess.Async.Tokens

/-!
# What the writers format

With several writers two things can go wrong. Byte tokens come back in the
order the writers finish, while ring space is freed in queue order: a writer
that is still copying its message out can have its elements claimed by the next
`log` on the tokens of a faster writer. And a writer can win its
compare-exchange with a length header it read before others moved the read
index round to the same place.

`Careful` is the condition on a step that neither happens; with it, what the
writers format is what has been pushed (`formatted_of_careful`), for any number
of writers. `not_formatted` is a run of two writers in which the first happens.
-/

namespace InterProcess.Async

open Circular Function Lts LockFree LockFree.MessageRingBuffer Threads

variable {c : QueueConfig} {n : ℕ}

/-- The compare-exchange about to be won does not go wrong: `log` claims no
element a writer still has to read, a writer has read the length of the message
that is oldest now. -/
def Careful (σ : Logger c n) : Label c n → Prop
  | .main =>
      match σ.queue.threads none with
      | .pushing (.compareExchange m writeIdx _) =>
          ∀ w, ∀ r ∈ (σ.queue.threads (some w)).unread,
            Disjoint r.cells (Segment c.ring.capacity writeIdx (storage m.bytes))
      | _ => True
  | .writer w =>
      match σ.queue.threads (some w) with
      | .popping (.compareExchange readIdx msgSize) =>
          σ.queue.buffer.readIdx = readIdx →
            ∃ m, σ.queue.claimed[σ.queue.popCount]? = some m ∧ m.length = msgSize
      | _ => True
  | _ => True

instance decidableLengthAt (q : List (List UInt8)) (k msgSize : ℕ) :
    Decidable (∃ m, q[k]? = some m ∧ m.length = msgSize) :=
  decidable_of_iff (q[k]?.map List.length = some msgSize) Option.map_eq_some_iff

instance decidableCareful (σ : Logger c n) : (l : Label c n) → Decidable (Careful σ l)
  | .main =>
      match h : σ.queue.threads none with
      | .pushing (.compareExchange m writeIdx _) =>
          decidable_of_iff (∀ w, ∀ r ∈ (σ.queue.threads (some w)).unread,
            Disjoint r.cells (Segment c.ring.capacity writeIdx (storage m.bytes)))
            (by simp only [Careful, h])
      | .pushing (.loadWriteIdx _) | .pushing (.loadReadIdx _ _) | .pushing (.copy _ _)
      | .idle | .pushed _ | .popping _ | .popped _ => .isTrue (by simp only [Careful, h])
  | .writer w =>
      match h : σ.queue.threads (some w) with
      | .popping (.compareExchange readIdx msgSize) =>
          decidable_of_iff (σ.queue.buffer.readIdx = readIdx →
            ∃ m, σ.queue.claimed[σ.queue.popCount]? = some m ∧ m.length = msgSize)
            (by simp only [Careful, h])
      | .popping .loadReadIdx | .popping (.loadWriteIdx _) | .popping (.readHeader _ _ _)
      | .popping (.readPayload _ _ _) | .idle | .pushing _ | .pushed _ | .popped _ =>
          .isTrue (by simp only [Careful, h])
  | .log _ | .destroy => .isTrue trivial

/-! ## The ring -/

/-- The ring is used safely: its free space, and that a message popped has been
written, are the logger's own doing. -/
theorem queue_step {σ σ' : Logger c n} {l : Label c n} (hq : Inv c.ring σ.queue)
    (hroles : Roles σ) (hcounts : Counts σ) (hcareful : Careful σ l) (hmove : Moves σ l σ') :
    Inv c.ring σ'.queue := by
  have hmain := hroles.main
  cases hmove with
  | waitForBytes hlog hle =>
      simp only [MainOk, hlog] at hmain
      exact hq.move (isQuiet_of_isFree hmain.1) rfl trivial
  | pushAgain hlog hthread => exact hq.move (by rw [hthread]; rfl) rfl trivial
  | @push m pc hlog hthread =>
      refine resumePush_inv hq hthread ?_
      simp only [MainOk, hlog, hthread] at hmain
      simp only [Careful, hthread] at hcareful
      simp only [Safe, hthread]
      cases pc with
      | compareExchange m' writeIdx next =>
          obtain ⟨rfl, -, rfl, hroom⟩ := hmain
          -- nobody else pushes, so the room found is still there
          refine fun _ => ⟨hroom, fun j r hr => ?_⟩
          cases j with
          | none =>
              rw [hthread] at hr
              cases hr
          | some w => exact hcareful w r hr
      | loadWriteIdx | loadReadIdx | copy => trivial
  | @writer w _ hmove =>
      cases hmove with
      | callTryPop hpc hstop =>
          have hw := hroles.writers w
          simp only [WriterOk, Logger.view, hpc] at hw
          exact hq.move (isQuiet_of_isFree hw) rfl trivial
      | popAgain hpc hthread => exact hq.move (by rw [hthread]; rfl) rfl trivial
      | @pop pc hpc hthread =>
          refine resumePop_inv hq hthread ?_
          simp only [Careful, hthread] at hcareful
          simp only [Safe, hthread]
          cases pc with
          | compareExchange readIdx msgSize =>
              -- the writer is notified of a message only when it is pushed
              exact fun hwin => ⟨hcareful hwin,
                hroles.settled (hcounts.popCount_lt hpc (by rw [hthread]; rfl))⟩
          | loadReadIdx | loadWriteIdx | readHeader | readPayload => trivial
      | _ => exact hq
  | _ => exact hq

/-! ## The messages and byte tokens in the writers' hands -/

/-- A message popped whose byte tokens are not given back yet. -/
def owing : WriterPc × Thread → List (List UInt8)
  | (.tryPop, .popping (.readPayload claim _ _)) => [claim]
  | (.tryPop, .popped (.ok m)) => [m]
  | (.notify m, _) => [m]
  | _ => []

/-- A message popped and not formatted yet. -/
def holding : WriterPc × Thread → List (List UInt8)
  | (.format m, _) => [m]
  | v => owing v

/-- The byte tokens `log` has taken for a message it has not claimed room for. -/
def reserved (σ : Logger c n) : ℕ :=
  match σ.log with
  | .tryPush m => if (σ.queue.threads none).isOffering then storage m.bytes else 0
  | _ => 0

section Reserved

variable {σ σ' : Logger c n} {m : LogMessage c}

theorem reserved_eq_zero (h : ∀ m, σ.log ≠ .tryPush m) : reserved σ = 0 := by
  unfold reserved
  split
  · next m hm => exact absurd hm (h m)
  · rfl

theorem reserved_offering (hlog : σ.log = .tryPush m) (h : (σ.queue.threads none).isOffering) :
    reserved σ = storage m.bytes := by
  simp [reserved, hlog, h]

theorem reserved_pushed (hlog : σ.log = .tryPush m)
    (h : (σ.queue.threads none).isOffering = false) : reserved σ = 0 := by
  simp [reserved, hlog, h]

/-- A call of `try_push` claims no room before its compare-exchange. -/
theorem reserved_callTryPush (σ : Logger c n) (m : LogMessage c) :
    reserved (σ.callTryPush m) = storage m.bytes :=
  reserved_offering rfl (by simp [Logger.callTryPush, System.move, Thread.isOffering])

theorem WriterMoves.reserved_eq {w : Fin n} (h : WriterMoves σ w σ') :
    reserved σ' = reserved σ := by
  unfold reserved
  rw [h.log_eq, h.thread_none]

end Reserved

structure Accounts (σ : Logger c n) : Prop where
  bytes_le : σ.readMessageBytes + reserved σ +
    storageSum (σ.queue.claimed.drop σ.queue.popCount) +
    total (fun v => storageSum (owing v)) σ.view ≤ c.ring.capacity
  formatted_eq : (σ.formatted : Multiset (List UInt8)) +
    total (fun v => (holding v : Multiset (List UInt8))) σ.view =
      (σ.queue.claimed.take σ.queue.popCount : List (List UInt8))

theorem accounts_init (c : QueueConfig) (n : ℕ) : Accounts (Logger.init c n) := by
  have howing : total (fun v => storageSum (owing v)) (Logger.init c n).view = 0 :=
    total_eq_zero fun _ => rfl
  have hholding : total (fun v => (holding v : Multiset (List UInt8))) (Logger.init c n).view =
      0 := total_eq_zero fun _ => rfl
  refine ⟨?_, ?_⟩
  · rw [howing]
    exact le_rfl
  · rw [hholding]
    rfl

theorem PushOk.message {ι : Type} {s : RingShape} {q : System ι} {pushed : List (List UInt8)}
    {m m' : Message} {t : Thread} {writeIdx next : ℕ} (h : PushOk s q pushed m t)
    (ht : t = .pushing (.compareExchange m' writeIdx next)) : m' = m := by
  subst ht
  exact h.1

/-- The storage of a message is reserved first and queued then. -/
theorem reserved_push {ι : Type} [DecidableEq ι] {s : RingShape} {q q' : System ι} {i : ι}
    {m : Message} (hle : q.popCount ≤ q.claimed.length)
    (hmessage : ∀ m' writeIdx next,
      q.threads i = .pushing (.compareExchange m' writeIdx next) → m' = m)
    (h : PushMoves s q i q') :
    (if (q'.threads i).isOffering then storage m.bytes else 0) +
        storageSum (q'.claimed.drop q'.popCount) =
      (if (q.threads i).isOffering then storage m.bytes else 0) +
        storageSum (q.claimed.drop q.popCount) := by
  cases h with
  | offer hold hnew => simp [System.move, hold, hnew]
  | claim hpc =>
      obtain rfl := hmessage _ _ _ hpc
      simp only [System.claim, update_self, hpc, Thread.isOffering,
        List.drop_append_of_le_length hle, storageSum_append, storageSum_cons,
        storageSum_nil, if_true, Bool.false_eq_true, if_false]
      omega
  | write hpc => simp [System.write, hpc, Thread.isOffering]
  | written hpc => simp [System.move, hpc, Thread.isOffering]

theorem Accounts.main {σ σ' : Logger c n} {l : Label c n} (hq : Inv c.ring σ.queue)
    (hroles : Roles σ) (h : Accounts σ) (hmove : Moves σ l σ') (hl : ∀ w, l ≠ .writer w) :
    Accounts σ' := by
  have hbytes := h.bytes_le
  have hmain := hroles.main
  rw [← hmove.view_eq hl] at hbytes
  refine ⟨?_, ?_⟩
  · cases hmove with
    | writer => exact absurd rfl (hl _)
    | push hlog hthread =>
        simp only [MainOk, hlog] at hmain
        have hsum := reserved_push hq.popCount_le (fun _ _ _ => hmain.message)
          (resumePush_moves (s := c.ring) hthread)
        rw [LogMessage.toMessage_bytes] at hsum
        simp only [reserved, hlog] at hbytes ⊢
        omega
    | waitForBytes hlog hle =>
        simp only [reserved, hlog] at hbytes
        rw [reserved_callTryPush]
        simp only [Logger.callTryPush, System.move] at hbytes ⊢
        omega
    | pushed hlog hthread =>
        simp only [reserved, hlog, hthread, Thread.isOffering] at hbytes ⊢
        exact hbytes
    | pushAgain hlog hthread =>
        rw [reserved_offering hlog (by rw [hthread]; rfl)] at hbytes
        rw [reserved_callTryPush]
        exact hbytes
    | pushFailed hlog hthread =>
        simp only [reserved, hlog] at hbytes ⊢
        omega
    | log hlog | destroy hlog | notifyOne hlog | stop hlog | notifyAll hlog | join hlog =>
        simp only [reserved, hlog] at hbytes ⊢
        exact hbytes
  · rw [hmove.formatted_eq hl, hmove.view_eq hl, hmove.take_eq hl hq.popCount_le]
    exact h.formatted_eq

theorem owing_of_isSearching {t : Thread} (h : t.isSearching) : owing (.tryPop, t) = [] := by
  unfold owing
  split
  · next heq => cases heq; cases h
  · next heq => cases heq; cases h
  · next heq => cases heq
  · rfl

/-- A step of `try_pop` takes the oldest message or leaves what the writer owes. -/
theorem owing_pop {s : RingShape} {q q' : System (Option (Fin n))} {i : Option (Fin n)}
    (hq : Inv s q)
    (hoffered : ∀ msgSize, q.threads i = .popping (.compareExchange q.buffer.readIdx msgSize) →
      ∃ m, q.claimed[q.popCount]? = some m)
    (h : PopMoves s q i q') :
    (owing (.tryPop, q'.threads i) = owing (.tryPop, q.threads i) ∧ q'.popCount = q.popCount) ∨
    (∃ m, q.claimed[q.popCount]? = some m ∧ owing (.tryPop, q.threads i) = [] ∧
      owing (.tryPop, q'.threads i) = [m] ∧ q'.popCount = q.popCount + 1) := by
  cases h with
  | search hold hnew =>
      refine .inl ⟨?_, rfl⟩
      rw [owing_of_isSearching hold]
      simpa [System.move] using owing_of_isSearching hnew
  | take hpc =>
      obtain ⟨m, hm⟩ := hoffered _ hpc
      refine .inr ⟨m, hm, by rw [hpc]; rfl, ?_, rfl⟩
      simp [System.take, owing, hm]
  | copy hpc =>
      refine .inl ⟨?_, rfl⟩
      rw [hpc]
      simp [System.move, owing]
  | deliver hpc =>
      have hok := hq.threads_ok i
      rw [hpc] at hok
      refine .inl ⟨?_, rfl⟩
      rw [hpc]
      simpa [System.deliver, owing, ThreadOk] using hok

/-- A careful writer that wins its compare-exchange finds a message. -/
theorem Careful.offered {σ : Logger c n} {w : Fin n} (h : Careful σ (.writer w)) (msgSize : ℕ)
    (hpc : σ.queue.threads (some w) =
      .popping (.compareExchange σ.queue.buffer.readIdx msgSize)) :
    ∃ m, σ.queue.claimed[σ.queue.popCount]? = some m := by
  simp only [Careful, hpc] at h
  obtain ⟨m, hm, -⟩ := h trivial
  exact ⟨m, hm⟩

/-- What the move of a writer does to the messages it has popped. -/
theorem WriterMoves.accounts {σ σ' : Logger c n} {w : Fin n} (hq : Inv c.ring σ.queue)
    (hcareful : Careful σ (.writer w)) (h : WriterMoves σ w σ') :
    σ'.readMessageBytes + storageSum (σ'.queue.claimed.drop σ'.queue.popCount) +
        storageSum (owing (σ'.view w)) =
      σ.readMessageBytes + storageSum (σ.queue.claimed.drop σ.queue.popCount) +
        storageSum (owing (σ.view w)) ∧
    (σ'.formatted : Multiset (List UInt8)) + (holding (σ'.view w) : Multiset (List UInt8)) +
        (σ.queue.claimed.take σ.queue.popCount : List (List UInt8)) =
      (σ.formatted : Multiset (List UInt8)) + (holding (σ.view w) : Multiset (List UInt8)) +
        (σ'.queue.claimed.take σ'.queue.popCount : List (List UInt8)) := by
  unfold Logger.view
  cases h with
  | @pop pc hpc hthread =>
      have hmoves := resumePop_moves (s := c.ring) hthread
      simp only [hpc, holding, hmoves.claimed_eq]
      rcases owing_pop hq hcareful.offered hmoves with ⟨howing, hpop⟩ | ⟨m, hm, hold, hnew, hpop⟩
      · rw [howing, hpop]
        exact ⟨rfl, rfl⟩
      · obtain ⟨hlt, rfl⟩ := List.getElem?_eq_some_iff.mp hm
        -- the oldest message goes from the queue into the writer's hands
        rw [hold, hnew, hpop]
        refine ⟨?_, ?_⟩
        · rw [List.drop_eq_getElem_cons hlt]
          simp only [storageSum_cons, storageSum_nil]
          omega
        · rw [List.take_succ_eq_append_getElem hlt, ← Multiset.coe_add, Multiset.coe_nil, add_zero,
            add_right_comm, add_assoc]
  | popped hpc hthread => simp [Logger.moveWriter, hpc, hthread, owing, holding]
  | popAgain hpc hthread =>
      simp [Logger.callTryPop, System.move, hpc, hthread, owing, holding]
  | popFailed hpc hthread =>
      simp [Logger.moveWriter, hpc, hthread, owing, holding]
  | callTryPop hpc hstop => simp [Logger.callTryPop, System.move, hpc, owing, holding]
  | waitForOne hpc | seeStop hpc => simp [Logger.moveWriter, hpc, owing, holding]
  | notify hpc =>
      simp [Logger.moveWriter, hpc, owing, holding]
      omega
  | @format m hpc =>
      simp only [Logger.moveWriter, update_self, hpc, owing, holding, ← Multiset.coe_add,
        Multiset.coe_nil, add_zero, and_self]

/-- The accounts of the logger, from those of the writer that moves. -/
theorem Accounts.writer {σ σ' : Logger c n} {w : Fin n} (hq : Inv c.ring σ.queue)
    (h : Accounts σ) (hcareful : Careful σ (.writer w)) (hmove : WriterMoves σ w σ') :
    Accounts σ' := by
  have hbytes := h.bytes_le
  have hformatted := h.formatted_eq
  obtain ⟨hsame, hsame'⟩ := hmove.accounts hq hcareful
  have htotal := total_update (fun v => storageSum (owing v)) σ.view w (σ'.view w)
  rw [← hmove.view_eq] at htotal
  refine ⟨?_, ?_⟩
  · rw [hmove.reserved_eq]
    omega
  · rw [hmove.view_eq]
    exact add_total_update (fun v => (holding v : Multiset (List UInt8))) hformatted hsame'

/-! ## Main result -/

/-- The invariant of the logger. -/
structure LoggerInv (σ : Logger c n) : Prop where
  queue : Inv c.ring σ.queue
  roles : Roles σ
  counts : Counts σ
  accounts : Accounts σ

theorem loggerInv_init (c : QueueConfig) (n : ℕ) : LoggerInv (Logger.init c n) where
  queue := inv_init c.ring
  roles := roles_init c n
  counts := counts_init c n
  accounts := accounts_init c n

theorem loggerInv_step (σ : Logger c n) (l : Label c n) (σ' : Logger c n) (h : LoggerInv σ)
    (hcareful : Careful σ l) (hstep : step σ l = some σ') : LoggerInv σ' := by
  have hmove := step_moves hstep
  refine ⟨queue_step h.queue h.roles h.counts hcareful hmove, h.roles.step h.queue hmove,
    h.counts.step hmove, ?_⟩
  cases l with
  | writer w =>
      cases hmove with
      | writer hmove => exact h.accounts.writer h.queue hcareful hmove
  | _ => exact h.accounts.main h.queue h.roles hmove (by simp)

/-- What the writers have formatted was pushed, unaltered and no message twice. -/
def FormatsPushed (σ : Logger c n) : Prop :=
  (σ.formatted : Multiset (List UInt8)) ≤ (σ.pushed : Multiset (List UInt8))

/-- A writer never claims a message that is not pushed. -/
theorem LoggerInv.popCount_le {σ : Logger c n} (h : LoggerInv σ) :
    σ.queue.popCount ≤ σ.pushed.length := by
  have hsearch := h.counts.searching_le
  omega

/-- What has been popped is what was pushed first. -/
theorem LoggerInv.take_eq {σ : Logger c n} (h : LoggerInv σ) :
    σ.queue.claimed.take σ.queue.popCount = σ.pushed.take σ.queue.popCount := by
  obtain ⟨rest, hrest⟩ := h.roles.pushed_prefix
  rw [← hrest, List.take_append_of_le_length h.popCount_le]

/-- In every run whose steps are careful, the writers format what was pushed. -/
theorem formatted_of_careful (c : QueueConfig) (n : ℕ) (ls : List (Label c n))
    (hcareful : StepsMeet step Careful (Logger.init c n) ls) :
    Along step FormatsPushed (Logger.init c n) ls := by
  refine (along_of_stepsMeet loggerInv_step (loggerInv_init c n) hcareful).mono fun σ h => ?_
  calc (σ.formatted : Multiset (List UInt8))
      ≤ (σ.queue.claimed.take σ.queue.popCount : List (List UInt8)) := by
        rw [← h.accounts.formatted_eq]
        exact Multiset.le_add_right _ _
    _ = (σ.pushed.take σ.queue.popCount : List (List UInt8)) := by rw [h.take_eq]
    _ ≤ (σ.pushed : Multiset (List UInt8)) :=
        Multiset.coe_le.mpr (List.take_sublist _ _).subperm

/-- A logger for 36 elements of 16 bytes. -/
def queue36 : QueueConfig := ⟨⟨36, 16, by decide, ring32.stride_pos, by decide⟩, by decide⟩

theorem text_fits (b : UInt8) (size : Fin 29) :
    storage (List.replicate size b) ≤ queue36.ring.capacity := by
  have hsize := size.isLt
  rw [storage, List.length_replicate]
  show 8 + size.val ≤ 36
  omega

/-- A message of `size` bytes `b`. -/
def text (b : UInt8) (size : Fin 29) : LogMessage queue36 :=
  ⟨List.replicate size b, text_fits b size⟩

/-- Each of two writers takes turns with a thread: the first one pops while the second message is
logged, the second one while the first one formats. The third message wraps. -/
def logThrice : List (Label queue36 2) :=
  .log (text 1 10) :: List.replicate 9 .main ++ .log (text 2 9) ::
    (List.replicate 9 [.writer ⟨0, Nat.two_pos⟩, .main]).flatten ++
    (List.replicate 3 [.writer ⟨1, Nat.one_lt_two⟩, .writer ⟨0, Nat.two_pos⟩]).flatten ++
    List.replicate 9 (.writer ⟨1, Nat.one_lt_two⟩) ++ .log (text 3 10) ::
    List.replicate 10 .main ++ List.replicate 13 (.writer ⟨0, Nat.two_pos⟩)

theorem formatted_logThrice :
    Along step FormatsPushed (Logger.init queue36 2) logThrice :=
  formatted_of_careful queue36 2 logThrice (by decide +kernel)

/-- Writer 0 claims the first message and copies nothing yet. Writer 1 pops the
second one and returns its tokens, on which the third is logged: it starts at
index 0 again, where writer 0 still has to read. -/
def outOfOrder : List (Label queue36 2) :=
  .log (text 1 10) :: List.replicate 9 .main ++ List.replicate 7 (.writer ⟨0, Nat.two_pos⟩) ++
    .log (text 2 10) :: List.replicate 9 .main ++ List.replicate 11 (.writer ⟨1, Nat.one_lt_two⟩) ++
    .log (text 3 9) :: List.replicate 9 .main ++ List.replicate 5 (.writer ⟨0, Nat.two_pos⟩)

/-- Not every run formats what was pushed: after `outOfOrder`, writer 0 has
formatted the third message with the last byte of the first. -/
theorem not_formatted :
    ¬ ∀ (c : QueueConfig) (n : ℕ) (ls : List (Label c n)), 0 < n →
      Along step FormatsPushed (Logger.init c n) ls := by
  intro hall
  refine not_along_of_run (fun σ => (σ.formatted, σ.pushed))
    ([List.replicate 9 3 ++ [1]],
      [List.replicate 10 1, List.replicate 10 2, List.replicate 9 3]) ?_ ?_
    (hall queue36 2 outOfOrder (by decide))
  · decide +kernel
  · intro σ' hobs hformats
    have hformatted : σ'.formatted = [List.replicate 9 3 ++ [1]] := congrArg Prod.fst hobs
    have hpushed : σ'.pushed =
        [List.replicate 10 1, List.replicate 10 2, List.replicate 9 3] := congrArg Prod.snd hobs
    rw [FormatsPushed, hformatted, hpushed] at hformats
    exact absurd hformats (by decide)

end InterProcess.Async
