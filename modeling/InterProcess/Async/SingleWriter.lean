import InterProcess.Async.Delivery

/-!
# The logger with one writer

A single writer reads the ring in order, and its loads cannot go stale either
(`PopOk`): nobody else moves `read_idx_`, and the message it was notified of
has been written completely. The byte tokens keep the next message out of the
elements it is still copying from. So every step of every run is careful, and
the writer formats the messages in the order they were pushed
(`formatted_in_order`).
-/

namespace InterProcess.Async

open Bytes Circular Function Lts LockFree LockFree.MessageRingBuffer Threads

variable {c : QueueConfig}

/-! ## A single reader of the ring -/

section Ring

variable {ι : Type} {s : RingShape} {q q' : System ι} {i : ι}

/-- What the only reader knows inside `try_pop`. -/
def PopOk (s : RingShape) (q : System ι) : Thread → Prop
  | .popping (.loadWriteIdx readIdx) => readIdx = q.buffer.readIdx
  | .popping (.readHeader readIdx runs got) =>
      readIdx = q.buffer.readIdx ∧ ∃ m, q.claimed[q.popCount]? = some m ∧
        got ++ loadRuns s.stride q.buffer.bytes runs = sizeBytes m.length ∧
        ∀ r ∈ runs, r.cells ⊆ q.extent s q.popCount m
  | .popping (.compareExchange readIdx msgSize) =>
      readIdx = q.buffer.readIdx ∧ ∃ m, q.claimed[q.popCount]? = some m ∧ m.length = msgSize
  | .popping (.readPayload claim runs _) =>
      ∃ k, q.popCount = k + 1 ∧ q.claimed[k]? = some claim ∧
        ∀ r ∈ runs, r.cells ⊆ q.extent s k claim
  | _ => True

/-- The steps of a `try_pop` that nobody else is calling. -/
theorem PopOk.resume [Fintype ι] [DecidableEq ι] (hq : Inv s q) {pc : PopPc}
    (hready : (Thread.popping pc).isSearching →
      q.popCount < q.claimed.length ∧ q.Settled q.popCount)
    (h : PopOk s q (.popping pc)) :
    PopOk s (resumePop s q i pc) ((resumePop s q i pc).threads i) := by
  have hr : q.buffer.readIdx = q.start s q.popCount := hq.readIdx_eq
  match pc with
  | .loadReadIdx =>
      simp only [resumePop, System.move, update_self]
      rfl
  | .loadWriteIdx readIdx =>
      obtain rfl : readIdx = q.buffer.readIdx := h
      obtain ⟨hlt, hsettled⟩ := hready rfl
      have hm : q.claimed[q.popCount]? = some q.claimed[q.popCount] :=
        List.getElem?_eq_getElem hlt
      -- the header that will be read is the length of the oldest message
      have hstored := hq.complete _ _ le_rfl hm hsettled
      simp only [resumePop]
      split
      · simp only [System.move, update_self]
        trivial
      · simp only [System.move, update_self]
        refine ⟨rfl, _, hm, ?_, ?_⟩
        · rw [List.nil_append, hr]
          exact hstored.header
        · rw [hr]
          exact headerRuns_cells (q.start_lt s _) (hq.storage_le le_rfl hm)
  | .readHeader readIdx (run :: runs) got =>
      obtain ⟨rfl, m, hm, hgot, hcells⟩ := h
      simp only [resumePop, System.move, update_self]
      refine ⟨rfl, m, hm, ?_, fun r hr => hcells r (List.mem_cons_of_mem _ hr)⟩
      rw [List.append_assoc, ← loadRuns_cons]
      exact hgot
  | .readHeader readIdx [] got =>
      obtain ⟨rfl, m, hm, hgot, -⟩ := h
      have hsize : ofLittleEndian got = m.length := by
        rw [loadRuns_nil, List.append_nil] at hgot
        rw [hgot]
        have hle := hq.storage_le le_rfl hm
        have hcap := s.capacity_lt
        exact ofLittleEndian_sizeBytes (by unfold storage at hle; omega)
      simp only [resumePop]
      split
      · simp only [System.move, update_self]
        trivial
      · simp only [System.move, update_self]
        exact ⟨rfl, m, hm, hsize.symm⟩
  | .compareExchange readIdx msgSize =>
      obtain ⟨rfl, m, hm, rfl⟩ := h
      -- nobody else moves the read index, so the compare-exchange succeeds
      simp only [resumePop, if_true, System.take, update_self]
      refine ⟨q.popCount, rfl, by rw [hm]; rfl, ?_⟩
      rw [hm, hr]
      exact payloadRuns_cells_storage (q.start_lt s _) (hq.storage_le le_rfl hm)
  | .readPayload claim (run :: runs) got =>
      obtain ⟨k, hk, hclaim, hcells⟩ := h
      simp only [resumePop, System.move, update_self]
      exact ⟨k, hk, hclaim, fun r hr => hcells r (List.mem_cons_of_mem _ hr)⟩
  | .readPayload claim [] got =>
      simp only [resumePop, System.deliver, update_self]
      trivial

/-- The extents of messages claimed before do not move. -/
theorem PopOk.claim [DecidableEq ι] {t : Thread} {m : Message} {w next : ℕ}
    (h : PopOk s q t) : PopOk s (q.claim s i m w next) t := by
  unfold PopOk at h ⊢
  split at h
  · exact h
  · obtain ⟨hr, m', hm', hgot, hcells⟩ := h
    refine ⟨hr, m', claim_claimed_eq_some.mpr (.inl hm'), hgot, ?_⟩
    rwa [show (q.claim s i m w next).popCount = q.popCount from rfl,
      claim_extent (lt_of_claimed hm').le]
  · obtain ⟨hr, m', hm', hsize⟩ := h
    exact ⟨hr, m', claim_claimed_eq_some.mpr (.inl hm'), hsize⟩
  · obtain ⟨k, hk, hclaim, hcells⟩ := h
    refine ⟨k, hk, claim_claimed_eq_some.mpr (.inl hclaim), ?_⟩
    rwa [claim_extent (lt_of_claimed hclaim).le]
  · trivial

/-- A writer of a later message does not disturb the reader. -/
theorem PopOk.write [Fintype ι] [DecidableEq ι] (hq : Inv s q) {k : ℕ} {chunk : Chunk}
    {pending : List Chunk} (hpc : q.threads i = .pushing (.copy k (chunk :: pending))) {t : Thread}
    (hsettled : t.isSearching → q.Settled q.popCount) (h : PopOk s q t) :
    PopOk s (q.write s i k chunk pending) t := by
  have hok := hq.threads_ok i
  rw [hpc] at hok
  obtain ⟨hk, m, hm, hcopy⟩ := hok
  obtain ⟨hlen, hcells⟩ := hcopy.within chunk List.mem_cons_self
  unfold PopOk at h ⊢
  split at h
  · exact h
  · obtain ⟨hr, m', hm', hgot, hread⟩ := h
    -- the header is read only of a message that is written
    have hne : k ≠ q.popCount := by
      rintro rfl
      exact hsettled rfl i (by rw [hpc]; rfl)
    have hagree : AgreeOn s.stride (q.extent s q.popCount m') q.buffer.bytes
        (storeRun s.stride q.buffer.bytes chunk) :=
      storeRun_agree s.stride_pos _ hlen
        ((hq.extent_disjoint hk le_rfl hne hm hm').mono_left hcells)
    refine ⟨hr, m', hm', ?_, hread⟩
    show _ ++ loadRuns s.stride (storeRun s.stride q.buffer.bytes chunk) _ = _
    rw [loadRuns_congr s.stride_pos hread hagree]
    exact hgot
  · exact h
  · exact h
  · trivial

/-- The pushes of another thread keep what the reader knows. -/
theorem PopOk.push [Fintype ι] [DecidableEq ι] (hq : Inv s q) {t : Thread}
    (hsettled : t.isSearching → q.Settled q.popCount) (h : PopOk s q t)
    (hmoves : PushMoves s q i q') : PopOk s q' t := by
  cases hmoves with
  | offer | written => exact h
  | claim hpc => exact h.claim
  | write hpc => exact h.write hq hpc hsettled

theorem popOk_of_isFree {t : Thread} (h : t.isFree) : PopOk s q t := by
  cases t with
  | popping _ => cases h
  | _ => trivial

end Ring

/-! ## The writer -/

/-- The invariant of a logger with one writer. -/
structure SingleInv (σ : Logger c 1) : Prop extends LoggerInv σ where
  reader : PopOk c.ring σ.queue (σ.queue.threads (some 0))
  in_order : σ.queue.claimed.take σ.queue.popCount = σ.formatted ++ holding (σ.view 0)

variable {σ σ' : Logger c 1}

theorem singleInv_init (c : QueueConfig) : SingleInv (Logger.init c 1) where
  toLoggerInv := loggerInv_init c 1
  reader := trivial
  in_order := rfl

/-- A searching writer finds its message complete. -/
theorem LoggerInv.ready (h : LoggerInv σ) {w : Fin 1} (hpc : σ.writers w = .tryPop)
    (hthread : (σ.queue.threads (some w)).isSearching) :
    σ.queue.popCount < σ.queue.claimed.length ∧ σ.queue.Settled σ.queue.popCount := by
  have hlt := h.counts.popCount_lt hpc hthread
  exact ⟨hlt.trans_le h.roles.pushed_prefix.length_le, h.roles.settled hlt⟩

/-- The tokens of the message the writer is copying are not back yet, so the
next message ends before it. -/
theorem SingleInv.clear (h : SingleInv σ) {m : LogMessage c} (hlog : σ.log = .tryPush m)
    (hthread : (σ.queue.threads none).isOffering) {r : Run}
    (hr : r ∈ (σ.queue.threads (some 0)).unread) :
    Disjoint r.cells (Segment c.ring.capacity σ.queue.buffer.writeIdx (storage m.bytes)) := by
  have hreader := h.reader
  have hwriter := h.roles.writers 0
  have hbytes := h.accounts.bytes_le
  have howing := le_total (fun v => storageSum (owing v)) σ.view 0
  unfold Thread.unread at hr
  split at hr
  · next claim runs got hpc =>
      rw [hpc] at hreader
      obtain ⟨k, hk, hclaim, hcells⟩ := hreader
      obtain ⟨hlt, rfl⟩ := List.getElem?_eq_some_iff.mp hclaim
      have hpop : σ.writers 0 = .tryPop := by
        by_contra hne
        unfold WriterOk Logger.view at hwriter
        split at hwriter
        · next heq => exact hne heq
        · rw [hpc] at hwriter
          cases hwriter
      have hone : storageSum (owing (σ.view 0)) = storage σ.queue.claimed[k] := by
        simp [owing, Logger.view, hpop, hpc]
      have hreserved := reserved_offering hlog hthread
      have hend := storageSum_take_succ hlt
      have hsplit := storageSum_take_add_drop σ.queue.claimed (k + 1)
      rw [hreserved, hk] at hbytes
      -- from the message being copied to the end of the new one is at most one turn
      refine Disjoint.mono_left (hcells r hr) ?_
      rw [h.queue.writeIdx_eq, System.extent, System.start, System.start, List.take_length,
        segment_mod, segment_mod]
      exact Segment.disjoint (by omega) (by omega)
  · cases hr

/-- With one writer every step is careful. -/
theorem SingleInv.careful (h : SingleInv σ) (l : Label c 1) : Careful σ l := by
  cases l with
  | main =>
      have hmain := h.roles.main
      simp only [Careful]
      split
      · next m writeIdx next hthread =>
          unfold MainOk at hmain
          rw [hthread] at hmain
          split at hmain
          · next m' hlog =>
              obtain ⟨rfl, -, rfl, -⟩ := hmain
              intro w r hr
              obtain rfl := Subsingleton.elim w 0
              exact h.clear hlog (by rw [hthread]; rfl) hr
          · cases hmain.1
      · trivial
  | writer w =>
      obtain rfl := Subsingleton.elim w 0
      have hreader := h.reader
      simp only [Careful]
      split
      · next readIdx msgSize hthread =>
          rw [hthread] at hreader
          exact fun _ => hreader.2
      · trivial
  | _ => trivial

/-- The messages popped but not formatted are the one in the writer's hands. -/
theorem in_order_writer (h : SingleInv σ) {w : Fin 1} (hmove : WriterMoves σ w σ') :
    σ'.queue.claimed.take σ'.queue.popCount = σ'.formatted ++ holding (σ'.view w) := by
  have hcareful := h.careful (.writer w)
  have horder := h.in_order
  obtain rfl := Subsingleton.elim w 0
  unfold Logger.view at horder ⊢
  cases hmove with
  | @pop pc hpc hthread =>
      have hmoves := resumePop_moves (s := c.ring) hthread
      simp only [hpc, holding] at horder ⊢
      rw [hmoves.claimed_eq]
      rcases owing_pop h.queue hcareful.offered hmoves with
        ⟨howing, hpop⟩ | ⟨m, hm, hold, hnew, hpop⟩
      · rw [howing, hpop]
        exact horder
      · obtain ⟨hlt, rfl⟩ := List.getElem?_eq_some_iff.mp hm
        rw [hold, List.append_nil] at horder
        rw [hnew, hpop, List.take_succ_eq_append_getElem hlt, horder]
  | popped hpc hthread | popFailed hpc hthread | popAgain hpc hthread =>
      simpa [Logger.moveWriter, Logger.callTryPop, System.move, hpc, hthread, owing, holding]
        using horder
  | callTryPop hpc | waitForOne hpc | seeStop hpc | notify hpc | format hpc =>
      simpa [Logger.moveWriter, Logger.callTryPop, System.move, hpc, owing, holding] using horder

theorem reader_writer (h : SingleInv σ) {w : Fin 1} (hmove : WriterMoves σ w σ') :
    PopOk c.ring σ'.queue (σ'.queue.threads (some w)) := by
  have hreader := h.reader
  obtain rfl := Subsingleton.elim w 0
  cases hmove with
  | pop hpc hthread =>
      rw [hthread] at hreader
      exact hreader.resume h.queue fun hsearching => h.ready hpc (by rw [hthread]; exact hsearching)
  | callTryPop | popAgain =>
      simp only [Logger.callTryPop, System.move, update_self]
      trivial
  | _ => exact hreader

theorem reader_main (h : SingleInv σ) {l : Label c 1} (hmove : Moves σ l σ')
    (hl : ∀ w, l ≠ .writer w) : PopOk c.ring σ'.queue (σ.queue.threads (some 0)) := by
  have hreader := h.reader
  cases hmove with
  | push hlog hthread =>
      by_cases hpc : σ.writers 0 = .tryPop
      · exact hreader.push h.queue (fun hsearching => (h.ready hpc hsearching).2)
          (resumePush_moves hthread)
      · have hwriter := h.roles.writers 0
        unfold WriterOk Logger.view at hwriter
        split at hwriter
        · next heq => exact absurd heq hpc
        · exact popOk_of_isFree hwriter
  | writer => exact absurd rfl (hl _)
  | _ => exact hreader

theorem singleInv_step (σ : Logger c 1) (l : Label c 1) (σ' : Logger c 1) (h : SingleInv σ)
    (hstep : step σ l = some σ') : SingleInv σ' := by
  have hmove := step_moves hstep
  have hinv := loggerInv_step σ l σ' h.toLoggerInv (h.careful l) hstep
  by_cases hl : ∃ w, l = .writer w
  · obtain ⟨w, rfl⟩ := hl
    obtain rfl := Subsingleton.elim w 0
    cases hmove with
    | writer hmove => exact ⟨hinv, reader_writer h hmove, in_order_writer h hmove⟩
  · have hl' : ∀ w, l ≠ .writer w := fun w hw => hl ⟨w, hw⟩
    have hview := hmove.view_eq hl'
    refine ⟨hinv, ?_, ?_⟩
    · rw [show σ'.queue.threads (some 0) = σ.queue.threads (some 0) from
        congrArg Prod.snd (congrFun hview 0)]
      exact reader_main h hmove hl'
    · rw [hview, hmove.formatted_eq hl', hmove.take_eq hl' h.queue.popCount_le]
      exact h.in_order

/-- A logger with one writer formats the messages in the order they were
pushed, whatever the interleaving. -/
theorem formatted_in_order (c : QueueConfig) (ls : List (Label c 1)) :
    Along step (fun σ => σ.formatted <+: σ.pushed) (Logger.init c 1) ls := by
  refine (along_of_invariant singleInv_step (singleInv_init c)).mono fun σ h => ?_
  have htake : σ.formatted <+: σ.pushed.take σ.queue.popCount := by
    rw [← h.take_eq, h.in_order]
    exact List.prefix_append _ _
  exact htake.trans (List.take_prefix _ _)

end InterProcess.Async
