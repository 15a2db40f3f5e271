import InterProcess.Lib.Lts
import InterProcess.Lib.Threads
import InterProcess.LockFree.MessageThreads
import Mathlib.Data.Multiset.AddSub

/-!
# What the threads of a message ring deliver

`try_push` moves the write index before it writes, `try_pop` moves the read
index before it copies the payload, and both compare-exchanges trust values
loaded some time before. `Safe` names the four ways this goes wrong, as a
condition on the step of a successful compare-exchange:

* a push whose free space is gone by the time it claims it;
* a push that claims elements a pop is still copying out of;
* a pop of a message its writer has not finished writing;
* a pop whose header is not the length of the message that is oldest now.

`delivered_of_safe`: in every run without these, what is returned was pushed.
`not_delivered`: the third one alone, with one writer and one reader, returns a
message nobody pushed.
-/

namespace InterProcess.LockFree.MessageRingBuffer

open Bytes Circular Function Lts Threads

variable {ι : Type}

/-- The message a thread is writing: some `memcpy` of its `try_push` is still to come. -/
def Thread.writes : Thread → Option ℕ
  | .pushing (.copy ticket (_ :: _)) => some ticket
  | _ => none

theorem writes_copy {k : ℕ} {pending : List Chunk} (h : pending ≠ []) :
    (Thread.pushing (.copy k pending)).writes = some k := by
  obtain ⟨c, pending, rfl⟩ := List.exists_cons_of_ne_nil h
  rfl

theorem eq_of_writes_copy {k k' : ℕ} {pending : List Chunk}
    (h : (Thread.pushing (.copy k pending)).writes = some k') : k' = k := by
  cases pending with
  | nil => cases h
  | cons => exact (Option.some.inj h).symm

/-- What a thread has claimed and still has to copy out. -/
def Thread.unread : Thread → List Run
  | .popping (.readPayload _ runs _) => runs
  | _ => []

/-- Nobody is writing message `k`. -/
def System.Settled (σ : System ι) (k : ℕ) : Prop := ∀ i, (σ.threads i).writes ≠ some k

/-- The compare-exchange a thread is about to win does not go wrong. -/
def Safe (s : RingShape) (σ : System ι) : Label ι → Prop
  | .resume i =>
      match σ.threads i with
      | .pushing (.compareExchange m writeIdx _) =>
          σ.buffer.writeIdx = writeIdx →
            storageSum (σ.claimed.drop σ.popCount) + storage m.bytes < s.capacity ∧
            ∀ j, ∀ r ∈ (σ.threads j).unread,
              Disjoint r.cells (Segment s.capacity writeIdx (storage m.bytes))
      | .popping (.compareExchange readIdx msgSize) =>
          σ.buffer.readIdx = readIdx →
            (∃ m, σ.claimed[σ.popCount]? = some m ∧ m.length = msgSize) ∧
            σ.Settled σ.popCount
      | _ => True
  | _ => True

/-! ## The invariant -/

/-- The message a pop has claimed and not returned yet. -/
def inFlight : Thread → Multiset (List UInt8)
  | .popping (.readPayload claim _ _) => {claim}
  | _ => 0

/-- Carrying out `pending` stores `m` at `idx` and touches nothing else. -/
structure Writes (s : RingShape) (mem : Memory) (idx : ℕ) (m : List UInt8)
    (pending : List Chunk) : Prop where
  stored : Stored s (storeAll s.stride mem pending) idx m
  within : ∀ c ∈ pending, c.2.length ≤ c.1.size ∧
    c.1.cells ⊆ Segment s.capacity idx (storage m)

/-- The index message `k` starts at. -/
def System.start (s : RingShape) (σ : System ι) (k : ℕ) : ℕ :=
  storageSum (σ.claimed.take k) % s.capacity

theorem System.start_lt (s : RingShape) (σ : System ι) (k : ℕ) : σ.start s k < s.capacity :=
  Nat.mod_lt _ s.capacity_pos

/-- The elements message `k` occupies, when it is `m`. -/
def System.extent (s : RingShape) (σ : System ι) (k : ℕ) (m : List UInt8) : Set ℕ :=
  Segment s.capacity (σ.start s k) (storage m)

/-- A thread is writing message `k`, which is still in the queue. -/
def Writing (s : RingShape) (σ : System ι) (k : ℕ) (pending : List Chunk) : Prop :=
  σ.popCount ≤ k ∧ ∃ m, σ.claimed[k]? = some m ∧
    Writes s σ.buffer.bytes (σ.start s k) m pending

/-- What holds of a thread by itself. -/
def ThreadOk (s : RingShape) (σ : System ι) : Thread → Prop
  | .pushing (.compareExchange m writeIdx next) =>
      next = (writeIdx + storage m.bytes) % s.capacity
  | .pushing (.copy k (c :: pending)) => Writing s σ k (c :: pending)
  | .popping (.readPayload claim runs got) =>
      got ++ loadRuns s.stride σ.buffer.bytes runs = claim
  | _ => True

/-- What holds of a thread in view of another: they do not write the same
message, and it has nothing left to read where the other one writes. -/
def Apart (s : RingShape) (σ : System ι) (t u : Thread) : Prop :=
  ∀ k, u.writes = some k → t.writes ≠ some k ∧
    ∀ m, σ.claimed[k]? = some m → ∀ r ∈ t.unread, Disjoint r.cells (σ.extent s k m)

/-- Only writers and readers depend on the state. -/
theorem ThreadOk.transfer {s : RingShape} {σ σ' : System ι} {t : Thread} (hok : ThreadOk s σ t)
    (hwriting : ∀ k pending, t.writes = some k → Writing s σ k pending → Writing s σ' k pending)
    (hunread : loadRuns s.stride σ'.buffer.bytes t.unread =
      loadRuns s.stride σ.buffer.bytes t.unread) : ThreadOk s σ' t := by
  match t with
  | .pushing (.copy k (c :: pending)) => exact hwriting k (c :: pending) rfl hok
  | .popping (.readPayload claim runs got) =>
      show got ++ loadRuns s.stride σ'.buffer.bytes runs = claim
      rw [show loadRuns s.stride σ'.buffer.bytes runs = _ from hunread]
      exact hok
  | .pushing (.compareExchange _ _ _) => exact hok
  | .pushing (.loadWriteIdx _) | .pushing (.loadReadIdx _ _) | .pushing (.copy _ []) => trivial
  | .popping .loadReadIdx | .popping (.loadWriteIdx _) => trivial
  | .popping (.readHeader _ _ _) | .popping (.compareExchange _ _) => trivial
  | .idle | .pushed _ | .popped _ => trivial

theorem threadOk_copy {s : RingShape} {σ : System ι} {k : ℕ} {pending : List Chunk}
    (h : Writing s σ k pending) : ThreadOk s σ (.pushing (.copy k pending)) := by
  cases pending with
  | nil => trivial
  | cons => exact h

structure Inv [Fintype ι] (s : RingShape) (σ : System ι) : Prop where
  readIdx_eq : σ.buffer.readIdx = σ.start s σ.popCount
  writeIdx_eq : σ.buffer.writeIdx = σ.start s σ.claimed.length
  popCount_le : σ.popCount ≤ σ.claimed.length
  room : storageSum (σ.claimed.drop σ.popCount) < s.capacity
  complete : ∀ k m, σ.popCount ≤ k → σ.claimed[k]? = some m → σ.Settled k →
    Stored s σ.buffer.bytes (σ.start s k) m
  threads_ok : ∀ j, ThreadOk s σ (σ.threads j)
  apart : ∀ j j', j ≠ j' → Apart s σ (σ.threads j) (σ.threads j')
  accounted : (σ.returned : Multiset (List UInt8)) + total inFlight σ.threads =
    (σ.claimed.take σ.popCount : Multiset (List UInt8))

theorem lt_of_claimed {σ : System ι} {k : ℕ} {m' : List UInt8} (hm : σ.claimed[k]? = some m') :
    k < σ.claimed.length :=
  (List.getElem?_eq_some_iff.mp hm).1

theorem Writes.congr {s : RingShape} {mem mem' : Memory} {idx : ℕ} {m : List UInt8}
    {pending : List Chunk} (h : Writes s mem idx m pending) (hidx : idx < s.capacity)
    (hm : storage m ≤ s.capacity)
    (hagree : AgreeOn s.stride (Segment s.capacity idx (storage m)) mem mem') :
    Writes s mem' idx m pending where
  stored := h.stored.congr hidx hm (storeAll_congr hagree pending)
  within := h.within

section Facts

variable [Fintype ι] {s : RingShape} {σ : System ι}

/-- Returned and in-flight messages are the first ones claimed. -/
theorem Inv.delivered (h : Inv s σ) : Delivered σ := by
  have hle : (σ.returned : Multiset (List UInt8)) ≤
      (σ.claimed.take σ.popCount : Multiset (List UInt8)) := by
    rw [← h.accounted]
    exact Multiset.le_add_right _ _
  exact hle.trans (Multiset.coe_le.mpr (List.take_sublist _ _).subperm)

theorem inv_init (s : RingShape) : Inv s (System.init ι) where
  readIdx_eq := by simp [System.init, System.start, Buffer.fresh]
  writeIdx_eq := by simp [System.init, System.start, Buffer.fresh]
  popCount_le := Nat.zero_le _
  room := s.capacity_pos
  complete := by intro k m _ h; simp [System.init] at h
  threads_ok := fun _ => trivial
  apart := by intro j j' _ k h; cases h
  accounted := by
    have hzero : total inFlight (System.init ι).threads = 0 := total_eq_zero fun _ => rfl
    rw [hzero]
    rfl

theorem Inv.storage_le (h : Inv s σ) {k : ℕ} {m : List UInt8} (hk : σ.popCount ≤ k)
    (hm : σ.claimed[k]? = some m) : storage m ≤ s.capacity :=
  (storage_le_drop hk hm).trans h.room.le

/-- The write index is as far ahead of the read index as the queue takes. -/
theorem Inv.writeIdx_from_readIdx (h : Inv s σ) : σ.buffer.writeIdx =
    (σ.buffer.readIdx + storageSum (σ.claimed.drop σ.popCount)) % s.capacity := by
  rw [h.writeIdx_eq, h.readIdx_eq, System.start, System.start, Nat.mod_add_mod,
    storageSum_take_add_drop, List.take_length]

/-- Two messages that are not popped yet lie in different elements. -/
theorem Inv.extent_disjoint (h : Inv s σ) {k k' : ℕ} {m m' : List UInt8}
    (hk : σ.popCount ≤ k) (hk' : σ.popCount ≤ k') (hne : k ≠ k')
    (hm : σ.claimed[k]? = some m) (hm' : σ.claimed[k']? = some m') :
    Disjoint (σ.extent s k m) (σ.extent s k' m') := by
  unfold System.extent System.start
  rw [segment_mod, segment_mod]
  exact segments_disjoint h.room.le hk hk' hne hm hm'

theorem Inv.of_writes (h : Inv s σ) {j : ι} {k : ℕ} (hj : (σ.threads j).writes = some k) :
    ∃ pending, Writing s σ k pending := by
  have hok := h.threads_ok j
  unfold Thread.writes at hj
  split at hj
  · next ticket c pending hpc =>
      cases hj
      rw [hpc] at hok
      exact ⟨c :: pending, hok⟩
  · cases hj

/-- What a thread is writing has been claimed. -/
theorem Inv.writes_lt (h : Inv s σ) {j : ι} {k : ℕ} (hj : (σ.threads j).writes = some k) :
    k < σ.claimed.length := by
  obtain ⟨-, -, m', hm, -⟩ := h.of_writes hj
  exact lt_of_claimed hm

/-- The chunks of a push write its message and nothing else. -/
theorem Inv.writes_pushChunks (h : Inv s σ) {m : Message}
    (hm : storage m.bytes < s.capacity) :
    Writes s σ.buffer.bytes σ.buffer.writeIdx m.bytes
      (pushChunks s.capacity σ.buffer.writeIdx m.bytes) where
  stored := stored_storeAll (h.writeIdx_eq ▸ σ.start_lt s _) hm.le _
  within := fun c hc => ⟨(pushChunks_length c hc).le,
    pushChunks_cells (h.writeIdx_eq ▸ σ.start_lt s _) hm.le c hc⟩

end Facts

/-! ## Threads that touch no message -/

/-- The thread neither writes a message nor reads a payload. -/
def Thread.isQuiet : Thread → Bool
  | .pushing (.copy _ (_ :: _)) | .popping (.readPayload _ _ _) => false
  | _ => true

theorem inFlight_of_isQuiet {t : Thread} (h : t.isQuiet) : inFlight t = 0 := by
  unfold inFlight
  split
  · cases h
  · rfl

theorem writes_of_isQuiet {t : Thread} (h : t.isQuiet) : t.writes = none := by
  unfold Thread.writes
  split
  · cases h
  · rfl

theorem unread_of_isQuiet {t : Thread} (h : t.isQuiet) : t.unread = [] := by
  unfold Thread.unread
  split
  · cases h
  · rfl

theorem apart_of_isQuiet_left {s : RingShape} {σ : System ι} {t : Thread} (h : t.isQuiet)
    (u : Thread) : Apart s σ t u := by
  intro k _
  rw [writes_of_isQuiet h, unread_of_isQuiet h]
  exact ⟨by simp, by simp⟩

theorem apart_of_isQuiet_right {s : RingShape} {σ : System ι} {u : Thread} (h : u.isQuiet)
    (t : Thread) : Apart s σ t u := by
  intro k hk
  rw [writes_of_isQuiet h] at hk
  cases hk

section Moves

variable [DecidableEq ι] {s : RingShape} {σ : System ι} {i : ι}

/-- Nobody writes `k` before the step if the thread that moved did not. -/
theorem settled_of_update {σ' : System ι} {t : Thread} {k : ℕ}
    (hthreads : σ'.threads = update σ.threads i t) (hsettled : σ'.Settled k)
    (hold : (σ.threads i).writes ≠ some k) : σ.Settled k := by
  intro j
  by_cases hji : j = i
  · subst hji
    exact hold
  · have hj := hsettled j
    rwa [hthreads, update_of_ne hji] at hj

/-- The messages after a claim are those before it and the new one. -/
theorem claim_claimed_eq_some {m : Message} {w next k : ℕ} {m' : List UInt8} :
    (σ.claim s i m w next).claimed[k]? = some m' ↔
      σ.claimed[k]? = some m' ∨ (k = σ.claimed.length ∧ m' = m.bytes) := by
  show (σ.claimed ++ [m.bytes])[k]? = some m' ↔ _
  rcases Nat.lt_trichotomy k σ.claimed.length with hlt | rfl | hgt
  · rw [List.getElem?_append_left hlt]
    exact ⟨.inl, fun h => h.resolve_right fun h' => absurd h'.1 hlt.ne⟩
  · rw [List.getElem?_concat_length, List.getElem?_eq_none le_rfl]
    simp [eq_comm]
  · rw [List.getElem?_eq_none hgt.le, List.getElem?_eq_none (by simp; omega)]
    simp [hgt.ne']

/-- A claim leaves the messages claimed before where they are. -/
theorem claim_start {m : Message} {w next k : ℕ} (hk : k ≤ σ.claimed.length) :
    (σ.claim s i m w next).start s k = σ.start s k := by
  show storageSum ((σ.claimed ++ [m.bytes]).take k) % s.capacity = _
  rw [List.take_append_of_le_length hk]
  rfl

theorem claim_extent {m : Message} {w next k : ℕ} (hk : k ≤ σ.claimed.length)
    (m' : List UInt8) :
    (σ.claim s i m w next).extent s k m' = σ.extent s k m' := by
  unfold System.extent
  rw [claim_start hk]

variable [Fintype ι]

/-- A move that takes and returns no message. -/
theorem Inv.accounted_update (h : Inv s σ) {t : Thread}
    (hsame : inFlight t = inFlight (σ.threads i)) :
    (σ.returned : Multiset (List UInt8)) + total inFlight (update σ.threads i t) =
      (σ.claimed.take σ.popCount : Multiset (List UInt8)) := by
  rw [total_update_of_eq inFlight σ.threads i t hsame]
  exact h.accounted

theorem Inv.move (h : Inv s σ) {t : Thread} (hold : (σ.threads i).isQuiet)
    (hnew : t.isQuiet) (hok : ThreadOk s σ t) : Inv s (σ.move i t) where
  readIdx_eq := h.readIdx_eq
  writeIdx_eq := h.writeIdx_eq
  popCount_le := h.popCount_le
  room := h.room
  complete := fun k m hk hm hsettled =>
    h.complete k m hk hm (settled_of_update rfl hsettled (by simp [writes_of_isQuiet hold]))
  threads_ok := forall_update hok fun j _ => h.threads_ok j
  apart := pairwise_update (fun _ _ => apart_of_isQuiet_left hnew _)
    (fun _ _ => apart_of_isQuiet_right hnew _) fun j j' _ _ => h.apart j j'
  accounted := h.accounted_update (by
    rw [inFlight_of_isQuiet hnew, inFlight_of_isQuiet hold])

/-! ## Writing a message -/

/-- One `memcpy` of a writer. -/
theorem Inv.write (h : Inv s σ) {k : ℕ} {c : Chunk} {pending : List Chunk}
    (hpc : σ.threads i = .pushing (.copy k (c :: pending))) :
    Inv s (σ.write s i k c pending) := by
  have hok := h.threads_ok i
  have hwrites : (σ.threads i).writes = some k := by rw [hpc]; rfl
  rw [hpc] at hok
  obtain ⟨hk, m, hm, hcopy⟩ := hok
  obtain ⟨hlen, hcells⟩ := hcopy.within c List.mem_cons_self
  have hagree : ∀ C, Disjoint (σ.extent s k m) C →
      AgreeOn s.stride C σ.buffer.bytes (storeRun s.stride σ.buffer.bytes c) :=
    fun C hC => storeRun_agree s.stride_pos _ hlen (hC.mono_left hcells)
  refine ⟨h.readIdx_eq, h.writeIdx_eq, h.popCount_le, h.room, ?_, ?_, ?_, ?_⟩
  · intro k' m' hk' hm' hsettled
    by_cases hkk : k = k'
    · subst hkk
      obtain rfl : m' = m := Option.some.inj (hm'.symm.trans hm)
      -- nobody writes it any more, so this was its last `memcpy`
      have hlast : pending = [] := by
        by_contra hne
        exact hsettled i ((congrArg Thread.writes (update_self ..)).trans (writes_copy hne))
      subst hlast
      exact hcopy.stored
    · have hbefore : σ.Settled k' := settled_of_update rfl hsettled (by simpa [hwrites] using hkk)
      exact (h.complete k' m' hk' hm' hbefore).congr (σ.start_lt s k') (h.storage_le hk' hm')
        (hagree _ (h.extent_disjoint hk hk' hkk hm hm'))
  · refine forall_update (threadOk_copy ⟨hk, m, hm, hcopy.stored, fun c' hc' =>
      hcopy.within c' (List.mem_cons_of_mem _ hc')⟩) fun j hj => ?_
    obtain ⟨hother, hunread⟩ := h.apart j i hj k hwrites
    refine (h.threads_ok j).transfer ?_ ?_
    · rintro k' pending' hj' ⟨hk', m', hm', hcopy'⟩
      have hne : k ≠ k' := by
        rintro rfl
        exact hother hj'
      exact ⟨hk', m', hm', hcopy'.congr (σ.start_lt s k') (h.storage_le hk' hm')
        (hagree _ (h.extent_disjoint hk hk' hne hm hm'))⟩
    · -- what is left to read lies outside the extent written into
      exact loadRuns_congr s.stride_pos (C := Set.compl (σ.extent s k m))
        (fun r hr => Set.subset_compl_iff_disjoint_right.mpr (hunread m hm r hr))
        (hagree _ disjoint_compl_right)
  · refine pairwise_update (fun j hj => ?_) (fun j hj => ?_) fun j j' _ _ => h.apart j j'
    · intro k' hk'
      obtain ⟨hne, -⟩ := h.apart i j hj.symm k' hk'
      refine ⟨fun hsame => hne ?_, by intro m' _ r hr; cases hr⟩
      rw [eq_of_writes_copy hsame]
      exact hwrites
    · intro k' hk'
      exact h.apart j i hj k' (by rw [eq_of_writes_copy hk']; exact hwrites)
  · exact h.accounted_update (by rw [hpc]; rfl)

/-! ## Claiming room -/

section Claim

variable {m : Message} {w next : ℕ}

/-- The new message lies apart from what is still read, and nobody else writes it. -/
theorem Inv.claim_apart (h : Inv s σ)
    (hclear : ∀ j, ∀ r ∈ (σ.threads j).unread,
      Disjoint r.cells (Segment s.capacity σ.buffer.writeIdx (storage m.bytes))) (j j' : ι)
    (hne : j ≠ j') :
    Apart s (σ.claim s i m σ.buffer.writeIdx next)
      ((σ.claim s i m σ.buffer.writeIdx next).threads j)
      ((σ.claim s i m σ.buffer.writeIdx next).threads j') := by
  refine pairwise_update (fun j _ => ?_) (fun j _ => ?_) (fun j j' _ _ hne => ?_) j j' hne
  · intro k hk
    have hlt := h.writes_lt hk
    refine ⟨fun heq => ?_, fun _ _ r hr => by cases hr⟩
    obtain rfl := eq_of_writes_copy heq
    exact absurd hlt (Nat.lt_irrefl _)
  · intro k hk
    obtain rfl := eq_of_writes_copy hk
    refine ⟨fun hk => absurd (h.writes_lt hk) (Nat.lt_irrefl _), fun m' hm' r hr => ?_⟩
    rcases claim_claimed_eq_some.mp hm' with hm' | ⟨-, rfl⟩
    · exact absurd (lt_of_claimed hm') (Nat.lt_irrefl _)
    · rw [System.extent, claim_start le_rfl, ← h.writeIdx_eq]
      exact hclear j r hr
  · intro k hk
    obtain ⟨hother, hunread⟩ := h.apart j j' hne k hk
    have hlt := h.writes_lt hk
    refine ⟨hother, fun m' hm' r hr => ?_⟩
    rw [claim_extent hlt.le]
    exact hunread m' ((claim_claimed_eq_some.mp hm').resolve_right fun h' => hlt.ne h'.1) r hr

/-- The compare-exchange of a push that has its room. -/
theorem Inv.claim (h : Inv s σ)
    (hpc : σ.threads i = .pushing (.compareExchange m σ.buffer.writeIdx next))
    (hroom : storageSum (σ.claimed.drop σ.popCount) + storage m.bytes < s.capacity)
    (hclear : ∀ j, ∀ r ∈ (σ.threads j).unread,
      Disjoint r.cells (Segment s.capacity σ.buffer.writeIdx (storage m.bytes))) :
    Inv s (σ.claim s i m σ.buffer.writeIdx next) := by
  have hnext : next = (σ.buffer.writeIdx + storage m.bytes) % s.capacity := by
    have hok := h.threads_ok i
    rwa [hpc] at hok
  have hquiet : (σ.threads i).isQuiet := by rw [hpc]; rfl
  refine ⟨?_, ?_, ?_, ?_, ?_, ?_, h.claim_apart hclear, ?_⟩
  · exact h.readIdx_eq.trans (claim_start h.popCount_le).symm
  · show next = storageSum ((σ.claimed ++ [m.bytes]).take (σ.claimed ++ [m.bytes]).length) %
      s.capacity
    rw [List.take_length, storageSum_append, storageSum_cons, storageSum_nil, Nat.add_zero,
      hnext, h.writeIdx_eq, System.start, List.take_length, Nat.mod_add_mod]
  · show σ.popCount ≤ (σ.claimed ++ [m.bytes]).length
    rw [List.length_append]
    exact Nat.le_add_right_of_le h.popCount_le
  · show storageSum ((σ.claimed ++ [m.bytes]).drop σ.popCount) < s.capacity
    rw [List.drop_append_of_le_length h.popCount_le, storageSum_append, storageSum_cons,
      storageSum_nil, Nat.add_zero]
    exact hroom
  · intro k m' hk hm' hsettled
    rcases claim_claimed_eq_some.mp hm' with hm' | ⟨rfl, rfl⟩
    · rw [claim_start (lt_of_claimed hm').le]
      exact h.complete k m' hk hm'
        (settled_of_update rfl hsettled (by simp [writes_of_isQuiet hquiet]))
    · -- the thread that moved is writing the new message
      exact absurd ((congrArg Thread.writes (update_self ..)).trans (writes_copy pushChunks_ne_nil))
        (hsettled i)
  · refine forall_update (threadOk_copy ?_) fun j _ => (h.threads_ok j).transfer ?_ rfl
    · refine ⟨h.popCount_le, m.bytes, claim_claimed_eq_some.mpr (.inr ⟨rfl, rfl⟩), ?_⟩
      rw [claim_start le_rfl, ← h.writeIdx_eq]
      exact h.writes_pushChunks (by omega)
    · rintro k pending - ⟨hk, m', hm', hcopy⟩
      refine ⟨hk, m', claim_claimed_eq_some.mpr (.inl hm'), ?_⟩
      rw [claim_start (lt_of_claimed hm').le]
      exact hcopy
  · show _ + total inFlight (update σ.threads i _) =
      (↑((σ.claimed ++ [m.bytes]).take σ.popCount) : Multiset (List UInt8))
    rw [List.take_append_of_le_length h.popCount_le]
    exact h.accounted_update (by rw [hpc]; rfl)

end Claim

/-! ## Reading a message -/

/-- The compare-exchange of a pop whose header is the oldest message's length
and whose message is written. -/
theorem Inv.take (h : Inv s σ) {m : List UInt8}
    (hpc : σ.threads i = .popping (.compareExchange σ.buffer.readIdx m.length))
    (hm : σ.claimed[σ.popCount]? = some m) (hsettled : σ.Settled σ.popCount) :
    Inv s (σ.take s i σ.buffer.readIdx m.length) := by
  obtain ⟨hlt, hget⟩ := List.getElem?_eq_some_iff.mp hm
  have hquiet : (σ.threads i).isQuiet := by rw [hpc]; rfl
  have hr : σ.buffer.readIdx = σ.start s σ.popCount := h.readIdx_eq
  have hstored : Stored s σ.buffer.bytes σ.buffer.readIdx m :=
    hr ▸ h.complete _ m le_rfl hm hsettled
  have hlater : ∀ {k}, σ.popCount + 1 ≤ k → σ.popCount ≤ k := Nat.le_of_succ_le
  -- nobody writes the message taken, so all writers are behind it
  have hwriters : ∀ {j k}, (σ.threads j).writes = some k → σ.popCount + 1 ≤ k := by
    intro j k hj
    obtain ⟨-, hk, -⟩ := h.of_writes hj
    have hne : k ≠ σ.popCount := by
      rintro rfl
      exact hsettled j hj
    omega
  refine ⟨?_, h.writeIdx_eq, hlt, ?_, ?_, ?_, ?_, ?_⟩
  · show (σ.buffer.readIdx + storage m) % s.capacity =
      storageSum (σ.claimed.take (σ.popCount + 1)) % s.capacity
    rw [hr, System.start, Nat.mod_add_mod, storageSum_take_succ hlt, hget]
  · show storageSum (σ.claimed.drop (σ.popCount + 1)) < s.capacity
    have hroom := h.room
    rw [List.drop_eq_getElem_cons hlt, storageSum_cons] at hroom
    omega
  · exact fun k m' hk hm' hsettled' => h.complete k m' (hlater hk) hm'
      (settled_of_update rfl hsettled' (by simp [writes_of_isQuiet hquiet]))
  · refine forall_update ?_ fun j _ => (h.threads_ok j).transfer ?_ rfl
    · show [] ++ loadRuns s.stride σ.buffer.bytes
        (payloadRuns s.capacity σ.buffer.readIdx m.length) = σ.claimed[σ.popCount]?.getD []
      rw [hm, List.nil_append]
      exact hstored.payload
    · rintro k pending hj ⟨-, hcopy⟩
      exact ⟨hwriters hj, hcopy⟩
  · refine pairwise_update (fun j _ => ?_) (fun j _ => ?_) fun j j' _ _ => h.apart j j'
    · intro k hk
      refine ⟨by simp [Thread.writes], fun m' hm' r hr' => ?_⟩
      have hcells : r.cells ⊆ σ.extent s σ.popCount m := by
        unfold System.extent
        rw [← hr]
        exact payloadRuns_cells_storage (hr ▸ σ.start_lt s _) (h.storage_le le_rfl hm) r hr'
      have hk' := hwriters hk
      exact (h.extent_disjoint le_rfl (hlater hk') (by omega) hm hm').mono_left hcells
    · intro k hk
      cases hk
  · show (σ.returned : Multiset (List UInt8)) + total inFlight (update σ.threads i _) =
      (σ.claimed.take (σ.popCount + 1) : List (List UInt8))
    have htotal := total_update inFlight σ.threads i (.popping (.readPayload
      (σ.claimed[σ.popCount]?.getD []) (payloadRuns s.capacity σ.buffer.readIdx m.length) []))
    rw [inFlight_of_isQuiet hquiet, add_zero] at htotal
    rw [htotal, ← add_assoc, h.accounted, List.take_succ_eq_append_getElem hlt, hget, hm]
    rfl

/-- One `memcpy` of a reader. -/
theorem Inv.readChunk (h : Inv s σ) {claim got : List UInt8} {run : Run} {runs : List Run}
    (hpc : σ.threads i = .popping (.readPayload claim (run :: runs) got)) :
    Inv s (σ.move i (.popping
      (.readPayload claim runs (got ++ loadRun s.stride σ.buffer.bytes run)))) := by
  have hok := h.threads_ok i
  rw [hpc] at hok
  refine ⟨h.readIdx_eq, h.writeIdx_eq, h.popCount_le, h.room, ?_, ?_, ?_, ?_⟩
  · exact fun k m hk hm hsettled => h.complete k m hk hm
      (settled_of_update rfl hsettled (by simp [hpc, Thread.writes]))
  · refine forall_update ?_ fun j _ => h.threads_ok j
    show got ++ loadRun s.stride σ.buffer.bytes run ++ loadRuns s.stride σ.buffer.bytes runs =
      claim
    rw [List.append_assoc, ← loadRuns_cons]
    exact hok
  · refine pairwise_update (fun j hj => ?_) (fun j _ => ?_) fun j j' _ _ => h.apart j j'
    · intro k hk
      obtain ⟨-, hunread⟩ := h.apart i j hj.symm k hk
      rw [hpc] at hunread
      exact ⟨by simp [Thread.writes], fun m hm r hr =>
        hunread m hm r (List.mem_cons_of_mem _ hr)⟩
    · intro k hk
      cases hk
  · exact h.accounted_update (by rw [hpc]; rfl)

/-- A reader returns the message it claimed. -/
theorem Inv.deliver (h : Inv s σ) {claim got : List UInt8}
    (hpc : σ.threads i = .popping (.readPayload claim [] got)) : Inv s (σ.deliver i got) := by
  have hgot : got = claim := by
    have hok := h.threads_ok i
    rw [hpc] at hok
    simpa [ThreadOk] using hok
  refine ⟨h.readIdx_eq, h.writeIdx_eq, h.popCount_le, h.room, ?_, ?_, ?_, ?_⟩
  · exact fun k m hk hm hsettled => h.complete k m hk hm
      (settled_of_update rfl hsettled (by simp [hpc, Thread.writes]))
  · exact forall_update trivial fun j _ => h.threads_ok j
  · exact pairwise_update (fun _ _ => apart_of_isQuiet_left rfl _)
      (fun _ _ => apart_of_isQuiet_right rfl _) fun j j' _ _ => h.apart j j'
  · show ((σ.returned ++ [got] : List (List UInt8)) : Multiset (List UInt8)) +
      total inFlight (update σ.threads i (.popped (.ok got))) =
      (σ.claimed.take σ.popCount : List (List UInt8))
    have htotal := total_update inFlight σ.threads i (.popped (.ok got))
    have hbefore : inFlight (σ.threads i) = {got} := by rw [hpc, hgot]; rfl
    have hafter : inFlight (.popped (.ok got)) = 0 := rfl
    rw [hbefore, hafter, add_zero] at htotal
    rw [← Multiset.coe_add, ← h.accounted, ← htotal, Multiset.coe_singleton, add_assoc,
      add_comm ({got} : Multiset (List UInt8))]

/-! ## Whole steps -/

theorem resumePush_inv (h : Inv s σ) {pc : PushPc} (hpc : σ.threads i = .pushing pc)
    (hsafe : Safe s σ (.resume i)) : Inv s (resumePush s σ i pc) := by
  match pc with
  | .loadWriteIdx m => exact h.move (by rw [hpc]; rfl) rfl trivial
  | .loadReadIdx m writeIdx =>
      simp only [resumePush]
      split
      · exact h.move (by rw [hpc]; rfl) rfl trivial
      · next next hreserve =>
          refine h.move (by rw [hpc]; rfl) rfl ?_
          rw [requiredMessageStorage_eq m.fits] at hreserve
          exact reserve_ok hreserve
  | .compareExchange m writeIdx next =>
      simp only [resumePush]
      split
      · next hwin =>
          subst hwin
          simp only [Safe, hpc] at hsafe
          obtain ⟨hroom, hclear⟩ := hsafe trivial
          exact h.claim hpc hroom hclear
      · exact h.move (by rw [hpc]; rfl) rfl trivial
  | .copy ticket (chunk :: pending) => exact h.write hpc
  | .copy ticket [] => exact h.move (by rw [hpc]; rfl) rfl trivial

theorem resumePop_inv (h : Inv s σ) {pc : PopPc} (hpc : σ.threads i = .popping pc)
    (hsafe : Safe s σ (.resume i)) : Inv s (resumePop s σ i pc) := by
  match pc with
  | .loadReadIdx => exact h.move (by rw [hpc]; rfl) rfl trivial
  | .loadWriteIdx readIdx =>
      simp only [resumePop]
      split
      · exact h.move (by rw [hpc]; rfl) rfl trivial
      · exact h.move (by rw [hpc]; rfl) rfl trivial
  | .readHeader readIdx (run :: runs) got => exact h.move (by rw [hpc]; rfl) rfl trivial
  | .readHeader readIdx [] got =>
      simp only [resumePop]
      split
      · exact h.move (by rw [hpc]; rfl) rfl trivial
      · exact h.move (by rw [hpc]; rfl) rfl trivial
  | .compareExchange readIdx msgSize =>
      simp only [resumePop]
      split
      · next hwin =>
          subst hwin
          simp only [Safe, hpc] at hsafe
          obtain ⟨⟨m, hm, rfl⟩, hsettled⟩ := hsafe trivial
          exact h.take hpc hm hsettled
      · exact h.move (by rw [hpc]; rfl) rfl trivial
  | .readPayload claim (run :: runs) got => exact h.readChunk hpc
  | .readPayload claim [] got => exact h.deliver hpc

omit [DecidableEq ι] [Fintype ι] in
theorem isQuiet_of_isFree {t : Thread} (h : t.isFree) : t.isQuiet := by
  cases t with
  | pushing pc => cases h
  | popping pc => cases h
  | _ => rfl

theorem step_inv (σ : System ι) (l : Label ι) (σ' : System ι) (h : Inv s σ)
    (hsafe : Safe s σ l) (hstep : step s σ l = some σ') : Inv s σ' := by
  cases l with
  | tryPush i m =>
      simp only [step, Option.ite_none_right_eq_some, Option.some.injEq] at hstep
      obtain ⟨hfree, rfl⟩ := hstep
      exact h.move (isQuiet_of_isFree hfree) rfl trivial
  | tryPop i =>
      simp only [step, Option.ite_none_right_eq_some, Option.some.injEq] at hstep
      obtain ⟨hfree, rfl⟩ := hstep
      exact h.move (isQuiet_of_isFree hfree) rfl trivial
  | resume i =>
      simp only [step] at hstep
      split at hstep
      · next pc hpc =>
          cases hstep
          exact resumePush_inv h hpc hsafe
      · next pc hpc =>
          cases hstep
          exact resumePop_inv h hpc hsafe
      · cases hstep

/-! ## Main result -/

/-- In every run whose successful compare-exchanges are all safe, every message
returned was pushed, byte for byte, and none is returned twice. -/
theorem delivered_of_safe (s : RingShape) (ls : List (Label ι))
    (hsafe : StepsMeet (step s) (Safe s) (System.init ι) ls) :
    Along (step s) Delivered (System.init ι) ls :=
  (along_of_stepsMeet step_inv (inv_init s) hsafe).mono fun _ h => h.delivered

end Moves

/-- `message_ring_buffer<32>` of 16-byte elements. -/
def ring32 : RingShape := ⟨32, 16, by decide, by decide, by decide⟩

def pie : Message := ⟨[112, 105, 101], by decide⟩

/-- Thread 0 pushes `pie` while thread 1 pops: it reads the header between the two `memcpy`s of
the push, and takes the message after both and before the push has returned. -/
def popWhilePushing : List (Label (Fin 2)) :=
  [.tryPush 0 pie, .tryPop 1, .resume 0, .resume 1, .resume 0, .resume 0, .resume 1, .resume 0,
    .resume 1, .resume 0, .resume 1, .resume 1, .resume 1, .resume 0, .resume 1]

theorem delivered_popWhilePushing :
    Along (step ring32) Delivered (System.init (Fin 2)) popWhilePushing := by
  refine delivered_of_safe ring32 popWhilePushing <|
    .cons trivial rfl <| .cons trivial rfl <| .cons trivial rfl <| .cons trivial rfl <|
    .cons trivial rfl <| .cons (fun _ => ⟨by decide, fun j r hr => ?_⟩) rfl <|
    .cons trivial rfl <| .cons trivial rfl <| .cons trivial rfl <| .cons trivial rfl <|
    .cons trivial rfl <|
    .cons (fun _ => ⟨⟨pie.bytes, rfl, by decide⟩, fun j hj => ?_⟩) rfl <|
    .cons trivial rfl <| .cons trivial rfl <| .cons trivial rfl trivial
  · -- the pop has not claimed anything yet
    match j with
    | 0 | 1 => cases hr
  · -- thread 0 is past its last `memcpy`
    match j with
    | 0 | 1 => cases hj

/-- Thread 0 has claimed room for `pie` and not written it; thread 1 finds the
ring not empty and reads a header of zeros. -/
def popTooEarly : List (Label (Fin 2)) :=
  [.tryPush 0 pie, .resume 0, .resume 0, .resume 0,
    .tryPop 1, .resume 1, .resume 1, .resume 1, .resume 1, .resume 1, .resume 1, .resume 1]

/-- Not every run delivers what was pushed: `popTooEarly` returns the empty
message while `pie` is the only one pushed. -/
theorem not_delivered :
    ¬ ∀ (ι : Type) (_ : DecidableEq ι) (s : RingShape) (ls : List (Label ι)),
      Along (step s) Delivered (System.init ι) ls := by
  intro hall
  refine not_along_of_run (fun σ => (σ.returned, σ.claimed)) ([[]], [pie.bytes]) ?_ ?_
    (hall (Fin 2) inferInstance ring32 popTooEarly)
  · decide +kernel
  · intro σ' hobs hdelivered
    have hreturned : σ'.returned = [[]] := congrArg Prod.fst hobs
    have hclaimed : σ'.claimed = [pie.bytes] := congrArg Prod.snd hobs
    rw [Delivered, hreturned, hclaimed] at hdelivered
    exact absurd hdelivered (by decide)

end InterProcess.LockFree.MessageRingBuffer
