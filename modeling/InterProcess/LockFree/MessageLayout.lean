import InterProcess.LockFree.MessageRingBuffer

/-!
# Where a message lies in the ring

What `try_push` writes for a message and what `try_pop` reads back, whatever
the index it starts at: the header and the payload may each be cut by the end
of the array. A message at `idx` is confined to the `storage` elements from
`idx` on, so everything about messages that lie behind one another reduces to
disjoint segments of the ring.

* `Stored` — header and payload of a message read back from `idx`;
* `stored_storeAll` — the chunks of a push store its message;
* `Stored.congr`, `pushChunks_agree` — the frame: only the message's own
  elements matter, only they are written;
* `reserve_cases` — the free-space test of `try_push` is exact;
* `write_idx_eq` — the two writes of a push leave the index where it says.
-/

namespace InterProcess.LockFree

open Bytes Circular

/-- A message a caller may push: its length plus the header is a `std::size_t`. -/
structure Message where
  bytes : List UInt8
  fits : sizeofSize + bytes.length < 2 ^ 64
  deriving DecidableEq

namespace MessageRingBuffer

/-- The elements a message takes. -/
def storage (m : List UInt8) : ℕ := sizeofSize + m.length

def storageSum (q : List (List UInt8)) : ℕ := (q.map storage).sum

@[simp] theorem storageSum_nil : storageSum [] = 0 := rfl

@[simp] theorem storageSum_cons (m : List UInt8) (q : List (List UInt8)) :
    storageSum (m :: q) = storage m + storageSum q := by simp [storageSum]

@[simp] theorem storageSum_append (q q' : List (List UInt8)) :
    storageSum (q ++ q') = storageSum q + storageSum q' := by simp [storageSum]

theorem storage_pos (m : List UInt8) : 0 < storage m := by
  unfold storage sizeofSize
  omega

theorem sizeofSize_le_storage (m : List UInt8) : sizeofSize ≤ storage m := Nat.le_add_right _ _

theorem storageSum_take_add_drop (q : List (List UInt8)) (k : ℕ) :
    storageSum (q.take k) + storageSum (q.drop k) = storageSum q := by
  rw [← storageSum_append, List.take_append_drop]

theorem storageSum_take_succ {q : List (List UInt8)} {k : ℕ} (h : k < q.length) :
    storageSum (q.take (k + 1)) = storageSum (q.take k) + storage q[k] := by
  rw [List.take_succ_eq_append_getElem h, storageSum_append, storageSum_cons, storageSum_nil,
    Nat.add_zero]

/-- Taking more messages takes more storage. -/
theorem storageSum_take_le {q : List (List UInt8)} {k k' : ℕ} (h : k ≤ k') :
    storageSum (q.take k) ≤ storageSum (q.take k') := by
  have hsplit := storageSum_take_add_drop (q.take k') k
  rw [List.take_take, Nat.min_eq_left h] at hsplit
  omega

/-- A queued message ends before the storage of the whole queue does. -/
theorem storageSum_take_add_le {q : List (List UInt8)} {k : ℕ} (h : k < q.length) :
    storageSum (q.take k) + storage q[k] ≤ storageSum q := by
  rw [← storageSum_take_succ h, ← storageSum_take_add_drop q (k + 1)]
  exact Nat.le_add_right _ _

theorem storageSum_drop_le {q : List (List UInt8)} {k k' : ℕ} (h : k ≤ k') :
    storageSum (q.drop k') ≤ storageSum (q.drop k) := by
  have hle := storageSum_take_le (q := q) h
  have hsplit := storageSum_take_add_drop q k
  have hsplit' := storageSum_take_add_drop q k'
  omega

theorem storage_le_drop {q : List (List UInt8)} {p k : ℕ} {m : List UInt8} (hp : p ≤ k)
    (hm : q[k]? = some m) : storage m ≤ storageSum (q.drop p) := by
  obtain ⟨hk, rfl⟩ := List.getElem?_eq_some_iff.mp hm
  have hend := storageSum_take_add_le hk
  have hstart := storageSum_take_le (q := q) hp
  have hsplit := storageSum_take_add_drop q p
  omega

/-- Different messages of a queue that fits one turn share no element. -/
theorem segments_disjoint {n : ℕ} {q : List (List UInt8)} {p k k' : ℕ} {m m' : List UInt8}
    (hroom : storageSum (q.drop p) ≤ n) (hp : p ≤ k) (hp' : p ≤ k') (hne : k ≠ k')
    (hm : q[k]? = some m) (hm' : q[k']? = some m') :
    Disjoint (Segment n (storageSum (q.take k)) (storage m))
      (Segment n (storageSum (q.take k')) (storage m')) := by
  have hsplit := storageSum_take_add_drop q p
  have hordered : ∀ {a b : ℕ} {x y : List UInt8}, p ≤ a → a < b → q[a]? = some x →
      q[b]? = some y → Disjoint (Segment n (storageSum (q.take a)) (storage x))
        (Segment n (storageSum (q.take b)) (storage y)) := by
    intro a b x y ha hab hx hy
    obtain ⟨hal, rfl⟩ := List.getElem?_eq_some_iff.mp hx
    obtain ⟨hbl, rfl⟩ := List.getElem?_eq_some_iff.mp hy
    have hnext : storageSum (q.take a) + storage q[a] ≤ storageSum (q.take b) := by
      rw [← storageSum_take_succ hal]
      exact storageSum_take_le hab
    have hend := storageSum_take_add_le hbl
    have hstart := storageSum_take_le (q := q) ha
    exact Segment.disjoint hnext (by omega)
  rcases Nat.lt_or_gt_of_ne hne with hlt | hgt
  · exact hordered hp hlt hm hm'
  · exact (hordered hp' hgt hm' hm).symm

/-! ## The runs of one message -/

/-- The runs the header is copied in. -/
def headerRuns (capacity idx : ℕ) : List Run := (copyData capacity idx sizeofSize).1

/-- The runs the payload is copied in, from where the header left the index. -/
def payloadRuns (capacity idx size : ℕ) : List Run :=
  (copyData capacity (copyData capacity idx sizeofSize).2 size).1

/-- Everything `try_push` writes after its compare-exchange. -/
def pushChunks (capacity idx : ℕ) (m : List UInt8) : List Chunk :=
  chunks (headerRuns capacity idx) (sizeBytes m.length) ++
    chunks (payloadRuns capacity idx m.length) m

variable {s : RingShape} {idx : ℕ} {m : List UInt8}

theorem headerRuns_cells (hidx : idx < s.capacity) (hm : storage m ≤ s.capacity) :
    ∀ r ∈ headerRuns s.capacity idx, r.cells ⊆ Segment s.capacity idx (storage m) := by
  have hle := sizeofSize_le_storage m
  intro r hr
  exact (copyData_cells hidx (hle.trans hm) r hr).trans
    (segment_subset (d := 0) (by omega))

theorem payloadRuns_cells (hidx : idx < s.capacity) (hm : storage m ≤ s.capacity) :
    ∀ r ∈ payloadRuns s.capacity idx m.length,
      r.cells ⊆ Segment s.capacity (idx + sizeofSize) m.length := by
  have hle := sizeofSize_le_storage m
  have hnext : (copyData s.capacity idx sizeofSize).2 = (idx + sizeofSize) % s.capacity :=
    copyData_idx hidx (hle.trans hm)
  intro r hr
  rw [payloadRuns, hnext] at hr
  have hlen : m.length ≤ s.capacity := (Nat.le_add_left _ _).trans hm
  have hcells := copyData_cells (Nat.mod_lt _ s.capacity_pos) hlen r hr
  rwa [segment_mod] at hcells

theorem payloadRuns_cells_storage (hidx : idx < s.capacity) (hm : storage m ≤ s.capacity) :
    ∀ r ∈ payloadRuns s.capacity idx m.length,
      r.cells ⊆ Segment s.capacity idx (storage m) := fun r hr =>
  (payloadRuns_cells hidx hm r hr).trans (segment_subset le_rfl)

/-- The header and the payload of a message that fits the ring do not meet. -/
theorem header_disjoint_payload (hm : storage m ≤ s.capacity) :
    Disjoint (Segment s.capacity idx sizeofSize)
      (Segment s.capacity (idx + sizeofSize) m.length) :=
  Segment.disjoint le_rfl (by unfold storage at hm; omega)

theorem pushChunks_length :
    ∀ c ∈ pushChunks s.capacity idx m, c.2.length = c.1.size := by
  intro c hc
  rcases List.mem_append.mp hc with hc | hc
  · exact chunks_length_eq (by rw [headerRuns, copyData_size, sizeBytes_length]) c hc
  · exact chunks_length_eq (by rw [payloadRuns, copyData_size]) c hc

theorem pushChunks_map_fst :
    (pushChunks s.capacity idx m).map Prod.fst =
      headerRuns s.capacity idx ++ payloadRuns s.capacity idx m.length := by
  simp [pushChunks]

/-- A push copies its header at least. -/
theorem pushChunks_ne_nil : pushChunks s.capacity idx m ≠ [] := by
  intro hnil
  have hruns := congrArg (List.map Prod.fst) hnil
  rw [pushChunks_map_fst, headerRuns] at hruns
  rcases copyData_cases s.capacity idx sizeofSize with ⟨-, heq⟩ | ⟨-, heq⟩ <;>
    rw [heq] at hruns <;> cases hruns

theorem mem_runs_of_mem_pushChunks {c : Chunk} (hc : c ∈ pushChunks s.capacity idx m) :
    c.1 ∈ headerRuns s.capacity idx ∨ c.1 ∈ payloadRuns s.capacity idx m.length := by
  have hmem : c.1 ∈ (pushChunks s.capacity idx m).map Prod.fst := List.mem_map_of_mem hc
  rwa [pushChunks_map_fst, List.mem_append] at hmem

/-- A push writes into the elements of its message only. -/
theorem pushChunks_cells (hidx : idx < s.capacity) (hm : storage m ≤ s.capacity) :
    ∀ c ∈ pushChunks s.capacity idx m, c.1.cells ⊆ Segment s.capacity idx (storage m) := by
  intro c hc
  rcases mem_runs_of_mem_pushChunks hc with hr | hr
  · exact headerRuns_cells hidx hm c.1 hr
  · exact payloadRuns_cells_storage hidx hm c.1 hr

theorem pushChunks_agree (hidx : idx < s.capacity) (hm : storage m ≤ s.capacity) {C : Set ℕ}
    (hC : Disjoint (Segment s.capacity idx (storage m)) C) (mem : Memory) :
    AgreeOn s.stride C mem (storeAll s.stride mem (pushChunks s.capacity idx m)) :=
  storeAll_agree s.stride_pos (fun c hc => (pushChunks_length c hc).le)
    (fun c hc => hC.mono_left (pushChunks_cells hidx hm c hc)) mem

/-- A run and the elements of a message, element by element. -/
theorem disjoint_segment_iff {r : Run} {n start count : ℕ} :
    Disjoint r.cells (Segment n start count) ↔ ∀ j < count,
      ¬(r.start ≤ (start + j) % n ∧ (start + j) % n < r.start + r.size) := by
  rw [Set.disjoint_right]
  constructor
  · intro h j hj
    exact h ⟨j, hj, rfl⟩
  · rintro h _ ⟨j, hj, rfl⟩
    exact h j hj

instance (r : Run) (n start count : ℕ) : Decidable (Disjoint r.cells (Segment n start count)) :=
  decidable_of_iff' _ disjoint_segment_iff

/-! ## Stored messages -/

/-- Header and payload of `m` read back from `idx`. -/
structure Stored (s : RingShape) (mem : Memory) (idx : ℕ) (m : List UInt8) : Prop where
  header : loadRuns s.stride mem (headerRuns s.capacity idx) = sizeBytes m.length
  payload : loadRuns s.stride mem (payloadRuns s.capacity idx m.length) = m

/-- Whether a message is stored depends on its own elements only. -/
theorem Stored.congr {mem mem' : Memory} (h : Stored s mem idx m) (hidx : idx < s.capacity)
    (hm : storage m ≤ s.capacity)
    (hagree : AgreeOn s.stride (Segment s.capacity idx (storage m)) mem mem') :
    Stored s mem' idx m where
  header := by
    rw [loadRuns_congr s.stride_pos (headerRuns_cells hidx hm) hagree]
    exact h.header
  payload := by
    rw [loadRuns_congr s.stride_pos (payloadRuns_cells_storage hidx hm) hagree]
    exact h.payload

/-- What a push writes is read back, wherever the end of the array cuts it. -/
theorem stored_storeAll (hidx : idx < s.capacity) (hm : storage m ≤ s.capacity)
    (mem : Memory) : Stored s (storeAll s.stride mem (pushChunks s.capacity idx m)) idx m := by
  have hle : sizeofSize ≤ s.capacity := (sizeofSize_le_storage m).trans hm
  have hlen : m.length ≤ s.capacity := (Nat.le_add_left _ _).trans hm
  have hnext : (copyData s.capacity idx sizeofSize).2 < s.capacity := by
    rw [copyData_idx hidx hle]
    exact Nat.mod_lt _ s.capacity_pos
  have hheaderSize : ((headerRuns s.capacity idx).map Run.size).sum =
      (sizeBytes m.length).length := by rw [headerRuns, copyData_size, sizeBytes_length]
  have hpayloadSize : ((payloadRuns s.capacity idx m.length).map Run.size).sum = m.length := by
    rw [payloadRuns, copyData_size]
  rw [pushChunks, storeAll_append]
  refine ⟨?_, loadRuns_storeAll_chunks s.stride_pos hpayloadSize
    (copyData_pairwise hnext hlen) _⟩
  -- the payload is written behind the header and leaves it alone
  have hkeep : AgreeOn s.stride (Segment s.capacity idx sizeofSize)
      (storeAll s.stride mem (chunks (headerRuns s.capacity idx) (sizeBytes m.length)))
      (storeAll s.stride (storeAll s.stride mem
        (chunks (headerRuns s.capacity idx) (sizeBytes m.length)))
        (chunks (payloadRuns s.capacity idx m.length) m)) := by
    refine storeAll_agree s.stride_pos (fun c hc => (chunks_length_eq hpayloadSize c hc).le)
      (fun c hc => ?_) _
    have hrun : c.1 ∈ payloadRuns s.capacity idx m.length := by
      have hmem := List.mem_map_of_mem (f := Prod.fst) hc
      rwa [chunks_map_fst] at hmem
    exact (header_disjoint_payload hm).symm.mono_left (payloadRuns_cells hidx hm c.1 hrun)
  have hread := loadRuns_congr s.stride_pos (copyData_cells hidx hle) hkeep
  exact hread.trans
    (loadRuns_storeAll_chunks s.stride_pos hheaderSize (copyData_pairwise hidx hle) mem)

/-- The header of a stored message decodes to its length. -/
theorem Stored.decode {mem : Memory} (h : Stored s mem idx m) (hm : storage m ≤ s.capacity) :
    ofLittleEndian (loadRuns s.stride mem (headerRuns s.capacity idx)) = m.length := by
  rw [h.header]
  have hcap := s.capacity_lt
  exact ofLittleEndian_sizeBytes (by unfold storage at hm; omega)

/-! ## The free-space test -/

/-- The only index `reserve` grants. -/
theorem reserve_ok {n w r req next : ℕ} (h : reserve n w r req = .ok next) :
    next = (w + req) % n := by
  by_cases hfull : w + 1 = r
  · simp [reserve, hfull] at h
  · by_cases hspace : (if r ≤ w then (n - w) + r - 1 else r - w - 1) < req
    · simp [reserve, hfull, hspace] at h
    · simp only [reserve, hfull, hspace, if_false, Except.ok.injEq] at h
      exact h.symm

/-- A request that is granted leaves one element free. -/
theorem lt_of_reserve {n w r req next : ℕ} (hw : w < n) (hr : r < n)
    (h : reserve n w r req = .ok next) : req < n := by
  by_cases hfull : w + 1 = r
  · simp [reserve, hfull] at h
  · by_cases hspace : (if r ≤ w then (n - w) + r - 1 else r - w - 1) < req
    · simp [reserve, hfull, hspace] at h
    · split at hspace <;> omega

/-- The assertion of `try_push`: its two writes leave the index where the next message starts. -/
theorem write_idx_eq {w r next : ℕ} (hw : w < s.capacity) (hr : r < s.capacity)
    (h : reserve s.capacity w r (storage m) = .ok next) :
    (copyData s.capacity (copyData s.capacity w sizeofSize).2 m.length).2 = next := by
  have hm := lt_of_reserve hw hr h
  have hheader : sizeofSize ≤ s.capacity := (sizeofSize_le_storage m).trans hm.le
  have hpayload : m.length ≤ s.capacity := (Nat.le_add_left _ _).trans hm.le
  rw [reserve_ok h, copyData_idx hw hheader,
    copyData_idx (Nat.mod_lt _ s.capacity_pos) hpayload, Nat.mod_add_mod, storage, Nat.add_assoc]

/-- With `used` elements between the indices, `reserve` grants a request iff
it leaves one element free, although `full` is tested without a modulus. -/
theorem reserve_cases {n w r req used : ℕ} (hr : r < n) (hused : used < n)
    (hw : w = (r + used) % n) (hreq : 0 < req) :
    (used + req < n ∧ reserve n w r req = .ok ((w + req) % n)) ∨
    (n ≤ used + req ∧ ∃ error, reserve n w r req = .error error) := by
  have hwrap : (r + used < n ∧ w = r + used) ∨ (n ≤ r + used ∧ w + n = r + used) := by
    rcases Nat.lt_or_ge (r + used) n with h | h
    · exact .inl ⟨h, by rw [hw, Nat.mod_eq_of_lt h]⟩
    · refine .inr ⟨h, ?_⟩
      rw [hw, Nat.mod_eq_sub_mod h, Nat.mod_eq_of_lt (by omega)]
      omega
  clear hw
  by_cases hfull : w + 1 = r
  · exact .inr ⟨by omega, .full, by simp [reserve, hfull]⟩
  · -- the two cases of the free-space formula are one number
    have havail : (if r ≤ w then (n - w) + r - 1 else r - w - 1) = n - used - 1 := by
      split <;> omega
    simp only [reserve, if_neg hfull, havail]
    by_cases hreq' : n - used - 1 < req
    · exact .inr ⟨by omega, .notEnoughSpace, by rw [if_pos hreq']⟩
    · exact .inl ⟨by omega, by rw [if_neg hreq']⟩

end MessageRingBuffer

end InterProcess.LockFree
