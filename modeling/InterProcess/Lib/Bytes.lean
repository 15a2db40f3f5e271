import Mathlib.Data.List.Basic
import Mathlib.Data.Nat.Basic
import Mathlib.Data.Set.Basic
import Mathlib.Data.Set.BooleanAlgebra
import Mathlib.Order.CompletePartialOrder
import Mathlib.Order.Interval.Set.Basic
import Mathlib.Tactic.Ring

/-!
# Byte memory and strided arrays

`memcpy` at the granularity of bytes: `load` and `store` of byte strings at an
address, and the object representation of an unsigned integer as little-endian
bytes.

An array whose elements are `stride` bytes wide is often copied to and from as
if it were an array of bytes: the copy starts at the first byte of element
`start` and touches `size` *bytes*. Such a copy is a `Run`. Its bytes lie in
the elements `start, …, start + size - 1` (`div_mem_cells`), so runs over
disjoint index ranges do not meet whatever the stride is, and memory may be
reasoned about per element index: `AgreeOn` is the relation every frame lemma
below is stated with.
-/

namespace InterProcess.Bytes

/-! ## Little-endian integers -/

/-- The `width` low bytes of `n`, least significant first. -/
def littleEndian : ℕ → ℕ → List UInt8
  | 0, _ => []
  | width + 1, n => UInt8.ofNat n :: littleEndian width (n / 256)

/-- The integer a little-endian byte string stands for. -/
def ofLittleEndian : List UInt8 → ℕ
  | [] => 0
  | b :: bs => b.toNat + 256 * ofLittleEndian bs

@[simp] theorem littleEndian_length (width n : ℕ) : (littleEndian width n).length = width := by
  induction width generalizing n with
  | zero => rfl
  | succ width ih => simp [littleEndian, ih]

theorem ofLittleEndian_littleEndian (width n : ℕ) :
    ofLittleEndian (littleEndian width n) = n % 256 ^ width := by
  induction width generalizing n with
  | zero => simp [littleEndian, ofLittleEndian, Nat.mod_one]
  | succ width ih =>
      have hbyte : (UInt8.ofNat n).toNat = n % 256 := by simp
      rw [littleEndian, ofLittleEndian, ih, hbyte, pow_succ, mul_comm (256 ^ width), Nat.mod_mul]

theorem ofLittleEndian_append (bs bs' : List UInt8) :
    ofLittleEndian (bs ++ bs') = ofLittleEndian bs + 256 ^ bs.length * ofLittleEndian bs' := by
  induction bs with
  | nil => simp [ofLittleEndian]
  | cons b bs ih =>
      rw [List.cons_append, ofLittleEndian, ih, ofLittleEndian, List.length_cons]
      ring

theorem ofLittleEndian_eq_zero_iff {bs : List UInt8} :
    ofLittleEndian bs = 0 ↔ ∀ b ∈ bs, b = 0 := by
  induction bs with
  | nil => simp [ofLittleEndian]
  | cons b bs ih =>
      have hbyte : b.toNat = 0 ↔ b = 0 := by rw [← UInt8.toNat_inj]; rfl
      rw [ofLittleEndian, List.forall_mem_cons, ← ih, ← hbyte]
      omega

/-- The low bytes of a longer string: the integer it was made from, to their width. -/
theorem ofLittleEndian_littleEndian_append (width n : ℕ) (bs : List UInt8) :
    ofLittleEndian (littleEndian width n ++ bs) % 256 ^ width = n % 256 ^ width := by
  rw [ofLittleEndian_append, ofLittleEndian_littleEndian, littleEndian_length,
    Nat.add_mul_mod_self_left, Nat.mod_mod]

/-! ## Memory -/

/-- The bytes of an object by their offset in it. -/
abbrev Memory := ℕ → UInt8

/-- The `count` adjacent bytes at `addr`. -/
def load (mem : Memory) (addr count : ℕ) : List UInt8 :=
  (List.range count).map fun k => mem (addr + k)

/-- Overwrite the bytes at `addr` by `bs`. -/
def store (mem : Memory) (addr : ℕ) (bs : List UInt8) : Memory := fun a =>
  if addr ≤ a then bs[a - addr]?.getD (mem a) else mem a

@[simp] theorem load_length (mem : Memory) (addr count : ℕ) :
    (load mem addr count).length = count := by simp [load]

theorem load_congr {mem mem' : Memory} {addr count : ℕ}
    (h : ∀ a, addr ≤ a → a < addr + count → mem' a = mem a) :
    load mem' addr count = load mem addr count := by
  unfold load
  refine List.map_congr_left fun k hk => ?_
  rw [List.mem_range] at hk
  exact h (addr + k) (by omega) (by omega)

theorem load_store (mem : Memory) (addr : ℕ) (bs : List UInt8) :
    load (store mem addr bs) addr bs.length = bs := by
  refine List.ext_getElem (by simp) fun k hk hk' => ?_
  simp [load, store, hk']

theorem store_of_outside {mem : Memory} {addr a : ℕ} {bs : List UInt8}
    (h : ¬ (addr ≤ a ∧ a < addr + bs.length)) : store mem addr bs a = mem a := by
  unfold store
  split
  · next hle =>
      rw [List.getElem?_eq_none (by omega)]
      rfl
  · rfl

/-! ## Runs -/

/-- A copy of `size` bytes at the first byte of array element `start`. -/
structure Run where
  start : ℕ
  size : ℕ
  deriving DecidableEq, Repr

/-- The element indices a run may touch a byte of. -/
def Run.cells (r : Run) : Set ℕ := Set.Ico r.start (r.start + r.size)

theorem Run.mem_cells {r : Run} {c : ℕ} :
    c ∈ r.cells ↔ r.start ≤ c ∧ c < r.start + r.size := Iff.rfl

/-- The bytes a run reads. -/
def loadRun (stride : ℕ) (mem : Memory) (r : Run) : List UInt8 :=
  load mem (r.start * stride) r.size

/-- The bytes consecutive runs read. -/
def loadRuns (stride : ℕ) (mem : Memory) (rs : List Run) : List UInt8 :=
  rs.flatMap (loadRun stride mem)

/-- A run together with the bytes it writes. -/
abbrev Chunk := Run × List UInt8

/-- Write one chunk. -/
def storeRun (stride : ℕ) (mem : Memory) (c : Chunk) : Memory :=
  store mem (c.1.start * stride) c.2

/-- Write chunks one after another. -/
def storeAll (stride : ℕ) (mem : Memory) (cs : List Chunk) : Memory :=
  cs.foldl (storeRun stride) mem

/-- Deal a byte string out to consecutive runs. -/
def chunks : List Run → List UInt8 → List Chunk
  | [], _ => []
  | r :: rs, bs => (r, bs.take r.size) :: chunks rs (bs.drop r.size)

@[simp] theorem loadRuns_nil (stride : ℕ) (mem : Memory) : loadRuns stride mem [] = [] := rfl

@[simp] theorem loadRuns_cons (stride : ℕ) (mem : Memory) (r : Run) (rs : List Run) :
    loadRuns stride mem (r :: rs) = loadRun stride mem r ++ loadRuns stride mem rs := rfl

@[simp] theorem storeAll_nil (stride : ℕ) (mem : Memory) : storeAll stride mem [] = mem := rfl

@[simp] theorem storeAll_cons (stride : ℕ) (mem : Memory) (c : Chunk) (cs : List Chunk) :
    storeAll stride mem (c :: cs) = storeAll stride (storeRun stride mem c) cs := rfl

theorem storeAll_append (stride : ℕ) (mem : Memory) (cs cs' : List Chunk) :
    storeAll stride mem (cs ++ cs') = storeAll stride (storeAll stride mem cs) cs' :=
  List.foldl_append

@[simp] theorem chunks_map_fst (rs : List Run) (bs : List UInt8) :
    (chunks rs bs).map Prod.fst = rs := by
  induction rs generalizing bs with
  | nil => rfl
  | cons r rs ih => simp [chunks, ih]

/-! ## Which elements a run touches -/

/-- The two memories have the same bytes in the elements of `C`. -/
def AgreeOn (stride : ℕ) (C : Set ℕ) (mem mem' : Memory) : Prop :=
  ∀ a, a / stride ∈ C → mem' a = mem a

theorem AgreeOn.refl (stride : ℕ) (C : Set ℕ) (mem : Memory) : AgreeOn stride C mem mem :=
  fun _ _ => rfl

theorem AgreeOn.trans {stride : ℕ} {C : Set ℕ} {mem mem' mem'' : Memory}
    (h : AgreeOn stride C mem mem') (h' : AgreeOn stride C mem' mem'') :
    AgreeOn stride C mem mem'' := fun a ha => (h' a ha).trans (h a ha)

theorem AgreeOn.mono {stride : ℕ} {C D : Set ℕ} {mem mem' : Memory} (hCD : C ⊆ D)
    (h : AgreeOn stride D mem mem') : AgreeOn stride C mem mem' := fun a ha => h a (hCD ha)

/-- Every byte of a run lies in one of its elements. -/
theorem div_mem_cells {stride : ℕ} (hstride : 0 < stride) {r : Run} {a : ℕ}
    (hle : r.start * stride ≤ a) (hlt : a < r.start * stride + r.size) :
    a / stride ∈ r.cells := by
  refine Run.mem_cells.mpr ⟨(Nat.le_div_iff_mul_le hstride).mpr hle, ?_⟩
  rw [Nat.div_lt_iff_lt_mul hstride]
  have hsize : r.size ≤ r.size * stride := Nat.le_mul_of_pos_right _ hstride
  calc a < r.start * stride + r.size := hlt
    _ ≤ r.start * stride + r.size * stride := Nat.add_le_add_left hsize _
    _ = (r.start + r.size) * stride := by ring

theorem loadRun_congr {stride : ℕ} (hstride : 0 < stride) {mem mem' : Memory} {r : Run}
    (h : AgreeOn stride r.cells mem mem') : loadRun stride mem' r = loadRun stride mem r :=
  load_congr fun a hle hlt => h a (div_mem_cells hstride hle hlt)

theorem loadRuns_congr {stride : ℕ} (hstride : 0 < stride) {mem mem' : Memory} {C : Set ℕ}
    {rs : List Run} (hC : ∀ r ∈ rs, r.cells ⊆ C) (h : AgreeOn stride C mem mem') :
    loadRuns stride mem' rs = loadRuns stride mem rs := by
  induction rs with
  | nil => rfl
  | cons r rs ih =>
      rw [loadRuns_cons, loadRuns_cons,
        loadRun_congr hstride (h.mono (hC r List.mem_cons_self)),
        ih fun r' hr' => hC r' (List.mem_cons_of_mem _ hr')]

/-- A chunk writes only into elements of its run. -/
theorem storeRun_agree {stride : ℕ} (hstride : 0 < stride) (mem : Memory) {c : Chunk}
    (hlen : c.2.length ≤ c.1.size) {C : Set ℕ} (hC : Disjoint c.1.cells C) :
    AgreeOn stride C mem (storeRun stride mem c) := by
  intro a ha
  refine store_of_outside fun hin => ?_
  have hcell : a / stride ∈ c.1.cells := div_mem_cells hstride hin.1 (by omega)
  exact Set.disjoint_left.mp hC hcell ha

theorem storeAll_agree {stride : ℕ} (hstride : 0 < stride) {C : Set ℕ} {cs : List Chunk}
    (hlen : ∀ c ∈ cs, c.2.length ≤ c.1.size) (hC : ∀ c ∈ cs, Disjoint c.1.cells C)
    (mem : Memory) : AgreeOn stride C mem (storeAll stride mem cs) := by
  induction cs generalizing mem with
  | nil => exact AgreeOn.refl stride C mem
  | cons c cs ih =>
      have hhead := storeRun_agree hstride mem (hlen c List.mem_cons_self) (hC c List.mem_cons_self)
      have htail := ih (fun c' hc' => hlen c' (List.mem_cons_of_mem _ hc'))
        (fun c' hc' => hC c' (List.mem_cons_of_mem _ hc')) (storeRun stride mem c)
      exact hhead.trans htail

/-- Writing the same chunks keeps an agreement, on whatever elements. -/
theorem storeAll_congr {stride : ℕ} {C : Set ℕ} {mem mem' : Memory}
    (h : AgreeOn stride C mem mem') (cs : List Chunk) :
    AgreeOn stride C (storeAll stride mem cs) (storeAll stride mem' cs) := by
  induction cs generalizing mem mem' with
  | nil => exact h
  | cons c cs ih =>
      refine ih fun a ha => ?_
      simp only [storeRun, store, h a ha]

/-! ## Reading back what was written -/

theorem chunks_length_eq {rs : List Run} {bs : List UInt8}
    (h : (rs.map Run.size).sum = bs.length) : ∀ c ∈ chunks rs bs, c.2.length = c.1.size := by
  induction rs generalizing bs with
  | nil => intro c hc; cases hc
  | cons r rs ih =>
      rw [List.map_cons, List.sum_cons] at h
      intro c hc
      rcases List.mem_cons.mp hc with rfl | hc
      · simp only [List.length_take]; omega
      · exact ih (by rw [List.length_drop]; omega) c hc

theorem chunks_flatMap_snd {rs : List Run} {bs : List UInt8}
    (h : (rs.map Run.size).sum = bs.length) : (chunks rs bs).flatMap Prod.snd = bs := by
  induction rs generalizing bs with
  | nil => exact (List.eq_nil_of_length_eq_zero h.symm).symm
  | cons r rs ih =>
      rw [List.map_cons, List.sum_cons] at h
      rw [chunks, List.flatMap_cons, ih (by rw [List.length_drop]; omega), List.take_append_drop]

/-- Chunks over pairwise disjoint runs are read back as they were written. -/
theorem loadRuns_storeAll {stride : ℕ} (hstride : 0 < stride) {cs : List Chunk}
    (hlen : ∀ c ∈ cs, c.2.length = c.1.size)
    (hdisj : cs.Pairwise fun c c' => Disjoint c.1.cells c'.1.cells) (mem : Memory) :
    loadRuns stride (storeAll stride mem cs) (cs.map Prod.fst) = cs.flatMap Prod.snd := by
  induction cs generalizing mem with
  | nil => rfl
  | cons c cs ih =>
      obtain ⟨hc, hcs⟩ := List.pairwise_cons.mp hdisj
      have htail : ∀ c' ∈ cs, c'.2.length = c'.1.size :=
        fun c' hc' => hlen c' (List.mem_cons_of_mem _ hc')
      have hkeep : AgreeOn stride c.1.cells (storeRun stride mem c)
          (storeAll stride (storeRun stride mem c) cs) :=
        storeAll_agree hstride (fun c' hc' => (htail c' hc').le)
          (fun c' hc' => (hc c' hc').symm) _
      have hread : loadRun stride (storeRun stride mem c) c.1 = c.2 := by
        have hsize := hlen c List.mem_cons_self
        rw [loadRun, storeRun, ← hsize]
        exact load_store mem _ _
      rw [List.map_cons, loadRuns_cons, storeAll_cons, List.flatMap_cons, ih htail hcs,
        loadRun_congr hstride hkeep, hread]

/-- A byte string dealt out to disjoint runs is read back from them. -/
theorem loadRuns_storeAll_chunks {stride : ℕ} (hstride : 0 < stride) {rs : List Run}
    {bs : List UInt8} (hsize : (rs.map Run.size).sum = bs.length)
    (hdisj : rs.Pairwise fun r r' => Disjoint r.cells r'.cells) (mem : Memory) :
    loadRuns stride (storeAll stride mem (chunks rs bs)) rs = bs := by
  have hpair : (chunks rs bs).Pairwise fun c c' => Disjoint c.1.cells c'.1.cells := by
    refine (List.pairwise_map (f := Prod.fst) (R := fun r r' : Run =>
      Disjoint r.cells r'.cells)).mp ?_
    rwa [chunks_map_fst]
  have hback := loadRuns_storeAll hstride (chunks_length_eq hsize) hpair mem
  rwa [chunks_map_fst, chunks_flatMap_snd hsize] at hback

end InterProcess.Bytes
