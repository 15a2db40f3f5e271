import InterProcess.Lib.Blocks
import InterProcess.Lib.Lts
import InterProcess.Lib.Threads

/-!
# `parallel_accumulate`

The calling thread divides the range into blocks of equal size, starts a thread
for each but the last, accumulates the last one itself, whatever is left over
included, joins the threads and accumulates their results. Each block is
accumulated from the value its result has been initialised with, `T{}`.

The threads take their steps in any order. `blockSum` is what a thread has
accumulated so far, and as the results are combined in the order of the blocks,
the call returns what `std::accumulate` over the whole range returns, also when
`+` is not commutative. Every run is finite, and none gets stuck (`length_le_work`,
`inv_progress`).
-/

namespace InterProcess.Threading

open Function Lts Threads Blocks

/-- `std::accumulate`. -/
def accumulate {T : Type} [Add T] (elements : List T) (init : T) : T :=
  elements.foldl (· + ·) init

/-- The arguments of a call, and what `std::thread::hardware_concurrency` returns. -/
structure Accumulation (T : Type) where
  elements : List T
  init : T
  hardwareThreads : ℕ

namespace Accumulation

variable {T : Type}

def length (a : Accumulation T) : ℕ := a.elements.length

def minPerThread : ℕ := 25

def maxThreads (a : Accumulation T) : ℕ := (a.length + minPerThread - 1) / minPerThread

def numThreads (a : Accumulation T) : ℕ :=
  min (if a.hardwareThreads ≠ 0 then a.hardwareThreads else 2) a.maxThreads

def blockSize (a : Accumulation T) : ℕ := a.length / a.numThreads

/-! ## The blocks -/

/-- Where block `i` begins, and the one before it ends. -/
def blockBound (a : Accumulation T) (i : ℕ) : ℕ := bound a.length a.numThreads i

/-- There is a thread, the calling one, to divide the range by. -/
theorem numThreads_pos {a : Accumulation T} (hlength : 0 < a.length) : 0 < a.numThreads := by
  have hmax : 0 < a.maxThreads := by
    unfold maxThreads minPerThread
    omega
  unfold numThreads
  split <;> omega

theorem numThreads_sub {a : Accumulation T} (hpos : 0 < a.numThreads) :
    a.numThreads - 1 + 1 = a.numThreads := by
  omega

theorem blockBound_last {a : Accumulation T} (hpos : 0 < a.numThreads) :
    a.blockBound (a.numThreads - 1 + 1) = a.length := by
  rw [numThreads_sub hpos]
  exact bound_count _ _

theorem blockBound_le_length (a : Accumulation T) (i : ℕ) : a.blockBound i ≤ a.length :=
  bound_le_length _ _ _

theorem blockBound_le_succ (a : Accumulation T) (i : ℕ) :
    a.blockBound i ≤ a.blockBound (i + 1) := bound_mono (Nat.le_succ i)

/-- A position short of a block's end is one of an element. -/
theorem getElem?_of_lt {a : Accumulation T} {position : ℕ} (h : position < a.length) :
    ∃ x, a.elements[position]? = some x := ⟨_, List.getElem?_eq_getElem h⟩

/-! ## The threads -/

/-- Where the calling thread is: it starts thread `i` at `blockStart`, accumulates its own
block, joins thread `i`, or accumulates result `i`. -/
inductive CallerPc (T : Type)
  | start (i blockStart : ℕ)
  | accumulateBlock (position : ℕ) (acc : T)
  | join (i : ℕ)
  | combine (i : ℕ) (acc : T)
  | returned (result : T)

/-- Where a started thread is in `accumulate_block`. -/
inductive BlockPc (T : Type)
  | absent
  | begin (first last : ℕ)
  | accumulate (position last : ℕ) (acc : T)
  | finished

structure State (a : Accumulation T) where
  caller : CallerPc T
  threads : Fin (a.numThreads - 1) → BlockPc T
  results : ℕ → T

inductive Label (a : Accumulation T)
  | caller
  | thread (i : Fin (a.numThreads - 1))

variable [Add T] [Zero T] {a : Accumulation T}

/-- The call after its declarations, or after it has returned at once. -/
def State.init (a : Accumulation T) : State a :=
  { caller := if a.length = 0 then .returned a.init else .start 0 0
    threads := fun _ => .absent
    results := fun _ => 0 }

/-- The next step of the calling thread. To read an element past the end is no step. -/
def stepCaller (σ : State a) : Option (State a) :=
  match σ.caller with
  | .start i blockStart =>
      if h : i < a.numThreads - 1 then
        some { σ with
          caller := .start (i + 1) (blockStart + a.blockSize)
          threads := update σ.threads ⟨i, h⟩ (.begin blockStart (blockStart + a.blockSize)) }
      else
        some { σ with caller := .accumulateBlock blockStart (σ.results (a.numThreads - 1)) }
  | .accumulateBlock position acc =>
      if position ≠ a.length then
        (a.elements[position]?).map fun x =>
          { σ with caller := .accumulateBlock (position + 1) (acc + x) }
      else
        some { σ with
          caller := .join 0
          results := update σ.results (a.numThreads - 1) acc }
  | .join i =>
      if h : i < a.numThreads - 1 then
        match σ.threads ⟨i, h⟩ with
        | .finished => some { σ with caller := .join (i + 1) }
        | _ => none
      else some { σ with caller := .combine 0 a.init }
  | .combine i acc =>
      if i < a.numThreads then some { σ with caller := .combine (i + 1) (acc + σ.results i) }
      else some { σ with caller := .returned acc }
  | .returned _ => none

/-- The next step of thread `i`. -/
def stepThread (σ : State a) (i : Fin (a.numThreads - 1)) : Option (State a) :=
  match σ.threads i with
  | .absent => none
  | .begin first last =>
      some { σ with threads := update σ.threads i (.accumulate first last (σ.results i)) }
  | .accumulate position last acc =>
      if position ≠ last then
        (a.elements[position]?).map fun x =>
          { σ with threads := update σ.threads i (.accumulate (position + 1) last (acc + x)) }
      else
        some { σ with
          threads := update σ.threads i .finished
          results := update σ.results i acc }
  | .finished => none

def step (σ : State a) : Label a → Option (State a)
  | .caller => stepCaller σ
  | .thread i => stepThread σ i

end Accumulation

namespace Accumulation

variable {T : Type} [AddMonoid T] {a : Accumulation T} {σ σ' : State a}

/-! ## What a thread has accumulated -/

/-- The sum of what lies in block `i`. -/
def sumOfBlock (a : Accumulation T) (i : ℕ) : T :=
  blockSum a.elements (a.blockBound i) (a.blockBound (i + 1))

def ThreadOk (σ : State a) (i : Fin (a.numThreads - 1)) : Prop :=
  match σ.threads i with
  | .absent => σ.results i = 0
  | .begin first last =>
      first = a.blockBound i ∧ last = a.blockBound (i + 1) ∧ σ.results i = 0
  | .accumulate position last acc =>
      a.blockBound i ≤ position ∧ position ≤ last ∧ last = a.blockBound (i + 1) ∧
        acc = blockSum a.elements (a.blockBound i) position
  | .finished => σ.results i = a.sumOfBlock i

/-- How many threads have been started. -/
def started (σ : State a) : ℕ :=
  match σ.caller with
  | .start i _ => i
  | _ => a.numThreads - 1

def CallerOk (σ : State a) : Prop :=
  match σ.caller with
  | .start i blockStart =>
      i ≤ a.numThreads - 1 ∧ blockStart = a.blockBound i ∧ σ.results (a.numThreads - 1) = 0
  | .accumulateBlock position acc =>
      a.blockBound (a.numThreads - 1) ≤ position ∧ position ≤ a.length ∧
        acc = blockSum a.elements (a.blockBound (a.numThreads - 1)) position
  | .join i =>
      i ≤ a.numThreads - 1 ∧ (∀ j, j.val < i → σ.threads j = .finished) ∧
        σ.results (a.numThreads - 1) = a.sumOfBlock (a.numThreads - 1)
  | .combine i acc =>
      i ≤ a.numThreads ∧ (∀ j, σ.threads j = .finished) ∧
        σ.results (a.numThreads - 1) = a.sumOfBlock (a.numThreads - 1) ∧
        acc = a.init + blockSum a.elements 0 (a.blockBound i)
  | .returned result => result = accumulate a.elements a.init

structure Inv (σ : State a) : Prop where
  threads : ∀ i, ThreadOk σ i
  absent : ∀ i, σ.threads i = .absent ↔ started σ ≤ i
  caller : CallerOk σ
  positive : (∀ result, σ.caller ≠ .returned result) → 0 < a.length

theorem inv_init (a : Accumulation T) : Inv (State.init a) := by
  unfold State.init
  by_cases hlength : a.length = 0
  · have hnil : a.elements = [] := List.eq_nil_of_length_eq_zero hlength
    have hnone : a.numThreads - 1 = 0 := by
      unfold numThreads maxThreads minPerThread
      omega
    refine ⟨fun _ => rfl, fun i => ?_, ?_, ?_⟩
    · exact absurd i.isLt (by omega)
    · simp only [CallerOk, if_pos hlength, accumulate, hnil, List.foldl_nil]
    · intro h
      exact absurd (if_pos hlength) (h a.init)
  · have hpos := numThreads_pos (Nat.pos_of_ne_zero hlength)
    refine ⟨fun _ => rfl, fun i => ?_, ?_, fun _ => Nat.pos_of_ne_zero hlength⟩
    · simp only [started, if_neg hlength, Nat.zero_le]
    · simp only [CallerOk, if_neg hlength]
      exact ⟨Nat.zero_le _, (bound_zero hpos).symm, trivial⟩

/-! ## A step of a thread -/

/-- Everything a step of thread `i` can do. -/
inductive ThreadMoves (σ : State a) (i : Fin (a.numThreads - 1)) : State a → Prop
  | begin {first last : ℕ} (hpc : σ.threads i = .begin first last) :
      ThreadMoves σ i
        { σ with threads := update σ.threads i (.accumulate first last (σ.results i)) }
  | add {position last : ℕ} {acc x : T} (hpc : σ.threads i = .accumulate position last acc)
      (hne : position ≠ last) (hx : a.elements[position]? = some x) :
      ThreadMoves σ i
        { σ with threads := update σ.threads i (.accumulate (position + 1) last (acc + x)) }
  | finish {last : ℕ} {acc : T} (hpc : σ.threads i = .accumulate last last acc) :
      ThreadMoves σ i
        { σ with
          threads := update σ.threads i .finished
          results := update σ.results i acc }

theorem stepThread_moves {i : Fin (a.numThreads - 1)} (h : stepThread σ i = some σ') :
    ThreadMoves σ i σ' := by
  unfold stepThread at h
  cases hpc : σ.threads i with
  | absent | finished => simp only [hpc] at h; cases h
  | begin first last =>
      simp only [hpc] at h
      cases h
      exact .begin hpc
  | accumulate position last acc =>
      simp only [hpc] at h
      split at h
      · next hne =>
          obtain ⟨x, hx, rfl⟩ := Option.map_eq_some_iff.mp h
          exact .add hpc hne hx
      · next heq =>
          cases h
          rw [not_not] at heq
          subst heq
          exact .finish hpc

section ThreadMoves

variable {i : Fin (a.numThreads - 1)}

theorem ThreadMoves.caller_eq (h : ThreadMoves σ i σ') : σ'.caller = σ.caller := by
  cases h <;> rfl

theorem ThreadMoves.others (h : ThreadMoves σ i σ') {j : Fin (a.numThreads - 1)} (hj : j ≠ i) :
    σ'.threads j = σ.threads j := by
  cases h <;> exact update_of_ne hj _ _

/-- A thread stores to its own result only. -/
theorem ThreadMoves.results_eq (h : ThreadMoves σ i σ') {k : ℕ} (hk : k ≠ i) :
    σ'.results k = σ.results k := by
  cases h with
  | begin | add => rfl
  | finish => exact update_of_ne hk _ _

theorem ThreadMoves.not_absent (h : ThreadMoves σ i σ') : σ.threads i ≠ .absent := by
  intro habsent
  cases h with
  | begin hpc | add hpc | finish hpc =>
      rw [hpc] at habsent
      cases habsent

theorem ThreadMoves.not_absent' (h : ThreadMoves σ i σ') : σ'.threads i ≠ .absent := by
  cases h <;> simp

theorem ThreadMoves.not_finished (h : ThreadMoves σ i σ') : σ.threads i ≠ .finished := by
  intro hfinished
  cases h with
  | begin hpc | add hpc | finish hpc =>
      rw [hpc] at hfinished
      cases hfinished

theorem ThreadOk.congr {j : Fin (a.numThreads - 1)} (h : ThreadOk σ j)
    (hthread : σ'.threads j = σ.threads j) (hresult : σ'.results j = σ.results j) :
    ThreadOk σ' j := by
  unfold ThreadOk at h ⊢
  rw [hthread, hresult]
  exact h

/-- A thread accumulates its block from left to right, from 0. -/
theorem ThreadOk.step (h : ThreadOk σ i) (hmove : ThreadMoves σ i σ') : ThreadOk σ' i := by
  unfold ThreadOk at h ⊢
  cases hmove with
  | begin hpc =>
      simp only [hpc] at h
      obtain ⟨rfl, rfl, hzero⟩ := h
      simp only [update_self]
      refine ⟨le_rfl, a.blockBound_le_succ _, trivial, ?_⟩
      rw [hzero, blockSum_self]
  | add hpc hne hx =>
      simp only [hpc] at h
      obtain ⟨hfirst, hle, hlast, rfl⟩ := h
      simp only [update_self]
      exact ⟨hfirst.trans (Nat.le_succ _), Nat.lt_of_le_of_ne hle hne, hlast,
        (blockSum_succ hfirst hx).symm⟩
  | finish hpc =>
      simp only [hpc] at h
      obtain ⟨-, -, rfl, rfl⟩ := h
      simp only [update_self]
      trivial

theorem CallerOk.thread (h : CallerOk σ) (hmove : ThreadMoves σ i σ') : CallerOk σ' := by
  have hresult : σ'.results (a.numThreads - 1) = σ.results (a.numThreads - 1) :=
    hmove.results_eq i.isLt.ne'
  have hfinished : ∀ j, σ.threads j = .finished → σ'.threads j = .finished := by
    intro j hj
    rwa [hmove.others fun heq => hmove.not_finished (heq ▸ hj)]
  unfold CallerOk at h ⊢
  rw [hmove.caller_eq, hresult]
  split
  · next hcaller => simpa only [hcaller] using h
  · next hcaller => simpa only [hcaller] using h
  · next hcaller =>
      simp only [hcaller] at h
      exact ⟨h.1, fun j hj => hfinished j (h.2.1 j hj), h.2.2⟩
  · next hcaller =>
      simp only [hcaller] at h
      exact ⟨h.1, fun j => hfinished j (h.2.1 j), h.2.2⟩
  · next hcaller => simpa only [hcaller] using h

theorem Inv.thread (h : Inv σ) (hmove : ThreadMoves σ i σ') : Inv σ' := by
  have hstarted : started σ' = started σ := by
    unfold started
    rw [hmove.caller_eq]
  refine ⟨fun j => ?_, fun j => ?_, h.caller.thread hmove, ?_⟩
  · by_cases hj : j = i
    · subst hj
      exact (h.threads j).step hmove
    · exact (h.threads j).congr (hmove.others hj)
        (hmove.results_eq fun heq => hj (Fin.ext heq))
  · rw [hstarted, ← h.absent j]
    by_cases hj : j = i
    · subst hj
      exact iff_of_false hmove.not_absent' hmove.not_absent
    · rw [hmove.others hj]
  · rw [hmove.caller_eq]
    exact h.positive

end ThreadMoves

/-! ## A step of the calling thread -/

/-- Everything a step of the calling thread can do. -/
inductive CallerMoves (σ : State a) : State a → Prop
  | start {i blockStart : ℕ} (hpc : σ.caller = .start i blockStart) (hi : i < a.numThreads - 1) :
      CallerMoves σ { σ with
        caller := .start (i + 1) (blockStart + a.blockSize)
        threads := update σ.threads ⟨i, hi⟩ (.begin blockStart (blockStart + a.blockSize)) }
  | allStarted {i blockStart : ℕ} (hpc : σ.caller = .start i blockStart)
      (hi : ¬i < a.numThreads - 1) :
      CallerMoves σ
        { σ with caller := .accumulateBlock blockStart (σ.results (a.numThreads - 1)) }
  | add {position : ℕ} {acc x : T} (hpc : σ.caller = .accumulateBlock position acc)
      (hne : position ≠ a.length) (hx : a.elements[position]? = some x) :
      CallerMoves σ { σ with caller := .accumulateBlock (position + 1) (acc + x) }
  | finish {acc : T} (hpc : σ.caller = .accumulateBlock a.length acc) :
      CallerMoves σ { σ with
        caller := .join 0
        results := update σ.results (a.numThreads - 1) acc }
  | join {i : ℕ} (hpc : σ.caller = .join i) (hi : i < a.numThreads - 1)
      (hfinished : σ.threads ⟨i, hi⟩ = .finished) :
      CallerMoves σ { σ with caller := .join (i + 1) }
  | allJoined {i : ℕ} (hpc : σ.caller = .join i) (hi : ¬i < a.numThreads - 1) :
      CallerMoves σ { σ with caller := .combine 0 a.init }
  | combine {i : ℕ} {acc : T} (hpc : σ.caller = .combine i acc) (hi : i < a.numThreads) :
      CallerMoves σ { σ with caller := .combine (i + 1) (acc + σ.results i) }
  | allCombined {i : ℕ} {acc : T} (hpc : σ.caller = .combine i acc) (hi : ¬i < a.numThreads) :
      CallerMoves σ { σ with caller := .returned acc }

theorem stepCaller_moves (h : stepCaller σ = some σ') : CallerMoves σ σ' := by
  unfold stepCaller at h
  cases hpc : σ.caller with
  | start i blockStart =>
      simp only [hpc] at h
      split at h
      · next hi =>
          cases h
          exact .start hpc hi
      · next hi =>
          cases h
          exact .allStarted hpc hi
  | accumulateBlock position acc =>
      simp only [hpc] at h
      split at h
      · next hne =>
          obtain ⟨x, hx, rfl⟩ := Option.map_eq_some_iff.mp h
          exact .add hpc hne hx
      · next heq =>
          cases h
          rw [not_not] at heq
          subst heq
          exact .finish hpc
  | join i =>
      simp only [hpc] at h
      split at h
      · next hi =>
          split at h
          · next hfinished =>
              cases h
              exact .join hpc hi hfinished
          · cases h
      · next hi =>
          cases h
          exact .allJoined hpc hi
  | combine i acc =>
      simp only [hpc] at h
      split at h
      · next hi =>
          cases h
          exact .combine hpc hi
      · next hi =>
          cases h
          exact .allCombined hpc hi
  | returned result =>
      simp only [hpc] at h
      cases h

theorem CallerMoves.running (h : CallerMoves σ σ') (result : T) :
    σ.caller ≠ .returned result := by
  intro hreturned
  cases h with
  | start hpc | allStarted hpc | add hpc | finish hpc | join hpc | allJoined hpc | combine hpc
  | allCombined hpc =>
      rw [hpc] at hreturned
      cases hreturned

theorem Inv.numThreads_pos (h : Inv σ) (hmove : CallerMoves σ σ') : 0 < a.numThreads :=
  Accumulation.numThreads_pos (h.positive hmove.running)

/-- A thread that is not started yet. -/
theorem Inv.next_absent {i blockStart : ℕ} (h : Inv σ) (hpc : σ.caller = .start i blockStart)
    (hi : i < a.numThreads - 1) : σ.threads ⟨i, hi⟩ = .absent := by
  rw [h.absent]
  simp only [started, hpc, le_refl]

/-- The next block begins where the one before it ends. -/
theorem CallerOk.step (h : Inv σ) (hmove : CallerMoves σ σ') : CallerOk σ' := by
  have hpos := h.numThreads_pos hmove
  have hcaller := h.caller
  unfold CallerOk at hcaller ⊢
  cases hmove with
  | start hpc hi =>
      simp only [hpc] at hcaller
      obtain ⟨-, rfl, hlast⟩ := hcaller
      exact ⟨hi, (bound_succ (by omega)).symm, hlast⟩
  | allStarted hpc hi =>
      simp only [hpc] at hcaller
      obtain ⟨hle, rfl, hzero⟩ := hcaller
      obtain rfl := Nat.le_antisymm hle (Nat.not_lt.mp hi)
      refine ⟨le_rfl, blockBound_le_length a _, ?_⟩
      rw [hzero, blockSum_self]
  | add hpc hne hx =>
      simp only [hpc] at hcaller
      obtain ⟨hfirst, hle, rfl⟩ := hcaller
      exact ⟨hfirst.trans (Nat.le_succ _), Nat.lt_of_le_of_ne hle hne,
        (blockSum_succ hfirst hx).symm⟩
  | finish hpc =>
      simp only [hpc] at hcaller
      obtain ⟨-, -, rfl⟩ := hcaller
      refine ⟨Nat.zero_le _, fun j hj => absurd hj (Nat.not_lt_zero _), ?_⟩
      show update σ.results _ _ _ = _
      rw [update_self, sumOfBlock, blockBound_last hpos]
  | join hpc hi hfinished =>
      simp only [hpc] at hcaller
      obtain ⟨hle, hjoined, hlast⟩ := hcaller
      refine ⟨hi, fun j hj => ?_, hlast⟩
      rcases Nat.lt_succ_iff_lt_or_eq.mp hj with hlt | heq
      · exact hjoined j hlt
      · obtain rfl : j = ⟨_, hi⟩ := Fin.ext heq
        exact hfinished
  | allJoined hpc hi =>
      simp only [hpc] at hcaller
      obtain ⟨hle, hjoined, hlast⟩ := hcaller
      refine ⟨Nat.zero_le _, fun j => hjoined j (by omega), hlast, ?_⟩
      rw [blockBound, bound_zero hpos, blockSum_self, add_zero]
  | @combine i acc hpc hi =>
      simp only [hpc] at hcaller
      obtain ⟨hle, hfinished, hlast, rfl⟩ := hcaller
      refine ⟨hi, hfinished, hlast, ?_⟩
      have hresult : σ.results i = a.sumOfBlock i := by
        by_cases hthread : i < a.numThreads - 1
        · have hok := h.threads ⟨i, hthread⟩
          simpa only [ThreadOk, hfinished] using hok
        · obtain rfl : i = a.numThreads - 1 := by omega
          exact hlast
      rw [hresult, sumOfBlock, add_assoc, blockSum_append (Nat.zero_le _)
        (a.blockBound_le_succ i) (a.blockBound_le_length _)]
  | allCombined hpc hi =>
      simp only [hpc] at hcaller
      obtain ⟨hle, hfinished, hlast, rfl⟩ := hcaller
      obtain rfl := Nat.le_antisymm hle (Nat.not_lt.mp hi)
      show a.init + blockSum a.elements 0 (a.blockBound a.numThreads) = _
      rw [blockBound, bound_count, accumulate, foldl_add]
      exact congrArg (a.init + ·) (blockSum_length a.elements)

theorem Inv.start {i blockStart : ℕ} (h : Inv σ) (hpc : σ.caller = .start i blockStart)
    (hi : i < a.numThreads - 1) (j : Fin (a.numThreads - 1)) : ThreadOk { σ with
      caller := .start (i + 1) (blockStart + a.blockSize)
      threads := update σ.threads ⟨i, hi⟩ (.begin blockStart (blockStart + a.blockSize)) } j := by
  have hcaller := h.caller
  simp only [CallerOk, hpc] at hcaller
  obtain ⟨-, rfl, -⟩ := hcaller
  have hok := h.threads j
  unfold ThreadOk at hok ⊢
  by_cases hj : j = ⟨i, hi⟩
  · subst hj
    simp only [h.next_absent hpc hi] at hok
    simp only [update_self]
    exact ⟨trivial, (bound_succ (by omega)).symm, hok⟩
  · simpa only [update_of_ne hj] using hok

/-- Starting a thread apart, the caller leaves the threads and their results alone. -/
theorem Inv.callerStep (h : Inv σ) (hmove : CallerMoves σ σ') : Inv σ' := by
  refine ⟨fun j => ?_, fun j => ?_, CallerOk.step h hmove, fun _ => h.positive hmove.running⟩
  · cases hmove with
    | start hpc hi => exact h.start hpc hi j
    | finish hpc => exact (h.threads j).congr rfl (update_of_ne j.isLt.ne _ _)
    | allStarted | add | join | allJoined | combine | allCombined =>
        exact (h.threads j).congr rfl rfl
  · have hstarted := h.absent j
    cases hmove with
    | @start i _ hpc hi =>
        simp only [started, hpc] at hstarted ⊢
        by_cases hj : j = ⟨i, hi⟩
        · subst hj
          simp
        · have hne : j.val ≠ i := fun heq => hj (Fin.ext heq)
          rw [update_of_ne hj, hstarted]
          omega
    | @allStarted i _ hpc hi =>
        have hcaller := h.caller
        simp only [CallerOk, hpc] at hcaller
        simp only [started, hpc] at hstarted ⊢
        rw [hstarted]
        omega
    | add hpc | finish hpc | join hpc | allJoined hpc | combine hpc | allCombined hpc =>
        simpa only [started, hpc] using hstarted

theorem inv_step (σ : State a) (l : Label a) (σ' : State a) (h : Inv σ)
    (hstep : step σ l = some σ') : Inv σ' := by
  cases l with
  | caller => exact h.callerStep (stepCaller_moves hstep)
  | thread i => exact h.thread (stepThread_moves hstep)

/-! ## Every run ends, and none gets stuck -/

/-- How many steps a thread may still take. -/
def threadWork (a : Accumulation T) : BlockPc T → ℕ
  | .absent => a.length + 3
  | .begin first last => last - first + 2
  | .accumulate position last _ => last - position + 1
  | .finished => 0

def callerWork (a : Accumulation T) : CallerPc T → ℕ
  | .start i _ => (a.numThreads - 1 - i) + a.length + 2 * a.numThreads + 3
  | .accumulateBlock position _ => (a.length - position) + 2 * a.numThreads + 2
  | .join i => (a.numThreads - 1 - i) + a.numThreads + 2
  | .combine i _ => (a.numThreads - i) + 1
  | .returned _ => 0

def work (σ : State a) : ℕ := callerWork a σ.caller + total (threadWork a) σ.threads

/-- A step of a thread is one step less to take for it. -/
theorem ThreadMoves.threadWork_lt {i : Fin (a.numThreads - 1)} (h : ThreadOk σ i)
    (hmove : ThreadMoves σ i σ') :
    threadWork a (σ'.threads i) < threadWork a (σ.threads i) := by
  unfold ThreadOk at h
  cases hmove with
  | begin hpc =>
      simp only [hpc, update_self, threadWork]
      omega
  | add hpc hne hx =>
      simp only [hpc] at h
      simp only [hpc, update_self, threadWork]
      omega
  | finish hpc =>
      simp only [hpc, update_self, threadWork]
      omega

theorem ThreadMoves.threads_eq {i : Fin (a.numThreads - 1)} (h : ThreadMoves σ i σ') :
    σ'.threads = update σ.threads i (σ'.threads i) := by
  cases h <;> simp

theorem work_thread {i : Fin (a.numThreads - 1)} (h : Inv σ) (hmove : ThreadMoves σ i σ') :
    work σ' < work σ := by
  have hless := hmove.threadWork_lt (h.threads i)
  have htotal := total_update (threadWork a) σ.threads i (σ'.threads i)
  rw [← hmove.threads_eq] at htotal
  unfold work
  rw [hmove.caller_eq]
  omega

theorem work_caller (h : Inv σ) (hmove : CallerMoves σ σ') : work σ' < work σ := by
  have hpos := h.numThreads_pos hmove
  have hcaller := h.caller
  unfold CallerOk at hcaller
  cases hmove with
  | @start i blockStart hpc hi =>
      have htotal := total_update (threadWork a) σ.threads ⟨i, hi⟩
        (.begin blockStart (blockStart + a.blockSize))
      have hsize : a.blockSize ≤ a.length := Nat.div_le_self _ _
      simp only [h.next_absent hpc hi, threadWork] at htotal
      simp only [work, callerWork, hpc]
      omega
  | allStarted hpc | finish hpc | join hpc | allJoined hpc | combine hpc | allCombined hpc =>
      simp only [work, callerWork, hpc]
      omega
  | add hpc hne =>
      simp only [hpc] at hcaller
      simp only [work, callerWork, hpc]
      omega

/-- What a run has taken and what it may still take. -/
theorem length_le_work {ls : List (Label a)} (h : Inv σ) (hrun : run step σ ls = some σ') :
    ls.length + work σ' ≤ work σ := by
  induction ls generalizing σ with
  | nil =>
      cases hrun
      rw [List.length_nil, Nat.zero_add]
  | cons l ls ih =>
      rw [run_cons, Option.bind_eq_some_iff] at hrun
      obtain ⟨σ₁, hσ₁, hrun⟩ := hrun
      have htail := ih (inv_step σ l σ₁ h hσ₁) hrun
      have hless : work σ₁ < work σ := by
        cases l with
        | caller => exact work_caller h (stepCaller_moves hσ₁)
        | thread i => exact work_thread h (stepThread_moves hσ₁)
      rw [List.length_cons]
      omega

/-- Until the call has returned, somebody can take a step. -/
theorem inv_progress (h : Inv σ) :
    (∃ result, σ.caller = .returned result) ∨ ∃ l σ', step σ l = some σ' := by
  have hcaller := h.caller
  unfold CallerOk at hcaller
  cases hpc : σ.caller with
  | returned result => exact .inl ⟨result, rfl⟩
  | start i blockStart =>
      refine .inr ⟨.caller, ?_⟩
      simp only [step, stepCaller, hpc]
      split <;> exact ⟨_, rfl⟩
  | accumulateBlock position acc =>
      simp only [hpc] at hcaller
      refine .inr ⟨.caller, ?_⟩
      simp only [step, stepCaller, hpc]
      split
      · next hne =>
          obtain ⟨x, hx⟩ := getElem?_of_lt (Nat.lt_of_le_of_ne hcaller.2.1 hne)
          rw [hx]
          exact ⟨_, rfl⟩
      · exact ⟨_, rfl⟩
  | combine i acc =>
      refine .inr ⟨.caller, ?_⟩
      simp only [step, stepCaller, hpc]
      split <;> exact ⟨_, rfl⟩
  | join i =>
      by_cases hi : i < a.numThreads - 1
      · have hok := h.threads ⟨i, hi⟩
        unfold ThreadOk at hok
        cases hthread : σ.threads ⟨i, hi⟩ with
        | absent =>
            have habsent := (h.absent ⟨i, hi⟩).mp hthread
            simp only [started, hpc] at habsent
            omega
        | begin first last =>
            refine .inr ⟨.thread ⟨i, hi⟩, ?_⟩
            simp only [step, stepThread, hthread]
            exact ⟨_, rfl⟩
        | accumulate position last acc =>
            simp only [hthread] at hok
            obtain ⟨-, hle, hlast, -⟩ := hok
            have hbound := a.blockBound_le_length (i + 1)
            refine .inr ⟨.thread ⟨i, hi⟩, ?_⟩
            simp only [step, stepThread, hthread]
            split
            · next hne =>
                have hlt : position < a.length := by
                  have hshort := Nat.lt_of_le_of_ne hle hne
                  omega
                obtain ⟨x, hx⟩ := getElem?_of_lt hlt
                rw [hx]
                exact ⟨_, rfl⟩
            · exact ⟨_, rfl⟩
        | finished =>
            refine .inr ⟨.caller, ?_⟩
            simp only [step, stepCaller, hpc, dif_pos hi, hthread]
            exact ⟨_, rfl⟩
      · refine .inr ⟨.caller, ?_⟩
        simp only [step, stepCaller, hpc, dif_neg hi]
        exact ⟨_, rfl⟩

/-! ## The result -/

/-- A thread that has begun was given block `i`, and is at a place within it. -/
def WithinBlock (σ : State a) (i : Fin (a.numThreads - 1)) : Prop :=
  match σ.threads i with
  | .begin first last => first = a.blockBound i ∧ last = a.blockBound (i + 1)
  | .accumulate position last _ =>
      a.blockBound i ≤ position ∧ position ≤ last ∧ last = a.blockBound (i + 1)
  | _ => True

theorem ThreadOk.withinBlock {i : Fin (a.numThreads - 1)} (h : ThreadOk σ i) :
    WithinBlock σ i := by
  unfold ThreadOk at h
  unfold WithinBlock
  cases hthread : σ.threads i with
  | absent | finished => trivial
  | begin first last =>
      simp only [hthread] at h
      exact ⟨h.1, h.2.1⟩
  | accumulate position last acc =>
      simp only [hthread] at h
      exact ⟨h.1, h.2.1, h.2.2.1⟩

/-- The calling thread keeps to the last block. -/
def CallerWithinBlock (σ : State a) : Prop :=
  match σ.caller with
  | .start i blockStart => blockStart = a.blockBound i
  | .accumulateBlock position _ =>
      a.blockBound (a.numThreads - 1) ≤ position ∧ position ≤ a.length
  | _ => True

theorem CallerOk.withinBlock (h : CallerOk σ) : CallerWithinBlock σ := by
  unfold CallerOk at h
  unfold CallerWithinBlock
  cases hcaller : σ.caller with
  | start i blockStart =>
      simp only [hcaller] at h
      exact h.2.1
  | accumulateBlock position acc =>
      simp only [hcaller] at h
      exact ⟨h.1, h.2.1⟩
  | join | combine | returned => trivial

/-- In whatever order the threads run: no division is by zero, every element lies
in exactly one block, no thread leaves its own; the run is finite, somebody can
always go on, and what the call returns is the sequential result. -/
theorem parallelAccumulate_eq (a : Accumulation T) :
    (0 < a.length → 0 < a.numThreads) ∧
    (∀ position, position < a.length → ∃! i, i < a.numThreads ∧
      a.blockBound i ≤ position ∧ position < a.blockBound (i + 1)) ∧
    ∀ (ls : List (Label a)) (σ : State a), run step (State.init a) ls = some σ →
      ls.length ≤ work (State.init a) ∧ (∀ i, WithinBlock σ i) ∧ CallerWithinBlock σ ∧
      ((∃ result, σ.caller = .returned result) ∨ ∃ l σ', step σ l = some σ') ∧
      ∀ result, σ.caller = .returned result → result = accumulate a.elements a.init := by
  refine ⟨numThreads_pos, fun position hposition => ?_, fun ls σ hrun => ?_⟩
  · exact existsUnique_block (numThreads_pos (Nat.zero_lt_of_lt hposition)) hposition
  · have h := invariant_of_run inv_step ls (inv_init a) hrun
    have hlength := length_le_work (inv_init a) hrun
    refine ⟨(Nat.le_add_right _ _).trans hlength, fun i => (h.threads i).withinBlock,
      h.caller.withinBlock, inv_progress h, fun result hresult => ?_⟩
    have hcaller := h.caller
    simpa only [CallerOk, hresult] using hcaller

end Accumulation

end InterProcess.Threading
