import InterProcess.Lib.Lts
import Mathlib.Data.List.Basic
import Mathlib.Logic.Function.Basic

/-!
# The bounded buffer of `use_semaphores.cpp`

Producers and consumers share a vector. The semaphore `empty_slots` counts the
slots that are free, `filled_slots` the items, and a mutex guards the vector.

A step is one semaphore or mutex operation, or one access to the vector. The
asserts are enabled and all operations succeed. `produced` and `consumed` are
the items pushed and the items taken so far; the program does not keep them.
-/

namespace InterProcess.Semaphores

open Function

/-- How many items each thread handles. -/
def itemCount : ℕ := 10

/-- Where a producer is in its pass number `i`. -/
inductive ProducerPc
  | loop (i : ℕ)
  | waitEmpty (i item : ℕ)
  | lock (i item : ℕ)
  | pushBack (i item : ℕ)
  | unlock (i : ℕ)
  | postFilled (i : ℕ)
  | exited
  deriving DecidableEq

/-- Where a consumer is in its pass number `i`. -/
inductive ConsumerPc
  | loop (i : ℕ)
  | waitFilled (i : ℕ)
  | lock (i : ℕ)
  | back (i : ℕ)
  | popBack (i item : ℕ)
  | unlock (i : ℕ)
  | postEmpty (i : ℕ)
  | exited
  deriving DecidableEq

/-- The semaphores, the mutex with its owner, the vector, the threads. -/
structure State (p c : ℕ) where
  emptySlots : ℕ
  filledSlots : ℕ
  bufferMutex : Option (Fin p ⊕ Fin c)
  buffer : List ℕ
  producers : Fin p → ProducerPc
  consumers : Fin c → ConsumerPc
  produced : List ℕ
  consumed : List ℕ

def State.init (bufferSize p c : ℕ) : State p c :=
  { emptySlots := bufferSize
    filledSlots := 0
    bufferMutex := none
    buffer := []
    producers := fun _ => .loop 0
    consumers := fun _ => .loop 0
    produced := []
    consumed := [] }

/-- Which thread moves, and what `rand` returns to a producer. -/
inductive Label (p c : ℕ)
  | producer (i : Fin p) (random : ℕ)
  | consumer (j : Fin c)

variable {p c : ℕ}

def State.setProducer (σ : State p c) (i : Fin p) (pc : ProducerPc) : State p c :=
  { σ with producers := update σ.producers i pc }

def State.setConsumer (σ : State p c) (j : Fin c) (pc : ConsumerPc) : State p c :=
  { σ with consumers := update σ.consumers j pc }

/-- A step of `producer`. -/
def stepProducer (σ : State p c) (i : Fin p) (random : ℕ) : Option (State p c) :=
  match σ.producers i with
  | .loop k =>
      if k < itemCount then some (σ.setProducer i (.waitEmpty k (random % 100)))
      else some (σ.setProducer i .exited)
  | .waitEmpty k item =>
      if 0 < σ.emptySlots then
        some ({ σ with emptySlots := σ.emptySlots - 1 }.setProducer i (.lock k item))
      else none
  | .lock k item =>
      if σ.bufferMutex = none then
        some ({ σ with bufferMutex := some (.inl i) }.setProducer i (.pushBack k item))
      else none
  | .pushBack k item =>
      some ({ σ with
        buffer := σ.buffer ++ [item]
        produced := σ.produced ++ [item] }.setProducer i (.unlock k))
  | .unlock k => some ({ σ with bufferMutex := none }.setProducer i (.postFilled k))
  | .postFilled k =>
      some ({ σ with filledSlots := σ.filledSlots + 1 }.setProducer i (.loop (k + 1)))
  | .exited => none

/-- A step of `consumer`; there is none where it calls `back` or `pop_back` on an
empty vector. -/
def stepConsumer (σ : State p c) (j : Fin c) : Option (State p c) :=
  match σ.consumers j with
  | .loop k =>
      if k < itemCount then some (σ.setConsumer j (.waitFilled k))
      else some (σ.setConsumer j .exited)
  | .waitFilled k =>
      if 0 < σ.filledSlots then
        some ({ σ with filledSlots := σ.filledSlots - 1 }.setConsumer j (.lock k))
      else none
  | .lock k =>
      if σ.bufferMutex = none then
        some ({ σ with bufferMutex := some (.inr j) }.setConsumer j (.back k))
      else none
  | .back k => σ.buffer.getLast?.map fun item => σ.setConsumer j (.popBack k item)
  | .popBack k item =>
      if σ.buffer = [] then none
      else
        some ({ σ with
          buffer := σ.buffer.dropLast
          consumed := σ.consumed ++ [item] }.setConsumer j (.unlock k))
  | .unlock k => some ({ σ with bufferMutex := none }.setConsumer j (.postEmpty k))
  | .postEmpty k =>
      some ({ σ with emptySlots := σ.emptySlots + 1 }.setConsumer j (.loop (k + 1)))
  | .exited => none

/-- One step of the program. -/
def step (σ : State p c) : Label p c → Option (State p c)
  | .producer i random => stepProducer σ i random
  | .consumer j => stepConsumer σ j

/-- The consumer is about to call `back` or `pop_back`. -/
def ConsumerPc.takes : ConsumerPc → Bool
  | .back _ | .popBack _ _ => true
  | _ => false

/-! ## The steps read backwards -/

/-- A step of `producer`. -/
inductive ProducerMoves (σ : State p c) (i : Fin p) : State p c → Prop
  | draw {k item : ℕ} (hpc : σ.producers i = .loop k) :
      ProducerMoves σ i (σ.setProducer i (.waitEmpty k item))
  | exit {k : ℕ} (hpc : σ.producers i = .loop k) :
      ProducerMoves σ i (σ.setProducer i .exited)
  | waitEmpty {k item : ℕ} (hpc : σ.producers i = .waitEmpty k item) (hpos : 0 < σ.emptySlots) :
      ProducerMoves σ i ({ σ with
        emptySlots := σ.emptySlots - 1 }.setProducer i (.lock k item))
  | lock {k item : ℕ} (hpc : σ.producers i = .lock k item) (hfree : σ.bufferMutex = none) :
      ProducerMoves σ i ({ σ with
        bufferMutex := some (.inl i) }.setProducer i (.pushBack k item))
  | pushBack {k item : ℕ} (hpc : σ.producers i = .pushBack k item) :
      ProducerMoves σ i ({ σ with
        buffer := σ.buffer ++ [item]
        produced := σ.produced ++ [item] }.setProducer i (.unlock k))
  | unlock {k : ℕ} (hpc : σ.producers i = .unlock k) :
      ProducerMoves σ i ({ σ with bufferMutex := none }.setProducer i (.postFilled k))
  | postFilled {k : ℕ} (hpc : σ.producers i = .postFilled k) :
      ProducerMoves σ i ({ σ with
        filledSlots := σ.filledSlots + 1 }.setProducer i (.loop (k + 1)))

/-- A step of `consumer`. -/
inductive ConsumerMoves (σ : State p c) (j : Fin c) : State p c → Prop
  | next {k : ℕ} (hpc : σ.consumers j = .loop k) :
      ConsumerMoves σ j (σ.setConsumer j (.waitFilled k))
  | exit {k : ℕ} (hpc : σ.consumers j = .loop k) :
      ConsumerMoves σ j (σ.setConsumer j .exited)
  | waitFilled {k : ℕ} (hpc : σ.consumers j = .waitFilled k) (hpos : 0 < σ.filledSlots) :
      ConsumerMoves σ j ({ σ with filledSlots := σ.filledSlots - 1 }.setConsumer j (.lock k))
  | lock {k : ℕ} (hpc : σ.consumers j = .lock k) (hfree : σ.bufferMutex = none) :
      ConsumerMoves σ j ({ σ with bufferMutex := some (.inr j) }.setConsumer j (.back k))
  | back {k item : ℕ} (hpc : σ.consumers j = .back k) (hlast : σ.buffer.getLast? = some item) :
      ConsumerMoves σ j (σ.setConsumer j (.popBack k item))
  | popBack {k item : ℕ} (hpc : σ.consumers j = .popBack k item) (hne : σ.buffer ≠ []) :
      ConsumerMoves σ j ({ σ with
        buffer := σ.buffer.dropLast
        consumed := σ.consumed ++ [item] }.setConsumer j (.unlock k))
  | unlock {k : ℕ} (hpc : σ.consumers j = .unlock k) :
      ConsumerMoves σ j ({ σ with bufferMutex := none }.setConsumer j (.postEmpty k))
  | postEmpty {k : ℕ} (hpc : σ.consumers j = .postEmpty k) :
      ConsumerMoves σ j ({ σ with
        emptySlots := σ.emptySlots + 1 }.setConsumer j (.loop (k + 1)))

theorem stepProducer_moves {σ σ' : State p c} {i : Fin p} {random : ℕ}
    (h : stepProducer σ i random = some σ') : ProducerMoves σ i σ' := by
  unfold stepProducer at h
  cases hpc : σ.producers i with
  | loop k =>
      simp only [hpc] at h
      split at h
      · cases h; exact .draw hpc
      · cases h; exact .exit hpc
  | waitEmpty k item =>
      simp only [hpc] at h
      split at h
      · next hpos => cases h; exact .waitEmpty hpc hpos
      · cases h
  | lock k item =>
      simp only [hpc] at h
      split at h
      · next hfree => cases h; exact .lock hpc hfree
      · cases h
  | pushBack k item => simp only [hpc, Option.some.injEq] at h; exact h ▸ .pushBack hpc
  | unlock k => simp only [hpc, Option.some.injEq] at h; exact h ▸ .unlock hpc
  | postFilled k => simp only [hpc, Option.some.injEq] at h; exact h ▸ .postFilled hpc
  | exited => simp [hpc] at h

theorem stepConsumer_moves {σ σ' : State p c} {j : Fin c} (h : stepConsumer σ j = some σ') :
    ConsumerMoves σ j σ' := by
  unfold stepConsumer at h
  cases hpc : σ.consumers j with
  | loop k =>
      simp only [hpc] at h
      split at h
      · cases h; exact .next hpc
      · cases h; exact .exit hpc
  | waitFilled k =>
      simp only [hpc] at h
      split at h
      · next hpos => cases h; exact .waitFilled hpc hpos
      · cases h
  | lock k =>
      simp only [hpc] at h
      split at h
      · next hfree => cases h; exact .lock hpc hfree
      · cases h
  | back k =>
      simp only [hpc, Option.map_eq_some_iff] at h
      obtain ⟨item, hlast, rfl⟩ := h
      exact .back hpc hlast
  | popBack k item =>
      simp only [hpc] at h
      split at h
      · cases h
      · next hne => cases h; exact .popBack hpc hne
  | unlock k => simp only [hpc, Option.some.injEq] at h; exact h ▸ .unlock hpc
  | postEmpty k => simp only [hpc, Option.some.injEq] at h; exact h ▸ .postEmpty hpc
  | exited => simp [hpc] at h

end InterProcess.Semaphores
