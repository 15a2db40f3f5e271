import Mathlib.Algebra.BigOperators.Group.Finset.Basic
import Mathlib.Algebra.BigOperators.Group.Finset.Piecewise
import Mathlib.Algebra.Order.BigOperators.Group.Finset
import Mathlib.Data.Fintype.Basic
import Mathlib.Data.Fintype.BigOperators
import Mathlib.Logic.Relation
import Mathlib.Tactic.Abel

/-!
# Families of threads

The local states of finitely many threads are a function `ι → α`. A step
moves one thread, so it is a `Function.update`, and what an invariant says of
all threads at once (how many hold a token, which messages are in flight) is
a sum of per-thread weights. `total_update` is what a step does to such a sum;
it is stated without subtraction, so `omega` can use it as it stands. The
bounds are for weights that are at most a constant. `acyclic_of_rank` is the
argument that threads which wait for one another do not wait in a cycle.
-/

namespace InterProcess.Threads

open Function

section Update

variable {ι α : Type*} [DecidableEq ι] {threads : ι → α} {i : ι} {a : α}

/-- What the thread that moves has and the others keep, all threads have. -/
theorem forall_update {P : α → Prop} (hmoved : P a) (hrest : ∀ j, j ≠ i → P (threads j)) :
    ∀ j, P (update threads i a j) := by
  intro j
  by_cases hj : j = i
  · subst hj
    rwa [update_self]
  · rw [update_of_ne hj]
    exact hrest j hj

/-- The same for a relation between different threads. -/
theorem pairwise_update {R : α → α → Prop} (hleft : ∀ j, j ≠ i → R a (threads j))
    (hright : ∀ j, j ≠ i → R (threads j) a)
    (hrest : ∀ j j', j ≠ i → j' ≠ i → j ≠ j' → R (threads j) (threads j')) :
    ∀ j j', j ≠ j' → R (update threads i a j) (update threads i a j') := by
  intro j j' hne
  by_cases hj : j = i
  · subst hj
    rw [update_self, update_of_ne hne.symm]
    exact hleft j' hne.symm
  · by_cases hj' : j' = i
    · subst hj'
      rw [update_self, update_of_ne hne]
      exact hright j hne
    · rw [update_of_ne hj, update_of_ne hj']
      exact hrest j j' hj hj' hne

end Update

variable {ι α M : Type*} [Fintype ι] [AddCommMonoid M]

/-- The sum of a weight over all threads. -/
def total (weight : α → M) (threads : ι → α) : M := ∑ i, weight (threads i)

/-- Moving one thread exchanges its weight. -/
theorem total_update [DecidableEq ι] (weight : α → M) (threads : ι → α) (i : ι) (a : α) :
    total weight (update threads i a) + weight (threads i) =
      total weight threads + weight a := by
  unfold total
  have hrest : ∑ j ∈ Finset.univ.erase i, weight (update threads i a j) =
      ∑ j ∈ Finset.univ.erase i, weight (threads j) :=
    Finset.sum_congr rfl fun j hj => by
      rw [update_of_ne (Finset.ne_of_mem_erase hj)]
  rw [← Finset.add_sum_erase _ _ (Finset.mem_univ i),
    ← Finset.add_sum_erase _ (fun j => weight (threads j)) (Finset.mem_univ i),
    hrest, update_self]
  abel

/-- A move that keeps the weight of the thread keeps the total. -/
theorem total_update_of_eq [DecidableEq ι] (weight : α → M) (threads : ι → α) (i : ι)
    (a : α) (h : weight a = weight (threads i)) :
    total weight (update threads i a) = total weight threads := by
  unfold total
  refine Finset.sum_congr rfl fun j _ => ?_
  by_cases hj : j = i
  · subst hj; rw [update_self, h]
  · rw [update_of_ne hj]

/-- What is outside the threads and their total make up `k`; a move that
exchanges the two keeps that. -/
theorem add_total_update {N : Type*} [AddCancelCommMonoid N] [DecidableEq ι] (weight : α → N)
    {threads : ι → α} {i : ι} {a : α} {f f' k k' : N} (h : f + total weight threads = k)
    (hmove : f' + weight a + k = f + weight (threads i) + k') :
    f' + total weight (update threads i a) = k' := by
  have hupdate := total_update weight threads i a
  refine add_right_cancel (b := weight a + k + weight (threads i)) ?_
  calc f' + total weight (update threads i a) + (weight a + k + weight (threads i))
      = f' + weight a + k + (total weight (update threads i a) + weight (threads i)) := by abel
    _ = f + weight (threads i) + k' + (total weight threads + weight a) := by
        rw [hmove, hupdate]
    _ = k' + (weight a + (f + total weight threads) + weight (threads i)) := by abel
    _ = k' + (weight a + k + weight (threads i)) := by rw [h]

theorem total_eq_zero {weight : α → M} {threads : ι → α}
    (h : ∀ i, weight (threads i) = 0) : total weight threads = 0 :=
  Finset.sum_eq_zero fun i _ => h i

/-- One thread's weight is part of the total. -/
theorem le_total (weight : α → ℕ) (threads : ι → α) (i : ι) :
    weight (threads i) ≤ total weight threads :=
  Finset.single_le_sum (f := fun j => weight (threads j))
    (fun _ _ => Nat.zero_le _) (Finset.mem_univ i)

/-- And so are those of two threads. -/
theorem add_le_total (weight : α → ℕ) (threads : ι → α) {i j : ι} (h : i ≠ j) :
    weight (threads i) + weight (threads j) ≤ total weight threads := by
  classical
  rw [← Finset.sum_pair (f := fun j => weight (threads j)) h]
  exact Finset.sum_le_sum_of_subset (Finset.subset_univ _)

theorem total_mono {weight weight' : α → ℕ} (h : ∀ a, weight a ≤ weight' a) (threads : ι → α) :
    total weight threads ≤ total weight' threads :=
  Finset.sum_le_sum fun i _ => h (threads i)

/-- A pointwise bound on the weights bounds the total by it and the number of threads. -/
theorem total_le_card_mul {weight : α → ℕ} {threads : ι → α} {b : ℕ}
    (h : ∀ i, weight (threads i) ≤ b) : total weight threads ≤ Fintype.card ι * b := by
  simpa [total, Finset.card_univ] using
    Finset.sum_le_card_nsmul Finset.univ (fun i => weight (threads i)) b fun i _ => h i

theorem total_eq_card_mul {weight : α → ℕ} {threads : ι → α} {b : ℕ}
    (h : ∀ i, weight (threads i) = b) : total weight threads = Fintype.card ι * b := by
  simp [total, h, Finset.card_univ]

/-- When the total reaches its bound, so does every thread. -/
theorem forall_eq_of_card_mul_le_total {weight : α → ℕ} {threads : ι → α} {b : ℕ}
    (hle : ∀ i, weight (threads i) ≤ b) (htotal : Fintype.card ι * b ≤ total weight threads) :
    ∀ i, weight (threads i) = b := by
  have hsum : ∑ i, weight (threads i) = ∑ _i : ι, b :=
    le_antisymm (Finset.sum_le_sum fun i _ => hle i) (by simpa [total] using htotal)
  intro i
  exact (Finset.sum_eq_sum_iff_of_le fun i _ => hle i).mp hsum i (Finset.mem_univ i)

/-- A thread below the bound keeps the total below its bound. -/
theorem total_lt_card_mul {weight : α → ℕ} {threads : ι → α} {b : ℕ} {i : ι}
    (hle : ∀ i, weight (threads i) ≤ b) (hlt : weight (threads i) < b) :
    total weight threads < Fintype.card ι * b := by
  refine Nat.lt_of_not_le fun htotal => ?_
  have heq := forall_eq_of_card_mul_le_total hle htotal i
  omega

/-! ## Waiting for one another -/

/-- When every waiting thread ranks below those that wait for it, no thread
waits for itself, not even by way of others. -/
theorem acyclic_of_rank {ι α : Type*} [Preorder α] {waitsFor : ι → ι → Prop} {rank : ι → α}
    (hrank : ∀ i j, waitsFor i j → (∃ k, waitsFor j k) → rank j < rank i) (i : ι) :
    ¬ Relation.TransGen waitsFor i i := by
  have hless : ∀ j, Relation.TransGen waitsFor i j → (∃ k, waitsFor j k) → rank j < rank i := by
    intro j hpath
    induction hpath with
    | single hedge => exact hrank i _ hedge
    | tail hpath hedge ih =>
        intro hwaits
        exact (hrank _ _ hedge hwaits).trans (ih ⟨_, hedge⟩)
  intro hcycle
  obtain ⟨k, hedge, -⟩ := Relation.TransGen.head'_iff.mp hcycle
  exact lt_irrefl _ (hless i hcycle ⟨k, hedge⟩)

end InterProcess.Threads
