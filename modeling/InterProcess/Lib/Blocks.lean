import Mathlib.Algebra.BigOperators.Group.List.Basic
import Mathlib.Algebra.Order.Group.Nat
import Mathlib.Data.Nat.Find

/-!
# Sums over blocks of a list

A fold of a list by an associative operation may be taken block by block. In a
monoid that need not be commutative the blocks have to be combined in their
order: `blockSum xs a b` is the sum of the elements `a, …, b - 1`, and
`blockSum_append` joins two blocks that follow one another.

`bound` is where the blocks of an even division begin: all of the same size,
the last one with what is left over.
-/

namespace InterProcess.Blocks

variable {T : Type*} [AddMonoid T]

theorem foldl_add (xs : List T) (init : T) : xs.foldl (· + ·) init = init + xs.sum := by
  induction xs generalizing init with
  | nil => simp
  | cons x xs ih => rw [List.foldl_cons, ih, List.sum_cons, add_assoc]

/-- The sum of the elements `a, …, b - 1`. -/
def blockSum (xs : List T) (a b : ℕ) : T := ((xs.take b).drop a).sum

section BlockSum

variable {xs : List T} {a b c : ℕ}

@[simp] theorem blockSum_self (xs : List T) (a : ℕ) : blockSum xs a a = 0 := by
  rw [blockSum, List.drop_of_length_le (List.length_take_le _ _), List.sum_nil]

theorem blockSum_length (xs : List T) : blockSum xs 0 xs.length = xs.sum := by
  rw [blockSum, List.take_length, List.drop_zero]

/-- A block takes in one element more. -/
theorem blockSum_succ {x : T} (hab : a ≤ b) (hx : xs[b]? = some x) :
    blockSum xs a (b + 1) = blockSum xs a b + x := by
  obtain ⟨hb, rfl⟩ := List.getElem?_eq_some_iff.mp hx
  have hlen : a ≤ (xs.take b).length := by rw [List.length_take]; omega
  rw [blockSum, List.take_succ_eq_append_getElem hb, List.drop_append_of_le_length hlen,
    List.sum_append, List.sum_singleton, blockSum]

/-- Two blocks that follow one another. -/
theorem blockSum_append (hab : a ≤ b) (hbc : b ≤ c) (hc : c ≤ xs.length) :
    blockSum xs a b + blockSum xs b c = blockSum xs a c := by
  induction c, hbc using Nat.le_induction with
  | base => rw [blockSum_self, add_zero]
  | succ c hbc ih =>
      have hx : xs[c]? = some xs[c] := List.getElem?_eq_getElem hc
      rw [blockSum_succ hbc hx, blockSum_succ (hab.trans hbc) hx, ← add_assoc, ih (by omega)]

end BlockSum

/-! ## An even division -/

/-- Where block `i` of `count` blocks begins, and the one before it ends. -/
def bound (length count i : ℕ) : ℕ := if i < count then i * (length / count) else length

section Bound

variable {length count i j : ℕ}

theorem bound_of_lt (h : i < count) : bound length count i = i * (length / count) := if_pos h

theorem bound_count (length count : ℕ) : bound length count count = length :=
  if_neg (Nat.lt_irrefl count)

theorem bound_zero (h : 0 < count) : bound length count 0 = 0 := by
  rw [bound_of_lt h, Nat.zero_mul]

theorem bound_succ (h : i + 1 < count) :
    bound length count (i + 1) = bound length count i + length / count := by
  rw [bound_of_lt h, bound_of_lt (Nat.lt_of_succ_lt h), Nat.succ_mul]

theorem bound_le_length (length count i : ℕ) : bound length count i ≤ length := by
  unfold bound
  split
  · next h => exact (Nat.mul_le_mul_right _ h.le).trans (Nat.mul_div_le length count)
  · exact le_rfl

theorem bound_mono (h : i ≤ j) : bound length count i ≤ bound length count j := by
  by_cases hj : j < count
  · rw [bound_of_lt hj, bound_of_lt (h.trans_lt hj)]
    exact Nat.mul_le_mul_right _ h
  · rw [show bound length count j = length from if_neg hj]
    exact bound_le_length length count i

/-- Every element belongs to exactly one block. -/
theorem existsUnique_block {p : ℕ} (hcount : 0 < count) (hp : p < length) :
    ∃! i, i < count ∧ bound length count i ≤ p ∧ p < bound length count (i + 1) := by
  have hex : ∃ i, p < bound length count i := ⟨count, by rwa [bound_count]⟩
  -- the first bound behind the element ends its block
  obtain ⟨i, hi, hleast⟩ : ∃ i, p < bound length count i ∧ ∀ j < i, bound length count j ≤ p :=
    ⟨Nat.find hex, Nat.find_spec hex, fun j hj => Nat.le_of_not_lt (Nat.find_min hex hj)⟩
  cases i with
  | zero =>
      rw [bound_zero hcount] at hi
      exact absurd hi (Nat.not_lt_zero p)
  | succ i =>
      have hle : i < count := by
        by_contra hge
        have hwhole := hleast count (Nat.lt_succ_of_le (Nat.le_of_not_lt hge))
        rw [bound_count] at hwhole
        omega
      refine ⟨i, ⟨hle, hleast i (Nat.lt_succ_self i), hi⟩, ?_⟩
      rintro j ⟨-, hj, hj'⟩
      rcases Nat.lt_trichotomy j i with hlt | rfl | hlt
      · have hmono : bound length count (j + 1) ≤ bound length count i := bound_mono hlt
        have hbelow := hleast i (Nat.lt_succ_self i)
        omega
      · rfl
      · have hmono : bound length count (i + 1) ≤ bound length count j := bound_mono hlt
        omega

end Bound

end InterProcess.Blocks
