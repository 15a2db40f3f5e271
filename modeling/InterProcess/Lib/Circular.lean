import Mathlib.Data.Nat.ModEq
import Mathlib.Data.Set.BooleanAlgebra
import Mathlib.Order.CompletePartialOrder

/-!
# Segments of a circular index space

The `count` indices of `0, …, n - 1` that follow `start`, wrapping at `n`.
Positions may be given unwrapped: only their residue matters. Two segments
that fit into one turn one after the other share no index
(`Segment.disjoint`), which is what makes index arithmetic modulo `n` safe.
`distance` is the number of steps from one index round to another.
-/

namespace InterProcess.Circular

/-- The indices of `count` consecutive positions from `start`, modulo `n`. -/
def Segment (n start count : ℕ) : Set ℕ := {c | ∃ j < count, c = (start + j) % n}

theorem mem_segment {n start count c : ℕ} :
    c ∈ Segment n start count ↔ ∃ j < count, c = (start + j) % n := Iff.rfl

@[simp] theorem segment_mod (n start count : ℕ) :
    Segment n (start % n) count = Segment n start count := by
  ext c
  simp only [mem_segment, Nat.mod_add_mod]

/-- A part of a segment. -/
theorem segment_subset {n start count d count' : ℕ} (h : d + count' ≤ count) :
    Segment n (start + d) count' ⊆ Segment n start count := by
  rintro c ⟨j, hj, rfl⟩
  exact ⟨d + j, by omega, by rw [Nat.add_assoc]⟩

/-- Positions less than one turn apart are different indices. -/
theorem mod_ne_of_lt_of_lt {n a b : ℕ} (hab : a < b) (hturn : b < a + n) : a % n ≠ b % n := by
  intro h
  have hdvd : n ∣ b - a := (Nat.modEq_iff_dvd' hab.le).mp h
  have hle := Nat.le_of_dvd (by omega) hdvd
  omega

/-- Segments that follow one another within one turn are disjoint. -/
theorem Segment.disjoint {n a k b j : ℕ} (hab : a + k ≤ b) (hturn : b + j ≤ a + n) :
    Disjoint (Segment n a k) (Segment n b j) := by
  rw [Set.disjoint_left]
  rintro c ⟨x, hx, rfl⟩ ⟨y, hy, hxy⟩
  exact mod_ne_of_lt_of_lt (by omega) (by omega) hxy

/-- Equal indices less than one turn after a common position are equal positions. -/
theorem mod_inj_of_lt {n r a b : ℕ} (ha : a < n) (hb : b < n)
    (h : (r + a) % n = (r + b) % n) : a = b := by
  rcases Nat.lt_trichotomy a b with hab | hab | hab
  · exact absurd h (mod_ne_of_lt_of_lt (by omega) (by omega))
  · exact hab
  · exact absurd h.symm (mod_ne_of_lt_of_lt (by omega) (by omega))

/-- A sum of two numbers below `n` wraps at most once. -/
theorem mod_cases {n x : ℕ} (hx : x < n + n) :
    (x < n ∧ x % n = x) ∨ (n ≤ x ∧ x % n = x - n) := by
  rcases Nat.lt_or_ge x n with h | h
  · exact .inl ⟨h, Nat.mod_eq_of_lt h⟩
  · refine .inr ⟨h, ?_⟩
    rw [Nat.mod_eq_sub_mod h, Nat.mod_eq_of_lt (by omega)]

/-- How many steps it is from index `a` round to index `b`. -/
def distance (n a b : ℕ) : ℕ := if a ≤ b then b - a else n + b - a

section Distance

variable {n a b k : ℕ}

theorem distance_lt (ha : a < n) (hb : b < n) : distance n a b < n := by
  unfold distance
  split <;> omega

theorem add_distance (ha : a < n) (hb : b < n) : (a + distance n a b) % n = b := by
  unfold distance
  split
  · rw [Nat.add_sub_cancel' (by assumption), Nat.mod_eq_of_lt hb]
  · rw [show a + (n + b - a) = b + n by omega, Nat.add_mod_right, Nat.mod_eq_of_lt hb]

theorem distance_of_add (ha : a < n) (hk : k < n) : distance n a ((a + k) % n) = k := by
  unfold distance
  rcases mod_cases (show a + k < n + n by omega) with ⟨hlt, heq⟩ | ⟨hge, heq⟩ <;>
    rw [heq] <;> split <;> omega

/-- Moving the far end on. -/
theorem distance_add_right (ha : a < n) (hb : b < n) (hk : distance n a b + k < n) :
    distance n a ((b + k) % n) = distance n a b + k := by
  unfold distance at hk ⊢
  rcases mod_cases (show b + k < n + n by split at hk <;> omega) with ⟨hlt, heq⟩ | ⟨hge, heq⟩ <;>
    rw [heq] <;> split at hk <;> split <;> omega

/-- Moving the near end on. -/
theorem distance_add_left (ha : a < n) (hb : b < n) (hk : k ≤ distance n a b) :
    distance n ((a + k) % n) b + k = distance n a b := by
  unfold distance at hk ⊢
  rcases mod_cases (show a + k < n + n by split at hk <;> omega) with ⟨hlt, heq⟩ | ⟨hge, heq⟩ <;>
    rw [heq] <;> split at hk <;> split <;> omega

end Distance

end InterProcess.Circular
