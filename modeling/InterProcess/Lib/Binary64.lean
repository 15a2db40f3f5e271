import Mathlib.Data.Nat.Log
import Mathlib.Tactic.IntervalCases
import Mathlib.Tactic.Positivity
import Mathlib.Tactic.Ring

/-!
# Unsigned integers as binary64

The conversion of an unsigned integer of up to 64 bits to `double`: the nearest
binary64 number, of two equally near ones the one with the even significand. A
number is its bit pattern here, a natural number below `2 ^ 64`.

A bit pattern that is taken for an integer and converted becomes another one. By
`ofNat_bounds` the result lies in the binade of `(e + 1023) * 2 ^ 52`, where `e`
is the binary logarithm of the integer; only `0` and `fixedPoint` come out as
they went in.
-/

namespace InterProcess.Binary64

/-- `n / d` to the nearest integer, halves to even. -/
def roundedQuotient (n d : ℕ) : ℕ :=
  if 2 * (n % d) < d ∨ (2 * (n % d) = d ∧ n / d % 2 = 0) then n / d else n / d + 1

/-- The significand of the number nearest to `n`, its hidden bit included: `2 ^ 52`
to `2 ^ 53`, where the latter has carried over. -/
def significand (n : ℕ) : ℕ :=
  if n.log2 ≤ 52 then n * 2 ^ (52 - n.log2) else roundedQuotient n (2 ^ (n.log2 - 52))

/-- The bit pattern of the number nearest to `n`. The hidden bit of the
significand adds one to the exponent field. -/
def ofNat (n : ℕ) : ℕ :=
  if n = 0 then 0 else (n.log2 + 1022) * 2 ^ 52 + significand n

theorem roundedQuotient_bounds {n d a b : ℕ} (hd : 0 < d) (ha : a * d ≤ n) (hb : n < b * d) :
    a ≤ roundedQuotient n d ∧ roundedQuotient n d ≤ b := by
  have hlow : a ≤ n / d := (Nat.le_div_iff_mul_le hd).mpr ha
  have hhigh : n / d < b := (Nat.div_lt_iff_lt_mul hd).mpr hb
  unfold roundedQuotient
  split <;> omega

theorem significand_bounds {n : ℕ} (hn : n ≠ 0) :
    2 ^ 52 ≤ significand n ∧ significand n ≤ 2 ^ 53 := by
  have hlow : 2 ^ n.log2 ≤ n := Nat.log2_self_le hn
  have hhigh : n < 2 ^ (n.log2 + 1) := Nat.lt_log2_self
  unfold significand
  split
  · next hle =>
      have hpow : 2 ^ n.log2 * 2 ^ (52 - n.log2) = 2 ^ 52 := by
        rw [← pow_add, Nat.add_sub_cancel' hle]
      have hpos : 0 < 2 ^ (52 - n.log2) := by positivity
      constructor
      · rw [← hpow]
        exact Nat.mul_le_mul_right _ hlow
      · calc n * 2 ^ (52 - n.log2) ≤ 2 ^ (n.log2 + 1) * 2 ^ (52 - n.log2) :=
              Nat.mul_le_mul_right _ hhigh.le
          _ = 2 ^ 53 := by rw [pow_succ, mul_right_comm, hpow, ← pow_succ]
  · next hgt =>
      have hsplit : 52 + (n.log2 - 52) = n.log2 := by omega
      refine roundedQuotient_bounds (by positivity) ?_ ?_
      · rw [← pow_add, hsplit]
        exact hlow
      · rw [← pow_add, show 53 + (n.log2 - 52) = n.log2 + 1 by omega]
        exact hhigh

/-- The pattern is off `(e + 1023) * 2 ^ 52` by no more than a binade. -/
theorem ofNat_bounds {n : ℕ} (hn : n ≠ 0) :
    (n.log2 + 1023) * 2 ^ 52 ≤ ofNat n ∧ ofNat n ≤ (n.log2 + 1024) * 2 ^ 52 := by
  obtain ⟨hlow, hhigh⟩ := significand_bounds hn
  rw [ofNat, if_neg hn]
  constructor
  · calc (n.log2 + 1023) * 2 ^ 52 = (n.log2 + 1022) * 2 ^ 52 + 2 ^ 52 := by ring
      _ ≤ (n.log2 + 1022) * 2 ^ 52 + significand n := Nat.add_le_add_left hlow _
  · calc (n.log2 + 1022) * 2 ^ 52 + significand n ≤ (n.log2 + 1022) * 2 ^ 52 + 2 ^ 53 :=
          Nat.add_le_add_left hhigh _
      _ = (n.log2 + 1024) * 2 ^ 52 := by ring

theorem log2_le {n : ℕ} (h : n < 2 ^ 64) : n.log2 ≤ 63 := by
  by_cases hn : n = 0
  · subst hn
    exact Nat.zero_le _
  · exact Nat.le_of_lt_succ ((Nat.log2_lt hn).mpr h)

theorem ofNat_lt {n : ℕ} (h : n < 2 ^ 64) : ofNat n < 2 ^ 64 := by
  have hlog := log2_le h
  by_cases hn : n = 0
  · simp [ofNat, hn]
  · have hbounds := ofNat_bounds hn
    omega

/-- The only pattern but zero that is its own conversion, about `4.9e18`. -/
def fixedPoint : ℕ := 0x43D0F43D0F43D0F4

/-- A fixed pattern lies between `2 ^ 62` and `2 ^ 63`. -/
theorem log2_of_fixed {n : ℕ} (hn : n ≠ 0) (h : n < 2 ^ 64) (hfix : ofNat n = n) :
    n.log2 = 62 := by
  have hlog := log2_le h
  have hlow : 2 ^ n.log2 ≤ n := Nat.log2_self_le hn
  have hhigh : n < 2 ^ (n.log2 + 1) := Nat.lt_log2_self
  have hbounds := ofNat_bounds hn
  rw [hfix] at hbounds
  have hge : 61 ≤ n.log2 := by
    by_contra hlt
    have hpow : 2 ^ (n.log2 + 1) ≤ 2 ^ 61 := Nat.pow_le_pow_right (by decide) (by omega)
    omega
  interval_cases hcase : n.log2
  · omega
  · rfl
  · omega

theorem ofNat_eq_self_iff {n : ℕ} (h : n < 2 ^ 64) : ofNat n = n ↔ n = 0 ∨ n = fixedPoint := by
  constructor
  · intro hfix
    by_cases hn : n = 0
    · exact .inl hn
    · have hlog := log2_of_fixed hn h hfix
      rw [ofNat, if_neg hn, significand, hlog, if_neg (by decide), roundedQuotient] at hfix
      -- `1023 * (n / 1024) + n % 1024` is `1084 * 2 ^ 52`, or one more
      refine .inr ?_
      unfold fixedPoint
      split at hfix <;> omega
  · rintro (rfl | rfl)
    · rfl
    · decide +kernel

end InterProcess.Binary64
