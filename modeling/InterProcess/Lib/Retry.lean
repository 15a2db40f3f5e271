import InterProcess.Lib.Lts
import InterProcess.Lib.Threads

/-!
# Compare-exchanges that are tried again

Threads load a shared value and try to exchange it against what they have
loaded. An exchange fails only when the value has changed since, so a thread
whose exchange fails has been *stale*, and one exchange that succeeds makes at
most the other threads stale. So among `n` threads there are at most `n`
attempts for each success, whatever the schedule (`attempts_le`): the threads do
not keep each other from getting on.

`tally_le` is the counting behind it: what the steps of a run cost is covered by
a potential and by what the run has earned.
-/

namespace InterProcess.Retry

open Function Lts Threads

variable {State Label ι α V : Type*}

/-! ## Costs -/

section Costs

variable (step : State → Label → Option State)

/-- What the steps of a run cost together. -/
def tally (cost : State → Label → ℕ) : State → List Label → ℕ
  | _, [] => 0
  | σ, l :: ls =>
      match step σ l with
      | none => 0
      | some σ' => cost σ l + tally cost σ' ls

variable {step} {cost : State → Label → ℕ}

theorem tally_cons {σ σ' : State} {l : Label} (ls : List Label) (h : step σ l = some σ') :
    tally step cost σ (l :: ls) = cost σ l + tally step cost σ' ls := by
  simp only [tally, h]

/-- When every step is covered by the potential it uses up and by what it earns, so is the
run. -/
theorem tally_le {Inv : State → Prop} {potential earned : State → ℕ}
    (hinv : ∀ σ l σ', Inv σ → step σ l = some σ' → Inv σ')
    (hstep : ∀ σ l σ', Inv σ → step σ l = some σ' →
      potential σ' + cost σ l + earned σ ≤ potential σ + earned σ') :
    ∀ (ls : List Label) {σ σ' : State}, Inv σ → run step σ ls = some σ' →
      potential σ' + tally step cost σ ls + earned σ ≤ potential σ + earned σ' := by
  intro ls
  induction ls with
  | nil =>
      intro σ σ' _ hrun
      rw [run_nil, Option.some.injEq] at hrun
      subst hrun
      exact Nat.le_refl _
  | cons l ls ih =>
      intro σ σ' h hrun
      rw [run_cons, Option.bind_eq_some_iff] at hrun
      obtain ⟨σ₁, hσ₁, hrun⟩ := hrun
      have hfirst := hstep σ l σ₁ h hσ₁
      have hrest := ih (hinv σ l σ₁ h hσ₁) hrun
      rw [tally_cons ls hσ₁]
      omega

end Costs

/-! ## Contention -/

/-- A value that threads exchange. `holding` is the value the thread's next exchange is to
compare with; `wins` counts how often the value has been written. -/
structure Contention (State ι α V : Type*) where
  value : State → V
  threads : State → ι → α
  holding : α → Option V
  wins : State → ℕ

variable [DecidableEq V]

/-- Whether the exchange the thread is about to try would fail. -/
def staleness (held : Option V) (value : V) : ℕ :=
  match held with
  | none => 0
  | some v => if v = value then 0 else 1

theorem staleness_le (held : Option V) (value : V) : staleness held value ≤ 1 := by
  cases held with
  | none => exact Nat.zero_le 1
  | some v =>
      show (if v = value then 0 else 1) ≤ 1
      split
      · exact Nat.zero_le 1
      · exact Nat.le_refl 1

theorem staleness_of_fresh {held : Option V} {value : V} (h : held = none ∨ held = some value) :
    staleness held value = 0 := by
  rcases h with rfl | rfl
  · rfl
  · exact if_pos rfl

theorem staleness_of_ne {v value : V} (h : v ≠ value) : staleness (some v) value = 1 := if_neg h

/-- An access of a thread to the value, by what the thread holds before and after it. The flag
says whether it is an exchange that fails on a stale thread only. -/
inductive Access (value value' : V) (wins wins' : ℕ) (held held' : Option V) : Bool → Prop
  /-- What the thread holds now, it has held before or is the value. -/
  | quiet (hvalue : value' = value) (hwins : wins ≤ wins')
      (hheld' : held' = none ∨ held' = some value ∨ held' = held) :
      Access value value' wins wins' held held' false
  | lost {v : V} (hvalue : value' = value) (hwins : wins ≤ wins') (hheld : held = some v)
      (hne : v ≠ value) (hheld' : held' = none ∨ held' = some value) :
      Access value value' wins wins' held held' true
  | won (hwins : wins + 1 ≤ wins') (hheld' : held' = none) :
      Access value value' wins wins' held held' true

namespace Contention

section Stale

variable (c : Contention State ι α V) [Fintype ι]

/-- How many threads are stale. -/
def stale (σ : State) : ℕ := total (fun a => staleness (c.holding a) (c.value σ)) (c.threads σ)

theorem stale_le_card (σ : State) : c.stale σ ≤ Fintype.card ι := by
  have hle : c.stale σ ≤ Fintype.card ι * 1 :=
    total_le_card_mul fun i => staleness_le (c.holding (c.threads σ i)) (c.value σ)
  rwa [Nat.mul_one] at hle

end Stale

variable (c : Contention State ι α V) [DecidableEq ι]

/-- A step is an access of one thread, or leaves all of them alone, or writes the value. -/
inductive Turn (σ σ' : State) : Bool → Prop
  | access {i : ι} {a : α} {attempt : Bool} (hthreads : c.threads σ' = update (c.threads σ) i a)
      (h : Access (c.value σ) (c.value σ') (c.wins σ) (c.wins σ') (c.holding (c.threads σ i))
        (c.holding a) attempt) : Turn σ σ' attempt
  | away (hthreads : c.threads σ' = c.threads σ) (hvalue : c.value σ' = c.value σ)
      (hwins : c.wins σ ≤ c.wins σ') : Turn σ σ' false
  | written (hwins : c.wins σ + 1 ≤ c.wins σ') : Turn σ σ' false

section Turn

variable [Fintype ι] {c} {σ σ' : State}

/-- A step is covered: a failure by the thread being stale, a success by itself. -/
theorem Turn.covered {attempt : Bool} (h : c.Turn σ σ' attempt) :
    c.stale σ' + attempt.toNat + Fintype.card ι * c.wins σ ≤
      c.stale σ + Fintype.card ι * c.wins σ' := by
  cases h with
  | @access i a _ hthreads h =>
      have hmove := total_update (fun a => staleness (c.holding a) (c.value σ)) (c.threads σ) i a
      cases h with
      | quiet hvalue hwins hheld' =>
          have hmul := Nat.mul_le_mul_left (Fintype.card ι) hwins
          have hle : staleness (c.holding a) (c.value σ) ≤
              staleness (c.holding (c.threads σ i)) (c.value σ) := by
            rcases hheld' with hheld' | hheld' | hheld'
            · rw [staleness_of_fresh (.inl hheld')]
              exact Nat.zero_le _
            · rw [staleness_of_fresh (.inr hheld')]
              exact Nat.zero_le _
            · rw [hheld']
          simp only [stale, hthreads, hvalue, Bool.toNat_false] at hmove ⊢
          omega
      | @lost v hvalue hwins hheld hne hheld' =>
          have hmul := Nat.mul_le_mul_left (Fintype.card ι) hwins
          have hstale : staleness (c.holding (c.threads σ i)) (c.value σ) = 1 := by
            rw [hheld, staleness_of_ne hne]
          have hfresh := staleness_of_fresh hheld'
          simp only [stale, hthreads, hvalue, Bool.toNat_true] at hmove ⊢
          omega
      | won hwins hheld' =>
          have hmul := Nat.mul_le_mul_left (Fintype.card ι) hwins
          rw [Nat.mul_add, Nat.mul_one] at hmul
          -- the winner is not stale, so not all threads are
          have hlt : c.stale σ' < Fintype.card ι * 1 := by
            refine total_lt_card_mul (i := i) (fun j => staleness_le _ _) ?_
            have hself : c.threads σ' i = a := by rw [hthreads, update_self]
            rw [hself, staleness_of_fresh (.inl hheld')]
            exact Nat.zero_lt_one
          simp only [Bool.toNat_true]
          omega
  | away hthreads hvalue hwins =>
      have hmul := Nat.mul_le_mul_left (Fintype.card ι) hwins
      simp only [stale, hthreads, hvalue, Bool.toNat_false]
      omega
  | written hwins =>
      have hmul := Nat.mul_le_mul_left (Fintype.card ι) hwins
      rw [Nat.mul_add, Nat.mul_one] at hmul
      have hle := c.stale_le_card σ'
      simp only [Bool.toNat_false]
      omega

end Turn

/-- Among `n` threads there are at most `n` attempts for each write, in every run. -/
theorem attempts_le [Fintype ι] {step : State → Label → Option State}
    {attempt : State → Label → Bool} {Inv : State → Prop}
    (hinv : ∀ σ l σ', Inv σ → step σ l = some σ' → Inv σ')
    (hturn : ∀ σ l σ', Inv σ → step σ l = some σ' → c.Turn σ σ' (attempt σ l))
    (ls : List Label) {σ σ' : State} (h : Inv σ)
    (hfresh : ∀ i, c.holding (c.threads σ i) = none) (hrun : run step σ ls = some σ') :
    tally step (fun σ l => (attempt σ l).toNat) σ ls + Fintype.card ι * c.wins σ ≤
      Fintype.card ι * c.wins σ' := by
  have hcovered := tally_le hinv (fun σ l σ' h hstep => (hturn σ l σ' h hstep).covered) ls h hrun
  have hzero : c.stale σ = 0 :=
    total_eq_zero fun i => staleness_of_fresh (.inl (hfresh i))
  omega

end Contention

end InterProcess.Retry
