import InterProcess.Lib.Lts
import Mathlib.Logic.Function.Basic

/-!
# Processes that construct what they share

Every process of a program constructs the shared data once, over whatever is
there, and then takes part in the program. `Launch.step` puts that in front of
a program given by its own step function; `construct` is what a construction
does to the state of the program, and `uses` says which steps of the program
change the shared data.

No process may construct the data once it is in use (`NoneConstructs`). The
rule for that is `Guarded.step`: there is a phase without use that ends only
when all processes have constructed the data.
-/

namespace InterProcess

open Function Lts

/-- A program, and which of its processes have constructed the shared data. -/
structure Launch (State ι : Type*) where
  program : State
  constructed : ι → Bool

namespace Launch

variable {State Label ι : Type*} [DecidableEq ι]

/-- A process constructs the shared data, or a step of the program. -/
inductive Move (Label ι : Type*)
  | construct (p : ι)
  | run (l : Label)

/-- Nobody has constructed anything. -/
def init (program : State) : Launch State ι :=
  { program := program, constructed := fun _ => false }

/-- How processes start: `process` is the one a label of the program moves. -/
structure Setup (State Label ι : Type*) where
  step : State → Label → Option State
  process : Label → ι
  construct : State → State
  uses : State → State → Bool

variable (s : Setup State Label ι)

/-- A process takes part in the program once it has constructed the data. -/
def step (σ : Launch State ι) : Move Label ι → Option (Launch State ι)
  | .construct p =>
      if σ.constructed p then none
      else some { program := s.construct σ.program, constructed := update σ.constructed p true }
  | .run l =>
      if σ.constructed (s.process l) then
        (s.step σ.program l).map fun program => { σ with program := program }
      else none

/-- A step of the program uses the shared data. -/
def use (σ : Launch State ι) : Move Label ι → Launch State ι → Bool
  | .construct _, _ => false
  | .run _, σ' => s.uses σ.program σ'.program

/-- The launch with a flag that the shared data has been used. -/
def watched : Launch State ι × Bool → Move Label ι → Option (Launch State ι × Bool) :=
  watch (step s) (use s)

/-- Once the data is in use, no process constructs it. -/
def NoneConstructs (σ : Launch State ι × Bool) : Prop :=
  σ.2 = true → ∀ p, step s σ.1 (.construct p) = none

variable {s}

theorem step_construct {σ σ' : Launch State ι} {p : ι} (h : step s σ (.construct p) = some σ') :
    σ.constructed p = false ∧ σ'.program = s.construct σ.program ∧
      σ'.constructed = update σ.constructed p true := by
  simp only [step] at h
  split at h
  · cases h
  · next hp =>
      cases h
      exact ⟨Bool.eq_false_iff.mpr hp, rfl, rfl⟩

theorem step_run {σ σ' : Launch State ι} {l : Label} (h : step s σ (.run l) = some σ') :
    σ.constructed (s.process l) = true ∧ s.step σ.program l = some σ'.program ∧
      σ'.constructed = σ.constructed := by
  simp only [step] at h
  split at h
  · next hp =>
      obtain ⟨program, hprogram, rfl⟩ := Option.map_eq_some_iff.mp h
      exact ⟨hp, hprogram, rfl⟩
  · cases h

theorem noneConstructs_iff {σ : Launch State ι × Bool} :
    NoneConstructs s σ ↔ (σ.2 = true → ∀ p, σ.1.constructed p = true) := by
  have hnone (p : ι) : step s σ.1 (.construct p) = none ↔ σ.1.constructed p = true := by
    simp only [step]
    split <;> simp_all
  simp only [NoneConstructs, hnone]

/-- What has been constructed stays so. -/
theorem constructed_mono {σ σ' : Launch State ι} {m : Move Label ι} (h : step s σ m = some σ')
    {p : ι} (hp : σ.constructed p = true) : σ'.constructed p = true := by
  cases m with
  | construct q =>
      obtain ⟨-, -, hconstructed⟩ := step_construct h
      rw [hconstructed]
      by_cases hpq : p = q
      · rw [hpq, update_self]
      · rw [update_of_ne hpq, hp]
  | run l => rw [(step_run h).2.2, hp]

/-- Nothing is used before `before` ends, and then all have constructed the data. -/
def Guarded (before : Launch State ι → Prop) (σ : Launch State ι × Bool) : Prop :=
  (before σ.1 ∧ σ.2 = false) ∨ ∀ p, σ.1.constructed p = true

variable {before : Launch State ι → Prop} {σ σ' : Launch State ι × Bool}

theorem Guarded.noneConstructs (h : Guarded before σ) : NoneConstructs s σ := by
  rw [noneConstructs_iff]
  intro hused
  rcases h with ⟨-, hunused⟩ | hall
  · rw [hunused] at hused
    cases hused
  · exact hall

/-- Constructions keep to `before`; a step of the program does so too and uses
nothing, or finds the data constructed by all. -/
theorem Guarded.step {m : Move Label ι} (h : Guarded before σ) (hstep : watched s σ m = some σ')
    (hconstruct : ∀ p, before σ.1 → Launch.step s σ.1 (.construct p) = some σ'.1 → before σ'.1)
    (hrun : ∀ l, m = .run l → before σ.1 → Launch.step s σ.1 (.run l) = some σ'.1 →
      (before σ'.1 ∧ s.uses σ.1.program σ'.1.program = false) ∨
        ∀ p, σ.1.constructed p = true) : Guarded before σ' := by
  obtain ⟨hstep, hseen⟩ := watch_eq_some.mp hstep
  rcases h with ⟨hbefore, hunused⟩ | hall
  · rw [hunused, Bool.false_or] at hseen
    cases m with
    | construct p => exact .inl ⟨hconstruct p hbefore hstep, hseen⟩
    | run l =>
        rcases hrun l rfl hbefore hstep with ⟨hbefore', huse⟩ | hall
        · exact .inl ⟨hbefore', hseen.trans huse⟩
        · exact .inr fun p => constructed_mono hstep (hall p)
  · exact .inr fun p => constructed_mono hstep (hall p)

end Launch

end InterProcess
