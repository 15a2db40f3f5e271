import Mathlib.Data.Finset.Insert
import Mathlib.Tactic.ByContra
import Mathlib.Tactic.TypeStar

/-!
# Labelled transition systems

A system is a partial step function `State → Label → Option State`: a label
names the thread that moves and the choice it makes, and `none` says that the
move is not enabled. Everything about interleavings is stated over `run`,
which plays a list of labels from a state.

* `Reachable.induction` — the invariant rule;
* `length_le_of_rank` — the bound on the length of a run;
* `Reachable.sweep` — reaching a state by bringing one thread after another there;
* `Along` / `StepsMeet` — a property of every state a run passes, a condition
  on every step a run takes;
* `along_of_stepsMeet` — the invariant rule for runs whose steps are
  conditioned;
* `along_iff_stepsMeet` — the same with the condition exact: the property
  holds along a run iff every step of it meets the condition;
* `StepsMeet.of_along` — the exact direction for runs that are conditioned already;
* `StepsMeet.of_run` — the same for a property of the end of a run;
* `watch` — the system with a flag that an event has happened.
-/

namespace InterProcess.Lts

variable {State Label : Type*} (step : State → Label → Option State)

/-- Play the labels in order from `σ`; `none` once one of them is not enabled. -/
def run : State → List Label → Option State
  | σ, [] => some σ
  | σ, l :: ls => (step σ l).bind fun σ' => run σ' ls

@[simp] theorem run_nil (σ : State) : run step σ [] = some σ := rfl

theorem run_cons (σ : State) (l : Label) (ls : List Label) :
    run step σ (l :: ls) = (step σ l).bind fun σ' => run step σ' ls := rfl

theorem run_append (σ : State) (ls ls' : List Label) :
    run step σ (ls ++ ls') = (run step σ ls).bind fun σ' => run step σ' ls' := by
  induction ls generalizing σ with
  | nil => rfl
  | cons l ls ih =>
      rw [List.cons_append, run_cons, run_cons]
      cases step σ l with
      | none => rfl
      | some σ' => exact ih σ'

/-- The states some list of labels leads to. -/
def Reachable (σ₀ σ : State) : Prop := ∃ ls, run step σ₀ ls = some σ

variable {step}

theorem Reachable.refl (σ : State) : Reachable step σ σ := ⟨[], rfl⟩

theorem Reachable.trans {σ₀ σ σ' : State} (h : Reachable step σ₀ σ)
    (h' : Reachable step σ σ') : Reachable step σ₀ σ' := by
  obtain ⟨ls, hls⟩ := h
  obtain ⟨ls', hls'⟩ := h'
  exact ⟨ls ++ ls', by rw [run_append, hls]; exact hls'⟩

theorem Reachable.single {σ σ' : State} {l : Label} (h : step σ l = some σ') :
    Reachable step σ σ' := ⟨[l], by rw [run_cons, h]; rfl⟩

theorem Reachable.tail {σ₀ σ σ' : State} {l : Label} (h : Reachable step σ₀ σ)
    (hstep : step σ l = some σ') : Reachable step σ₀ σ' :=
  h.trans (.single hstep)

/-- The sweep: when one more member of a family can always be brought along,
all members of a finite set can. -/
theorem Reachable.sweep {ι : Type*} [DecidableEq ι] {Done : Finset ι → State → Prop}
    (hone : ∀ s i σ, i ∉ s → Done s σ → ∃ σ', Reachable step σ σ' ∧ Done (insert i s) σ')
    {σ : State} (h : Done ∅ σ) (s : Finset ι) : ∃ σ', Reachable step σ σ' ∧ Done s σ' := by
  induction s using Finset.induction_on with
  | empty => exact ⟨σ, .refl σ, h⟩
  | insert i s hi ih =>
      obtain ⟨σ₁, hσ₁, hdone⟩ := ih
      obtain ⟨σ₂, hσ₂, hdone⟩ := hone s i σ₁ hi hdone
      exact ⟨σ₂, hσ₁.trans hσ₂, hdone⟩

/-- An invariant of single steps is an invariant of whole runs. -/
theorem invariant_of_run {Inv : State → Prop}
    (hstep : ∀ σ l σ', Inv σ → step σ l = some σ' → Inv σ') :
    ∀ (ls : List Label) {σ σ' : State}, Inv σ → run step σ ls = some σ' → Inv σ' := by
  intro ls
  induction ls with
  | nil =>
      intro σ σ' h hrun
      rw [run_nil, Option.some.injEq] at hrun
      exact hrun ▸ h
  | cons l ls ih =>
      intro σ σ' h hrun
      rw [run_cons, Option.bind_eq_some_iff] at hrun
      obtain ⟨σ₁, hσ₁, hrun⟩ := hrun
      exact ih (hstep σ l σ₁ h hσ₁) hrun

/-- The invariant rule: what holds initially and is kept by every step holds
in every reachable state. -/
theorem Reachable.induction {Inv : State → Prop} {σ₀ σ : State}
    (h : Reachable step σ₀ σ) (h₀ : Inv σ₀)
    (hstep : ∀ σ l σ', Inv σ → step σ l = some σ' → Inv σ') : Inv σ := by
  obtain ⟨ls, hls⟩ := h
  exact invariant_of_run hstep ls h₀ hls

/-- When every step raises the rank, a run is no longer than the rank has risen. -/
theorem length_le_of_rank {Inv : State → Prop} {rank : State → ℕ}
    (hinv : ∀ σ l σ', Inv σ → step σ l = some σ' → Inv σ')
    (hrank : ∀ σ l σ', Inv σ → step σ l = some σ' → rank σ < rank σ') :
    ∀ (ls : List Label) {σ σ' : State}, Inv σ → run step σ ls = some σ' →
      rank σ + ls.length ≤ rank σ' := by
  intro ls
  induction ls with
  | nil =>
      intro σ σ' _ hrun
      rw [run_nil, Option.some.injEq] at hrun
      subst hrun
      exact Nat.le_refl _
  | cons l ls ih =>
      intro σ σ' h hrun
      rw [run_cons, Option.bind_eq_some_iff] at hrun
      obtain ⟨σ₁, hσ₁, hrun⟩ := hrun
      have hfirst := hrank σ l σ₁ h hσ₁
      have hrest := ih (hinv σ l σ₁ h hσ₁) hrun
      rw [List.length_cons]
      omega

/-! ## Properties along a run, conditions on its steps -/

variable (step)

/-- `P` holds in every state the run of `ls` from `σ` passes, `σ` included. -/
def Along (P : State → Prop) : State → List Label → Prop
  | σ, [] => P σ
  | σ, l :: ls => P σ ∧ ∀ σ', step σ l = some σ' → Along P σ' ls

/-- Every step the run of `ls` from `σ` takes meets `ok` in the state before it. -/
def StepsMeet (ok : State → Label → Prop) : State → List Label → Prop
  | _, [] => True
  | σ, l :: ls => ∀ σ', step σ l = some σ' → ok σ l ∧ StepsMeet ok σ' ls

variable {step}

theorem StepsMeet.cons {ok : State → Label → Prop} {σ σ' : State} {l : Label} {ls : List Label}
    (hl : ok σ l) (hstep : step σ l = some σ') (hls : StepsMeet step ok σ' ls) :
    StepsMeet step ok σ (l :: ls) := by
  intro σ'' hσ''
  rw [hstep] at hσ''
  cases hσ''
  exact ⟨hl, hls⟩

theorem stepsMeet_true (ls : List Label) (σ : State) : StepsMeet step (fun _ _ => True) σ ls := by
  induction ls generalizing σ with
  | nil => trivial
  | cons l ls ih => exact fun σ' _ => ⟨trivial, ih σ'⟩

theorem StepsMeet.and {ok ok' : State → Label → Prop} {ls : List Label} {σ : State}
    (h : StepsMeet step ok σ ls) (h' : StepsMeet step ok' σ ls) :
    StepsMeet step (fun σ l => ok σ l ∧ ok' σ l) σ ls := by
  induction ls generalizing σ with
  | nil => trivial
  | cons l ls ih =>
      intro σ' hσ'
      obtain ⟨hl, hls⟩ := h σ' hσ'
      obtain ⟨hl', hls'⟩ := h' σ' hσ'
      exact ⟨⟨hl, hl'⟩, ih hls hls'⟩

/-- A condition every step from the invariant meets is met by every run. -/
theorem stepsMeet_of_invariant {Inv : State → Prop} {ok : State → Label → Prop}
    (hok : ∀ σ l, Inv σ → ok σ l)
    (hstep : ∀ σ l σ', Inv σ → step σ l = some σ' → Inv σ') :
    ∀ {ls : List Label} {σ : State}, Inv σ → StepsMeet step ok σ ls := by
  intro ls
  induction ls with
  | nil => intro σ _; trivial
  | cons l ls ih => intro σ h σ' hσ'; exact ⟨hok σ l h, ih (hstep σ l σ' h hσ')⟩

instance Along.decidable {P : State → Prop} [DecidablePred P] :
    ∀ (σ : State) (ls : List Label), Decidable (Along step P σ ls)
  | σ, [] => inferInstanceAs (Decidable (P σ))
  | σ, l :: ls =>
      match hstep : step σ l with
      | none => decidable_of_iff (P σ)
          ⟨fun h => ⟨h, fun σ' hσ' => by rw [hstep] at hσ'; cases hσ'⟩, fun h => h.1⟩
      | some σ₁ =>
          have hrest : Decidable (Along step P σ₁ ls) := Along.decidable σ₁ ls
          decidable_of_iff (P σ ∧ Along step P σ₁ ls)
            ⟨fun h => ⟨h.1, fun σ' hσ' => by rw [hstep] at hσ'; cases hσ'; exact h.2⟩,
              fun h => ⟨h.1, h.2 σ₁ hstep⟩⟩

instance StepsMeet.decidable {ok : State → Label → Prop} [∀ σ l, Decidable (ok σ l)] :
    ∀ (σ : State) (ls : List Label), Decidable (StepsMeet step ok σ ls)
  | _, [] => isTrue trivial
  | σ, l :: ls =>
      match hstep : step σ l with
      | none => isTrue fun σ' hσ' => by rw [hstep] at hσ'; cases hσ'
      | some σ₁ =>
          have hrest : Decidable (StepsMeet step ok σ₁ ls) := StepsMeet.decidable σ₁ ls
          decidable_of_iff (ok σ l ∧ StepsMeet step ok σ₁ ls)
            ⟨fun h σ' hσ' => by rw [hstep] at hσ'; cases hσ'; exact h, fun h => h σ₁ hstep⟩

theorem Along.head {P : State → Prop} {σ : State} {ls : List Label}
    (h : Along step P σ ls) : P σ := by
  cases ls with
  | nil => exact h
  | cons l ls => exact h.1

theorem Along.mono {P Q : State → Prop} (hPQ : ∀ σ, P σ → Q σ) :
    ∀ {ls : List Label} {σ : State}, Along step P σ ls → Along step Q σ ls := by
  intro ls
  induction ls with
  | nil => intro σ h; exact hPQ σ h
  | cons l ls ih => intro σ h; exact ⟨hPQ σ h.1, fun σ' hσ' => ih (h.2 σ' hσ')⟩

/-- A property along a run holds in the state the run ends in. -/
theorem Along.last {P : State → Prop} :
    ∀ {ls : List Label} {σ σ' : State}, Along step P σ ls → run step σ ls = some σ' → P σ' := by
  intro ls
  induction ls with
  | nil =>
      intro σ σ' h hrun
      rw [run_nil, Option.some.injEq] at hrun
      exact hrun ▸ h
  | cons l ls ih =>
      intro σ σ' h hrun
      rw [run_cons, Option.bind_eq_some_iff] at hrun
      obtain ⟨σ₁, hσ₁, hrun⟩ := hrun
      exact ih (h.2 σ₁ hσ₁) hrun

/-- A property along a run holds before each of its steps. -/
theorem Along.stepsMeet {P : State → Prop} :
    ∀ {ls : List Label} {σ : State}, Along step P σ ls → StepsMeet step (fun σ _ => P σ) σ ls := by
  intro ls
  induction ls with
  | nil => intro σ _; trivial
  | cons l ls ih => intro σ h σ' hσ'; exact ⟨h.1, ih (h.2 σ' hσ')⟩

/-- A run whose end shows an observation that `P` excludes refutes `P` along it. -/
theorem not_along_of_run {Obs : Type*} {P : State → Prop} (obs : State → Obs) (b : Obs)
    {ls : List Label} {σ : State} (hrun : (run step σ ls).map obs = some b)
    (hbad : ∀ σ', obs σ' = b → ¬ P σ') : ¬ Along step P σ ls := by
  intro halong
  obtain ⟨σ', hσ', hobs⟩ := Option.map_eq_some_iff.mp hrun
  exact hbad σ' hobs (halong.last hσ')

/-- The invariant rule for conditioned runs: what holds initially and is kept
by every step that meets `ok` holds along every run whose steps all meet it. -/
theorem along_of_stepsMeet {Inv : State → Prop} {ok : State → Label → Prop}
    (hstep : ∀ σ l σ', Inv σ → ok σ l → step σ l = some σ' → Inv σ') :
    ∀ {ls : List Label} {σ : State}, Inv σ → StepsMeet step ok σ ls →
      Along step Inv σ ls := by
  intro ls
  induction ls with
  | nil => intro σ h _; exact h
  | cons l ls ih =>
      intro σ h hok
      refine ⟨h, fun σ' hσ' => ?_⟩
      obtain ⟨hl, hls⟩ := hok σ' hσ'
      exact ih (hstep σ l σ' h hl hσ') hls

/-- An invariant of every step holds along every run. -/
theorem along_of_invariant {Inv : State → Prop}
    (hstep : ∀ σ l σ', Inv σ → step σ l = some σ' → Inv σ') :
    ∀ {ls : List Label} {σ : State}, Inv σ → Along step Inv σ ls := by
  intro ls
  induction ls with
  | nil => intro σ h; exact h
  | cons l ls ih => intro σ h; exact ⟨h, fun σ' hσ' => ih (hstep σ l σ' h hσ')⟩

/-! ## Exact conditions -/

/-- When a step that fails `ok` lands in a state without `P`, a run that has `P`
throughout takes only steps that meet `ok`. -/
theorem StepsMeet.of_along {Inv P : State → Prop} {pre ok : State → Label → Prop}
    (hstep : ∀ σ l σ', Inv σ → pre σ l → ok σ l → step σ l = some σ' → Inv σ')
    (hbad : ∀ σ l σ', Inv σ → pre σ l → ¬ ok σ l → step σ l = some σ' → ¬ P σ') :
    ∀ {ls : List Label} {σ : State}, Inv σ → StepsMeet step pre σ ls → Along step P σ ls →
      StepsMeet step ok σ ls := by
  intro ls
  induction ls with
  | nil => intro σ _ _ _; trivial
  | cons l ls ih =>
      intro σ h hpre halong σ' hσ'
      obtain ⟨hl, hls⟩ := hpre σ' hσ'
      have hrest := halong.2 σ' hσ'
      have hok : ok σ l := by
        by_contra hok
        exact hbad σ l σ' h hl hok hσ' hrest.head
      exact ⟨hok, ih (hstep σ l σ' h hl hok hσ') hls hrest⟩

/-- The exact form: when a step that fails `ok` lands in a state without `P`,
a run has `P` throughout iff all its steps meet `ok`. -/
theorem along_iff_stepsMeet {Inv P : State → Prop} {ok : State → Label → Prop}
    (hP : ∀ σ, Inv σ → P σ)
    (hstep : ∀ σ l σ', Inv σ → ok σ l → step σ l = some σ' → Inv σ')
    (hbad : ∀ σ l σ', Inv σ → ¬ ok σ l → step σ l = some σ' → ¬ P σ') :
    ∀ {ls : List Label} {σ : State}, Inv σ →
      (Along step P σ ls ↔ StepsMeet step ok σ ls) := by
  intro ls σ h
  refine ⟨fun halong => ?_, fun hok => (along_of_stepsMeet hstep h hok).mono hP⟩
  exact StepsMeet.of_along (fun σ l σ' h _ => hstep σ l σ' h) (fun σ l σ' h _ => hbad σ l σ' h)
    h (stepsMeet_true ls σ) halong

/-- When a step that fails `ok` does damage no later step repairs, a run
without damage at its end takes only steps that meet `ok`. -/
theorem StepsMeet.of_run {Inv Bad : State → Prop} {pre ok : State → Label → Prop}
    (hInv : ∀ σ l σ', Inv σ → pre σ l → step σ l = some σ' → Inv σ')
    (hbad : ∀ σ l σ', Inv σ → pre σ l → ¬ ok σ l → step σ l = some σ' → Bad σ')
    (hstays : ∀ σ l σ', Inv σ → Bad σ → pre σ l → step σ l = some σ' → Bad σ') :
    ∀ {ls : List Label} {σ σ' : State}, Inv σ → StepsMeet step pre σ ls →
      run step σ ls = some σ' → ¬ Bad σ' → StepsMeet step ok σ ls := by
  intro ls
  induction ls with
  | nil => intro σ σ' _ _ _ _; trivial
  | cons l ls ih =>
      intro σ σ' h hpre hrun hgood σ₁ hσ₁
      obtain ⟨hl, hls⟩ := hpre σ₁ hσ₁
      rw [run_cons, hσ₁, Option.bind_some] at hrun
      have h₁ := hInv σ l σ₁ h hl hσ₁
      refine ⟨?_, ih h₁ hls hrun hgood⟩
      by_contra hok
      have halong : Along step (fun σ => Inv σ ∧ Bad σ) σ₁ ls :=
        along_of_stepsMeet (fun σ l σ' h hl hstep =>
          ⟨hInv σ l σ' h.1 hl hstep, hstays σ l σ' h.1 h.2 hl hstep⟩)
          ⟨h₁, hbad σ l σ₁ h hl hok hσ₁⟩ hls
      exact hgood (halong.last hrun).2

/-! ## Events -/

variable (step)

/-- The system with a flag that is set once a step was an `event`. -/
def watch (event : State → Label → State → Bool) (σ : State × Bool) (l : Label) :
    Option (State × Bool) :=
  (step σ.1 l).map fun σ' => (σ', σ.2 || event σ.1 l σ')

variable {step}

theorem watch_eq_some {event : State → Label → State → Bool} {σ σ' : State × Bool} {l : Label} :
    watch step event σ l = some σ' ↔
      step σ.1 l = some σ'.1 ∧ σ'.2 = (σ.2 || event σ.1 l σ'.1) := by
  unfold watch
  rw [Option.map_eq_some_iff]
  constructor
  · rintro ⟨σ₁, hstep, rfl⟩
    exact ⟨hstep, rfl⟩
  · rintro ⟨hstep, hseen⟩
    exact ⟨σ'.1, hstep, Prod.ext rfl hseen.symm⟩

end InterProcess.Lts
