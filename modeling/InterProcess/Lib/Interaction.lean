import Mathlib.Data.List.Basic
import Mathlib.Tactic.TypeStar

/-!
# Programs that ask their environment

A program is done, or it performs an operation and goes on with the answer: a
system call and whether it has succeeded, a `fork` and the side it has returned
on. What the environment answers is open. A *run* of a program is a choice of
answers, written down as the trace of operations with their answers, and the
result it leads to; a statement for every outcome of the calls is one for every
run.

`runs_bind` takes a run of a sequence apart, `runs_perform` an operation with
what follows it; together with `runs_pure` they evaluate a program along a run.
Two runs that begin alike are one run (`Runs.eq_of_append`).
Code that returns early when a call fails is taken apart by `runs_check`.
`outcomes` lists the runs whose answers are taken from a list.
-/

namespace InterProcess

/-- A program with operations `Op`, each answered by an `Ans`. -/
inductive Interaction (Op Ans β : Type)
  | done (b : β)
  | ask (op : Op) (next : Ans → Interaction Op Ans β)

namespace Interaction

variable {Op Ans α β : Type}

def andThen : Interaction Op Ans α → (α → Interaction Op Ans β) → Interaction Op Ans β
  | .done a, f => f a
  | .ask op next, f => .ask op fun a => (next a).andThen f

instance : Monad (Interaction Op Ans) where
  pure := .done
  bind := andThen

/-- Perform one operation and return its answer. -/
def perform (op : Op) : Interaction Op Ans Ans := .ask op .done

/-! ## Runs -/

/-- A run: the operations performed with their answers, and the result. -/
inductive Runs : Interaction Op Ans β → List (Op × Ans) → β → Prop
  | done (b : β) : Runs (.done b) [] b
  | ask {op : Op} {next : Ans → Interaction Op Ans β} {a : Ans} {trace : List (Op × Ans)} {b : β}
      (h : Runs (next a) trace b) : Runs (.ask op next) ((op, a) :: trace) b

section Runs

variable {p : Interaction Op Ans α} {f : α → Interaction Op Ans β} {trace : List (Op × Ans)}
  {b b' : β} {op : Op}

theorem runs_pure : Runs (pure b : Interaction Op Ans β) trace b' ↔ trace = [] ∧ b' = b := by
  constructor
  · intro h
    cases h
    exact ⟨rfl, rfl⟩
  · rintro ⟨rfl, rfl⟩
    exact .done b'

theorem runs_ask {next : Ans → Interaction Op Ans β} :
    Runs (.ask op next) trace b ↔ ∃ a rest, trace = (op, a) :: rest ∧ Runs (next a) rest b := by
  constructor
  · intro h
    cases h with
    | ask h => exact ⟨_, _, rfl, h⟩
  · rintro ⟨a, rest, rfl, h⟩
    exact .ask h

/-- An operation and what follows it. -/
theorem runs_perform {next : Ans → Interaction Op Ans β} :
    Runs (perform op >>= next) trace b ↔
      ∃ a rest, trace = (op, a) :: rest ∧ Runs (next a) rest b := runs_ask

/-- A run of a sequence is a run of its first part and one of its second. -/
theorem runs_bind : Runs (p >>= f) trace b ↔
    ∃ a first rest, trace = first ++ rest ∧ Runs p first a ∧ Runs (f a) rest b := by
  induction p generalizing trace with
  | done a =>
      constructor
      · intro h
        exact ⟨a, [], trace, rfl, .done a, h⟩
      · rintro ⟨a', first, rest, rfl, h, hrest⟩
        cases h
        exact hrest
  | ask op next ih =>
      show Runs (.ask op fun a => next a >>= f) trace b ↔ _
      rw [runs_ask]
      constructor
      · rintro ⟨ans, tail, rfl, h⟩
        obtain ⟨a, first, rest, rfl, hfirst, hrest⟩ := (ih ans).mp h
        exact ⟨a, (op, ans) :: first, rest, rfl, .ask hfirst, hrest⟩
      · rintro ⟨a, first, rest, rfl, h, hrest⟩
        obtain ⟨ans, first, rfl, hfirst⟩ := runs_ask.mp h
        exact ⟨ans, first ++ rest, rfl, (ih ans).mpr ⟨a, first, rest, rfl, hfirst, hrest⟩⟩

/-- What a program has done and come to is settled by the operations and their answers. -/
theorem Runs.eq_of_append {first first' rest rest' : List (Op × Ans)} {a a' : α}
    (h : Runs p first a) (h' : Runs p first' a') (heq : first ++ rest = first' ++ rest') :
    a = a' ∧ rest = rest' := by
  induction h generalizing first' with
  | done a =>
      cases h'
      exact ⟨rfl, heq⟩
  | ask _ ih =>
      cases h' with
      | ask h' =>
          rw [List.cons_append, List.cons_append, List.cons.injEq, Prod.mk.injEq] at heq
          obtain ⟨⟨-, rfl⟩, heq⟩ := heq
          exact ih h' heq

/-- A run of a sequence whose first part is known. -/
theorem Runs.of_bind {first rest : List (Op × Ans)} {a : α} (hfirst : Runs p first a)
    (h : Runs (p >>= f) (first ++ rest) b) : Runs (f a) rest b := by
  obtain ⟨a', first', rest', heq, hfirst', hrest⟩ := runs_bind.mp h
  obtain ⟨rfl, rfl⟩ := hfirst.eq_of_append hfirst' heq
  exact hrest

end Runs

/-! ## Early returns -/

section Checks

variable {trace : List (Op × Ans)} {b early : β}

/-- A part that reports a failure ends the program. -/
theorem runs_check {p : Interaction Op Ans Bool} {next : Interaction Op Ans β} :
    Runs (do if !(← p) then return early
             next) trace b ↔
      (Runs p trace false ∧ b = early) ∨
      ∃ first rest, trace = first ++ rest ∧ Runs p first true ∧ Runs next rest b := by
  rw [runs_bind]
  constructor
  · rintro ⟨ok, first, rest, rfl, hp, h⟩
    cases ok with
    | false =>
        obtain ⟨rfl, rfl⟩ := runs_pure.mp h
        rw [List.append_nil]
        exact .inl ⟨hp, rfl⟩
    | true => exact .inr ⟨first, rest, rfl, hp, h⟩
  · rintro (⟨hp, rfl⟩ | ⟨first, rest, rfl, hp, h⟩)
    · exact ⟨false, trace, [], (List.append_nil _).symm, hp, runs_pure.mpr ⟨rfl, rfl⟩⟩
    · exact ⟨true, first, rest, rfl, hp, h⟩

/-- An operation that is not answered as expected ends the program. -/
theorem runs_expect [DecidableEq Ans] {op : Op} {expected : Ans} {next : Interaction Op Ans β} :
    Runs (do if (← perform op) ≠ expected then return early
             next) trace b ↔
      (∃ a, a ≠ expected ∧ trace = [(op, a)] ∧ b = early) ∨
      ∃ rest, trace = (op, expected) :: rest ∧ Runs next rest b := by
  rw [runs_perform]
  constructor
  · rintro ⟨a, rest, rfl, h⟩
    split at h
    · next hne =>
        obtain ⟨rfl, rfl⟩ := runs_pure.mp h
        exact .inl ⟨a, hne, rfl, rfl⟩
    · next heq =>
        rw [not_not] at heq
        subst heq
        exact .inr ⟨rest, rfl, h⟩
  · rintro (⟨a, hne, rfl, rfl⟩ | ⟨rest, rfl, h⟩)
    · refine ⟨a, [], rfl, ?_⟩
      rw [if_pos hne]
      exact runs_pure.mpr ⟨rfl, rfl⟩
    · refine ⟨expected, rest, rfl, ?_⟩
      rw [if_neg (not_not.mpr rfl)]
      exact h

/-- The same where the answer is whether the operation has succeeded. -/
theorem runs_check_perform {op : Op} {trace : List (Op × Bool)} {next : Interaction Op Bool β} :
    Runs (do if !(← perform op) then return early
             next) trace b ↔
      (trace = [(op, false)] ∧ b = early) ∨
      ∃ rest, trace = (op, true) :: rest ∧ Runs next rest b := by
  rw [runs_perform]
  constructor
  · rintro ⟨ok, rest, rfl, h⟩
    cases ok with
    | false =>
        obtain ⟨rfl, rfl⟩ := runs_pure.mp h
        exact .inl ⟨rfl, rfl⟩
    | true => exact .inr ⟨rest, rfl, h⟩
  · rintro (⟨rfl, rfl⟩ | ⟨rest, rfl, h⟩)
    · exact ⟨false, [], rfl, runs_pure.mpr ⟨rfl, rfl⟩⟩
    · exact ⟨true, rest, rfl, h⟩

end Checks

/-! ## Environments -/

/-- An environment answers an operation by its state, which the operation with its answer
changes. -/
structure Environment (Op Ans State : Type) where
  answer : State → Op → Ans
  effect : State → Op × Ans → State

/-- The run of a program in an environment: the state it leaves, and its result. -/
def play {State : Type} (env : Environment Op Ans State) (σ : State) :
    Interaction Op Ans β → State × β
  | .done b => (σ, b)
  | .ask op next =>
      play env (env.effect σ (op, env.answer σ op)) (next (env.answer σ op))

/-- It is one of the runs of the program, and its effects are those of the operations. -/
theorem runs_play {State : Type} (env : Environment Op Ans State) (p : Interaction Op Ans β)
    (σ : State) : ∃ trace, Runs p trace (p.play env σ).2 ∧
      (p.play env σ).1 = trace.foldl env.effect σ := by
  induction p generalizing σ with
  | done b => exact ⟨[], .done b, rfl⟩
  | ask op next ih =>
      obtain ⟨trace, hruns, heffect⟩ :=
        ih (env.answer σ op) (env.effect σ (op, env.answer σ op))
      exact ⟨(op, env.answer σ op) :: trace, .ask hruns, heffect⟩

section Play

variable {State : Type} (env : Environment Op Ans State) (σ : State)

theorem play_pure (b : β) : (pure b : Interaction Op Ans β).play env σ = (σ, b) := rfl

theorem play_perform (op : Op) (next : Ans → Interaction Op Ans β) :
    (perform op >>= next).play env σ =
      (next (env.answer σ op)).play env (env.effect σ (op, env.answer σ op)) := rfl

/-- The second part of a sequence is played in the state the first one leaves. -/
theorem play_bind (p : Interaction Op Ans α) (f : α → Interaction Op Ans β) :
    (p >>= f).play env σ = (f (p.play env σ).2).play env (p.play env σ).1 := by
  induction p generalizing σ with
  | done a => rfl
  | ask op next ih => exact ih (env.answer σ op) (env.effect σ (op, env.answer σ op))

/-- The same for a part whose outcome is known. -/
theorem play_bind_of_eq {p : Interaction Op Ans α} {σ' : State} {a : α}
    (h : p.play env σ = (σ', a)) (f : α → Interaction Op Ans β) :
    (p >>= f).play env σ = (f a).play env σ' := by
  rw [play_bind, h]

end Play

/-! ## All runs -/

/-- The runs with answers from `answers`, those with an earlier answer first. -/
def outcomes (answers : List Ans) : Interaction Op Ans β → List (List (Op × Ans) × β)
  | .done b => [([], b)]
  | .ask op next =>
      answers.flatMap fun a => ((next a).outcomes answers).map fun r => ((op, a) :: r.1, r.2)

theorem mem_outcomes {answers : List Ans} {p : Interaction Op Ans β} {trace : List (Op × Ans)}
    {b : β} : (trace, b) ∈ p.outcomes answers ↔
      Runs p trace b ∧ ∀ x ∈ trace, x.2 ∈ answers := by
  induction p generalizing trace with
  | done b' =>
      rw [outcomes, List.mem_singleton, Prod.mk.injEq]
      constructor
      · rintro ⟨rfl, rfl⟩
        exact ⟨.done b, List.forall_mem_nil _⟩
      · rintro ⟨h, -⟩
        cases h
        exact ⟨rfl, rfl⟩
  | ask op next ih =>
      simp only [outcomes, List.mem_flatMap, List.mem_map, Prod.exists, Prod.mk.injEq]
      constructor
      · rintro ⟨a, ha, rest, b', hrest, rfl, rfl⟩
        obtain ⟨hruns, hmem⟩ := (ih a).mp hrest
        exact ⟨.ask hruns, List.forall_mem_cons.mpr ⟨ha, hmem⟩⟩
      · rintro ⟨h, hmem⟩
        obtain ⟨a, rest, rfl, hruns⟩ := runs_ask.mp h
        obtain ⟨ha, hrest⟩ := List.forall_mem_cons.mp hmem
        exact ⟨a, ha, rest, b, (ih a).mpr ⟨hruns, hrest⟩, rfl, rfl⟩

theorem outcomes_pure (answers : List Ans) (b : β) :
    (pure b : Interaction Op Ans β).outcomes answers = [([], b)] := rfl

/-- One run for each answer, and each run of what follows. -/
theorem outcomes_perform (answers : List Ans) (op : Op) (next : Ans → Interaction Op Ans β) :
    (perform op >>= next).outcomes answers =
      answers.flatMap fun a =>
        ((next a).outcomes answers).map fun r => ((op, a) :: r.1, r.2) := rfl

/-- The runs of a sequence. -/
theorem outcomes_bind (answers : List Ans) (p : Interaction Op Ans α)
    (f : α → Interaction Op Ans β) : (p >>= f).outcomes answers =
      (p.outcomes answers).flatMap fun r =>
        ((f r.2).outcomes answers).map fun r' => (r.1 ++ r'.1, r'.2) := by
  induction p with
  | done a =>
      show (f a).outcomes answers = _
      simp [outcomes]
  | ask op next ih =>
      show (answers.flatMap fun a => ((next a >>= f).outcomes answers).map _) = _
      simp only [ih, outcomes, List.flatMap_assoc, List.flatMap_map, List.map_flatMap,
        List.map_map, Function.comp_def, List.cons_append]

end Interaction

end InterProcess
