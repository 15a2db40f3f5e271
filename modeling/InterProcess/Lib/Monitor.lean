import InterProcess.Lib.Interaction
import InterProcess.Lib.Lts

/-!
# Monitors

A monitor follows a run of a program, one operation with its answer after the
other, and objects when one goes wrong: a system whose labels are the answered
operations, with a step that is not enabled for an objection.

A program *heeds* the monitor when it stops right after an operation the monitor
objects to, and its result tells whether that has happened (`Heeds`). The rules
take a program apart: a result, an operation, a sequence, a part that is checked
with an early return. Then whether a run has failed is a condition on the answers
alone: `Heeds.run_isSome_iff`.
-/

namespace InterProcess.Interaction

variable {Op Ans State α β : Type}

/-- The monitor objects to the last operation of the trace, and to none before it. -/
def ObjectsAtLast (m : State → Op × Ans → Option State) (σ : State) (trace : List (Op × Ans)) :
    Prop :=
  ∃ before x σ', trace = before ++ [x] ∧ Lts.run m σ before = some σ' ∧ m σ' x = none

/-- Every run stops where the monitor objects, with a result that `fails`; or the monitor does
not object, and `Q` holds of its state and the result. -/
def Heeds (m : State → Op × Ans → Option State) (fails : β → Prop) (Q : State → β → Prop)
    (σ : State) (p : Interaction Op Ans β) : Prop :=
  ∀ trace b, Runs p trace b →
    (ObjectsAtLast m σ trace ∧ fails b) ∨
      ∃ σ', Lts.run m σ trace = some σ' ∧ ¬fails b ∧ Q σ' b

section Heeds

variable {m : State → Op × Ans → Option State} {σ : State} {fails : β → Prop}
  {Q : State → β → Prop} {trace : List (Op × Ans)}

theorem ObjectsAtLast.run_eq_none (h : ObjectsAtLast m σ trace) : Lts.run m σ trace = none := by
  obtain ⟨before, x, σ', rfl, hbefore, hx⟩ := h
  rw [Lts.run_append, hbefore, Option.bind_some, Lts.run_cons, hx, Option.bind_none]

theorem ObjectsAtLast.append {σ' : State} {first rest : List (Op × Ans)}
    (hfirst : Lts.run m σ first = some σ') (h : ObjectsAtLast m σ' rest) :
    ObjectsAtLast m σ (first ++ rest) := by
  obtain ⟨before, x, σ'', rfl, hbefore, hx⟩ := h
  refine ⟨first ++ before, x, σ'', (List.append_assoc _ _ _).symm, ?_, hx⟩
  rw [Lts.run_append, hfirst]
  exact hbefore

/-- The monitor decides whether a run fails. -/
theorem Heeds.run_isSome_iff {p : Interaction Op Ans β} {b : β} (h : Heeds m fails Q σ p)
    (hruns : Runs p trace b) : (Lts.run m σ trace).isSome ↔ ¬fails b := by
  rcases h trace b hruns with ⟨hobjects, hfails⟩ | ⟨σ', hrun, hfails, -⟩
  · rw [hobjects.run_eq_none]
    exact iff_of_false (by simp) (not_not.mpr hfails)
  · rw [hrun]
    exact iff_of_true rfl hfails

theorem Heeds.mono {Q' : State → β → Prop} {p : Interaction Op Ans β} (h : Heeds m fails Q σ p)
    (hQ : ∀ σ' b, Q σ' b → Q' σ' b) : Heeds m fails Q' σ p := by
  intro trace b hruns
  rcases h trace b hruns with hfailed | ⟨σ', hrun, hfails, hb⟩
  · exact .inl hfailed
  · exact .inr ⟨σ', hrun, hfails, hQ σ' b hb⟩

/-! ## The rules -/

theorem Heeds.pure {b : β} (hfails : ¬fails b) (hQ : Q σ b) :
    Heeds m fails Q σ (pure b : Interaction Op Ans β) := by
  intro trace b' hruns
  obtain ⟨rfl, rfl⟩ := runs_pure.mp hruns
  exact .inr ⟨σ, rfl, hfails, hQ⟩

/-- An operation: after an answer the monitor objects to, nothing is left to do but fail. -/
theorem Heeds.perform {op : Op} {next : Ans → Interaction Op Ans β}
    (hobjects : ∀ a, m σ (op, a) = none →
      ∃ b, next a = (Pure.pure b : Interaction Op Ans β) ∧ fails b)
    (hnext : ∀ a σ', m σ (op, a) = some σ' → Heeds m fails Q σ' (next a)) :
    Heeds m fails Q σ (Interaction.perform op >>= next) := by
  intro trace b hruns
  obtain ⟨a, rest, rfl, hrest⟩ := runs_perform.mp hruns
  cases hm : m σ (op, a) with
  | none =>
      obtain ⟨b', hdone, hfails⟩ := hobjects a hm
      rw [hdone] at hrest
      obtain ⟨rfl, rfl⟩ := runs_pure.mp hrest
      exact .inl ⟨⟨[], (op, a), σ, rfl, rfl, hm⟩, hfails⟩
  | some σ' =>
      have hone : Lts.run m σ [(op, a)] = some σ' := by rw [Lts.run_cons, hm]; rfl
      rcases hnext a σ' hm rest b hrest with ⟨hobjects, hfails⟩ | ⟨σ'', hrun, hfails, hQ⟩
      · exact .inl ⟨.append hone hobjects, hfails⟩
      · refine .inr ⟨σ'', ?_, hfails, hQ⟩
        rw [Lts.run_cons, hm]
        exact hrun

/-- An operation whose answer the monitor checks. -/
theorem Heeds.guarded {op : Op} {next : Ans → Interaction Op Ans β} (ok : Ans → Prop)
    [DecidablePred ok] (τ : Ans → State)
    (hm : ∀ a, m σ (op, a) = if ok a then some (τ a) else none)
    (hbad : ∀ a, ¬ok a → ∃ b, next a = (Pure.pure b : Interaction Op Ans β) ∧ fails b)
    (hgood : ∀ a, ok a → Heeds m fails Q (τ a) (next a)) :
    Heeds m fails Q σ (Interaction.perform op >>= next) := by
  refine .perform (fun a hobjects => ?_) fun a σ' hnext => ?_
  · rw [hm, ite_eq_right_iff] at hobjects
    exact hbad a fun hok => by cases hobjects hok
  · rw [hm, Option.ite_none_right_eq_some] at hnext
    obtain ⟨hok, hσ'⟩ := hnext
    cases hσ'
    exact hgood a hok

/-- A sequence: when the first part fails, nothing is left to do but fail. -/
theorem Heeds.bind {p : Interaction Op Ans α} {f : α → Interaction Op Ans β}
    {failsFirst : α → Prop} {R : State → α → Prop} (hp : Heeds m failsFirst R σ p)
    (hfailed : ∀ a, failsFirst a →
      ∃ b, f a = (Pure.pure b : Interaction Op Ans β) ∧ fails b)
    (hf : ∀ a σ', ¬failsFirst a → R σ' a → Heeds m fails Q σ' (f a)) :
    Heeds m fails Q σ (p >>= f) := by
  intro trace b hruns
  obtain ⟨a, first, rest, rfl, hfirst, hrest⟩ := runs_bind.mp hruns
  rcases hp first a hfirst with ⟨hobjects, hfails⟩ | ⟨σ', hrun, hok, hR⟩
  · obtain ⟨b', hdone, hfailsb⟩ := hfailed a hfails
    rw [hdone] at hrest
    obtain ⟨rfl, rfl⟩ := runs_pure.mp hrest
    rw [List.append_nil]
    exact .inl ⟨hobjects, hfailsb⟩
  · rcases hf a σ' hok hR rest b hrest with ⟨hobjects, hfails⟩ | ⟨σ'', hrest, hfails, hQ⟩
    · exact .inl ⟨hobjects.append hrun, hfails⟩
    · refine .inr ⟨σ'', ?_, hfails, hQ⟩
      rw [Lts.run_append, hrun]
      exact hrest

/-- A part that is checked, with an early return. -/
theorem Heeds.check {p : Interaction Op Ans Bool} {next : Interaction Op Ans β} {early : β}
    {R : State → Bool → Prop} (hp : Heeds m (· = false) R σ p) (hearly : fails early)
    (hnext : ∀ σ', R σ' true → Heeds m fails Q σ' next) :
    Heeds m fails Q σ (do if !(← p) then return early
                          next) := by
  refine hp.bind (fun ok hok => ⟨early, ?_, hearly⟩) fun ok σ' hok hR => ?_
  · subst hok
    rfl
  · rw [Bool.not_eq_false] at hok
    subst hok
    exact hnext σ' hR

end Heeds

end InterProcess.Interaction
