import Mathlib.Data.Nat.Notation
import Mathlib.Tactic.TypeStar

/-!
# Recursive programs with a bound on the depth of calls

A recursive program takes the depth its calls may reach and comes to an
`Outcome`: it needs to go deeper, it aborts, or it is done. `Converges` says
that from some depth on it is done with the same result; it is built up along
the program, one call (`succ`) and one sequencing (`bind`) at a time.

`Ends` is total correctness at one depth: the depth suffices, and what the
program is done with has a property. A program that only looks at its depth to
stop when it is 0 comes to the same at every greater depth that suffices at
one (`Extends`); together they give what it comes to (`Ends.settles`).

Two programs are `Alike` when they come to the same, up to a relation of their
results.
-/

namespace InterProcess

inductive Outcome (α : Type*)
  | outOfFuel
  | aborted
  | done (a : α)

namespace Outcome

variable {α β : Type}

/-- Go on with the result, if there is one. -/
def andThen : Outcome α → (α → Outcome β) → Outcome β
  | .outOfFuel, _ => .outOfFuel
  | .aborted, _ => .aborted
  | .done a, f => f a

instance : Monad Outcome where
  pure := .done
  bind := andThen

/-- Abort where there is no value. -/
def ofOption : Option α → Outcome α
  | none => .aborted
  | some a => .done a

@[simp] theorem done_bind (a : α) (f : α → Outcome β) : (Outcome.done a >>= f) = f a := rfl

/-- A sequence is done iff both its parts are. -/
theorem bind_eq_done {x : Outcome α} {f : α → Outcome β} {b : β} :
    (x >>= f) = .done b ↔ ∃ a, x = .done a ∧ f a = .done b := by
  cases x with
  | outOfFuel | aborted =>
      constructor
      · intro h; cases h
      · rintro ⟨_, h, _⟩; cases h
  | done a =>
      constructor
      · intro h; exact ⟨a, rfl, h⟩
      · rintro ⟨_, h, hf⟩; cases h; exact hf

/-- Done with `a`, whatever the depth, once it is large enough. -/
def Converges (f : ℕ → Outcome α) (a : α) : Prop := ∃ n, ∀ m, n ≤ m → f m = .done a

theorem Converges.done (a : α) : Converges (fun _ => .done a) a := ⟨0, fun _ _ => rfl⟩

theorem Converges.succ {f : ℕ → Outcome α} {a : α} (h : Converges (fun n => f (n + 1)) a) :
    Converges f a := by
  obtain ⟨n, hn⟩ := h
  refine ⟨n + 1, fun m hm => ?_⟩
  obtain ⟨k, rfl⟩ : ∃ k, m = k + 1 := ⟨m - 1, by omega⟩
  exact hn k (by omega)

theorem Converges.bind {x : ℕ → Outcome α} {f : ℕ → α → Outcome β} {a : α} {b : β}
    (hx : Converges x a) (hf : Converges (fun n => f n a) b) :
    Converges (fun n => x n >>= f n) b := by
  obtain ⟨n, hn⟩ := hx
  obtain ⟨n', hn'⟩ := hf
  refine ⟨n + n', fun m hm => ?_⟩
  show (x m >>= f m) = .done b
  rw [hn m (by omega), done_bind]
  exact hn' m (by omega)

/-- A program converges to one result. -/
theorem Converges.unique {f : ℕ → Outcome α} {a b : α} (ha : Converges f a)
    (hb : Converges f b) : a = b := by
  obtain ⟨n, hn⟩ := ha
  obtain ⟨n', hn'⟩ := hb
  have h := (hn (n + n') (by omega)).symm.trans (hn' (n + n') (by omega))
  exact Outcome.done.inj h

/-! ## Enough depth -/

/-- The depth suffices; the program aborts only where it may, and is done only
with a result that has the property. -/
def Ends (mayAbort : Prop) (P : α → Prop) : Outcome α → Prop
  | .outOfFuel => False
  | .aborted => mayAbort
  | .done a => P a

section Ends

variable {mayAbort : Prop} {P : α → Prop} {Q : β → Prop} {x : Outcome α} {f : α → Outcome β}

theorem Ends.mono {P' : α → Prop} (h : x.Ends mayAbort P) (himp : ∀ a, P a → P' a) :
    x.Ends mayAbort P' := by
  cases x with
  | outOfFuel | aborted => exact h
  | done a => exact himp a h

theorem Ends.bind (h : x.Ends mayAbort P) (hf : ∀ a, P a → (f a).Ends mayAbort Q) :
    (x >>= f).Ends mayAbort Q := by
  cases x with
  | outOfFuel => exact False.elim h
  | aborted => exact h
  | done a => exact hf a h

end Ends

/-- `y` is what `x` comes to when it may go deeper. -/
def Extends (x y : Outcome α) : Prop := x = .outOfFuel ∨ x = y

theorem Extends.refl (x : Outcome α) : Extends x x := .inr rfl

theorem Extends.bind {x y : Outcome α} {f g : α → Outcome β} (h : Extends x y)
    (hf : ∀ a, Extends (f a) (g a)) : Extends (x >>= f) (y >>= g) := by
  rcases h with rfl | rfl
  · exact .inl rfl
  · cases x with
    | outOfFuel => exact .inl rfl
    | aborted => exact .inr rfl
    | done a => exact hf a

/-- What a program comes to at one depth that suffices it comes to at every greater one. -/
theorem Ends.settles {mayAbort : Prop} {P : α → Prop} {f : ℕ → Outcome α}
    (hf : ∀ n, Extends (f n) (f (n + 1))) {n : ℕ} (h : (f n).Ends mayAbort P) :
    ∀ m, n ≤ m → f m = f n := by
  intro m hm
  induction hm with
  | refl => rfl
  | @step m hm ih =>
      rcases hf m with hout | heq
      · rw [ih] at hout
        rw [hout] at h
        exact False.elim h
      · rw [← heq, ih]

/-! ## Two programs -/

/-- Both go too deep, both abort, or both are done with related results. -/
def Alike {α β : Type} (R : α → β → Prop) : Outcome α → Outcome β → Prop
  | .outOfFuel, .outOfFuel => True
  | .aborted, .aborted => True
  | .done a, .done b => R a b
  | _, _ => False

section Alike

variable {α' β' : Type} {R : α → α' → Prop} {Q : β → β' → Prop}

theorem Alike.bind {x : Outcome α} {x' : Outcome α'} {f : α → Outcome β} {f' : α' → Outcome β'}
    (h : Alike R x x') (hf : ∀ a a', R a a' → Alike Q (f a) (f' a')) :
    Alike Q (x >>= f) (x' >>= f') := by
  cases x with
  | outOfFuel =>
      cases x' with
      | outOfFuel => trivial
      | aborted | done => exact False.elim h
  | aborted =>
      cases x' with
      | aborted => trivial
      | outOfFuel | done => exact False.elim h
  | done a =>
      cases x' with
      | done a' => exact hf a a' h
      | outOfFuel | aborted => exact False.elim h

theorem Alike.mono {R' : α → α' → Prop} {x : Outcome α} {x' : Outcome α'} (h : Alike R x x')
    (himp : ∀ a a', R a a' → R' a a') : Alike R' x x' := by
  cases x with
  | outOfFuel | aborted => cases x' <;> exact h
  | done a =>
      cases x' with
      | done a' => exact himp a a' h
      | outOfFuel | aborted => exact False.elim h

/-- A program converges when one like it does. -/
theorem Converges.of_alike {f : ℕ → Outcome α} {f' : ℕ → Outcome α'} {a' : α'}
    (hf : ∀ n, Extends (f n) (f (n + 1))) (halike : ∀ n, Alike R (f n) (f' n))
    (h : Converges f' a') : ∃ a, R a a' ∧ Converges f a := by
  obtain ⟨n, hn⟩ := h
  have hdone := halike n
  rw [hn n (Nat.le_refl n)] at hdone
  cases hfn : f n with
  | outOfFuel | aborted =>
      rw [hfn] at hdone
      exact False.elim hdone
  | done a =>
      rw [hfn] at hdone
      have hends : (f n).Ends False fun _ => True := by rw [hfn]; trivial
      exact ⟨a, hdone, n, fun m hm => (hends.settles hf m hm).trans hfn⟩

end Alike

end Outcome

end InterProcess
