import InterProcess.Lib.Interaction

/-!
# Scopes with destructors

An object takes over a resource when it is constructed and disposes of it in its
destructor, unless it has released it before. The destructors run when the scope
is left, by whichever `return`, the latest object first; a program that is
aborted runs none.

A `Scoped` program says where it owns and releases; `enter` is the program with
its destructors. `Ensures` is what holds on every way through a scope, with a
rule for each construct, and `Ensures.enter` carries it to the runs.
-/

namespace InterProcess

/-- A program with operations `Op` that owns resources `R`. -/
inductive Scoped (R Op Ans β : Type)
  | done (b : β)
  | ask (op : Op) (next : Ans → Scoped R Op Ans β)
  | own (r : R) (next : Scoped R Op Ans β)
  | release (r : R) (next : Scoped R Op Ans β)

namespace Scoped

open Interaction

variable {R Op Ans α β : Type}

def andThen : Scoped R Op Ans α → (α → Scoped R Op Ans β) → Scoped R Op Ans β
  | .done a, f => f a
  | .ask op next, f => .ask op fun a => (next a).andThen f
  | .own r next, f => .own r (next.andThen f)
  | .release r next, f => .release r (next.andThen f)

instance : Monad (Scoped R Op Ans) where
  pure := .done
  bind := andThen

def call (op : Op) : Scoped R Op Ans Ans := .ask op .done

/-- Construct an object that owns `r`. -/
def owning (r : R) : Scoped R Op Ans Unit := .own r (.done ())

/-- The object of `r` gives it up without disposing of it. -/
def releasing (r : R) : Scoped R Op Ans Unit := .release r (.done ())

/-- A program without objects, whose operations are some of this one's. -/
def lift {Op' Ans' : Type} (op : Op' → Op) (answer : Ans → Ans') :
    Interaction Op' Ans' β → Scoped R Op Ans β
  | .done b => .done b
  | .ask op' next => .ask (op op') fun a => lift op answer (next (answer a))

/-! ## Leaving a scope -/

variable (destroy : R → Interaction Op Ans Bool)

/-- The destructors, until one aborts the program. -/
def leave : List R → Interaction Op Ans Bool
  | [] => return true
  | r :: owned => do
    if !(← destroy r) then
      return false
    leave owned

/-- What is owned is listed the latest first. The result is `none` when the program is
aborted. -/
def enter [DecidableEq R] : Scoped R Op Ans (Option β) → List R → Interaction Op Ans (Option β)
  | .done none, _ => return none
  | .done (some b), owned => do
    if !(← leave destroy owned) then
      return none
    return some b
  | .ask op next, owned => .ask op fun a => (next a).enter owned
  | .own r next, owned => next.enter (r :: owned)
  | .release r next, owned => next.enter (owned.erase r)

/-! ## What holds on every way -/

section Ensures

variable [DecidableEq R] {Q : List (Op × Ans) → β → List R → Prop}
  {before : List (Op × Ans)} {owned : List R}

/-- On every way through the program, begun with the operations `before` behind it, `Q` holds of
the operations at its end, its result and what it owns then. -/
def Ensures (Q : List (Op × Ans) → β → List R → Prop) :
    Scoped R Op Ans β → List (Op × Ans) → List R → Prop
  | .done b, before, owned => Q before b owned
  | .ask op next, before, owned => ∀ a, (next a).Ensures Q (before ++ [(op, a)]) owned
  | .own r next, before, owned => next.Ensures Q before (r :: owned)
  | .release r next, before, owned => next.Ensures Q before (owned.erase r)

theorem ensures_call {op : Op} {next : Ans → Scoped R Op Ans β} :
    Ensures Q (call op >>= next) before owned ↔
      ∀ a, Ensures Q (next a) (before ++ [(op, a)]) owned := Iff.rfl

theorem ensures_owning {r : R} {next : Unit → Scoped R Op Ans β} :
    Ensures Q (owning r >>= next) before owned ↔ Ensures Q (next ()) before (r :: owned) := Iff.rfl

theorem ensures_releasing {r : R} {next : Unit → Scoped R Op Ans β} :
    Ensures Q (releasing r >>= next) before owned ↔
      Ensures Q (next ()) before (owned.erase r) := Iff.rfl

theorem ensures_ite {c : Prop} [Decidable c] {p p' : Scoped R Op Ans β} :
    Ensures Q (if c then p else p') before owned ↔
      (c → Ensures Q p before owned) ∧ (¬c → Ensures Q p' before owned) := by
  split
  · next hc => exact ⟨fun h => ⟨fun _ => h, fun hn => absurd hc hn⟩, fun h => h.1 hc⟩
  · next hc => exact ⟨fun h => ⟨fun hp => absurd hp hc, fun _ => h⟩, fun h => h.2 hc⟩

/-- A call that ends the program with `early` when it is answered by `refusal`. -/
theorem ensures_unless [DecidableEq Ans] {op : Op} {refusal : Ans} {early : β}
    {next : Scoped R Op Ans β} :
    Ensures Q (do if (← call op) = refusal then return early
                  next) before owned ↔
      Q (before ++ [(op, refusal)]) early owned ∧
        ∀ a, a ≠ refusal → Ensures Q next (before ++ [(op, a)]) owned := by
  rw [ensures_call]
  constructor
  · intro h
    exact ⟨(ensures_ite.mp (h refusal)).1 rfl, fun a ha => (ensures_ite.mp (h a)).2 ha⟩
  · rintro ⟨hrefused, hnext⟩ a
    refine ensures_ite.mpr ⟨?_, hnext a⟩
    rintro rfl
    exact hrefused

/-- A call that ends the program as `early` does when it is not answered as expected. -/
theorem ensures_expect [DecidableEq Ans] {op : Op} {expected : Ans}
    {early : Ans → Scoped R Op Ans β} {next : Scoped R Op Ans β} :
    Ensures Q (call op >>= fun a => if a ≠ expected then early a else next) before owned ↔
      (∀ a, a ≠ expected → Ensures Q (early a) (before ++ [(op, a)]) owned) ∧
        Ensures Q next (before ++ [(op, expected)]) owned := by
  rw [ensures_call]
  constructor
  · intro h
    exact ⟨fun a ha => (ensures_ite.mp (h a)).1 ha,
      (ensures_ite.mp (h expected)).2 (not_not.mpr rfl)⟩
  · rintro ⟨hearly, hnext⟩ a
    refine ensures_ite.mpr ⟨hearly a, fun ha => ?_⟩
    rw [not_not.mp ha]
    exact hnext

theorem ensures_bind {p : Scoped R Op Ans α} {f : α → Scoped R Op Ans β} :
    Ensures Q (p >>= f) before owned ↔
      Ensures (fun before a owned => Ensures Q (f a) before owned) p before owned := by
  induction p generalizing before owned with
  | done a => exact Iff.rfl
  | ask op next ih => exact forall_congr' fun a => ih a
  | own r next ih => exact ih
  | release r next ih => exact ih

/-- A lifted program does what its runs do, and owns nothing. -/
theorem ensures_lift {Op' Ans' : Type} {op : Op' → Op} {answer : Ans → Ans'}
    {p : Interaction Op' Ans' β}
    (h : ∀ (trace : List (Op' × Ans)) b, Runs p (trace.map fun x => (x.1, answer x.2)) b →
      Q (before ++ trace.map fun x => (op x.1, x.2)) b owned) :
    Ensures Q (lift op answer p) before owned := by
  induction p generalizing before with
  | done b =>
      have hnone := h [] b (.done b)
      rw [List.map_nil, List.append_nil] at hnone
      exact hnone
  | ask op' next ih =>
      intro a
      refine ih (answer a) fun trace b hruns => ?_
      have hrest := h ((op', a) :: trace) b (.ask hruns)
      rw [List.append_assoc]
      exact hrest

variable {destroy}

/-- How a scope that owns `owned` is left: aborted, with all destructors run, or with a destructor
that aborts. -/
inductive Leaves (destroy : R → Interaction Op Ans Bool) (owned : List R) :
    Option β → List (Op × Ans) → Option β → Prop
  | aborted : Leaves destroy owned none [] none
  | left {b : β} {last : List (Op × Ans)} (h : Runs (leave destroy owned) last true) :
      Leaves destroy owned (some b) last (some b)
  | stopped {b : β} {last : List (Op × Ans)} (h : Runs (leave destroy owned) last false) :
      Leaves destroy owned (some b) last none

/-- A run goes one of the ways through the scope, and leaves it with what it owns there. -/
theorem Ensures.enter {Q : List (Op × Ans) → Option β → List R → Prop}
    {p : Scoped R Op Ans (Option β)} {trace : List (Op × Ans)} {result : Option β}
    (h : Ensures Q p before owned) (hruns : Runs (p.enter destroy owned) trace result) :
    ∃ first b owned' last, trace = first ++ last ∧ Q (before ++ first) b owned' ∧
      Leaves destroy owned' b last result := by
  induction p generalizing before owned trace with
  | done b =>
      have hempty : Q (before ++ []) b owned := by
        rw [List.append_nil]
        exact h
      refine ⟨[], b, owned, trace, rfl, hempty, ?_⟩
      cases b with
      | none =>
          obtain ⟨rfl, rfl⟩ := runs_pure.mp hruns
          exact .aborted
      | some b =>
          rcases runs_check.mp hruns with ⟨hleave, rfl⟩ | ⟨last, rest, rfl, hleave, hrest⟩
          · exact .stopped hleave
          · obtain ⟨rfl, rfl⟩ := runs_pure.mp hrest
            rw [List.append_nil]
            exact .left hleave
  | ask op next ih =>
      obtain ⟨a, rest, rfl, hrest⟩ := runs_ask.mp hruns
      obtain ⟨first, b, owned', last, rfl, hq, hleaves⟩ := ih a (h a) hrest
      refine ⟨(op, a) :: first, b, owned', last, rfl, ?_, hleaves⟩
      rw [List.append_assoc] at hq
      exact hq
  | own r next ih => exact ih h hruns
  | release r next ih => exact ih h hruns

end Ensures

/-! ## Destructors of one operation -/

section Dispose

variable {destroy} {dispose : R → Op} {owned : List R} {trace : List (Op × Ans)} {ok : Bool}

/-- The destructors dispose of what is owned, in order; of all of it unless one aborts. -/
theorem leave_disposes
    (hdestroy : ∀ r trace ok, Runs (destroy r) trace ok → trace.map Prod.fst = [dispose r])
    (h : Runs (leave destroy owned) trace ok) :
    trace.map Prod.fst <+: owned.map dispose ∧
      (ok = true → trace.map Prod.fst = owned.map dispose) := by
  induction owned generalizing trace with
  | nil =>
      obtain ⟨rfl, rfl⟩ := runs_pure.mp h
      exact ⟨List.prefix_rfl, fun _ => rfl⟩
  | cons r owned ih =>
      rcases runs_check.mp h with ⟨hfirst, rfl⟩ | ⟨first, rest, rfl, hfirst, hrest⟩
      · rw [hdestroy r _ _ hfirst]
        exact ⟨⟨owned.map dispose, rfl⟩, nofun⟩
      · obtain ⟨hinitial, hall⟩ := ih hrest
        rw [List.map_append, hdestroy r _ _ hfirst]
        refine ⟨List.cons_prefix_cons.mpr ⟨rfl, hinitial⟩, fun hok => ?_⟩
        rw [hall hok]
        rfl

end Dispose

end Scoped

end InterProcess
