import InterProcess.Lib.Interaction
import InterProcess.Lib.Lts
import Mathlib.Logic.Function.Basic

/-!
# Programs side by side

Programs that ask their environment may have one environment in common: a kernel
that serves the operations of all of them, one at a time and in any order, and
lets a program wait where it does not serve its operation yet. The label of a
step names the program whose operation is served.

A sequence whose first part is not done goes on with that part (`resume_bind`),
so a program is followed along its answers without being unfolded as a whole.
-/

namespace InterProcess.Interaction

open Function

variable {Kernel ι Op Ans α β : Type}

/-- The operation a program is about to perform. -/
def op? : Interaction Op Ans β → Option Op
  | .done _ => none
  | .ask op _ => some op

/-- The program after the answer to its operation. -/
def resume : Interaction Op Ans β → Ans → Interaction Op Ans β
  | .done b, _ => .done b
  | .ask _ next, a => next a

theorem resume_bind {p : Interaction Op Ans α} {op : Op} (h : p.op? = some op) (a : Ans)
    (f : α → Interaction Op Ans β) : (p >>= f).resume a = p.resume a >>= f := by
  cases p with
  | done a => cases h
  | ask op next => rfl

structure SideBySide (Kernel ι Op Ans β : Type) where
  kernel : Kernel
  programs : ι → Interaction Op Ans β

namespace SideBySide

variable [DecidableEq ι] (serve : Kernel → ι → Op → Option (Ans × Kernel))

/-- The kernel serves the operation of program `i`; `none` where it lets it wait. -/
def step (σ : SideBySide Kernel ι Op Ans β) (i : ι) : Option (SideBySide Kernel ι Op Ans β) :=
  (σ.programs i).op?.bind fun op => (serve σ.kernel i op).map fun served =>
    { kernel := served.2, programs := update σ.programs i ((σ.programs i).resume served.1) }

variable {serve}

theorem step_eq_some {σ σ' : SideBySide Kernel ι Op Ans β} {i : ι} (h : step serve σ i = some σ') :
    ∃ op a kernel, (σ.programs i).op? = some op ∧ serve σ.kernel i op = some (a, kernel) ∧
      σ' = { kernel := kernel, programs := update σ.programs i ((σ.programs i).resume a) } := by
  obtain ⟨op, hop, h⟩ := Option.bind_eq_some_iff.mp h
  obtain ⟨⟨a, kernel⟩, hserve, rfl⟩ := Option.map_eq_some_iff.mp h
  exact ⟨op, a, kernel, hop, hserve, rfl⟩

theorem step_of_serve {σ : SideBySide Kernel ι Op Ans β} {i : ι} {op : Op} {a : Ans}
    {kernel : Kernel} (hop : (σ.programs i).op? = some op)
    (hserve : serve σ.kernel i op = some (a, kernel)) :
    step serve σ i =
      some { kernel := kernel, programs := update σ.programs i ((σ.programs i).resume a) } := by
  rw [step, hop, Option.bind_some, hserve, Option.map_some]

end SideBySide

end InterProcess.Interaction
