import Mathlib.Data.Nat.Notation
import Mathlib.Tactic.TypeStar

/-!
# Objects called by one thread

The code of an operation is a step function: a step yields the state of the
object after it and either the place the thread is at now or what the
operation returns. `complete` runs such a code when nobody else moves; how many
steps it may take is given.

An object is a function from a state and a call to the state after the call and
its reply, or to `none` where the call may not be made. `play` makes a sequence
of calls. Two objects whose single calls correspond under a relation give the
same replies over whole sequences (`play_rel`).
-/

namespace InterProcess.Calls

section Complete

variable {State Pc β : Type*} (step : State → Pc → State × (Pc ⊕ β))

/-- Run the code from `pc` for at most `fuel` steps. -/
def complete : ℕ → State → Pc → Option (State × β)
  | 0, _, _ => none
  | fuel + 1, σ, pc =>
      match step σ pc with
      | (σ', .inl pc') => complete fuel σ' pc'
      | (σ', .inr b) => some (σ', b)

variable {step}

/-- Steps to spare make no difference. -/
theorem complete_of_le (n : ℕ) {fuel : ℕ} {σ : State} {pc : Pc} {r : State × β}
    (h : complete step n σ pc = some r) (hle : n ≤ fuel) : complete step fuel σ pc = some r := by
  induction n generalizing fuel σ pc with
  | zero => cases h
  | succ n ih =>
      obtain ⟨spare, rfl⟩ : ∃ spare, fuel = spare + 1 := ⟨fuel - 1, by omega⟩
      unfold complete at h ⊢
      generalize step σ pc = next at h ⊢
      obtain ⟨σ', pc' | b⟩ := next
      · exact ih h (by omega)
      · exact h

end Complete

section Play

variable {State State' Call Reply : Type*}

/-- Make the calls one after the other and collect the replies. -/
def play (object : State → Call → Option (State × Reply)) :
    State → List Call → Option (State × List Reply)
  | σ, [] => some (σ, [])
  | σ, call :: calls =>
      (object σ call).bind fun r => (play object r.1 calls).map fun rs => (rs.1, r.2 :: rs.2)

theorem play_cons_eq_some {object : State → Call → Option (State × Reply)} {σ σ' : State}
    {call : Call} {calls : List Call} {replies : List Reply} :
    play object σ (call :: calls) = some (σ', replies) ↔
      ∃ σ₁ reply rest, object σ call = some (σ₁, reply) ∧
        play object σ₁ calls = some (σ', rest) ∧ replies = reply :: rest := by
  rw [play]
  constructor
  · intro h
    obtain ⟨⟨σ₁, reply⟩, hcall, h⟩ := Option.bind_eq_some_iff.mp h
    obtain ⟨⟨σ₂, rest⟩, hrest, h⟩ := Option.map_eq_some_iff.mp h
    cases h
    exact ⟨σ₁, reply, rest, hcall, hrest, rfl⟩
  · rintro ⟨σ₁, reply, rest, hcall, hrest, rfl⟩
    rw [hcall, Option.bind_some, hrest]
    rfl

/-- The two objects both refuse the call, or both answer it, with the same reply. -/
def Corresponds {β : Type*} (R : State → State' → Prop) :
    Option (State × β) → Option (State' × β) → Prop :=
  Option.Rel fun r r' => R r.1 r'.1 ∧ r.2 = r'.2

variable {object : State → Call → Option (State × Reply)}
  {object' : State' → Call → Option (State' × Reply)}

/-- The simulation rule. -/
theorem play_rel {R : State → State' → Prop}
    (hcall : ∀ σ σ' call, R σ σ' → Corresponds R (object σ call) (object' σ' call)) :
    ∀ (calls : List Call) {σ : State} {σ' : State'}, R σ σ' →
      Corresponds R (play object σ calls) (play object' σ' calls) := by
  intro calls
  induction calls with
  | nil => intro σ σ' h; exact .some ⟨h, rfl⟩
  | cons call calls ih =>
      intro σ σ' h
      have hfirst := hcall σ σ' call h
      unfold play
      generalize object σ call = r at hfirst
      generalize object' σ' call = r' at hfirst
      cases hfirst with
      | none => exact .none
      | @some r r' hr =>
          obtain ⟨hrel, hreply⟩ := hr
          have hrest := ih hrel
          simp only [Option.bind_some]
          generalize play object r.1 calls = rs at hrest
          generalize play object' r'.1 calls = rs' at hrest
          cases hrest with
          | none => exact .none
          | some hrs =>
              refine .some ⟨hrs.1, ?_⟩
              simp only [hreply, hrs.2]

end Play

end InterProcess.Calls
