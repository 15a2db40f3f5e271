import InterProcess.Lib.Circular
import Mathlib.Logic.Function.Basic

/-!
# Slots that are claimed first and stored later

Positions are claimed in order on one side of a ring and released in order on
the other; position `q` lives in slot `q % capacity`. A claim does not store
and a release does not load: each thread does its access to the slot afterwards,
at any time. `Slots` is what holds while the ring is not overrun and nobody
stores to a slot somebody else is still to load: a slot holds the last position
stored to it, and that is the position everybody who is to load it is after,
once it is stored (`Slots.loaded_iff`).
-/

namespace InterProcess

open Function Circular

variable {ι κ : Type*}

/-- The position is not released, or released and still to be loaded. -/
def Unread (released : ℕ) (loading : κ → Option ℕ) (q : ℕ) : Prop :=
  released ≤ q ∨ ∃ k, loading k = some q

/-- Thread `i` is to store position `storing i`, thread `k` to load position
`loading k`; `slots` are the positions stored last. -/
structure Slots (capacity claimed released : ℕ) (storing : ι → Option ℕ) (loading : κ → Option ℕ)
    (slots : ℕ → Option ℕ) : Prop where
  claims : ∀ i q, storing i = some q → q < claimed
  distinct : ∀ i i' q, storing i = some q → storing i' = some q → i = i'
  unread : ∀ i q, storing i = some q → Unread released loading q
  releases : ∀ k r, loading k = some r → r < released
  /-- a slot somebody is to load waits for the next store -/
  behind : ∀ k r q, loading k = some r → r < q → q < claimed → q % capacity = r % capacity →
    ∃ i, storing i = some q
  stored : ∀ q, q < claimed → Unread released loading q → (∀ i, storing i ≠ some q) →
    slots (q % capacity) = some q
  last : ∀ c q, slots c = some q → q < claimed ∧ ∀ i, storing i ≠ some q

section Update

variable {f : ι → Option ℕ} {i j : ι} {p q : ℕ}

/-- Who has a position is not somebody who has none. -/
theorem ne_of_eq_some (hi : f i = none) (hj : f j = some q) : j ≠ i := by
  rintro rfl
  rw [hi] at hj
  cases hj

variable [DecidableEq ι]

theorem update_none_eq_some : update f i none j = some q ↔ j ≠ i ∧ f j = some q := by
  by_cases hj : j = i
  · simp [hj]
  · simp [hj]

theorem update_some_eq_some :
    update f i (some p) j = some q ↔ (j = i ∧ q = p) ∨ (j ≠ i ∧ f j = some q) := by
  by_cases hj : j = i
  · simp [hj, eq_comm]
  · simp [hj]

end Update

namespace Slots

variable {capacity claimed released : ℕ} {storing : ι → Option ℕ} {loading : κ → Option ℕ}
  {slots : ℕ → Option ℕ}

theorem init (capacity : ℕ) :
    Slots capacity 0 0 (fun _ : ι => none) (fun _ : κ => none) (fun _ => none) := by
  refine ⟨?_, ?_, ?_, ?_, ?_, ?_, ?_⟩ <;> simp

/-- Once a position that is to be loaded is stored, and only then, its slot holds it. -/
theorem loaded_iff (h : Slots capacity claimed released storing loading slots)
    (hle : released ≤ claimed) {k : κ} {r : ℕ} (hk : loading k = some r) :
    slots (r % capacity) = some r ↔ ∀ i, storing i ≠ some r := by
  constructor
  · intro hslot
    exact (h.last _ _ hslot).2
  · exact h.stored r ((h.releases k r hk).trans_le hle) (.inr ⟨k, hk⟩)

/-- Of two unread positions in one slot the lower is to be loaded and the higher
to be stored. -/
theorem storing_of_unread (h : Slots capacity claimed released storing loading slots)
    (hroom : claimed ≤ released + capacity) {q q' : ℕ} (hlt : q < q') (hq' : q' < claimed)
    (hunread : Unread released loading q) (hslot : q' % capacity = q % capacity) :
    (∃ k, loading k = some q) ∧ ∃ i, storing i = some q' := by
  rcases hunread with hle | ⟨k, hk⟩
  · -- the positions not released are less than one turn apart
    exact absurd hslot.symm (mod_ne_of_lt_of_lt hlt (by omega))
  · exact ⟨⟨k, hk⟩, h.behind k q q' hk hlt hq' hslot⟩

section Claim

variable [DecidableEq ι]

/-- The next position is claimed. -/
theorem claim (h : Slots capacity claimed released storing loading slots)
    (hle : released ≤ claimed) {i : ι} (hi : storing i = none) :
    Slots capacity (claimed + 1) released (update storing i (some claimed)) loading slots := by
  have hold {j : ι} {q : ℕ} (hq : storing j = some q) :
      update storing i (some claimed) j = some q :=
    update_some_eq_some.mpr (.inr ⟨ne_of_eq_some hi hq, hq⟩)
  refine ⟨?_, ?_, ?_, h.releases, ?_, ?_, ?_⟩
  · intro j q hq
    rcases update_some_eq_some.mp hq with ⟨-, rfl⟩ | ⟨-, hq⟩
    · exact Nat.lt_succ_self _
    · exact (h.claims j q hq).trans (Nat.lt_succ_self _)
  · intro j j' q hj hj'
    rcases update_some_eq_some.mp hj with ⟨rfl, rfl⟩ | ⟨-, hold⟩ <;>
      rcases update_some_eq_some.mp hj' with ⟨heq, hq⟩ | ⟨-, hold'⟩
    · exact heq.symm
    · exact absurd (h.claims _ _ hold') (Nat.lt_irrefl _)
    · exact absurd (hq ▸ h.claims _ _ hold) (Nat.lt_irrefl _)
    · exact h.distinct _ _ q hold hold'
  · intro j q hq
    rcases update_some_eq_some.mp hq with ⟨-, rfl⟩ | ⟨-, hq⟩
    · exact .inl hle
    · exact h.unread j q hq
  · intro k r q hk hlt hq hslot
    rcases Nat.lt_succ_iff_lt_or_eq.mp hq with hq | rfl
    · obtain ⟨j, hj⟩ := h.behind k r q hk hlt hq hslot
      exact ⟨j, hold hj⟩
    · exact ⟨i, update_self ..⟩
  · intro q hq hunread hstored
    rcases Nat.lt_succ_iff_lt_or_eq.mp hq with hq | rfl
    · exact h.stored q hq hunread fun j hj => hstored j (hold hj)
    · exact absurd (update_self ..) (hstored i)
  · intro c q hslot
    obtain ⟨hlt, hstored⟩ := h.last c q hslot
    refine ⟨hlt.trans (Nat.lt_succ_self _), fun j hj => ?_⟩
    rcases update_some_eq_some.mp hj with ⟨-, rfl⟩ | ⟨-, hj⟩
    · exact Nat.lt_irrefl _ hlt
    · exact hstored j hj

/-- A thread stores the position it has claimed; nobody is to load another one
from that slot. -/
theorem store (h : Slots capacity claimed released storing loading slots)
    (hroom : claimed ≤ released + capacity) {i : ι} {q : ℕ} (hi : storing i = some q)
    (hkept : ∀ k r, loading k = some r → r % capacity = q % capacity → r = q) :
    Slots capacity claimed released (update storing i none) loading
      (update slots (q % capacity) (some q)) := by
  refine ⟨?_, ?_, ?_, h.releases, ?_, ?_, ?_⟩
  · exact fun j p hj => h.claims j p (update_none_eq_some.mp hj).2
  · exact fun j j' p hj hj' =>
      h.distinct j j' p (update_none_eq_some.mp hj).2 (update_none_eq_some.mp hj').2
  · exact fun j p hj => h.unread j p (update_none_eq_some.mp hj).2
  · intro k r p hk hlt hp hslot
    obtain ⟨j, hj⟩ := h.behind k r p hk hlt hp hslot
    refine ⟨j, update_none_eq_some.mpr ⟨?_, hj⟩⟩
    rintro rfl
    -- this store would hit the slot `k` is to load
    obtain rfl : q = p := Option.some.inj (hi.symm.trans hj)
    exact hlt.ne (hkept k r hk hslot.symm)
  · intro p hp hunread hstored
    by_cases hslot : p % capacity = q % capacity
    · obtain rfl : p = q := by
        rcases Nat.lt_trichotomy p q with hlt | heq | hlt
        · obtain ⟨⟨k, hk⟩, -⟩ :=
            h.storing_of_unread hroom hlt (h.claims i q hi) hunread hslot.symm
          exact hkept k p hk hslot
        · exact heq
        · obtain ⟨-, j, hj⟩ := h.storing_of_unread hroom hlt hp (h.unread i q hi) hslot
          refine absurd (update_none_eq_some.mpr ⟨?_, hj⟩) (hstored j)
          rintro rfl
          exact hlt.ne (Option.some.inj (hi.symm.trans hj))
      exact update_self ..
    · rw [update_of_ne hslot]
      refine h.stored p hp hunread fun j hj =>
        hstored j (update_none_eq_some.mpr ⟨?_, hj⟩)
      rintro rfl
      exact hslot (congrArg (· % capacity) (Option.some.inj (hj.symm.trans hi)))
  · intro c p hslot
    by_cases hc : c = q % capacity
    · rw [hc, update_self, Option.some.injEq] at hslot
      subst hslot
      refine ⟨h.claims i q hi, fun j hj => ?_⟩
      obtain ⟨hne, hj⟩ := update_none_eq_some.mp hj
      exact hne (h.distinct j i q hj hi)
    · rw [update_of_ne hc] at hslot
      obtain ⟨hlt, hstored⟩ := h.last c p hslot
      exact ⟨hlt, fun j hj => hstored j (update_none_eq_some.mp hj).2⟩

end Claim

section Release

variable [DecidableEq κ]

/-- The next position is released. -/
theorem release (h : Slots capacity claimed released storing loading slots)
    (hroom : claimed ≤ released + capacity) {k : κ} (hk : loading k = none) :
    Slots capacity claimed (released + 1) storing (update loading k (some released)) slots := by
  have hunread {q : ℕ} (hq : Unread (released + 1) (update loading k (some released)) q) :
      Unread released loading q := by
    rcases hq with hle | ⟨j, hj⟩
    · exact .inl (Nat.le_of_succ_le hle)
    · rcases update_some_eq_some.mp hj with ⟨-, rfl⟩ | ⟨-, hj⟩
      · exact .inl le_rfl
      · exact .inr ⟨j, hj⟩
  refine ⟨h.claims, h.distinct, ?_, ?_, ?_, ?_, h.last⟩
  · intro i q hq
    rcases h.unread i q hq with hle | ⟨j, hj⟩
    · rcases Nat.eq_or_lt_of_le hle with rfl | hlt
      · exact .inr ⟨k, update_self ..⟩
      · exact .inl hlt
    · exact .inr ⟨j, update_some_eq_some.mpr (.inr ⟨ne_of_eq_some hk hj, hj⟩)⟩
  · intro j r hj
    rcases update_some_eq_some.mp hj with ⟨-, rfl⟩ | ⟨-, hj⟩
    · exact Nat.lt_succ_self _
    · exact (h.releases j r hj).trans (Nat.lt_succ_self _)
  · intro j r q hj hlt hq hslot
    rcases update_some_eq_some.mp hj with ⟨-, rfl⟩ | ⟨-, hj⟩
    · -- the positions not released are less than one turn apart
      exact absurd hslot.symm (mod_ne_of_lt_of_lt hlt (hq.trans_le hroom))
    · exact h.behind j r q hj hlt hq hslot
  · exact fun q hq hq' hstored => h.stored q hq (hunread hq') hstored

/-- A thread has loaded its position, which is stored. -/
theorem load (h : Slots capacity claimed released storing loading slots) {k : κ} {r : ℕ}
    (hk : loading k = some r) (hstored : ∀ i, storing i ≠ some r) :
    Slots capacity claimed released storing (update loading k none) slots := by
  have hunread {q : ℕ} (hq : Unread released (update loading k none) q) :
      Unread released loading q := by
    rcases hq with hle | ⟨j, hj⟩
    · exact .inl hle
    · exact .inr ⟨j, (update_none_eq_some.mp hj).2⟩
  refine ⟨h.claims, h.distinct, ?_, fun j p hj => h.releases j p (update_none_eq_some.mp hj).2,
    fun j p q hj => h.behind j p q (update_none_eq_some.mp hj).2,
    fun q hq hq' => h.stored q hq (hunread hq'), h.last⟩
  intro i q hq
  rcases h.unread i q hq with hle | ⟨j, hj⟩
  · exact .inl hle
  · refine .inr ⟨j, update_none_eq_some.mpr ⟨?_, hj⟩⟩
    rintro rfl
    obtain rfl : r = q := Option.some.inj (hk.symm.trans hj)
    exact hstored i hq

end Release

end Slots

end InterProcess
