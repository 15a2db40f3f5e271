import InterProcess.Lib.Lts
import InterProcess.Lib.Threads
import Mathlib.Order.Fin.Basic

/-!
# `hierarchical_mutex`

A mutex with a hierarchy value. Each thread keeps the value of the mutex it has
locked last; it may lock a mutex with a lower value only, and unlock the one it
has locked last only, else the call throws. The value the thread had before is
saved in the mutex itself, under the protection of the lock.

A step is one call, one access to a value, or one operation of the internal
`std::mutex`. `held` is history: the mutexes a thread has locked and not
unlocked since, the last one first. `ThreadOk` is what links the values a
thread and its mutexes hold to that list; the values along it go up, and the
mutex a thread waits for lies below all of them.
-/

namespace InterProcess.Threading

open Function Lts Threads

/-- `unsigned long`. -/
abbrev ULong := Fin (2 ^ 64)

/-- `ULONG_MAX`. -/
def ulongMax : ULong := Fin.last _

/-- Where a thread is in `lock`, `try_lock` or `unlock`. -/
inductive Pc (μ : Type)
  | outside
  | lockCheck (m : μ)
  | lockInternal (m : μ)
  | tryCheck (m : μ)
  | tryInternal (m : μ)
  | savePrevious (m : μ)
  | setThreadValue (m : μ)
  | unlockCheck (m : μ)
  | restorePrevious (m : μ)
  | unlockInternal (m : μ)
  deriving DecidableEq

/-- The mutexes `μ` and the threads `τ` that use them. -/
structure State (τ μ : Type) where
  owner : μ → Option τ
  previousHierarchyValue : μ → ULong
  threadHierarchyValue : τ → ULong
  pc : τ → Pc μ
  held : τ → List μ

/-- A call, or the next step inside one. `try_lock` of a free `std::mutex` may
fail all the same. -/
inductive Label (τ μ : Type)
  | lock (t : τ) (m : μ)
  | tryLock (t : τ) (m : μ)
  | unlock (t : τ) (m : μ)
  | resume (t : τ) (spurious : Bool)

variable {τ μ : Type}

/-- Nothing is locked yet. -/
def State.init (τ μ : Type) : State τ μ :=
  { owner := fun _ => none
    previousHierarchyValue := fun _ => 0
    threadHierarchyValue := fun _ => ulongMax
    pc := fun _ => .outside
    held := fun _ => [] }

section Steps

variable [DecidableEq τ] [DecidableEq μ] (hierarchyValue : μ → ULong)

def State.move (σ : State τ μ) (t : τ) (pc : Pc μ) : State τ μ :=
  { σ with pc := update σ.pc t pc }

/-- Thread `t` gets the internal mutex of `m`. -/
def State.acquire (σ : State τ μ) (t : τ) (m : μ) : State τ μ :=
  { σ with
    owner := update σ.owner m (some t)
    pc := update σ.pc t (.savePrevious m)
    held := update σ.held t (m :: σ.held t) }

/-- Thread `t` gives the internal mutex of `m` back. -/
def State.release (σ : State τ μ) (t : τ) (m : μ) : State τ μ :=
  { σ with
    owner := update σ.owner m none
    pc := update σ.pc t .outside
    held := update σ.held t ((σ.held t).erase m) }

/-- The first half of `update_hierarchy_value`. -/
def State.savePrevious (σ : State τ μ) (t : τ) (m : μ) : State τ μ :=
  { σ with
    previousHierarchyValue := update σ.previousHierarchyValue m (σ.threadHierarchyValue t)
    pc := update σ.pc t (.setThreadValue m) }

/-- `this_thread_hierarchy_value` is set, by `lock`, `try_lock` or `unlock`. -/
def State.setThreadValue (σ : State τ μ) (t : τ) (value : ULong) (pc : Pc μ) : State τ μ :=
  { σ with
    threadHierarchyValue := update σ.threadHierarchyValue t value
    pc := update σ.pc t pc }

/-- The next step of thread `t` inside a call. Where a check throws, the thread
is outside again and nothing has changed. -/
def resume (σ : State τ μ) (t : τ) (spurious : Bool) : Option (State τ μ) :=
  match σ.pc t with
  | .outside => none
  | .lockCheck m =>
      if σ.threadHierarchyValue t ≤ hierarchyValue m then some (σ.move t .outside)
      else some (σ.move t (.lockInternal m))
  | .lockInternal m => if σ.owner m = none then some (σ.acquire t m) else none
  | .tryCheck m =>
      if σ.threadHierarchyValue t ≤ hierarchyValue m then some (σ.move t .outside)
      else some (σ.move t (.tryInternal m))
  | .tryInternal m =>
      if σ.owner m = none ∧ spurious = false then some (σ.acquire t m)
      else some (σ.move t .outside)
  | .savePrevious m => some (σ.savePrevious t m)
  | .setThreadValue m => some (σ.setThreadValue t (hierarchyValue m) .outside)
  | .unlockCheck m =>
      if σ.threadHierarchyValue t ≠ hierarchyValue m then some (σ.move t .outside)
      else some (σ.move t (.restorePrevious m))
  | .restorePrevious m =>
      some (σ.setThreadValue t (σ.previousHierarchyValue m) (.unlockInternal m))
  | .unlockInternal m => some (σ.release t m)

/-- One step. A thread calls `unlock` only of a mutex it holds. -/
def step (σ : State τ μ) : Label τ μ → Option (State τ μ)
  | .lock t m => if σ.pc t = .outside then some (σ.move t (.lockCheck m)) else none
  | .tryLock t m => if σ.pc t = .outside then some (σ.move t (.tryCheck m)) else none
  | .unlock t m =>
      if σ.pc t = .outside ∧ σ.owner m = some t then some (σ.move t (.unlockCheck m)) else none
  | .resume t spurious => resume hierarchyValue σ t spurious

end Steps

variable (hierarchyValue : μ → ULong)

/-- Thread `t` is blocked in `lock` of a mutex `t'` has locked. -/
def WaitsFor (σ : State τ μ) (t t' : τ) : Prop :=
  ∃ m, σ.pc t = .lockInternal m ∧ σ.owner m = some t'

/-- The thread is outside all calls, or blocked in `lock`. -/
def Pc.atRest : Pc μ → Bool
  | .outside | .lockInternal _ => true
  | _ => false

/-- The value is that of the first mutex, which lies below all others. -/
def IsLowest (value : ULong) : List μ → Prop
  | [] => value = ulongMax
  | m :: rest => value = hierarchyValue m ∧ ∀ m' ∈ rest, hierarchyValue m < hierarchyValue m'

/-! ## What holds of a thread -/

/-- The hierarchy value of a thread that holds these mutexes. -/
def topValue : List μ → ULong
  | [] => ulongMax
  | m :: _ => hierarchyValue m

/-- Each mutex has saved the value its thread had before it. -/
def Saved (previous : μ → ULong) : List μ → Prop
  | [] => True
  | m :: rest => previous m = topValue hierarchyValue rest ∧ Saved previous rest

/-- How far the values have come, by the place the thread is at. -/
def ValuesOk (previous : μ → ULong) (value : ULong) (held : List μ) : Pc μ → Prop
  | .savePrevious m => ∃ rest, held = m :: rest ∧ value = topValue hierarchyValue rest ∧
      Saved hierarchyValue previous rest
  | .setThreadValue m => ∃ rest, held = m :: rest ∧ Saved hierarchyValue previous held
  | .restorePrevious m => ∃ rest, held = m :: rest ∧ Saved hierarchyValue previous held
  | .unlockInternal m => ∃ rest, held = m :: rest ∧ value = topValue hierarchyValue rest ∧
      Saved hierarchyValue previous rest
  | .lockInternal m | .tryInternal m => value = topValue hierarchyValue held ∧
      Saved hierarchyValue previous held ∧ hierarchyValue m < value
  | .unlockCheck m => value = topValue hierarchyValue held ∧
      Saved hierarchyValue previous held ∧ m ∈ held
  | _ => value = topValue hierarchyValue held ∧ Saved hierarchyValue previous held

/-- The invariant of one thread. -/
structure ThreadOk (σ : State τ μ) (t : τ) : Prop where
  owns : ∀ m, m ∈ σ.held t ↔ σ.owner m = some t
  ascending : (σ.held t).Pairwise fun m m' => hierarchyValue m < hierarchyValue m'
  values : ValuesOk hierarchyValue σ.previousHierarchyValue (σ.threadHierarchyValue t)
    (σ.held t) (σ.pc t)

variable {hierarchyValue}

/-- The first mutex has the lowest value. -/
theorem topValue_le {held : List μ}
    (h : held.Pairwise fun m m' => hierarchyValue m < hierarchyValue m') {m : μ} (hm : m ∈ held) :
    topValue hierarchyValue held ≤ hierarchyValue m := by
  cases held with
  | nil => cases hm
  | cons m₀ rest =>
      rcases List.mem_cons.mp hm with rfl | hrest
      · exact le_rfl
      · exact (List.rel_of_pairwise_cons h hrest).le

/-- A mutex below the hierarchy value is below all mutexes held. -/
theorem pairwise_cons_of_lt {held : List μ} {m : μ}
    (h : held.Pairwise fun m m' => hierarchyValue m < hierarchyValue m')
    (hlt : hierarchyValue m < topValue hierarchyValue held) :
    (m :: held).Pairwise fun m m' => hierarchyValue m < hierarchyValue m' :=
  List.pairwise_cons.mpr ⟨fun _ hm' => hlt.trans_le (topValue_le h hm'), h⟩

/-- Of the mutexes held only the first has the hierarchy value of the thread. -/
theorem eq_of_topValue {held : List μ} {m : μ}
    (h : held.Pairwise fun m m' => hierarchyValue m < hierarchyValue m') (hm : m ∈ held)
    (heq : topValue hierarchyValue held = hierarchyValue m) : ∃ rest, held = m :: rest := by
  cases held with
  | nil => cases hm
  | cons m₀ rest =>
      rcases List.mem_cons.mp hm with rfl | hrest
      · exact ⟨rest, rfl⟩
      · have hlt : hierarchyValue m₀ < hierarchyValue m := List.rel_of_pairwise_cons h hrest
        exact absurd heq hlt.ne

/-- What the mutexes held have saved depends on them only. -/
theorem Saved.congr {previous previous' : μ → ULong} {held : List μ}
    (h : Saved hierarchyValue previous held) (heq : ∀ m ∈ held, previous' m = previous m) :
    Saved hierarchyValue previous' held := by
  induction held with
  | nil => trivial
  | cons m rest ih =>
      obtain ⟨hm, hrest⟩ := h
      refine ⟨?_, ih hrest fun m' hm' => heq m' (List.mem_cons_of_mem _ hm')⟩
      rw [heq m List.mem_cons_self]
      exact hm

theorem ValuesOk.congr {previous previous' : μ → ULong} {value : ULong} {held : List μ} {pc : Pc μ}
    (h : ValuesOk hierarchyValue previous value held pc)
    (heq : ∀ m ∈ held, previous' m = previous m) :
    ValuesOk hierarchyValue previous' value held pc := by
  unfold ValuesOk at h ⊢
  split at h
  · obtain ⟨rest, rfl, hvalue, hsaved⟩ := h
    exact ⟨rest, rfl, hvalue, hsaved.congr fun m' hm' => heq m' (List.mem_cons_of_mem _ hm')⟩
  · obtain ⟨rest, hheld, hsaved⟩ := h
    exact ⟨rest, hheld, hsaved.congr heq⟩
  · obtain ⟨rest, hheld, hsaved⟩ := h
    exact ⟨rest, hheld, hsaved.congr heq⟩
  · obtain ⟨rest, rfl, hvalue, hsaved⟩ := h
    exact ⟨rest, rfl, hvalue, hsaved.congr fun m' hm' => heq m' (List.mem_cons_of_mem _ hm')⟩
  · exact ⟨h.1, h.2.1.congr heq, h.2.2⟩
  · exact ⟨h.1, h.2.1.congr heq, h.2.2⟩
  · exact ⟨h.1, h.2.1.congr heq, h.2.2⟩
  · exact ⟨h.1, h.2.congr heq⟩

/-! ## What a step keeps -/

/-- Every thread and the mutexes it holds agree. -/
def AllOk (hierarchyValue : μ → ULong) (σ : State τ μ) : Prop :=
  ∀ t, ThreadOk hierarchyValue σ t

theorem allOk_init (hierarchyValue : μ → ULong) : AllOk hierarchyValue (State.init τ μ) := by
  intro t
  refine ⟨fun m => ?_, .nil, ⟨rfl, trivial⟩⟩
  simp [State.init]

section Step

variable {σ σ' : State τ μ} {t : τ} {m : μ}

/-- A thread keeps what it knows when neither its own data nor its mutexes change. -/
theorem ThreadOk.frame (h : ThreadOk hierarchyValue σ t) (hpc : σ'.pc t = σ.pc t)
    (hheld : σ'.held t = σ.held t)
    (hvalue : σ'.threadHierarchyValue t = σ.threadHierarchyValue t)
    (howner : ∀ m, σ'.owner m = some t ↔ σ.owner m = some t)
    (hprevious : ∀ m ∈ σ.held t, σ'.previousHierarchyValue m = σ.previousHierarchyValue m) :
    ThreadOk hierarchyValue σ' t := by
  refine ⟨fun m => ?_, ?_, ?_⟩
  · rw [hheld, howner]
    exact h.owns m
  · rw [hheld]
    exact h.ascending
  · rw [hpc, hheld, hvalue]
    exact h.values.congr hprevious

variable [DecidableEq τ]

theorem AllOk.move (h : AllOk hierarchyValue σ) {pc : Pc μ}
    (hvalues : ValuesOk hierarchyValue σ.previousHierarchyValue (σ.threadHierarchyValue t)
      (σ.held t) pc) : AllOk hierarchyValue (σ.move t pc) := by
  intro t'
  by_cases ht : t' = t
  · subst ht
    refine ⟨(h t').owns, (h t').ascending, ?_⟩
    simpa [State.move] using hvalues
  · exact (h t').frame (update_of_ne ht _ _) rfl rfl (fun _ => Iff.rfl) fun _ _ => rfl

theorem AllOk.setThreadValue (h : AllOk hierarchyValue σ) {value : ULong} {pc : Pc μ}
    (hvalues : ValuesOk hierarchyValue σ.previousHierarchyValue value (σ.held t) pc) :
    AllOk hierarchyValue (σ.setThreadValue t value pc) := by
  intro t'
  by_cases ht : t' = t
  · subst ht
    refine ⟨(h t').owns, (h t').ascending, ?_⟩
    simpa [State.setThreadValue] using hvalues
  · exact (h t').frame (update_of_ne ht _ _) rfl (update_of_ne ht _ _) (fun _ => Iff.rfl)
      fun _ _ => rfl

variable [DecidableEq μ]

/-- The internal mutex is free, and its value is below those of the mutexes held. -/
theorem AllOk.acquire (h : AllOk hierarchyValue σ) (hfree : σ.owner m = none)
    (hvalue : σ.threadHierarchyValue t = topValue hierarchyValue (σ.held t))
    (hsaved : Saved hierarchyValue σ.previousHierarchyValue (σ.held t))
    (hlt : hierarchyValue m < σ.threadHierarchyValue t) :
    AllOk hierarchyValue (σ.acquire t m) := by
  have howner : ∀ t' m', m' ≠ m → ((σ.acquire t m).owner m' = some t' ↔ σ.owner m' = some t') := by
    intro t' m' hm
    simp only [State.acquire, update_of_ne hm]
  intro t'
  by_cases ht : t' = t
  · subst ht
    refine ⟨fun m' => ?_, ?_, ?_⟩
    · simp only [State.acquire, update_self, List.mem_cons]
      by_cases hm : m' = m
      · simp [hm]
      · rw [update_of_ne hm, (h t').owns m']
        simp [hm]
    · simp only [State.acquire, update_self]
      exact pairwise_cons_of_lt (h t').ascending (hvalue ▸ hlt)
    · simp only [State.acquire, update_self]
      exact ⟨σ.held t', rfl, hvalue, hsaved⟩
  · refine (h t').frame (update_of_ne ht _ _) (update_of_ne ht _ _) rfl
      (fun m' => ?_) fun _ _ => rfl
    by_cases hm : m' = m
    · subst hm
      simp [State.acquire, hfree, Ne.symm ht]
    · exact howner t' m' hm

/-- The value is saved in a mutex nobody else holds. -/
theorem AllOk.savePrevious (h : AllOk hierarchyValue σ) (hpc : σ.pc t = .savePrevious m) :
    AllOk hierarchyValue (σ.savePrevious t m) := by
  have hvalues := (h t).values
  rw [hpc] at hvalues
  obtain ⟨rest, hheld, hvalue, hsaved⟩ := hvalues
  have hmine : σ.owner m = some t := ((h t).owns m).mp (hheld ▸ List.mem_cons_self)
  intro t'
  by_cases ht : t' = t
  · subst ht
    refine ⟨(h t').owns, (h t').ascending, ?_⟩
    simp only [State.savePrevious, update_self]
    refine ⟨rest, hheld, ?_⟩
    have hascending := (h t').ascending
    rw [hheld] at hascending ⊢
    refine ⟨?_, hsaved.congr fun m' hm' => update_of_ne ?_ _ _⟩
    · rw [update_self]
      exact hvalue
    · rintro rfl
      exact lt_irrefl _ (List.rel_of_pairwise_cons hascending hm')
  · refine (h t').frame (update_of_ne ht _ _) rfl rfl (fun _ => Iff.rfl) fun m' hm' => ?_
    refine update_of_ne ?_ _ _
    rintro rfl
    have hother := ((h t').owns m').mp hm'
    rw [hmine] at hother
    exact ht (Option.some.inj hother).symm

theorem AllOk.release (h : AllOk hierarchyValue σ) (hpc : σ.pc t = .unlockInternal m) :
    AllOk hierarchyValue (σ.release t m) := by
  have hvalues := (h t).values
  rw [hpc] at hvalues
  obtain ⟨rest, hheld, hvalue, hsaved⟩ := hvalues
  have hascending := (h t).ascending
  rw [hheld] at hascending
  have hmine : σ.owner m = some t := ((h t).owns m).mp (hheld ▸ List.mem_cons_self)
  intro t'
  by_cases ht : t' = t
  · subst ht
    refine ⟨fun m' => ?_, ?_, ?_⟩ <;>
      simp only [State.release, update_self, hheld, List.erase_cons_head]
    · by_cases hm : m' = m
      · subst hm
        simp only [update_self, reduceCtorEq, iff_false]
        exact fun hrest => lt_irrefl _ (List.rel_of_pairwise_cons hascending hrest)
      · rw [update_of_ne hm, ← (h t').owns m', hheld, List.mem_cons]
        simp [hm]
    · exact hascending.of_cons
    · exact ⟨hvalue, hsaved⟩
  · refine (h t').frame (update_of_ne ht _ _) (update_of_ne ht _ _) rfl
      (fun m' => ?_) fun _ _ => rfl
    by_cases hm : m' = m
    · subst hm
      simp [State.release, hmine, Ne.symm ht]
    · simp only [State.release, update_of_ne hm]

/-- One case for each place a thread can be at; the two checks of `lock` and
`try_lock`, and the two calls of the internal mutex, are alike. -/
theorem AllOk.resume (h : AllOk hierarchyValue σ) {spurious : Bool}
    (hstep : resume hierarchyValue σ t spurious = some σ') : AllOk hierarchyValue σ' := by
  have hvalues := (h t).values
  cases hpc : σ.pc t with
  | outside => simp [Threading.resume, hpc] at hstep
  | lockCheck m =>
      rw [hpc] at hvalues
      simp only [Threading.resume, hpc] at hstep
      split at hstep <;> cases hstep
      · exact h.move hvalues
      · rename_i hlow
        exact h.move ⟨hvalues.1, hvalues.2, not_le.mp hlow⟩
  | tryCheck m =>
      rw [hpc] at hvalues
      simp only [Threading.resume, hpc] at hstep
      split at hstep <;> cases hstep
      · exact h.move hvalues
      · rename_i hlow
        exact h.move ⟨hvalues.1, hvalues.2, not_le.mp hlow⟩
  | lockInternal m =>
      rw [hpc] at hvalues
      obtain ⟨hvalue, hsaved, hlt⟩ := hvalues
      simp only [Threading.resume, hpc] at hstep
      split at hstep
      · rename_i hfree
        cases hstep
        exact h.acquire hfree hvalue hsaved hlt
      · cases hstep
  | tryInternal m =>
      rw [hpc] at hvalues
      obtain ⟨hvalue, hsaved, hlt⟩ := hvalues
      simp only [Threading.resume, hpc] at hstep
      split at hstep <;> cases hstep
      · rename_i hfree
        exact h.acquire hfree.1 hvalue hsaved hlt
      · exact h.move ⟨hvalue, hsaved⟩
  | savePrevious m =>
      simp only [Threading.resume, hpc, Option.some.injEq] at hstep
      subst hstep
      exact h.savePrevious hpc
  | setThreadValue m =>
      rw [hpc] at hvalues
      obtain ⟨rest, hheld, hsaved⟩ := hvalues
      simp only [Threading.resume, hpc, Option.some.injEq] at hstep
      subst hstep
      refine h.setThreadValue ⟨?_, hsaved⟩
      rw [hheld]
      rfl
  | unlockCheck m =>
      rw [hpc] at hvalues
      obtain ⟨hvalue, hsaved, hmem⟩ := hvalues
      simp only [Threading.resume, hpc] at hstep
      split at hstep <;> cases hstep
      · exact h.move ⟨hvalue, hsaved⟩
      · rename_i heq
        rw [not_not, hvalue] at heq
        -- the mutex is the one locked last: the others have higher values
        obtain ⟨rest, hheld⟩ := eq_of_topValue (h t).ascending hmem heq
        exact h.move ⟨rest, hheld, hsaved⟩
  | restorePrevious m =>
      rw [hpc] at hvalues
      obtain ⟨rest, hheld, hsaved⟩ := hvalues
      simp only [Threading.resume, hpc, Option.some.injEq] at hstep
      subst hstep
      rw [hheld] at hsaved
      exact h.setThreadValue ⟨rest, hheld, hsaved.1, hsaved.2⟩
  | unlockInternal m =>
      simp only [Threading.resume, hpc, Option.some.injEq] at hstep
      subst hstep
      exact h.release hpc

theorem AllOk.step {l : Label τ μ} (h : AllOk hierarchyValue σ)
    (hstep : step hierarchyValue σ l = some σ') : AllOk hierarchyValue σ' := by
  cases l with
  | lock t m =>
      simp only [Threading.step, Option.ite_none_right_eq_some, Option.some.injEq] at hstep
      obtain ⟨hpc, rfl⟩ := hstep
      have hvalues := (h t).values
      rw [hpc] at hvalues
      exact h.move hvalues
  | tryLock t m =>
      simp only [Threading.step, Option.ite_none_right_eq_some, Option.some.injEq] at hstep
      obtain ⟨hpc, rfl⟩ := hstep
      have hvalues := (h t).values
      rw [hpc] at hvalues
      exact h.move hvalues
  | unlock t m =>
      simp only [Threading.step, Option.ite_none_right_eq_some, Option.some.injEq] at hstep
      obtain ⟨⟨hpc, howner⟩, rfl⟩ := hstep
      have hvalues := (h t).values
      rw [hpc] at hvalues
      exact h.move ⟨hvalues.1, hvalues.2, ((h t).owns m).mpr howner⟩
  | resume t spurious => exact h.resume hstep

theorem allOk_of_reachable
    (h : Reachable (Threading.step hierarchyValue) (State.init τ μ) σ) : AllOk hierarchyValue σ :=
  h.induction (allOk_init hierarchyValue) fun _ _ _ hσ hstep => AllOk.step hσ hstep

end Step

/-! ## No deadlock -/

section Deadlock

variable {σ : State τ μ} {t t' t'' : τ}

theorem isLowest_of_topValue {value : ULong} {held : List μ}
    (hvalue : value = topValue hierarchyValue held)
    (h : held.Pairwise fun m m' => hierarchyValue m < hierarchyValue m') :
    IsLowest hierarchyValue value held := by
  cases held with
  | nil => exact hvalue
  | cons m rest => exact ⟨hvalue, fun m' hm' => List.rel_of_pairwise_cons h hm'⟩

/-- At rest the hierarchy value is that of the mutex locked last. -/
theorem ThreadOk.isLowest (h : ThreadOk hierarchyValue σ t) (hrest : (σ.pc t).atRest) :
    IsLowest hierarchyValue (σ.threadHierarchyValue t) (σ.held t) := by
  refine isLowest_of_topValue ?_ h.ascending
  have hvalues := h.values
  cases hpc : σ.pc t with
  | outside | lockInternal m =>
      rw [hpc] at hvalues
      exact hvalues.1
  | _ =>
      rw [hpc] at hrest
      cases hrest

/-- The hierarchy value of the mutex a thread is about to lock. -/
def wanted (hierarchyValue : μ → ULong) : Pc μ → ULong
  | .lockInternal m => hierarchyValue m
  | _ => 0

/-- Along a chain of waiting threads the values of the wanted mutexes go down. -/
theorem AllOk.wanted_lt (h : AllOk hierarchyValue σ) (hwait : WaitsFor σ t t')
    (hwait' : WaitsFor σ t' t'') :
    wanted hierarchyValue (σ.pc t') < wanted hierarchyValue (σ.pc t) := by
  obtain ⟨m, hpc, howner⟩ := hwait
  obtain ⟨m', hpc', -⟩ := hwait'
  have hvalues := (h t').values
  rw [hpc'] at hvalues
  obtain ⟨hvalue, -, hlt⟩ := hvalues
  rw [hpc, hpc']
  calc hierarchyValue m' < σ.threadHierarchyValue t' := hlt
    _ = topValue hierarchyValue (σ.held t') := hvalue
    _ ≤ hierarchyValue m := topValue_le (h t').ascending (((h t').owns m).mpr howner)

/-- Threads never wait for one another in a cycle, and a thread at rest has the
hierarchy value of the mutex it has locked last, the lowest of those it holds. -/
theorem no_deadlock [DecidableEq τ] [DecidableEq μ] (hierarchyValue : μ → ULong) (σ : State τ μ)
    (h : Reachable (step hierarchyValue) (State.init τ μ) σ) :
    (∀ t, ¬ Relation.TransGen (WaitsFor σ) t t) ∧
      ∀ t, (σ.pc t).atRest →
        (∀ m, m ∈ σ.held t ↔ σ.owner m = some t) ∧
        IsLowest hierarchyValue (σ.threadHierarchyValue t) (σ.held t) := by
  have hok := allOk_of_reachable h
  have hrank : ∀ t t', WaitsFor σ t t' → (∃ t'', WaitsFor σ t' t'') →
      wanted hierarchyValue (σ.pc t') < wanted hierarchyValue (σ.pc t) := by
    intro t t' hwait ⟨t'', hwait'⟩
    exact hok.wanted_lt hwait hwait'
  exact ⟨acyclic_of_rank hrank, fun t hrest => ⟨(hok t).owns, (hok t).isLowest hrest⟩⟩

/-- A low mutex and a high one. -/
def lowAndHigh : Bool → ULong
  | false => 100
  | true => 200

/-- Thread `true` locks the high mutex, thread `false` the low one, for which the
first then waits. -/
def lockHighThenLow : List (Label Bool Bool) :=
  [.lock true true] ++ .replicate 4 (.resume true false) ++
    [.lock false false] ++ .replicate 4 (.resume false false) ++
    [.lock true false, .resume true false]

theorem no_deadlock_blocked :
    ∃ σ, run (step lowAndHigh) (State.init Bool Bool) lockHighThenLow = some σ ∧
      WaitsFor σ true false ∧ (¬ Relation.TransGen (WaitsFor σ) true true) ∧
      (∀ m, m ∈ σ.held true ↔ σ.owner m = some true) ∧ σ.held true = [true] ∧
      σ.threadHierarchyValue true = 200 := by
  have hrun := (Option.some_get (show
    (run (step lowAndHigh) (State.init Bool Bool) lockHighThenLow).isSome from rfl)).symm
  obtain ⟨hcycle, hrest⟩ := no_deadlock lowAndHigh _ ⟨_, hrun⟩
  exact ⟨_, hrun, ⟨false, rfl, rfl⟩, hcycle true, (hrest true rfl).1, rfl, rfl⟩

end Deadlock

end InterProcess.Threading
