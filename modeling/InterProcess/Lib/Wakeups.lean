import InterProcess.Lib.Guarded

/-!
# No wakeup is lost

Waiters of a guarded class that wait for a supply: a call sleeps only while
nothing is there, and a call that adds to the supply notifies one waiter, before
it unlocks the mutex or after. Each item that is there while somebody sleeps is
then covered: by a thread on its way to take it, or by a notification still to
come (`Covered`). So the threads never get stuck with an item there
(`never_stuck`), and without new calls and needless wakeups they come to rest
(`resumes_acc`).
-/

namespace InterProcess.Guarded

open Function Lts Threads

variable {ι Data Call Local Ans : Type}

/-- What the calls that wait wait for: `avail` counts the items in the data. -/
structure Supply (g : Guarded Data Call Local Ans) (waits : Call → Bool) (avail : Data → ℕ) :
    Prop where
  sleeps : ∀ c d, g.ready c d = false → waits c = true ∧ avail d = 0
  takes : ∀ c d d' a, waits c = true → g.ready c d = true → g.Acts c d d' a →
    avail d' + 1 ≤ avail d
  adds : ∀ c d d' a, waits c = false → g.Acts c d d' a →
    avail d' ≤ avail d + if g.notifies c = .never then 0 else 1

/-- The item a thread is on its way to take, or the notification it still has to make. -/
def due (g : Guarded Data Call Local Ans) (waits : Call → Bool) : Phase Call Local Ans → ℕ
  | .locking c | .checking c | .inside c _ | .woken c => (waits c).toNat
  | .notifying _ _ | .notifyingReleased _ => 1
  | .unlocking c _ => if g.notifies c = .released then 1 else 0
  | .idle | .waiting _ => 0

/-- While somebody sleeps, every item that is there is due. -/
structure Covered (g : Guarded Data Call Local Ans) (waits : Call → Bool) (avail : Data → ℕ)
    [Fintype ι] (d : Data) (threads : ι → Phase Call Local Ans) : Prop where
  asleep : ∀ i c, threads i = .waiting c → waits c = true
  covered : (∃ i, (threads i).isWaiting = true) → avail d ≤ total (due g waits) threads

section Covered

variable [DecidableEq ι] {g : Guarded Data Call Local Ans} {waits : Call → Bool}
  {avail : Data → ℕ} {d d' : Data} {threads : ι → Phase Call Local Ans} {i : ι}
  {p : Phase Call Local Ans}

/-- A thread that does not fall asleep leaves the others as they are. -/
theorem isWaiting_of_update (hp : p.isWaiting = false) {j : ι}
    (hj : (update threads i p j).isWaiting = true) : j ≠ i ∧ (threads j).isWaiting = true := by
  by_cases hji : j = i
  · subst hji
    rw [update_self, hp] at hj
    cases hj
  · rw [update_of_ne hji] at hj
    exact ⟨hji, hj⟩

variable [Fintype ι]

/-- A thread moves on without falling asleep, and what is there changes by no more than what it
has due. -/
theorem Covered.move (h : Covered g waits avail d threads) (hp : p.isWaiting = false)
    (hdue : avail d' + due g waits (threads i) ≤ avail d + due g waits p) :
    Covered g waits avail d' (update threads i p) where
  asleep := by
    intro j c hj
    have hwaiting := isWaiting_of_update hp (j := j) (by rw [hj]; rfl)
    rw [update_of_ne hwaiting.1] at hj
    exact h.asleep j c hj
  covered := by
    rintro ⟨j, hj⟩
    have hle := h.covered ⟨j, (isWaiting_of_update hp hj).2⟩
    have htotal := total_update (due g waits) threads i p
    omega

/-- A thread falls asleep where nothing is there. -/
theorem Covered.sleep (h : Covered g waits avail d threads) {c : Call} (hwaits : waits c = true)
    (hempty : avail d = 0) : Covered g waits avail d (update threads i (.waiting c)) where
  asleep := by
    intro j c' hj
    by_cases hji : j = i
    · subst hji
      rw [update_self] at hj
      cases hj
      exact hwaits
    · rw [update_of_ne hji] at hj
      exact h.asleep j c' hj
  covered := by
    intro _
    rw [hempty]
    exact Nat.zero_le _

variable {σ σ' : State ι Data Call Local Ans}

/-- A thread that notifies has woken a waiter, or there is none. -/
theorem Covered.notify (h : Covered g waits avail d σ.threads) {wake : Option ι}
    (hnotify : σ.notifyOne wake = some σ') (hpc : (σ.threads i).isWaiting = false)
    (hp : p.isWaiting = false) (hdue : due g waits (σ.threads i) ≤ due g waits p + 1) :
    Covered g waits avail d (update σ'.threads i p) := by
  rcases notifyOne_cases hnotify with ⟨hnobody, rfl⟩ | ⟨j, c, hj, rfl⟩
  · have hawake : ∀ k, (update σ'.threads i p k).isWaiting = false :=
      forall_update (P := fun q => Phase.isWaiting q = false) hp fun k _ => hnobody k
    constructor
    · intro k c hk
      have hfalse := hawake k
      rw [hk] at hfalse
      cases hfalse
    · rintro ⟨k, hk⟩
      rw [hawake k] at hk
      cases hk
  · have hne : i ≠ j := by
      rintro rfl
      rw [hj] at hpc
      cases hpc
    have hwaits := h.asleep j c hj
    constructor
    · intro k c' hk
      have hki := (isWaiting_of_update hp (j := k) (by rw [hk]; rfl)).1
      rw [update_of_ne hki] at hk
      have hwoken : update σ.threads j (.woken c) k = .waiting c' := hk
      have hkj := (isWaiting_of_update (p := .woken c) rfl (j := k) (by rw [hwoken]; rfl)).1
      rw [update_of_ne hkj] at hwoken
      exact h.asleep k c' hwoken
    · intro _
      have hle := h.covered ⟨j, by rw [hj]; rfl⟩
      have hwoken := total_update (due g waits) σ.threads j (.woken c)
      have hmoved := total_update (due g waits) (update σ.threads j (.woken c)) i p
      rw [update_of_ne hne] at hmoved
      simp only [hj, due, hwaits, Bool.toNat_true] at hwoken
      show _ ≤ total (due g waits) (update (update σ.threads j (.woken c)) i p)
      omega

theorem Covered.moves (hsupply : Supply g waits avail) (hinv : Inv g σ)
    (h : Covered g waits avail σ.committed σ.threads) (hmoves : Moves g σ σ') :
    Covered g waits avail σ'.committed σ'.threads := by
  cases hmoves with
  | @invoke i c hpc =>
      refine h.move rfl ?_
      rw [hpc]
      exact Nat.add_le_add_left (Nat.zero_le _) _
  | @lock i c σ₁ hpc hacquire =>
      obtain ⟨habs, hthreads⟩ := abs_acquire hacquire
      have hdata : σ₁.committed = σ.committed := congrArg Atomic.State.data habs
      show Covered g waits avail σ₁.committed (update σ₁.threads i (.checking c))
      rw [hthreads, hdata]
      refine h.move rfl ?_
      rcases hpc with hpc | hpc <;> rw [hpc] <;> exact Nat.le_refl _
  | enter hpc hready =>
      refine h.move rfl ?_
      rw [hpc]
      exact Nat.le_refl _
  | @sleep i c hpc hready =>
      obtain ⟨hwaits, hempty⟩ := hsupply.sleeps c σ.data hready
      rw [hinv.data_eq (i := i) (by rw [hpc]; rfl) (by rw [hpc]; rfl)] at hempty
      obtain ⟨habs, hthreads⟩ := abs_release σ (g.mode c)
      have hdata : (σ.release (g.mode c)).committed = σ.committed :=
        congrArg Atomic.State.data habs
      show Covered g waits avail (σ.release (g.mode c)).committed
        (update (σ.release (g.mode c)).threads i (.waiting c))
      rw [hthreads, hdata]
      exact h.sleep hwaits hempty
  | access hpc haccess =>
      refine h.move rfl ?_
      rw [hpc]
      exact Nat.le_refl _
  | @commit i c l d a hpc haccess =>
      obtain ⟨hready, hstarted⟩ := hinv.started i c l hpc
      have hacts : g.Acts c σ.committed d a := ⟨l, σ.data, hstarted, haccess⟩
      refine h.move (by unfold after; split <;> rfl) ?_
      rw [hpc]
      cases hwaits : waits c with
      | true =>
          have htakes := hsupply.takes c _ _ _ hwaits hready hacts
          show avail d + (waits c).toNat ≤ avail σ.committed + _
          rw [hwaits, Bool.toNat_true]
          exact htakes.trans (Nat.le_add_right _ _)
      | false =>
          have hadds := hsupply.adds c _ _ _ hwaits hacts
          show avail d + (waits c).toNat ≤ avail σ.committed + _
          rw [hwaits, Bool.toNat_false, Nat.add_zero]
          refine hadds.trans (Nat.add_le_add_left ?_ _)
          unfold after
          cases hnotifies : g.notifies c <;> simp [due, hnotifies]
  | @notify i c a wake σ₁ hpc hnotify =>
      have hdata : σ₁.committed = σ.committed :=
        congrArg Atomic.State.data (abs_notifyOne hnotify).1
      show Covered g waits avail σ₁.committed (update σ₁.threads i (.unlocking c a))
      rw [hdata]
      refine h.notify hnotify (by rw [hpc]; rfl) rfl ?_
      rw [hpc]
      exact Nat.le_add_left _ _
  | @unlock i c a hpc hreleased =>
      obtain ⟨habs, hthreads⟩ := abs_release σ (g.mode c)
      have hdata : (σ.release (g.mode c)).committed = σ.committed :=
        congrArg Atomic.State.data habs
      show Covered g waits avail (σ.release (g.mode c)).committed
        (update (σ.release (g.mode c)).threads i (.notifyingReleased a))
      rw [hthreads, hdata]
      refine h.move rfl ?_
      simp only [hpc, due, if_pos hreleased]
      exact Nat.le_refl _
  | @finish i c a hpc hreleased =>
      obtain ⟨habs, hthreads⟩ := abs_release σ (g.mode c)
      have hdata : (σ.release (g.mode c)).committed = σ.committed :=
        congrArg Atomic.State.data habs
      show Covered g waits avail (σ.release (g.mode c)).committed
        (update (σ.release (g.mode c)).threads i .idle)
      rw [hthreads, hdata]
      refine h.move rfl ?_
      simp only [hpc, due, if_neg hreleased]
      exact Nat.le_refl _
  | @notifyReleased i a wake σ₁ hpc hnotify =>
      have hdata : σ₁.committed = σ.committed :=
        congrArg Atomic.State.data (abs_notifyOne hnotify).1
      show Covered g waits avail σ₁.committed (update σ₁.threads i .idle)
      rw [hdata]
      refine h.notify hnotify (by rw [hpc]; rfl) rfl ?_
      rw [hpc]
      exact Nat.le_add_left _ _
  | spurious hpc =>
      refine h.move rfl ?_
      rw [hpc]
      exact Nat.add_le_add_left (Nat.zero_le _) _

theorem covered_of_reachable (hreads : g.Reads) (hsupply : Supply g waits avail) {d : Data}
    (h : Reachable g.step (State.init d) σ) :
    Inv g σ ∧ Covered g waits avail σ.committed σ.threads := by
  apply h.induction
  · refine ⟨inv_init d, ⟨fun _ _ => nofun, ?_⟩⟩
    rintro ⟨i, hi⟩
    cases hi
  · intro σ l σ' hinv hstep
    have hmoves := moves_of_step hstep
    exact ⟨hinv.1.moves hreads hmoves, hinv.2.moves hsupply hinv.1 hmoves⟩

end Covered

/-! ## Never stuck -/

section Rest

variable [Fintype ι] {g : Guarded Data Call Local Ans} {σ σ' : State ι Data Call Local Ans}

/-- With nobody inside, the mutex is free. -/
theorem Inv.exists_acquire (h : Inv g σ) (hnobody : ∀ i, (σ.threads i).holds g = none)
    (mode : Mode) : ∃ σ₁, σ.acquire mode = some σ₁ := by
  have hwriter := h.writer_eq
  have hreaders := h.readers_eq
  rw [total_eq_zero fun i => holdsWeight_of_ne (by rw [hnobody i]; nofun)] at hwriter hreaders
  have hfree : σ.writer = false := by
    cases hw : σ.writer with
    | false => rfl
    | true => rw [hw] at hwriter; cases hwriter
  cases mode with
  | exclusive => exact ⟨_, if_pos ⟨hfree, hreaders.symm⟩⟩
  | shared => exact ⟨_, if_pos hfree⟩

variable [DecidableEq ι]

/-- The calls that have begun are all asleep. -/
def AtRest (σ : State ι Data Call Local Ans) : Prop :=
  ∀ i, σ.threads i = .idle ∨ (σ.threads i).isWaiting = true

/-- Some thread goes on in its call. -/
def Resumes (g : Guarded Data Call Local Ans) (σ' σ : State ι Data Call Local Ans) : Prop :=
  ∃ i wake, g.resume σ i wake = some σ'

/-- `notify_one` always finds a waiter, or that there is none. -/
theorem exists_notifyOne (σ : State ι Data Call Local Ans) :
    ∃ wake σ₁, σ.notifyOne wake = some σ₁ := by
  by_cases h : ∀ j, (σ.threads j).isWaiting = false
  · exact ⟨none, σ, if_pos h⟩
  · rw [not_forall] at h
    obtain ⟨j, hj⟩ := h
    cases hpc : σ.threads j with
    | waiting c => exact ⟨some j, σ.move j (.woken c), by simp only [State.notifyOne, hpc]⟩
    | _ => rw [hpc] at hj; exact absurd rfl hj

/-- Whoever holds the mutex, or has unlocked it, can go on. -/
theorem resumes_or_outside (i : ι) :
    (∃ σ', Resumes g σ' σ) ∨ σ.threads i = .idle ∨ (σ.threads i).isWaiting = true ∨
      ∃ c, σ.threads i = .locking c ∨ σ.threads i = .woken c := by
  obtain ⟨wake, σ₁, hnotify⟩ := exists_notifyOne σ
  have hgoes : ∀ wake σ', g.resume σ i wake = some σ' → ∃ σ', Resumes g σ' σ :=
    fun wake σ' h => ⟨σ', i, wake, h⟩
  cases hpc : σ.threads i with
  | idle => exact .inr (.inl rfl)
  | waiting c => exact .inr (.inr (.inl rfl))
  | locking c => exact .inr (.inr (.inr ⟨c, .inl rfl⟩))
  | woken c => exact .inr (.inr (.inr ⟨c, .inr rfl⟩))
  | checking c =>
      by_cases hready : g.ready c σ.data = true
      · exact .inl (hgoes none _ (by simp only [resume, hpc, if_pos hready]; rfl))
      · exact .inl (hgoes none _ (by simp only [resume, hpc, if_neg hready]; rfl))
  | inside c l =>
      cases haccess : g.access c l σ.data with
      | mk d next =>
          cases next with
          | inl l' => exact .inl (hgoes none _ (by simp only [resume, hpc, haccess]; rfl))
          | inr a => exact .inl (hgoes none _ (by simp only [resume, hpc, haccess]; rfl))
  | notifying c a =>
      exact .inl (hgoes wake _ (by simp only [resume, hpc, hnotify]; rfl))
  | notifyingReleased a =>
      exact .inl (hgoes wake _ (by simp only [resume, hpc, hnotify]; rfl))
  | unlocking c a =>
      by_cases hreleased : g.notifies c = .released
      · exact .inl (hgoes none _ (by simp only [resume, hpc, if_pos hreleased]; rfl))
      · exact .inl (hgoes none _ (by simp only [resume, hpc, if_neg hreleased]; rfl))

/-- The threads go on until every call has returned or sleeps. -/
theorem Inv.resumes_or_atRest (h : Inv g σ) : (∃ σ', Resumes g σ' σ) ∨ AtRest σ := by
  by_cases hstuck : ∃ σ', Resumes g σ' σ
  · exact .inl hstuck
  refine .inr fun i => ?_
  have houtside := fun j => (resumes_or_outside (g := g) (σ := σ) j).resolve_left hstuck
  rcases houtside i with hidle | hwaiting | ⟨c, hpc⟩
  · exact .inl hidle
  · exact .inr hwaiting
  · -- a thread that is to lock finds the mutex free
    have hnobody : ∀ j, (σ.threads j).holds g = none := by
      intro j
      rcases houtside j with hj | hj | ⟨c', hj | hj⟩
      · rw [hj]; rfl
      · cases hpc' : σ.threads j <;> rw [hpc'] at hj <;> first | rfl | cases hj
      · rw [hj]; rfl
      · rw [hj]; rfl
    obtain ⟨σ₁, hacquire⟩ := h.exists_acquire hnobody (g.mode c)
    refine absurd ⟨σ₁.move i (.checking c), i, none, ?_⟩ hstuck
    rcases hpc with hpc | hpc <;> simp only [resume, hpc, hacquire] <;> rfl

variable {waits : Call → Bool} {avail : Data → ℕ}

/-- No wakeup is lost: the threads can go on, or else the calls that have not returned all sleep
and there is nothing they could take. -/
theorem never_stuck (hreads : g.Reads) (hsupply : Supply g waits avail) {d : Data}
    (h : Reachable g.step (State.init d) σ) :
    (∃ σ', Resumes g σ' σ) ∨
      AtRest σ ∧ ((∃ i, (σ.threads i).isWaiting = true) → avail σ.data = 0) := by
  obtain ⟨hinv, hcovered⟩ := covered_of_reachable hreads hsupply h
  refine hinv.resumes_or_atRest.imp_right fun hrest => ⟨hrest, fun hwaiting => ?_⟩
  have hdata : σ.data = σ.committed := by
    rcases hinv.stable with heq | ⟨i, c, l, hi, -⟩
    · exact heq
    · rcases hrest i with hidle | hwaiting <;> rw [hi] at * <;> contradiction
  have hnone : total (due g waits) σ.threads = 0 := by
    refine total_eq_zero fun i => ?_
    rcases hrest i with hidle | hwaiting
    · rw [hidle]; rfl
    · cases hpc : σ.threads i <;> rw [hpc] at hwaiting <;> first | rfl | cases hwaiting
  have hle := hcovered.covered hwaiting
  rw [hdata]
  omega

/-- In a class whose functions never wait nobody sleeps: the threads go on until every call has
returned. -/
theorem resumes_or_idle (hreads : g.Reads) (hready : ∀ c d, g.ready c d = true) {d : Data}
    (h : Reachable g.step (State.init d) σ) :
    (∃ σ', Resumes g σ' σ) ∨ ∀ i, σ.threads i = .idle := by
  have hsupply : Supply g (fun _ => false) fun _ => 0 := by
    refine ⟨fun c d hnot => ?_, fun _ _ _ _ => nofun, fun _ _ _ _ _ _ => Nat.zero_le _⟩
    rw [hready c d] at hnot
    cases hnot
  obtain ⟨hinv, hcovered⟩ := covered_of_reachable hreads hsupply h
  refine hinv.resumes_or_atRest.imp_right fun hrest i => ?_
  refine (hrest i).resolve_right fun hwaiting => ?_
  cases hpc : σ.threads i with
  | waiting c => exact absurd (hcovered.asleep i c hpc) Bool.false_ne_true
  | _ => rw [hpc] at hwaiting; cases hwaiting

end Rest

/-! ## Coming to rest -/

section Ends

variable [Fintype ι] [DecidableEq ι] {g : Guarded Data Call Local Ans}
  {σ σ' : State ι Data Call Local Ans} {i : ι} {wake : Option ι}

/-- The notifications a thread still has to make in its call. -/
def pendingNotifies (g : Guarded Data Call Local Ans) : Phase Call Local Ans → ℕ
  | .locking c | .checking c | .inside c _ | .waiting c | .woken c =>
      if g.notifies c = .never then 0 else 1
  | .notifying c _ => (if g.notifies c = .released then 1 else 0) + 1
  | .unlocking c _ => if g.notifies c = .released then 1 else 0
  | .notifyingReleased _ => 1
  | .idle => 0

/-- The steps a thread may take without a notification; `rank` bounds its accesses. -/
def stepsLeft (g : Guarded Data Call Local Ans) (rank : Call → Local → ℕ) :
    Phase Call Local Ans → ℕ
  | .locking c | .woken c => rank c g.enter + 5
  | .checking c => rank c g.enter + 4
  | .inside c l => rank c l + 3
  | .notifying _ _ | .unlocking _ _ => 2
  | .notifyingReleased _ => 1
  | .idle | .waiting _ => 0

/-- A notification is used up, or a step. -/
def Spends (g : Guarded Data Call Local Ans) (rank : Call → Local → ℕ)
    (threads' threads : ι → Phase Call Local Ans) : Prop :=
  Prod.Lex (· < ·) (· < ·)
    (total (pendingNotifies g) threads', total (stepsLeft g rank) threads')
    (total (pendingNotifies g) threads, total (stepsLeft g rank) threads)

variable {rank : Call → Local → ℕ} {threads : ι → Phase Call Local Ans}
  {p : Phase Call Local Ans}

theorem spends_step (hnotifies : pendingNotifies g p = pendingNotifies g (threads i))
    (hsteps : stepsLeft g rank p < stepsLeft g rank (threads i)) :
    Spends g rank (update threads i p) threads := by
  have hsame := total_update_of_eq (pendingNotifies g) threads i p hnotifies
  have hless := total_update (stepsLeft g rank) threads i p
  unfold Spends
  rw [hsame]
  exact .right _ (by omega)

theorem spends_notify (hnotify : σ.notifyOne wake = some σ')
    (hpc : (σ.threads i).isWaiting = false)
    (hnotifies : pendingNotifies g p < pendingNotifies g (σ.threads i)) :
    Spends g rank (update σ'.threads i p) σ.threads := by
  have hi := notifyOne_keeps hnotify i hpc
  have hless := total_update (pendingNotifies g) σ'.threads i p
  have hwoken : total (pendingNotifies g) σ'.threads = total (pendingNotifies g) σ.threads := by
    rcases notifyOne_cases hnotify with ⟨-, rfl⟩ | ⟨j, c, hj, rfl⟩
    · rfl
    · refine total_update_of_eq _ _ _ _ ?_
      rw [hj]
      rfl
  rw [hwoken, hi] at hless
  exact .left _ _ (by omega)

/-- Every step of a call spends. -/
theorem spends_of_resume
    (hrank : ∀ c l d d' l', g.access c l d = (d', .inl l') → rank c l' < rank c l)
    (h : g.resume σ i wake = some σ') : Spends g rank σ'.threads σ.threads := by
  unfold resume at h
  cases hpc : σ.threads i with
  | idle | waiting c => simp [hpc] at h
  | locking c | woken c =>
      simp only [hpc, Option.map_eq_some_iff] at h
      obtain ⟨σ₁, hacquire, rfl⟩ := h
      show Spends g rank (update σ₁.threads i (.checking c)) σ.threads
      rw [(abs_acquire hacquire).2]
      refine spends_step ?_ ?_
      · rw [hpc]
        rfl
      · rw [hpc]
        exact Nat.lt_succ_self _
  | checking c =>
      simp only [hpc] at h
      split at h
      · cases h
        refine spends_step ?_ ?_
        · rw [hpc]
          rfl
        · rw [hpc]
          exact Nat.lt_succ_self _
      · cases h
        show Spends g rank (update (σ.release (g.mode c)).threads i (.waiting c)) σ.threads
        rw [(abs_release σ (g.mode c)).2]
        refine spends_step ?_ ?_
        · rw [hpc]
          rfl
        · rw [hpc]
          exact Nat.succ_pos _
  | inside c l =>
      simp only [hpc] at h
      split at h
      · next haccess =>
          cases h
          refine spends_step ?_ ?_
          · rw [hpc]
            rfl
          · rw [hpc]
            exact Nat.add_lt_add_right (hrank c l _ _ _ haccess) 3
      · cases h
        refine spends_step ?_ ?_
        · rw [hpc]
          unfold after
          cases hnotifies : g.notifies c <;> simp [pendingNotifies, hnotifies]
        · rw [hpc]
          unfold after
          split <;> exact Nat.lt_add_left _ (Nat.lt_succ_self 2)
  | notifying c a =>
      simp only [hpc, Option.map_eq_some_iff] at h
      obtain ⟨σ₁, hnotify, rfl⟩ := h
      refine spends_notify hnotify (by rw [hpc]; rfl) ?_
      rw [hpc]
      exact Nat.lt_succ_self _
  | unlocking c a =>
      simp only [hpc] at h
      split at h
      · next hreleased =>
          cases h
          show Spends g rank (update (σ.release (g.mode c)).threads i _) σ.threads
          rw [(abs_release σ (g.mode c)).2]
          refine spends_step ?_ ?_
          · simp only [hpc, pendingNotifies, if_pos hreleased]
          · rw [hpc]
            exact Nat.lt_succ_self 1
      · next hreleased =>
          cases h
          show Spends g rank (update (σ.release (g.mode c)).threads i .idle) σ.threads
          rw [(abs_release σ (g.mode c)).2]
          refine spends_step ?_ ?_
          · simp only [hpc, pendingNotifies, if_neg hreleased]
          · rw [hpc]
            exact Nat.succ_pos 1
  | notifyingReleased a =>
      simp only [hpc, Option.map_eq_some_iff] at h
      obtain ⟨σ₁, hnotify, rfl⟩ := h
      refine spends_notify hnotify (by rw [hpc]; rfl) ?_
      rw [hpc]
      exact Nat.one_pos

/-- Without new calls and needless wakeups the threads take finitely many steps. -/
theorem resumes_acc (rank : Call → Local → ℕ)
    (hrank : ∀ c l d d' l', g.access c l d = (d', .inl l') → rank c l' < rank c l)
    (σ : State ι Data Call Local Ans) : Acc (Resumes g) σ := by
  have hwf : WellFounded fun σ' σ : State ι Data Call Local Ans =>
      Spends g rank σ'.threads σ.threads :=
    InvImage.wf (fun σ : State ι Data Call Local Ans =>
      (total (pendingNotifies g) σ.threads, total (stepsLeft g rank) σ.threads))
      (Nat.lt_wfRel.wf.prod_lex Nat.lt_wfRel.wf)
  refine Subrelation.accessible ?_ (hwf.apply σ)
  rintro σ' σ ⟨i, wake, h⟩
  exact spends_of_resume hrank h

end Ends

end InterProcess.Guarded
