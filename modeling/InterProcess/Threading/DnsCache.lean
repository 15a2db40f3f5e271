import InterProcess.Lib.Wakeups

/-!
# `dns_chache`

A map from domains to entries behind a `shared_mutex`: any number of threads
look entries up at the same time, one at a time updates.

`entries[domain] = dns_details` first inserts an entry made by default where
there is none. Were a lookup to come in between, it would find that entry.
`dnsCache_linearizable`: none does, every lookup finds what the last update of its domain
has put there.
-/

namespace InterProcess.Threading.DnsCache

open Guarded Lts Function

variable {Entry : Type}

/-- `std::map`. -/
abbrev Entries (Entry : Type) := String → Option Entry

inductive Call (Entry : Type)
  | findEntry (domain : String)
  | updateOrAddEntry (domain : String) (dnsDetails : Entry)

inductive Answer (Entry : Type)
  | found (entry : Option Entry)
  | updated
  | undefined

/-- Where a function is in its critical section: at its first access, at the entry the iterator
points to, or at the assignment. -/
inductive Pc
  | start
  | read
  | assign

variable [Inhabited Entry]

/-- The accesses of the critical sections to the map. -/
def access (call : Call Entry) (pc : Pc) (entries : Entries Entry) :
    Entries Entry × (Pc ⊕ Answer Entry) :=
  match call, pc with
  | .findEntry domain, .start =>
      if (entries domain).isNone then (entries, .inr (.found none)) else (entries, .inl .read)
  | .findEntry domain, _ =>
      match entries domain with
      | some entry => (entries, .inr (.found (some entry)))
      | none => (entries, .inr .undefined)
  | .updateOrAddEntry domain _, .start =>
      if (entries domain).isNone then (update entries domain (some default), .inl .assign)
      else (entries, .inl .assign)
  | .updateOrAddEntry domain dnsDetails, _ =>
      (update entries domain (some dnsDetails), .inr .updated)

def dnsCache : Guarded (Entries Entry) (Call Entry) Pc (Answer Entry) where
  mode call :=
    match call with
    | .findEntry _ => .shared
    | .updateOrAddEntry _ _ => .exclusive
  ready _ _ := true
  enter := .start
  access := access
  notifies _ := .never

/-- The cache, its mutex and the threads that call its functions. -/
abbrev CacheState (ι Entry : Type) := Guarded.State ι (Entries Entry) (Call Entry) Pc (Answer Entry)

/-! ## The cache without threads -/

/-- What each function is for. -/
inductive Spec : Call Entry → Entries Entry → Entries Entry → Answer Entry → Prop
  | findEntry (domain : String) (entries : Entries Entry) :
      Spec (.findEntry domain) entries entries (.found (entries domain))
  | updateOrAddEntry (domain : String) (dnsDetails : Entry) (entries : Entries Entry) :
      Spec (.updateOrAddEntry domain dnsDetails) entries
        (update entries domain (some dnsDetails)) .updated

/-- A lookup leaves the map alone, and goes on only where the domain is in it. An update has
touched nothing but its domain. -/
inductive Between (entries : Entries Entry) : Call Entry → Pc → Entries Entry → Prop
  | start (call : Call Entry) : Between entries call .start entries
  | read {domain : String} (hsome : (entries domain).isNone = false) :
      Between entries (.findEntry domain) .read entries
  | assign {domain : String} {dnsDetails : Entry} {entries' : Entries Entry}
      (hrest : ∀ d, d ≠ domain → entries' d = entries d) :
      Between entries (.updateOrAddEntry domain dnsDetails) .assign entries'

variable {call : Call Entry} {entries entries' : Entries Entry} {answer : Answer Entry}

theorem between_of_accesses {pc : Pc} (h : dnsCache.Accesses call entries pc entries') :
    Between entries call pc entries' := by
  induction h with
  | enter => exact .start call
  | @access pc pc' entries' entries'' _ haccess ih =>
      replace haccess : access call pc entries' = (entries'', .inl pc') := haccess
      cases ih with
      | start =>
          cases call with
          | findEntry domain =>
              simp only [access] at haccess
              split at haccess
              · cases haccess
              · next hsome =>
                  cases haccess
                  exact .read (Bool.eq_false_of_not_eq_true hsome)
          | updateOrAddEntry domain dnsDetails =>
              simp only [access] at haccess
              split at haccess
              · cases haccess
                exact .assign fun d hd => update_of_ne hd _ _
              · cases haccess
                exact .assign fun _ _ => rfl
      | read hsome =>
          simp only [access] at haccess
          split at haccess <;> cases haccess
      | assign hrest => cases haccess

/-- A critical section does what the function is for. -/
theorem spec_of_acts (h : dnsCache.Acts call entries entries' answer) :
    Spec call entries entries' answer := by
  obtain ⟨pc, entries₁, haccesses, haccess⟩ := h
  replace haccess : access call pc entries₁ = (entries', .inr answer) := haccess
  cases between_of_accesses haccesses with
  | start =>
      cases call with
      | findEntry domain =>
          simp only [access] at haccess
          split at haccess
          · next hnone =>
              cases haccess
              have hfound := Spec.findEntry domain entries
              rw [Option.isNone_iff_eq_none.mp hnone] at hfound
              exact hfound
          · cases haccess
      | updateOrAddEntry domain dnsDetails =>
          simp only [access] at haccess
          split at haccess <;> cases haccess
  | @read domain hsome =>
      simp only [access] at haccess
      split at haccess
      · next entry hentry =>
          cases haccess
          have hfound := Spec.findEntry domain entries
          rw [hentry] at hfound
          exact hfound
      · next hnone =>
          rw [hnone] at hsome
          cases hsome
  | @assign domain dnsDetails entries₁ hrest =>
      cases haccess
      have hupdate : update entries₁ domain (some dnsDetails) =
          update entries domain (some dnsDetails) := by
        funext d
        by_cases hd : d = domain
        · subst hd
          rw [update_self, update_self]
        · rw [update_of_ne hd, update_of_ne hd, hrest d hd]
      rw [hupdate]
      exact .updateOrAddEntry domain dnsDetails entries

/-- A lookup only reads. -/
theorem dnsCache_reads : (dnsCache : Guarded (Entries Entry) _ _ _).Reads := by
  intro call pc entries hmode
  cases call with
  | findEntry domain =>
      cases pc with
      | start => show (access _ _ _).1 = entries; simp only [access]; split <;> rfl
      | read | assign => show (access _ _ _).1 = entries; simp only [access]; split <;> rfl
  | updateOrAddEntry domain dnsDetails => cases hmode

/-- The accesses a critical section still makes after this one. -/
def accessesLeft (_call : Call Entry) : Pc → ℕ
  | .start => 1
  | .read | .assign => 0

theorem accessesLeft_lt {pc pc' : Pc} (h : access call pc entries = (entries', .inl pc')) :
    accessesLeft call pc' < accessesLeft call pc := by
  cases call with
  | findEntry domain =>
      cases pc with
      | start => simp only [access] at h; split at h <;> cases h; exact Nat.one_pos
      | read | assign => simp only [access] at h; split at h <;> cases h
  | updateOrAddEntry domain dnsDetails =>
      cases pc with
      | start => simp only [access] at h; split at h <;> cases h <;> exact Nat.one_pos
      | read | assign => cases h

/-! ## Main result -/

variable {ι : Type} [Fintype ι] [DecidableEq ι]

/-- In every interleaving of lookups and updates each takes effect at one point between its
invocation and its response, so no lookup finds an entry that nobody has put there; and no call
is stuck. -/
theorem dnsCache_linearizable (σ : CacheState ι Entry)
    (h : Reachable dnsCache.step (Guarded.State.init fun _ => none) σ) :
    (∃ s, Atomic.Reaches Spec (Atomic.State.init fun _ => none) s ∧ s.history = σ.history ∧
      ∀ i, (σ.threads i).abs = s.threads i) ∧
    Acc (Resumes dnsCache) σ ∧
      ((∃ σ', Resumes dnsCache σ' σ) ∨ ∀ i, σ.threads i = .idle) := by
  refine ⟨⟨σ.abs, ?_, rfl, fun _ => rfl⟩, ?_, ?_⟩
  · exact refines dnsCache_reads (fun _ _ _ _ _ => spec_of_acts) h
  · exact resumes_acc accessesLeft (fun _ _ _ _ _ => accessesLeft_lt) σ
  · exact resumes_or_idle dnsCache_reads (fun _ _ => rfl) h

/-- One thread looks a domain up that another one is about to add. -/
def lookupDuringUpdate : List (Guarded.Label Bool (Call ℕ)) :=
  .call true (.updateOrAddEntry "localhost" 127) :: .replicate 3 (.resume true none) ++
    .call false (.findEntry "localhost") :: .replicate 2 (.resume true none) ++
    .replicate 5 (.resume false none)

/-- It waits for the mutex, and finds what was added. -/
theorem dnsCache_linearizable_lookup :
    ∃ σ : CacheState Bool ℕ,
      run dnsCache.step (Guarded.State.init fun _ => none) lookupDuringUpdate = some σ ∧
      ∃ s, Atomic.Reaches Spec (Atomic.State.init fun _ => none) s ∧
        s.history = [.invoke true (.updateOrAddEntry "localhost" 127),
          .invoke false (.findEntry "localhost"), .respond true .updated,
          .respond false (.found (some 127))] := by
  obtain ⟨σ, hrun, hhistory⟩ : ∃ σ : CacheState Bool ℕ,
      run dnsCache.step (Guarded.State.init fun _ => none) lookupDuringUpdate = some σ ∧
      σ.history = [.invoke true (.updateOrAddEntry "localhost" 127),
          .invoke false (.findEntry "localhost"), .respond true .updated,
          .respond false (.found (some 127))] := ⟨_, rfl, rfl⟩
  obtain ⟨⟨s, hs, heq, -⟩, -⟩ := dnsCache_linearizable σ ⟨_, hrun⟩
  exact ⟨σ, hrun, s, hs, heq.trans hhistory⟩

end InterProcess.Threading.DnsCache
