import InterProcess.DiskScheduling.SeekDistance
import InterProcess.Lib.Lts

/-!
# Requests that arrive while the disk is at work

Between two calls of `select_next` any requests may be put into the set. The
head still gets to every request: to one ahead of it without turning, to one
behind it with one turn. What the scheduler selects before it is
bounded by the way the head has to go (`patience`), however many requests
arrive (`served_within`).
-/

namespace InterProcess.DiskScheduling

open Lts

variable {info : TypeInfo}

theorem orderedInsert_sorted {requests : List (Request info)} {req : Request info}
    (hsorted : requests.Pairwise fun fst snd => fst.track < snd.track) (hnew : req ∉ requests) :
    (requests.orderedInsert (fun fst snd => fst.track ≤ snd.track) req).Pairwise
      fun fst snd => fst.track < snd.track := by
  have hle : (requests.orderedInsert (fun fst snd => fst.track ≤ snd.track) req).Pairwise
      fun fst snd => fst.track ≤ snd.track := (hsorted.imp le_of_lt).orderedInsert req _
  have hnodup : (requests.orderedInsert (fun fst snd => fst.track ≤ snd.track) req).Nodup := by
    rw [(List.perm_orderedInsert _ req requests).nodup_iff, List.nodup_cons]
    refine ⟨hnew, hsorted.imp fun {fst snd} hlt => ?_⟩
    rintro rfl
    exact lt_irrefl _ hlt
  exact (hle.and hnodup).imp fun h =>
    lt_of_le_of_ne h.1 fun heq => h.2 (Request.track_inj heq)

/-- `insert`, which leaves a set alone that has the request. -/
def FlatSet.insert (set : FlatSet info) (req : Request info) : FlatSet info :=
  if hnew : req ∈ set.requests then set
  else ⟨set.requests.orderedInsert (fun fst snd => fst.track ≤ snd.track) req,
    orderedInsert_sorted set.sorted hnew⟩

theorem FlatSet.mem_insert {set : FlatSet info} {req other : Request info}
    (h : other ∈ set.requests) : other ∈ (set.insert req).requests := by
  unfold FlatSet.insert
  split
  · exact h
  · exact (List.mem_orderedInsert _).mpr (.inr h)

/-! ## The disk at work -/

/-- The scheduler, the disk and the set of its requests, the requests served so far and the
number of times the direction has changed. -/
structure Work (info : TypeInfo) where
  scheduler : Scheduler
  disk : Disk info
  set : FlatSet info
  served : List (Request info)
  turns : ℕ

/-- A request is put into the set, or the next one is selected, the head moved to it and the
request erased. -/
inductive Event (info : TypeInfo)
  | arrive (req : Request info)
  | select

def Event.isSelect : Event info → Bool
  | .arrive _ => false
  | .select => true

def Work.serve (σ : Work info) (req : Request info) (scheduler : Scheduler) : Work info :=
  { scheduler := scheduler
    disk := ⟨req.trackNumber⟩
    set := σ.set.erase req
    served := σ.served ++ [req]
    turns := if scheduler.currDirection = σ.scheduler.currDirection then σ.turns else σ.turns + 1 }

def Work.step (σ : Work info) : Event info → Option (Work info)
  | .arrive req => some { σ with set := σ.set.insert req }
  | .select =>
      (σ.scheduler.selectNext σ.disk σ.set).map fun (req, scheduler) => σ.serve req scheduler

/-! ## How far a request is away -/

instance HeadDirection.decidableBeyond (direction : HeadDirection) (a b : ℤ) :
    Decidable (direction.Beyond a b) :=
  match direction with
  | .left => inferInstanceAs (Decidable (b < a))
  | .right => inferInstanceAs (Decidable (a < b))

/-- The way from `a` to `b` for a head that moves in the direction. -/
def HeadDirection.distance : HeadDirection → ℤ → ℤ → ℤ
  | .left, a, b => a - b
  | .right, a, b => b - a

/-- How far the head has to go to a track: straight there, or to the edge and back, with the
selection that turns it. -/
def HeadDirection.patience (info : TypeInfo) (direction : HeadDirection) (head track : ℤ) : ℤ :=
  if direction.Beyond head track then direction.distance head track
  else direction.distance head (direction.edge info) + 1 +
    direction.reversed.distance (direction.edge info) track

/-- The turns of the head on its way to a track. -/
def HeadDirection.turnsLeft (direction : HeadDirection) (head track : ℤ) : ℕ :=
  if direction.Beyond head track then 0 else 1

def Work.patience (σ : Work info) (req : Request info) : ℤ :=
  σ.scheduler.currDirection.patience info σ.disk.headPosition.value req.track

def Work.turnsLeft (σ : Work info) (req : Request info) : ℕ :=
  σ.scheduler.currDirection.turnsLeft σ.disk.headPosition.value req.track

theorem HeadDirection.patience_pos (direction : HeadDirection) (head : TrackNumber info)
    (req : Request info) : 0 < direction.patience info head.value req.track := by
  have hhead := head.min_le
  have hhead' := head.le_max
  have hreq : info.min ≤ req.track := req.trackNumber.min_le
  have hreq' : req.track ≤ info.max := req.trackNumber.le_max
  unfold HeadDirection.patience
  split
  · next hbeyond =>
      cases direction <;> simp only [beyond_left, beyond_right] at hbeyond <;>
        simp only [HeadDirection.distance] <;> omega
  · cases direction <;>
      simp only [HeadDirection.distance, HeadDirection.edge, HeadDirection.reversed] <;> omega

theorem HeadDirection.patience_le (direction : HeadDirection) (head : TrackNumber info)
    (req : Request info) :
    direction.patience info head.value req.track ≤ 2 * (info.max - info.min) + 1 := by
  have hhead := head.min_le
  have hhead' := head.le_max
  have hreq : info.min ≤ req.track := req.trackNumber.min_le
  have hreq' : req.track ≤ info.max := req.trackNumber.le_max
  unfold HeadDirection.patience
  cases direction <;>
    simp only [HeadDirection.distance, HeadDirection.edge, HeadDirection.reversed] <;>
    split <;> omega

/-! ## One selection -/

/-- What becomes of a request in the set: it is served, or it comes nearer. -/
inductive Approaches (σ σ' : Work info) (req : Request info) : Prop
  | served (hserved : σ'.served = σ.served ++ [req])
      (hturns : σ'.turns ≤ σ.turns + σ.turnsLeft req)
  | nearer {other : Request info} (hserved : σ'.served = σ.served ++ [other])
      (hpending : req ∈ σ'.set.requests) (hpatience : σ'.patience req < σ.patience req)
      (hturns : σ'.turns + σ'.turnsLeft req ≤ σ.turns + σ.turnsLeft req)

section Select

variable {σ σ' : Work info} {req other : Request info} {ahead behind : List (Request info)}
  {direction : HeadDirection}

theorem mem_erase (hpending : req ∈ σ.set.requests) (hne : req ≠ other) :
    req ∈ (σ.set.erase other).requests :=
  (List.mem_erase_of_ne hne).mpr hpending

/-- The nearest request ahead is selected. -/
theorem approaches_ahead (hdirection : σ.scheduler = ⟨direction⟩)
    (h : Sees direction σ.disk.headPosition.value σ.set (other :: ahead) behind)
    (hpending : req ∈ σ.set.requests) : Approaches σ (σ.serve other ⟨direction⟩) req := by
  have hstays : (σ.serve other ⟨direction⟩).turns = σ.turns := if_pos (by rw [hdirection])
  by_cases heq : req = other
  · exact .served (by rw [heq]; rfl) (hstays ▸ Nat.le_add_right _ _)
  have hbeyond := h.ahead other List.mem_cons_self
  have hbeyond' : direction.Beyond other.track req.track ↔
      direction.Beyond σ.disk.headPosition.value req.track := by
    have hmem := h.perm.mem_iff.mpr hpending
    rw [List.cons_append, List.mem_cons, List.mem_append] at hmem
    rcases hmem with hother | hahead | hbehind
    · exact absurd hother heq
    · exact ⟨fun _ => h.ahead req (List.mem_cons_of_mem _ hahead),
        fun _ => (List.pairwise_cons.1 h.ahead_sorted).1 req hahead⟩
    · exact ⟨fun hafter => absurd hafter (h.erase_ahead.behind req hbehind),
        fun hbefore => absurd hbefore (h.behind req hbehind)⟩
  refine .nearer rfl (mem_erase hpending heq) ?_ ?_
  · show direction.patience info other.track req.track <
      σ.scheduler.currDirection.patience info σ.disk.headPosition.value req.track
    rw [hdirection]
    simp only [HeadDirection.patience, hbeyond']
    cases direction <;>
      simp only [HeadDirection.beyond_left, HeadDirection.beyond_right] at hbeyond <;>
      simp only [HeadDirection.distance] <;> split <;> omega
  · rw [hstays]
    show σ.turns + direction.turnsLeft other.track req.track ≤
      σ.turns + σ.scheduler.currDirection.turnsLeft σ.disk.headPosition.value req.track
    rw [hdirection]
    simp only [HeadDirection.turnsLeft, hbeyond', le_refl]

/-- With nothing ahead the head turns, and all other requests are ahead of it. -/
theorem approaches_behind (hdirection : σ.scheduler = ⟨direction⟩)
    (h : Sees direction σ.disk.headPosition.value σ.set [] (other :: behind))
    (hpending : req ∈ σ.set.requests) :
    Approaches σ (σ.serve other ⟨direction.reversed⟩) req := by
  have hturns : (σ.serve other ⟨direction.reversed⟩).turns = σ.turns + 1 := by
    refine if_neg ?_
    rw [hdirection]
    cases direction <;> exact nofun
  have hleft : σ.turnsLeft req = 1 := by
    refine if_neg ?_
    rw [hdirection]
    exact h.behind req (h.perm.mem_iff.mpr hpending)
  by_cases heq : req = other
  · exact .served (by rw [heq]; rfl) (by rw [hturns, hleft])
  have hmem := h.perm.mem_iff.mpr hpending
  rw [List.nil_append, List.mem_cons] at hmem
  have hbehind := hmem.resolve_left heq
  have hnot := h.behind req (List.mem_cons_of_mem _ hbehind)
  have hbeyond := (List.pairwise_cons.1 h.behind_sorted).1 req hbehind
  have hhead := σ.disk.headPosition.min_le
  have hhead' := σ.disk.headPosition.le_max
  have hother : info.min ≤ other.track := other.trackNumber.min_le
  have hother' : other.track ≤ info.max := other.trackNumber.le_max
  refine .nearer rfl (mem_erase hpending heq) ?_ ?_
  · show direction.reversed.patience info other.track req.track <
      σ.scheduler.currDirection.patience info σ.disk.headPosition.value req.track
    rw [hdirection]
    simp only [HeadDirection.patience, if_pos hbeyond, if_neg hnot]
    cases direction <;>
      simp only [HeadDirection.distance, HeadDirection.reversed, HeadDirection.edge] <;> omega
  · rw [hturns, hleft]
    show σ.turns + 1 + direction.reversed.turnsLeft other.track req.track ≤ _
    rw [HeadDirection.turnsLeft, if_pos hbeyond]

theorem approaches_of_select (hstep : σ.step .select = some σ')
    (hpending : req ∈ σ.set.requests) : Approaches σ σ' req := by
  obtain ⟨ahead, behind, hsees⟩ :=
    exists_sees σ.scheduler.currDirection σ.disk.headPosition.value σ.set
  simp only [Work.step, Option.map_eq_some_iff] at hstep
  obtain ⟨⟨other, scheduler⟩, hselect, rfl⟩ := hstep
  cases ahead with
  | cons nearest ahead =>
      rw [hsees.selectNext_ahead] at hselect
      cases hselect
      exact approaches_ahead rfl hsees hpending
  | nil =>
      cases behind with
      | nil => exact absurd (hsees.perm.mem_iff.mpr hpending) (List.not_mem_nil)
      | cons nearest behind =>
          rw [hsees.selectNext_behind] at hselect
          cases hselect
          exact approaches_behind rfl hsees hpending

end Select

/-! ## Whole runs -/

/-- Requests are served one after the other, and without a selection the head does not turn. -/
theorem served_grows {ls : List (Event info)} {σ σ' : Work info}
    (hrun : run Work.step σ ls = some σ') :
    ∃ l, σ'.served = σ.served ++ l ∧ (l = [] → σ'.turns = σ.turns) := by
  have hkeeps : ∀ σ₁ event σ₂,
      (∃ l, σ₁.served = σ.served ++ l ∧ (l = [] → σ₁.turns = σ.turns)) →
      Work.step σ₁ event = some σ₂ →
      ∃ l, σ₂.served = σ.served ++ l ∧ (l = [] → σ₂.turns = σ.turns) := by
    rintro σ₁ event σ₂ ⟨l, hl, hturns⟩ hstep
    cases event with
    | arrive req =>
        cases hstep
        exact ⟨l, hl, hturns⟩
    | select =>
        simp only [Work.step, Option.map_eq_some_iff] at hstep
        obtain ⟨⟨req, scheduler⟩, -, rfl⟩ := hstep
        refine ⟨l ++ [req], ?_, fun hnil => absurd hnil (by simp)⟩
        rw [← List.append_assoc, ← hl]
        rfl
  exact invariant_of_run hkeeps ls ⟨[], (List.append_nil _).symm, fun _ => rfl⟩ hrun

/-- Along a run a request in the set is served, or has come nearer with each selection. Up to the
selection that serves it the head makes no more turns than it has left on its way. -/
theorem approaches_of_run {req : Request info} :
    ∀ (ls : List (Event info)) {σ σ' : Work info}, run Work.step σ ls = some σ' →
      req ∈ σ.set.requests → ∃ l, σ'.served = σ.served ++ l ∧
        (req ∈ l ∨ req ∈ σ'.set.requests ∧
          σ'.patience req + ls.countP Event.isSelect ≤ σ.patience req) ∧
        (req ∉ l.dropLast → σ'.turns ≤ σ.turns + σ.turnsLeft req) := by
  intro ls
  induction ls with
  | nil =>
      intro σ σ' hrun hpending
      cases hrun
      refine ⟨[], (List.append_nil _).symm, .inr ⟨hpending, ?_⟩, fun _ => Nat.le_add_right _ _⟩
      rw [List.countP_nil, Nat.cast_zero, add_zero]
  | cons event ls ih =>
      intro σ σ' hrun hpending
      rw [run_cons, Option.bind_eq_some_iff] at hrun
      obtain ⟨σ₁, hstep, hrun⟩ := hrun
      cases event with
      | arrive other =>
          cases hstep
          obtain ⟨l, hserved, hafter, hturns⟩ := ih hrun (FlatSet.mem_insert hpending)
          refine ⟨l, hserved, hafter.imp_right ?_, hturns⟩
          rintro ⟨hpending', hpatience⟩
          refine ⟨hpending', ?_⟩
          rw [List.countP_cons_of_neg Bool.false_ne_true]
          exact hpatience
      | select =>
          cases approaches_of_select hstep hpending with
          | served hserved hturns₁ =>
              obtain ⟨l, hl, hturns⟩ := served_grows hrun
              refine ⟨req :: l, ?_, .inl List.mem_cons_self, fun hnot => ?_⟩
              · rw [hl, hserved, List.append_assoc, List.singleton_append]
              · -- nothing is selected after the request
                cases l with
                | nil => exact (hturns rfl).trans_le hturns₁
                | cons next l => exact absurd List.mem_cons_self hnot
          | @nearer other hserved hpending₁ hpatience₁ hturns₁ =>
              obtain ⟨l, hl, hafter, hturns⟩ := ih hrun hpending₁
              refine ⟨other :: l, ?_, ?_, fun hnot => ?_⟩
              · rw [hl, hserved, List.append_assoc, List.singleton_append]
              · refine hafter.imp (List.mem_cons_of_mem other) ?_
                rintro ⟨hpending', hpatience⟩
                refine ⟨hpending', ?_⟩
                rw [List.countP_cons_of_pos rfl]
                omega
              · have hturned : σ'.turns ≤ σ₁.turns + σ₁.turnsLeft req := by
                  cases l with
                  | nil => exact hturns List.not_mem_nil
                  | cons next l => exact hturns fun hmem => hnot (List.mem_cons_of_mem other hmem)
                exact hturned.trans hturns₁

/-- Whatever arrives meanwhile, a request in the set is served after at most twice the width of
the disk and one more selections. Up to the one that serves it the head turns at most once, and not
at all if the request was ahead of it. -/
theorem served_within {σ σ' : Work info} {ls : List (Event info)} {req : Request info}
    (hrun : run Work.step σ ls = some σ') (hpending : req ∈ σ.set.requests) :
    ∃ l, σ'.served = σ.served ++ l ∧
      (2 * (info.max - info.min) + 1 ≤ (ls.countP Event.isSelect : ℤ) → req ∈ l) ∧
      (req ∉ l.dropLast → σ'.turns ≤ σ.turns + 1 ∧
        (σ.scheduler.currDirection.Beyond σ.disk.headPosition.value req.track →
          σ'.turns ≤ σ.turns)) := by
  obtain ⟨l, hserved, hafter, hturns⟩ := approaches_of_run ls hrun hpending
  refine ⟨l, hserved, fun hmany => ?_, fun hnot => ?_⟩
  · rcases hafter with hmem | ⟨-, hpatience⟩
    · exact hmem
    · have hpos := σ'.scheduler.currDirection.patience_pos σ'.disk.headPosition req
      have hle := σ.scheduler.currDirection.patience_le σ.disk.headPosition req
      unfold Work.patience at hpatience
      omega
  · have hfew := hturns hnot
    constructor
    · have hone : σ.turnsLeft req ≤ 1 := by
        unfold Work.turnsLeft HeadDirection.turnsLeft
        split <;> decide
      omega
    · intro hbeyond
      have hnone : σ.turnsLeft req = 0 := if_pos hbeyond
      omega

/-- Two tracks, and a head at the lower one that has turned away from it: the request there is
served although others arrive. -/
theorem served_within_twoTracks :
    let info : TypeInfo := ⟨0, 1, by decide, by decide⟩
    let low : Request info := ⟨⟨0, by decide, by decide⟩⟩
    let high : Request info := ⟨⟨1, by decide, by decide⟩⟩
    let σ : Work info := ⟨⟨.right⟩, ⟨low.trackNumber⟩, ⟨[low], List.pairwise_singleton _ _⟩, [], 0⟩
    ∃ σ' l, run Work.step σ [.arrive high, .select, .arrive high, .select, .arrive low, .select] =
      some σ' ∧ σ'.served = l ∧ low ∈ l := by
  intro info low high σ
  obtain ⟨σ', hrun⟩ : ∃ σ', run Work.step σ
      [.arrive high, .select, .arrive high, .select, .arrive low, .select] = some σ' := ⟨_, rfl⟩
  obtain ⟨l, hserved, hmem, -⟩ := served_within hrun List.mem_cons_self
  exact ⟨σ', l, hrun, hserved, hmem (by decide)⟩

end InterProcess.DiskScheduling
