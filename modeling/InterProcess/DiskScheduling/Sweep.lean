import InterProcess.DiskScheduling.Scan
import InterProcess.Lib.Sorted

/-!
# The run of the scheduler

To the head, the set is two lists, both nearest first: the requests strictly
beyond the head in the direction it moves, and the others (`Sees`). Selecting
takes the first of the requests ahead; with none ahead the head turns, and takes
the first of the others, which are all ahead from then on. So the run serves the
requests ahead, turns once if it must, and serves the others.
-/

namespace InterProcess.DiskScheduling

open Outcome Sorted

variable {info : TypeInfo}

def HeadDirection.reversed : HeadDirection → HeadDirection
  | .left => .right
  | .right => .left

/-- Track `b` lies strictly beyond track `a`. -/
def HeadDirection.Beyond : HeadDirection → ℤ → ℤ → Prop
  | .left, a, b => b < a
  | .right, a, b => a < b

@[simp] theorem HeadDirection.beyond_left {a b : ℤ} : HeadDirection.left.Beyond a b ↔ b < a :=
  Iff.rfl

@[simp] theorem HeadDirection.beyond_right {a b : ℤ} : HeadDirection.right.Beyond a b ↔ a < b :=
  Iff.rfl

/-- The requests, in the order of the set, around those ahead and those behind. -/
def HeadDirection.around (direction : HeadDirection) (ahead behind : List (Request info)) :
    List (Request info) :=
  match direction with
  | .left => ahead.reverse ++ behind
  | .right => behind.reverse ++ ahead

/-- What a head at track `head` that moves in `direction` sees of the set. -/
structure Sees (direction : HeadDirection) (head : ℤ) (set : FlatSet info)
    (ahead behind : List (Request info)) : Prop where
  requests_eq : set.requests = direction.around ahead behind
  ahead : ∀ req ∈ ahead, direction.Beyond head req.track
  behind : ∀ req ∈ behind, ¬direction.Beyond head req.track

theorem exists_sees (direction : HeadDirection) (head : ℤ) (set : FlatSet info) :
    ∃ ahead behind, Sees direction head set ahead behind := by
  cases direction with
  | left =>
      obtain ⟨low, high, heq, hlow, hhigh⟩ := exists_cut set.sorted (fun req => ¬req.track < head)
        fun fst snd hlt hfst => by omega
      refine ⟨low.reverse, high, by rw [heq]; simp [HeadDirection.around], ?_, ?_⟩
      · intro req hreq
        exact not_not.1 (hlow req (List.mem_reverse.1 hreq))
      · exact hhigh
  | right =>
      obtain ⟨low, high, heq, hlow, hhigh⟩ := exists_cut set.sorted (fun req => head < req.track)
        fun fst snd hlt hfst => by omega
      refine ⟨high, low.reverse, by rw [heq]; simp [HeadDirection.around], hhigh, ?_⟩
      intro req hreq
      exact hlow req (List.mem_reverse.1 hreq)

section Sees

variable {direction : HeadDirection} {head : ℤ} {set : FlatSet info}
  {ahead behind : List (Request info)} {req : Request info}

theorem Sees.perm (h : Sees direction head set ahead behind) :
    (ahead ++ behind).Perm set.requests := by
  rw [h.requests_eq]
  cases direction with
  | left => exact (ahead.reverse_perm.append_right behind).symm
  | right => exact List.perm_append_comm.trans (behind.reverse_perm.append_right ahead).symm

theorem Sees.ahead_sorted (h : Sees direction head set ahead behind) :
    ahead.Pairwise fun fst snd => direction.Beyond fst.track snd.track := by
  have hsorted := set.sorted
  rw [h.requests_eq] at hsorted
  cases direction with
  | left => exact List.pairwise_reverse.1 (List.pairwise_append.1 hsorted).1
  | right => exact (List.pairwise_append.1 hsorted).2.1

theorem Sees.behind_sorted (h : Sees direction head set ahead behind) :
    behind.Pairwise fun fst snd => direction.reversed.Beyond fst.track snd.track := by
  have hsorted := set.sorted
  rw [h.requests_eq] at hsorted
  cases direction with
  | left => exact (List.pairwise_append.1 hsorted).2.1
  | right => exact List.pairwise_reverse.1 (List.pairwise_append.1 hsorted).1

theorem HeadDirection.Beyond.ne {a b : ℤ} (h : direction.Beyond a b) : a ≠ b := by
  cases direction with
  | left => exact (ne_of_lt h).symm
  | right => exact ne_of_lt h

/-- An erased request leaves the others where they are. -/
theorem around_erase_ahead (hahead : req ∉ ahead) (hbehind : req ∉ behind) :
    (direction.around (req :: ahead) behind).erase req = direction.around ahead behind := by
  cases direction with
  | left =>
      unfold HeadDirection.around
      rw [List.reverse_cons, List.append_assoc,
        List.erase_append_right _ (List.mem_reverse.not.2 hahead)]
      exact congrArg _ (List.erase_cons_head req behind)
  | right =>
      unfold HeadDirection.around
      rw [List.erase_append_right _ (List.mem_reverse.not.2 hbehind), List.erase_cons_head]

/-! ## One selection -/

variable {position : TrackNumber info}

theorem Sees.lowerBound_eq (h : Sees .left position.value set ahead behind) :
    lowerBound position set.requests = ahead.length := by
  rw [h.requests_eq, lowerBound]
  refine (findIdx_append ?_ ?_).trans ahead.length_reverse
  · intro other hother
    have hbeyond := h.ahead other (List.mem_reverse.1 hother)
    simpa using hbeyond
  · intro other hother
    simpa using h.behind other hother

theorem Sees.upperBound_eq (h : Sees .right position.value set ahead behind) :
    upperBound position set.requests = behind.length := by
  rw [h.requests_eq, upperBound]
  refine (findIdx_append ?_ ?_).trans behind.length_reverse
  · intro other hother
    simpa using h.behind other (List.mem_reverse.1 hother)
  · intro other hother
    have hbeyond := h.ahead other hother
    simpa using hbeyond

theorem Sees.selectNext_ahead (h : Sees direction position.value set (req :: ahead) behind) :
    Scheduler.selectNext ⟨direction⟩ ⟨position⟩ set = some (req, ⟨direction⟩) := by
  cases direction with
  | left =>
      simp only [Scheduler.selectNext, h.lowerBound_eq]
      rw [if_neg (by simp), h.requests_eq]
      simp [HeadDirection.around]
  | right =>
      simp only [Scheduler.selectNext, h.upperBound_eq]
      rw [if_neg (by simp [h.requests_eq, HeadDirection.around]), h.requests_eq]
      simp [HeadDirection.around]

theorem Sees.erase_ahead (h : Sees direction head set (req :: ahead) behind) :
    Sees direction req.track (set.erase req) ahead behind := by
  have hsorted := List.pairwise_cons.1 h.ahead_sorted
  have hbeyond := h.ahead req List.mem_cons_self
  refine ⟨?_, hsorted.1, ?_⟩
  · show set.requests.erase req = _
    rw [h.requests_eq]
    apply around_erase_ahead
    · intro hreq
      exact (hsorted.1 req hreq).ne rfl
    · intro hreq
      exact h.behind req hreq hbeyond
  · intro other hother
    have hbehind := h.behind other hother
    cases direction <;> simp at hbehind hbeyond ⊢ <;> omega

/-- With nothing ahead the head turns. -/
theorem Sees.selectNext_behind (h : Sees direction position.value set [] (req :: behind)) :
    Scheduler.selectNext ⟨direction⟩ ⟨position⟩ set = some (req, ⟨direction.reversed⟩) := by
  cases direction with
  | left =>
      simp only [Scheduler.selectNext, h.lowerBound_eq, List.length_nil, if_true]
      rw [h.requests_eq]
      rfl
  | right =>
      simp only [Scheduler.selectNext, h.upperBound_eq]
      rw [if_pos (by simp [h.requests_eq, HeadDirection.around]), h.requests_eq]
      simp [HeadDirection.around, HeadDirection.reversed]

theorem Sees.erase_behind (h : Sees direction head set [] (req :: behind)) :
    Sees direction.reversed req.track (set.erase req) behind [] := by
  have hsorted := List.pairwise_cons.1 h.behind_sorted
  have hnot : req ∉ behind := fun hreq => (hsorted.1 req hreq).ne rfl
  refine ⟨?_, hsorted.1, by simp⟩
  show set.requests.erase req = _
  rw [h.requests_eq]
  cases direction with
  | left => exact List.erase_cons_head req behind
  | right =>
      have herase : (HeadDirection.left.around (req :: behind) []).erase req = _ :=
        around_erase_ahead hnot (List.not_mem_nil)
      exact herase

end Sees

/-! ## The run -/

theorem serveAll_nil {scheduler : Scheduler} {disk : Disk info} {set : FlatSet info}
    (h : set.requests = []) : Converges (fun fuel => scheduler.serveAll fuel disk set) [] := by
  refine Converges.succ ?_
  simp only [Scheduler.serveAll, if_pos h]
  exact .done []

theorem serveAll_cons {scheduler scheduler' : Scheduler} {disk : Disk info} {set : FlatSet info}
    {req : Request info} {served : List (Request info × HeadDirection)}
    (hne : set.requests ≠ []) (hselect : scheduler.selectNext disk set = some (req, scheduler'))
    (h : Converges (fun fuel => scheduler'.serveAll fuel ⟨req.trackNumber⟩ (set.erase req))
      served) :
    Converges (fun fuel => scheduler.serveAll fuel disk set)
      ((req, scheduler'.currDirection) :: served) := by
  refine Converges.succ ?_
  simp only [Scheduler.serveAll, if_neg hne, hselect]
  exact h.bind (.done _)

section Run

variable {direction : HeadDirection} {position : TrackNumber info} {set : FlatSet info}
  {ahead behind : List (Request info)}

theorem Sees.ne_nil {head : ℤ} {req : Request info} (h : Sees direction head set ahead behind)
    (hreq : req ∈ ahead ++ behind) : set.requests ≠ [] := by
  intro hnil
  have hmem := h.perm.mem_iff.1 hreq
  rw [hnil] at hmem
  cases hmem

/-- Without requests behind, the head never turns. -/
theorem Sees.serves_ahead (h : Sees direction position.value set ahead []) :
    Converges (fun fuel => Scheduler.serveAll fuel ⟨direction⟩ ⟨position⟩ set)
      (ahead.map fun req => (req, direction)) := by
  induction ahead generalizing position set with
  | nil => exact serveAll_nil (List.Perm.nil_eq h.perm).symm
  | cons req ahead ih =>
      exact serveAll_cons (h.ne_nil List.mem_cons_self) h.selectNext_ahead (ih h.erase_ahead)

theorem Sees.serves (h : Sees direction position.value set ahead behind) :
    Converges (fun fuel => Scheduler.serveAll fuel ⟨direction⟩ ⟨position⟩ set)
      (ahead.map (fun req => (req, direction)) ++
        behind.map fun req => (req, direction.reversed)) := by
  induction ahead generalizing position set with
  | cons req ahead ih =>
      exact serveAll_cons (h.ne_nil List.mem_cons_self) h.selectNext_ahead (ih h.erase_ahead)
  | nil =>
      cases behind with
      | nil => exact h.serves_ahead
      | cons req behind =>
          exact serveAll_cons (h.ne_nil List.mem_cons_self) h.selectNext_behind
            h.erase_behind.serves_ahead

end Run

/-- Every request is served exactly once, with at most one turn; before it and
after it the tracks go in the direction of the head, and the nearest request
ahead is the first. -/
theorem serveAll_sweeps (scheduler : Scheduler) (disk : Disk info) (set : FlatSet info) :
    ∃ before after : List (Request info),
      Converges (fun fuel => scheduler.serveAll fuel disk set)
        (before.map (fun req => (req, scheduler.currDirection)) ++
          after.map fun req => (req, scheduler.currDirection.reversed)) ∧
      (before ++ after).Perm set.requests ∧
      (before.Pairwise fun fst snd => scheduler.currDirection.Beyond fst.track snd.track) ∧
      (after.Pairwise fun fst snd => scheduler.currDirection.reversed.Beyond fst.track snd.track) ∧
      ∀ req ∈ set.requests, scheduler.currDirection.Beyond disk.headPosition.value req.track →
        ∃ nearest, before.head? = some nearest ∧
          scheduler.currDirection.Beyond disk.headPosition.value nearest.track ∧
          ∀ other ∈ set.requests,
            scheduler.currDirection.Beyond disk.headPosition.value other.track →
              other = nearest ∨ scheduler.currDirection.Beyond nearest.track other.track := by
  obtain ⟨ahead, behind, hsees⟩ :=
    exists_sees scheduler.currDirection disk.headPosition.value set
  refine ⟨ahead, behind, hsees.serves, hsees.perm, hsees.ahead_sorted, hsees.behind_sorted, ?_⟩
  have mem_ahead : ∀ req ∈ set.requests,
      scheduler.currDirection.Beyond disk.headPosition.value req.track → req ∈ ahead := by
    intro req hreq hbeyond
    rcases List.mem_append.1 (hsees.perm.mem_iff.2 hreq) with hahead | hbehind
    · exact hahead
    · exact absurd hbeyond (hsees.behind req hbehind)
  intro req hreq hbeyond
  have hahead := mem_ahead req hreq hbeyond
  cases ahead with
  | nil => cases hahead
  | cons nearest ahead =>
      refine ⟨nearest, rfl, hsees.ahead nearest List.mem_cons_self, ?_⟩
      intro other hother hbeyond'
      rcases List.mem_cons.1 (mem_ahead other hother hbeyond') with rfl | htail
      · exact .inl rfl
      · exact .inr ((List.pairwise_cons.1 hsees.ahead_sorted).1 other htail)

end InterProcess.DiskScheduling
