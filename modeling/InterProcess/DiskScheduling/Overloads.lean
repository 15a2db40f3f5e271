import InterProcess.DiskScheduling.Sweep

/-!
# The two overloads of `select_next`

On the same requests the overloads select the same, but for one case: with the
head moving left and a request at its own track, the array's scan goes up to the
requests at the head's track inclusive and selects that request; the set's
`lower_bound` stops before it.
-/

namespace InterProcess.DiskScheduling

open Sorted

variable {info : TypeInfo}

/-- The array is sorted into the order of the set. -/
theorem FlatSet.insertionSort_eq {set : FlatSet info} {requests : List (Request info)}
    (hperm : requests.Perm set.requests) :
    (requests.insertionSort fun fst snd => fst.track ≤ snd.track) = set.requests := by
  refine ((List.perm_insertionSort _ requests).trans hperm).eq_of_pairwise ?_
    (List.pairwise_insertionSort _ requests) (set.sorted.imp fun hlt => Int.le_of_lt hlt)
  exact fun fst snd _ _ hle hge => Request.track_inj (Int.le_antisymm hle hge)

/-- Both overloads return a request, the same one, and leave the scheduler the
same. -/
def Agree (scheduler : Scheduler) (disk : Disk info) (requests : List (Request info))
    (set : FlatSet info) : Prop :=
  ∃ req scheduler' sorted,
    scheduler.selectNextArray disk requests = some (req, scheduler', sorted) ∧
      scheduler.selectNext disk set = some (req, scheduler')

theorem exists_selectNext (scheduler : Scheduler) (disk : Disk info) {set : FlatSet info}
    (hne : set.requests ≠ []) :
    ∃ req scheduler', scheduler.selectNext disk set = some (req, scheduler') := by
  obtain ⟨ahead, behind, hsees⟩ :=
    exists_sees scheduler.currDirection disk.headPosition.value set
  cases ahead with
  | cons req ahead => exact ⟨req, _, hsees.selectNext_ahead⟩
  | nil =>
      cases behind with
      | cons req behind => exact ⟨req, _, hsees.selectNext_behind⟩
      | nil => exact absurd (List.Perm.nil_eq hsees.perm).symm hne

section Select

variable {set : FlatSet info} {position : TrackNumber info} {requests : List (Request info)}
  {ahead behind : List (Request info)}

theorem selectNextArray_right (hperm : requests.Perm set.requests) :
    Scheduler.selectNextArray ⟨.right⟩ ⟨position⟩ requests =
      (Scheduler.selectNext ⟨.right⟩ ⟨position⟩ set).map fun selected =>
        (selected.1, selected.2, set.requests) := by
  have hindex : (set.requests.findIdx fun req => decide (req.track > position.value)) =
      upperBound position set.requests := rfl
  simp only [Scheduler.selectNextArray, Scheduler.selectNext, FlatSet.insertionSort_eq hperm,
    hindex]
  split_ifs
  · rw [Option.map_map]; rfl
  · rw [Option.map_map]; rfl

/-- Without a request at the head's track, strictly beyond it is not before it. -/
theorem Sees.selectNextArray_left (h : Sees .left position.value set ahead behind)
    (hperm : requests.Perm set.requests) (hnone : ∀ req ∈ behind, req.track ≠ position.value) :
    Scheduler.selectNextArray ⟨.left⟩ ⟨position⟩ requests =
      (Scheduler.selectNext ⟨.left⟩ ⟨position⟩ set).map fun selected =>
        (selected.1, selected.2, set.requests) := by
  have hindex : (set.requests.findIdx fun req => decide (req.track > position.value)) =
      ahead.length := by
    rw [h.requests_eq]
    refine (findIdx_append ?_ ?_).trans ahead.length_reverse
    · intro req hreq
      have hbeyond := h.ahead req (List.mem_reverse.1 hreq)
      simpa using Int.le_of_lt hbeyond
    · intro req hreq
      have hle : position.value ≤ req.track := Int.not_lt.1 (h.behind req hreq)
      have hne := hnone req hreq
      simp only [gt_iff_lt, decide_eq_true_eq]
      omega
  simp only [Scheduler.selectNextArray, Scheduler.selectNext, FlatSet.insertionSort_eq hperm,
    hindex, h.lowerBound_eq]
  split_ifs
  · rw [Option.map_map]; rfl
  · rw [Option.map_map]; rfl

/-- A request at the head's track is the first one behind. -/
theorem Sees.selectNextArray_here {req : Request info}
    (h : Sees .left position.value set ahead (req :: behind))
    (hperm : requests.Perm set.requests) (hhere : req.track = position.value) :
    Scheduler.selectNextArray ⟨.left⟩ ⟨position⟩ requests =
      some (req, ⟨.left⟩, set.requests) := by
  have hsplit : set.requests = (ahead.reverse ++ [req]) ++ behind := by
    rw [h.requests_eq, List.append_assoc]
    rfl
  have hindex : (set.requests.findIdx fun req => decide (req.track > position.value)) =
      ahead.length + 1 := by
    rw [hsplit]
    refine (findIdx_append ?_ ?_).trans (by simp)
    · intro other hother
      rcases List.mem_append.1 hother with hahead | hreq
      · have hbeyond := h.ahead other (List.mem_reverse.1 hahead)
        simpa using Int.le_of_lt hbeyond
      · rw [List.mem_singleton.1 hreq]
        simpa using Int.le_of_eq hhere
    · intro other hother
      have hbeyond : req.track < other.track :=
        (List.pairwise_cons.1 h.behind_sorted).1 other hother
      rw [hhere] at hbeyond
      simpa using hbeyond
  simp only [Scheduler.selectNextArray, FlatSet.insertionSort_eq hperm, hindex]
  rw [if_neg (Nat.succ_ne_zero _), Nat.add_sub_cancel, hsplit]
  simp

theorem agree_of_eq_map {scheduler : Scheduler} {disk : Disk info} (hne : requests ≠ [])
    (hperm : requests.Perm set.requests)
    (h : scheduler.selectNextArray disk requests = (scheduler.selectNext disk set).map
      fun selected => (selected.1, selected.2, set.requests)) :
    Agree scheduler disk requests set := by
  have hne' : set.requests ≠ [] := fun hnil => hne (List.Perm.eq_nil (hnil ▸ hperm))
  obtain ⟨req, scheduler', hselect⟩ := exists_selectNext scheduler disk hne'
  exact ⟨req, scheduler', set.requests, by rw [h, hselect]; rfl, hselect⟩

/-- The set's overload leaves a request at the head's track for later. -/
theorem Sees.not_agree {req : Request info} (h : Sees .left position.value set ahead behind)
    (hperm : requests.Perm set.requests) (hreq : req ∈ ahead ++ behind)
    (hhere : req.track = position.value) : ¬Agree ⟨.left⟩ ⟨position⟩ requests set := by
  have hahead : ∀ other ∈ ahead, other.track < position.value := h.ahead
  have hbehind : req ∈ behind :=
    (List.mem_append.1 hreq).resolve_left fun hmem =>
      absurd hhere (Int.ne_of_lt (hahead req hmem))
  cases behind with
  | nil => cases hbehind
  | cons first behind =>
      have hfirst : first.track = position.value := by
        have hge := h.behind first List.mem_cons_self
        simp only [HeadDirection.beyond_left, Int.not_lt] at hge
        rcases List.mem_cons.1 hbehind with rfl | htail
        · exact hhere
        · have hlt : first.track < req.track :=
            (List.pairwise_cons.1 h.behind_sorted).1 req htail
          omega
      rintro ⟨selected, scheduler', sorted, harray, hset⟩
      rw [h.selectNextArray_here hperm hfirst] at harray
      cases harray
      cases ahead with
      | nil =>
          rw [h.selectNext_behind] at hset
          cases hset
      | cons next ahead =>
          rw [h.selectNext_ahead] at hset
          cases hset
          exact absurd hfirst (Int.ne_of_lt (hahead first List.mem_cons_self))

end Select

/-- The overloads agree unless the head moves left from the track of a request. -/
theorem selectNext_agree_iff (scheduler : Scheduler) (disk : Disk info)
    (requests : List (Request info)) (set : FlatSet info) (hne : requests ≠ [])
    (hperm : requests.Perm set.requests) :
    Agree scheduler disk requests set ↔
      ¬(scheduler.currDirection = .left ∧
        ∃ req ∈ requests, req.track = disk.headPosition.value) := by
  obtain ⟨direction⟩ := scheduler
  obtain ⟨position⟩ := disk
  cases direction with
  | right =>
      refine iff_of_true (agree_of_eq_map hne hperm (selectNextArray_right hperm)) ?_
      rintro ⟨hleft, -⟩
      cases hleft
  | left =>
      obtain ⟨ahead, behind, hsees⟩ := exists_sees .left position.value set
      have hmem : ∀ req, req ∈ requests ↔ req ∈ ahead ++ behind :=
        fun _ => (hperm.trans hsees.perm.symm).mem_iff
      by_cases hhere : ∃ req ∈ requests, req.track = position.value
      · refine iff_of_false ?_ (not_not.2 ⟨rfl, hhere⟩)
        obtain ⟨req, hreq, htrack⟩ := hhere
        exact hsees.not_agree hperm ((hmem req).1 hreq) htrack
      · refine iff_of_true ?_ fun h => hhere h.2
        refine agree_of_eq_map hne hperm
          (hsees.selectNextArray_left hperm fun req hreq htrack => ?_)
        exact hhere ⟨req, (hmem req).2 (List.mem_append_right _ hreq), htrack⟩

theorem selectNext_agree_iff_turn :
    ∃ (info : TypeInfo) (requests : List (Request info)) (set : FlatSet info)
      (disk : Disk info), requests.map Request.track = [60, 10] ∧
        requests.Perm set.requests ∧ disk.headPosition.value = 50 ∧
        Agree ⟨.left⟩ disk requests set := by
  let info : TypeInfo := ⟨0, 199, by decide, by decide⟩
  let far : Request info := ⟨⟨60, by decide, by decide⟩⟩
  let near : Request info := ⟨⟨10, by decide, by decide⟩⟩
  let set : FlatSet info := ⟨[near, far], List.pairwise_pair.2 (by decide)⟩
  refine ⟨info, [far, near], set, ⟨⟨50, by decide, by decide⟩⟩, rfl, .swap near far [], rfl, ?_⟩
  refine (selectNext_agree_iff ⟨.left⟩ _ [far, near] set (List.cons_ne_nil _ _)
    (.swap near far [])).2 ?_
  rintro ⟨-, req, hreq, hhere⟩
  rcases List.mem_pair.1 hreq with rfl | rfl
  · exact absurd hhere (by decide)
  · exact absurd hhere (by decide)

theorem overloads_disagree :
    ∃ (info : TypeInfo) (requests : List (Request info)) (set : FlatSet info)
      (disk : Disk info), requests.map Request.track = [50, 10] ∧
        requests.Perm set.requests ∧ disk.headPosition.value = 50 ∧
        ¬Agree ⟨.left⟩ disk requests set := by
  let info : TypeInfo := ⟨0, 199, by decide, by decide⟩
  let here : Request info := ⟨⟨50, by decide, by decide⟩⟩
  let near : Request info := ⟨⟨10, by decide, by decide⟩⟩
  let set : FlatSet info := ⟨[near, here], List.pairwise_pair.2 (by decide)⟩
  refine ⟨info, [here, near], set, ⟨here.trackNumber⟩, rfl, .swap near here [], rfl, ?_⟩
  rintro ⟨req, scheduler, sorted, harray, hset⟩
  have harray' : some here = some req := congrArg (Option.map Prod.fst) harray
  have hset' : some near = some req := congrArg (Option.map Prod.fst) hset
  exact absurd (harray'.trans hset'.symm) (by decide)

end InterProcess.DiskScheduling
