import InterProcess.DiskScheduling.SeekDistance

/-!
# The mirrored disk

The code for the two directions is written twice, with other bounds, iterators
and extremes. Reflecting the disk turns one into the other: the scheduler of the
mirrored disk selects the mirrored request and ends in the opposite direction,
and the seek distance is the same.

What a head sees ahead and behind is mirrored as it is (`Sees.mirror`), and the
places along the direction are shifted (`along_mirror`).
-/

namespace InterProcess.DiskScheduling

variable {info : TypeInfo}

/-- Track `min + max - t` for track `t`. -/
def TrackNumber.mirror (position : TrackNumber info) : TrackNumber info where
  value := info.min + info.max - position.value
  min_le := by have hle := position.le_max; omega
  le_max := by have hle := position.min_le; omega

def Request.mirror (req : Request info) : Request info := ⟨req.trackNumber.mirror⟩

def Disk.mirror (disk : Disk info) : Disk info := ⟨disk.headPosition.mirror⟩

def Scheduler.mirror (scheduler : Scheduler) : Scheduler := ⟨scheduler.currDirection.reversed⟩

theorem Request.track_mirror (req : Request info) :
    req.mirror.track = info.min + info.max - req.track := rfl

theorem FlatSet.mirror_sorted (set : FlatSet info) :
    (set.requests.map Request.mirror).reverse.Pairwise fun fst snd => fst.track < snd.track := by
  rw [List.pairwise_reverse, List.pairwise_map]
  refine set.sorted.imp fun {fst snd} hlt => ?_
  rw [snd.track_mirror, fst.track_mirror]
  omega

/-- The mirrored requests, which stand the other way round. -/
def FlatSet.mirror (set : FlatSet info) : FlatSet info :=
  ⟨(set.requests.map Request.mirror).reverse, set.mirror_sorted⟩

/-! ## Selection -/

section Sees

variable {direction : HeadDirection} {set : FlatSet info} {ahead behind : List (Request info)}

theorem HeadDirection.beyond_mirror (direction : HeadDirection) (c a b : ℤ) :
    direction.reversed.Beyond (c - a) (c - b) ↔ direction.Beyond a b := by
  cases direction with
  | left => exact sub_lt_sub_iff_left c
  | right => exact sub_lt_sub_iff_left c

theorem HeadDirection.around_mirror (direction : HeadDirection)
    (ahead behind : List (Request info)) :
    ((direction.around ahead behind).map Request.mirror).reverse =
      direction.reversed.around (ahead.map Request.mirror) (behind.map Request.mirror) := by
  cases direction with
  | left => simp [HeadDirection.around, HeadDirection.reversed]
  | right => simp [HeadDirection.around, HeadDirection.reversed]

theorem Sees.mirror {position : TrackNumber info}
    (h : Sees direction position.value set ahead behind) :
    Sees direction.reversed position.mirror.value set.mirror (ahead.map Request.mirror)
      (behind.map Request.mirror) where
  requests_eq := by
    rw [← direction.around_mirror, ← h.requests_eq]
    rfl
  ahead mirrored hmirrored := by
    obtain ⟨req, hreq, rfl⟩ := List.mem_map.1 hmirrored
    exact (direction.beyond_mirror _ _ _).2 (h.ahead req hreq)
  behind mirrored hmirrored := by
    obtain ⟨req, hreq, rfl⟩ := List.mem_map.1 hmirrored
    exact (direction.beyond_mirror _ _ _).not.2 (h.behind req hreq)

theorem selectNext_eq_none {scheduler : Scheduler} {disk : Disk info} {set : FlatSet info}
    (h : set.requests = []) : scheduler.selectNext disk set = none := by
  obtain ⟨direction⟩ := scheduler
  cases direction <;> simp [Scheduler.selectNext, upperBound, lowerBound, h]

/-- The mirrored selection, empty sets included. -/
theorem selectNext_mirror (scheduler : Scheduler) (disk : Disk info) (set : FlatSet info) :
    scheduler.mirror.selectNext disk.mirror set.mirror =
      (scheduler.selectNext disk set).map (Prod.map Request.mirror Scheduler.mirror) := by
  obtain ⟨direction⟩ := scheduler
  obtain ⟨position⟩ := disk
  obtain ⟨ahead, behind, hsees⟩ := exists_sees direction position.value set
  have hmirror := hsees.mirror
  cases ahead with
  | cons req ahead =>
      rw [hsees.selectNext_ahead]
      exact hmirror.selectNext_ahead
  | nil =>
      cases behind with
      | cons req behind =>
          rw [hsees.selectNext_behind]
          exact hmirror.selectNext_behind
      | nil =>
          have hnil : set.requests = [] := (List.Perm.nil_eq hsees.perm).symm
          have hnil' : set.mirror.requests = [] := (List.Perm.nil_eq hmirror.perm).symm
          rw [selectNext_eq_none hnil, selectNext_eq_none hnil']
          rfl

end Sees

/-! ## The seek distance -/

section Reach

variable {direction : HeadDirection} {requests : List (Request info)} {bottom top : ℤ}

/-- How far the places move along the direction when the disk is mirrored. -/
def HeadDirection.shift (info : TypeInfo) : HeadDirection → ℤ
  | .left => info.min + info.max
  | .right => -(info.min + info.max)

theorem HeadDirection.along_mirror (direction : HeadDirection) (track : ℤ) :
    direction.reversed.along (info.min + info.max - track) =
      direction.along track + direction.shift info := by
  cases direction with
  | left =>
      show info.min + info.max - track = -track + (info.min + info.max)
      omega
  | right =>
      show -(info.min + info.max - track) = track + -(info.min + info.max)
      omega

theorem HeadDirection.edge_mirror (direction : HeadDirection) :
    direction.reversed.edge info = info.min + info.max - direction.edge info := by
  cases direction with
  | left => exact (add_sub_cancel_left info.min info.max).symm
  | right => exact (add_sub_cancel_right info.min info.max).symm

theorem places_mirror (direction : HeadDirection) (requests : List (Request info)) :
    places direction.reversed (requests.map Request.mirror) =
      (places direction requests).map (· + direction.shift info) := by
  unfold places
  rw [List.map_map, List.map_map]
  exact List.map_congr_left fun req _ => direction.along_mirror req.track

theorem Reach.mirror (h : Reach direction requests bottom top) :
    Reach direction.reversed (requests.map Request.mirror) (bottom + direction.shift info)
      (top + direction.shift info) := by
  have hmem : ∀ x, x + direction.shift info ∈
      places direction.reversed (requests.map Request.mirror) ↔ x ∈ places direction requests := by
    intro x
    rw [places_mirror, List.mem_map_of_injective (add_left_injective _)]
  have hall : ∀ y ∈ places direction.reversed (requests.map Request.mirror),
      ∃ x ∈ places direction requests, x + direction.shift info = y := by
    intro y hy
    rwa [places_mirror, List.mem_map] at hy
  refine ⟨(hmem bottom).2 h.bottom_mem, fun y hy => ?_, (hmem top).2 h.top_mem, fun y hy => ?_⟩
  · obtain ⟨x, hx, rfl⟩ := hall y hy
    exact Int.add_le_add_right (h.bottom_le x hx) _
  · obtain ⟨x, hx, rfl⟩ := hall y hy
    exact Int.add_le_add_right (h.le_top x hx) _

theorem computeSeekDistance_mirror (requests : List (Request info))
    (position : TrackNumber info) (direction : HeadDirection) :
    computeSeekDistance (requests.map Request.mirror) position.mirror direction.reversed =
      computeSeekDistance requests position direction := by
  by_cases hne : requests = []
  · subst hne
    rfl
  obtain ⟨bottom, top, hreach⟩ := exists_reach direction hne
  rw [← Int.natCast_inj, hreach.computeSeekDistance_eq, hreach.mirror.computeSeekDistance_eq,
    direction.edge_mirror]
  have hposition : direction.reversed.along position.mirror.value =
      direction.along position.value + direction.shift info := direction.along_mirror _
  rw [hposition, direction.along_mirror]
  simp only [add_left_inj, add_lt_add_iff_right, add_sub_add_right_eq_sub]

end Reach

/-- Mirroring the disk mirrors the selected request, reverses the direction the scheduler is
left in, and changes no seek distance. -/
theorem mirror_symmetric (info : TypeInfo) :
    (∀ (scheduler : Scheduler) (disk : Disk info) (set : FlatSet info),
      scheduler.mirror.selectNext disk.mirror set.mirror =
        (scheduler.selectNext disk set).map (Prod.map Request.mirror Scheduler.mirror)) ∧
    ∀ (requests : List (Request info)) (position : TrackNumber info) (direction : HeadDirection),
      computeSeekDistance (requests.map Request.mirror) position.mirror direction.reversed =
        computeSeekDistance requests position direction :=
  ⟨selectNext_mirror, computeSeekDistance_mirror⟩

end InterProcess.DiskScheduling
