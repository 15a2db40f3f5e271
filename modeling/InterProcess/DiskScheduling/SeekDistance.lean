import InterProcess.DiskScheduling.Sweep
import Mathlib.Algebra.Order.Group.Int

/-!
# The seek distance

`compute_seek_distance` takes the head to the edge of the disk before it turns,
so it bounds the travel of the run, and says what the travel is when a request
lies on the edge. It takes a request at the head's own track for served, though,
and the scheduler passes over it and comes back (`PassedOver`).

Both directions are one, seen along the direction of the head (`along`).
-/

namespace InterProcess.DiskScheduling

open Outcome Sorted

variable {info : TypeInfo}

/-- The edge track of the direction. -/
def HeadDirection.edge (info : TypeInfo) : HeadDirection → ℤ
  | .left => info.min
  | .right => info.max

/-- A track as a coordinate that grows in the direction. -/
def HeadDirection.along : HeadDirection → ℤ → ℤ
  | .left, track => -track
  | .right, track => track

section Along

variable {direction : HeadDirection}

theorem HeadDirection.beyond_iff {a b : ℤ} :
    direction.Beyond a b ↔ direction.along a < direction.along b := by
  cases direction with
  | left => exact neg_lt_neg_iff.symm
  | right => exact Iff.rfl

theorem HeadDirection.beyond_reversed_iff {a b : ℤ} :
    direction.reversed.Beyond a b ↔ direction.along b < direction.along a := by
  cases direction with
  | left => exact neg_lt_neg_iff.symm
  | right => exact Iff.rfl

theorem HeadDirection.along_inj {a b : ℤ} : direction.along a = direction.along b ↔ a = b := by
  cases direction with
  | left => exact neg_inj
  | right => exact Iff.rfl

theorem HeadDirection.abs_along (direction : HeadDirection) (a b : ℤ) :
    |direction.along a - direction.along b| = |a - b| := by
  cases direction with
  | left =>
      show |-a - -b| = _
      rw [neg_sub_neg, abs_sub_comm]
  | right => rfl

theorem TrackNumber.along_le (direction : HeadDirection) (position : TrackNumber info) :
    direction.along position.value ≤ direction.along (direction.edge info) := by
  cases direction with
  | left => exact neg_le_neg position.min_le
  | right => exact position.le_max

theorem travel_along (direction : HeadDirection) (head : ℤ) (tracks : List ℤ) :
    travel (direction.along head) (tracks.map direction.along) = travel head tracks := by
  cases direction with
  | left => exact travel_neg head tracks
  | right => exact congrArg _ (List.map_id tracks)

end Along

/-- Where the requests lie along the direction. -/
def places (direction : HeadDirection) (requests : List (Request info)) : List ℤ :=
  requests.map fun req => direction.along req.track

theorem places_append (direction : HeadDirection) (requests requests' : List (Request info)) :
    places direction (requests ++ requests') =
      places direction requests ++ places direction requests' :=
  List.map_append

/-- The requests reach from `bottom` to `top` along the direction. -/
structure Reach (direction : HeadDirection) (requests : List (Request info)) (bottom top : ℤ) :
    Prop where
  bottom_mem : bottom ∈ places direction requests
  bottom_le : ∀ x ∈ places direction requests, bottom ≤ x
  top_mem : top ∈ places direction requests
  le_top : ∀ x ∈ places direction requests, x ≤ top

theorem exists_reach (direction : HeadDirection) {requests : List (Request info)}
    (hne : requests ≠ []) : ∃ bottom top, Reach direction requests bottom top := by
  have hne' : places direction requests ≠ [] := by simpa [places] using hne
  obtain ⟨bottom, hbottom⟩ := Option.isSome_iff_exists.1 (List.isSome_min?_of_ne_nil hne')
  obtain ⟨top, htop⟩ := Option.isSome_iff_exists.1 (List.isSome_max?_of_ne_nil hne')
  rw [List.min?_eq_some_iff] at hbottom
  rw [List.max?_eq_some_iff] at htop
  exact ⟨bottom, top, hbottom.1, hbottom.2, htop.1, htop.2⟩

section Reach

variable {direction : HeadDirection} {requests : List (Request info)} {bottom top : ℤ}
  {position : TrackNumber info}

theorem Reach.perm {requests' : List (Request info)} (h : Reach direction requests bottom top)
    (hperm : requests.Perm requests') : Reach direction requests' bottom top := by
  have hmem : ∀ x, x ∈ places direction requests' ↔ x ∈ places direction requests :=
    fun _ => (hperm.map _).symm.mem_iff
  exact ⟨(hmem _).2 h.bottom_mem, fun x hx => h.bottom_le x ((hmem x).1 hx),
    (hmem _).2 h.top_mem, fun x hx => h.le_top x ((hmem x).1 hx)⟩

theorem Reach.top_le (h : Reach direction requests bottom top) :
    top ≤ direction.along (direction.edge info) := by
  obtain ⟨req, -, rfl⟩ := List.mem_map.1 h.top_mem
  exact req.trackNumber.along_le direction

theorem Reach.min?_eq (h : Reach .right requests bottom top) :
    (requests.map Request.track).min? = some bottom :=
  List.min?_eq_some_iff.2 ⟨h.bottom_mem, h.bottom_le⟩

theorem Reach.max?_eq (h : Reach .right requests bottom top) :
    (requests.map Request.track).max? = some top :=
  List.max?_eq_some_iff.2 ⟨h.top_mem, h.le_top⟩

theorem mem_places_left {track : ℤ} :
    -track ∈ places .left requests ↔ track ∈ requests.map Request.track := by
  simp [places, HeadDirection.along]

/-- Seen to the left, the lowest place is the highest track. -/
theorem Reach.toRight (h : Reach .left requests bottom top) :
    Reach .right requests (-top) (-bottom) where
  bottom_mem := mem_places_left.1 ((neg_neg top).symm ▸ h.top_mem)
  bottom_le _ hx := neg_le.1 (h.le_top _ (mem_places_left.2 hx))
  top_mem := mem_places_left.1 ((neg_neg bottom).symm ▸ h.bottom_mem)
  le_top _ hx := le_neg.1 (h.bottom_le _ (mem_places_left.2 hx))

/-- `compute_seek_distance` along the direction. -/
theorem Reach.computeSeekDistance_eq (h : Reach direction requests bottom top)
    (position : TrackNumber info) :
    (computeSeekDistance requests position direction : ℤ) =
      if bottom = top ∧ bottom = direction.along position.value then 0
      else (direction.along (direction.edge info) - direction.along position.value) +
        if bottom < direction.along position.value then
          direction.along (direction.edge info) - bottom else 0 := by
  have hmin := position.min_le
  have hmax := position.le_max
  cases direction with
  | left =>
      simp only [computeSeekDistance, h.toRight.min?_eq, h.toRight.max?_eq, HeadDirection.along,
        HeadDirection.edge]
      have hle := h.toRight.top_le
      simp only [HeadDirection.along, HeadDirection.edge] at hle
      split_ifs <;> omega
  | right =>
      simp only [computeSeekDistance, h.min?_eq, h.max?_eq, HeadDirection.along,
        HeadDirection.edge]
      have hle := h.top_le
      have hbottom := h.bottom_le top h.top_mem
      simp only [HeadDirection.along, HeadDirection.edge] at hle
      split_ifs <;> omega

/-- The travel of the run along the direction. -/
theorem Sees.travel_eq {set : FlatSet info} {ahead behind : List (Request info)}
    (h : Sees direction position.value set ahead behind)
    (hreach : Reach direction set.requests bottom top) :
    travel position.value ((ahead ++ behind).map Request.track) =
      if direction.along position.value < top then
        (top - direction.along position.value) +
          (if bottom ≤ direction.along position.value then top - bottom else 0)
      else direction.along position.value - bottom := by
  obtain ⟨hbottom, hge, htop, hle⟩ := hreach.perm h.perm.symm
  rw [places_append] at hbottom hge htop hle
  have hup : (direction.along position.value :: places direction ahead).Pairwise (· < ·) := by
    refine List.pairwise_cons.2
      ⟨?_, List.pairwise_map.2 (h.ahead_sorted.imp HeadDirection.beyond_iff.1)⟩
    intro x hx
    obtain ⟨req, hreq, rfl⟩ := List.mem_map.1 hx
    exact HeadDirection.beyond_iff.1 (h.ahead req hreq)
  have hdown : (direction.along position.value :: places direction behind).Pairwise (· ≥ ·) := by
    refine List.pairwise_cons.2 ⟨?_, List.pairwise_map.2
      (h.behind_sorted.imp fun hbeyond => (HeadDirection.beyond_reversed_iff.1 hbeyond).le)⟩
    intro x hx
    obtain ⟨req, hreq, rfl⟩ := List.mem_map.1 hx
    exact not_lt.1 (HeadDirection.beyond_iff.not.1 (h.behind req hreq))
  rw [← travel_along direction, List.map_map]
  show travel _ (places direction (ahead ++ behind)) = _
  rw [places_append]
  exact travel_up_down hup hdown htop hle hbottom hge

end Reach

/-! ## Formula and run -/

/-- The formula bounds the travel of the run, and is the travel if some request
lies on the edge track of the direction. -/
def BoundsTravel (requests : List (Request info)) (set : FlatSet info)
    (position : TrackNumber info) (direction : HeadDirection) : Prop :=
  ∃ served, Converges (fun fuel => Scheduler.serveAll fuel ⟨direction⟩ ⟨position⟩ set) served ∧
    travel position.value (served.map fun service => service.1.track) ≤
      computeSeekDistance requests position direction ∧
    ((∃ req ∈ requests, req.track = direction.edge info) →
      (computeSeekDistance requests position direction : ℤ) =
        travel position.value (served.map fun service => service.1.track))

/-- The last request behind the head is at the head's own track, and some request
is nearer to the edge track of the direction than to the head. -/
def PassedOver (requests : List (Request info)) (position : TrackNumber info)
    (direction : HeadDirection) : Prop :=
  (∃ req ∈ requests, req.track = position.value) ∧
    (∀ req ∈ requests, ¬direction.reversed.Beyond position.value req.track) ∧
    ∃ req ∈ requests, |direction.edge info - req.track| < |req.track - position.value|

section PassedOver

variable {direction : HeadDirection} {requests : List (Request info)} {bottom top : ℤ}
  {position : TrackNumber info}

theorem nearer_iff {req : Request info}
    (hle : direction.along position.value ≤ direction.along req.track) :
    |direction.edge info - req.track| < |req.track - position.value| ↔
      direction.along (direction.edge info) - direction.along req.track <
        direction.along req.track - direction.along position.value := by
  have hedge : direction.along req.track ≤ direction.along (direction.edge info) :=
    req.trackNumber.along_le direction
  rw [← direction.abs_along (direction.edge info), ← direction.abs_along req.track,
    abs_of_nonneg (sub_nonneg.2 hedge), abs_of_nonneg (sub_nonneg.2 hle)]

theorem Reach.passedOver_iff (h : Reach direction requests bottom top) :
    PassedOver requests position direction ↔
      bottom = direction.along position.value ∧
        direction.along (direction.edge info) - top < top - direction.along position.value := by
  constructor
  · rintro ⟨⟨req, hreq, hhead⟩, hnone, near, hnear, hlt⟩
    have hle : ∀ other ∈ requests, direction.along position.value ≤ direction.along other.track :=
      fun other hother => not_lt.1 (HeadDirection.beyond_reversed_iff.not.1 (hnone other hother))
    have hbottom : bottom ≤ direction.along position.value :=
      hhead ▸ h.bottom_le _ (List.mem_map_of_mem hreq)
    obtain ⟨lowest, hlowest, heq⟩ := List.mem_map.1 h.bottom_mem
    refine ⟨le_antisymm hbottom (heq ▸ hle lowest hlowest), ?_⟩
    rw [nearer_iff (hle near hnear)] at hlt
    have htop : direction.along near.track ≤ top := h.le_top _ (List.mem_map_of_mem hnear)
    omega
  · rintro ⟨hbottom, hlt⟩
    have hle : ∀ other ∈ requests, direction.along position.value ≤ direction.along other.track :=
      fun other hother => hbottom ▸ h.bottom_le _ (List.mem_map_of_mem hother)
    obtain ⟨req, hreq, hhead⟩ := List.mem_map.1 h.bottom_mem
    obtain ⟨near, hnear, htop⟩ := List.mem_map.1 h.top_mem
    refine ⟨⟨req, hreq, HeadDirection.along_inj.1 (hhead.trans hbottom)⟩, ?_, near, hnear, ?_⟩
    · exact fun other hother =>
        HeadDirection.beyond_reversed_iff.not.2 (not_lt.2 (hle other hother))
    · rw [nearer_iff (hle near hnear), htop]
      exact hlt

theorem Reach.exists_edge_iff (h : Reach direction requests bottom top) :
    (∃ req ∈ requests, req.track = direction.edge info) ↔
      top = direction.along (direction.edge info) := by
  constructor
  · rintro ⟨req, hreq, hedge⟩
    exact le_antisymm h.top_le (hedge ▸ h.le_top _ (List.mem_map_of_mem hreq))
  · intro htop
    obtain ⟨req, hreq, heq⟩ := List.mem_map.1 h.top_mem
    exact ⟨req, hreq, HeadDirection.along_inj.1 (heq.trans htop)⟩

end PassedOver

/-- The formula is right unless the scheduler passes over a request at the head's
own track. -/
theorem boundsTravel_iff (requests : List (Request info)) (set : FlatSet info)
    (position : TrackNumber info) (direction : HeadDirection) (hne : requests ≠ [])
    (hperm : requests.Perm set.requests) :
    BoundsTravel requests set position direction ↔ ¬PassedOver requests position direction := by
  obtain ⟨ahead, behind, hsees⟩ := exists_sees direction position.value set
  obtain ⟨bottom, top, hreach⟩ := exists_reach direction hne
  have htravel := hsees.travel_eq (hreach.perm hperm)
  have hformula := hreach.computeSeekDistance_eq position
  have hbottom := hreach.bottom_le top hreach.top_mem
  have htop := hreach.top_le
  have hedge := position.along_le direction
  have hserved : (ahead.map (fun req => (req, direction)) ++
      behind.map fun req => (req, direction.reversed)).map (fun service => service.1.track) =
        (ahead ++ behind).map Request.track := by
    simp [Function.comp_def]
  have harith : BoundsTravel requests set position direction ↔
      (travel position.value ((ahead ++ behind).map Request.track) ≤
          computeSeekDistance requests position direction ∧
        (top = direction.along (direction.edge info) →
          (computeSeekDistance requests position direction : ℤ) =
            travel position.value ((ahead ++ behind).map Request.track))) := by
    rw [← hserved, ← hreach.exists_edge_iff]
    constructor
    · rintro ⟨served, hconverges, hbounds⟩
      rw [hsees.serves.unique hconverges]
      exact hbounds
    · exact fun hbounds => ⟨_, hsees.serves, hbounds⟩
  rw [harith, hreach.passedOver_iff, htravel, hformula]
  split_ifs <;> omega

theorem boundsTravel_iff_turn :
    ∃ (info : TypeInfo) (requests : List (Request info)) (set : FlatSet info)
      (position : TrackNumber info), requests.map Request.track = [60, 10] ∧
        requests.Perm set.requests ∧ position.value = 50 ∧
        BoundsTravel requests set position .left := by
  let info : TypeInfo := ⟨0, 199, by decide, by decide⟩
  let far : Request info := ⟨⟨60, by decide, by decide⟩⟩
  let near : Request info := ⟨⟨10, by decide, by decide⟩⟩
  let set : FlatSet info := ⟨[near, far], List.pairwise_pair.2 (by decide)⟩
  refine ⟨info, [far, near], set, ⟨50, by decide, by decide⟩, rfl, .swap near far [], rfl, ?_⟩
  refine (boundsTravel_iff [far, near] set _ .left (List.cons_ne_nil _ _) (.swap near far [])).2 ?_
  rintro ⟨⟨req, hreq, hhere⟩, -⟩
  rcases List.mem_pair.1 hreq with rfl | rfl
  · exact absurd hhere (by decide)
  · exact absurd hhere (by decide)

theorem not_boundsTravel :
    ∃ (info : TypeInfo) (requests : List (Request info)) (set : FlatSet info)
      (position : TrackNumber info), info.min = 0 ∧ info.max = 199 ∧
        requests.map Request.track = [50, 10] ∧ requests.Perm set.requests ∧
        position.value = 50 ∧ ¬BoundsTravel requests set position .left := by
  let info : TypeInfo := ⟨0, 199, by decide, by decide⟩
  let here : Request info := ⟨⟨50, by decide, by decide⟩⟩
  let near : Request info := ⟨⟨10, by decide, by decide⟩⟩
  let set : FlatSet info := ⟨[near, here], List.pairwise_pair.2 (by decide)⟩
  refine ⟨info, [here, near], set, here.trackNumber, rfl, rfl, rfl, .swap near here [], rfl, ?_⟩
  rintro ⟨served, hconverges, hle, -⟩
  have hsees : Sees .left here.trackNumber.value set [near] [here] :=
    ⟨rfl, List.forall_mem_singleton.2 (show (10 : ℤ) < 50 by decide),
      List.forall_mem_singleton.2 (show ¬(50 : ℤ) < 50 by decide)⟩
  rw [hconverges.unique hsees.serves] at hle
  exact absurd hle (by decide)

end InterProcess.DiskScheduling
