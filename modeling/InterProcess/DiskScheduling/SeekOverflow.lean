import InterProcess.DiskScheduling.SeekDistance

/-!
# The seek distance in 32 bits

With `std::int32_t` for the tracks the distances of `compute_seek_distance` are
of that type too, and they are added before the sum is cast to `std::size_t`.
Each of the two fits, their sum need not: `measuresWalk_iff`.

`none` stands for a signed overflow. What the function should return is the
length of the walk of the head (`scanWalk`).
-/

namespace InterProcess.DiskScheduling

open Sorted

/-- `INT32_MIN` and `INT32_MAX`. -/
def int32Min : ℤ := -2147483648
def int32Max : ℤ := 2147483647

/-- The result of an operation on values of type `std::int32_t`. -/
def int32 (result : ℤ) : Option ℤ :=
  if int32Min ≤ result ∧ result ≤ int32Max then some result else none

/-- `static_cast<std::size_t>`. -/
def toSize (value : ℤ) : ℕ := (value % 18446744073709551616).toNat

/-- `type_info<std::int32_t>`. -/
structure TypeInfo32 extends TypeInfo where
  max_le : max ≤ int32Max

variable {info : TypeInfo32}

/-- `compute_seek_distance` on tracks of type `std::int32_t`. -/
def computeSeekDistance32 (requests : List (Request info.toTypeInfo))
    (initHeadPosition : TrackNumber info.toTypeInfo) (direction : HeadDirection) : Option ℕ :=
  match (requests.map Request.track).min?, (requests.map Request.track).max? with
  | some min, some max =>
      -- no need to move
      if min = max ∧ min = initHeadPosition.value then some 0
      else
        match direction with
        | .left => do
            let leftDistance ← int32 (initHeadPosition.value - info.min)
            let rightDistance ←
              if initHeadPosition.value < max then int32 (max - info.min) else some 0
            let sum ← int32 (leftDistance + rightDistance)
            return toSize sum
        | .right => do
            let rightDistance ← int32 (info.max - initHeadPosition.value)
            let leftDistance ←
              if initHeadPosition.value > min then int32 (info.max - min) else some 0
            let sum ← int32 (leftDistance + rightDistance)
            return toSize sum
  | _, _ => some 0

/-! ## The walk of the head -/

/-- The request farthest from the head among those strictly on the other side of it. -/
def farthestBehind {info : TypeInfo} (direction : HeadDirection) (head : ℤ)
    (requests : List (Request info)) : Option ℤ :=
  match direction with
  | .left => ((requests.map Request.track).filter (head < ·)).max?
  | .right => ((requests.map Request.track).filter (· < head)).min?

/-- Where the head goes: to the edge of the disk, and back to the farthest request on the
other side. -/
def scanWalk {info : TypeInfo} (requests : List (Request info)) (position : TrackNumber info)
    (direction : HeadDirection) : List ℤ :=
  if ∀ req ∈ requests, req.track = position.value then []
  else direction.edge info :: (farthestBehind direction position.value requests).toList

/-- Nothing overflows, and the distance is the length of the walk. -/
def MeasuresWalk (requests : List (Request info.toTypeInfo))
    (position : TrackNumber info.toTypeInfo) (direction : HeadDirection) : Prop :=
  ∃ distance, computeSeekDistance32 requests position direction = some distance ∧
    (distance : ℤ) = travel position.value (scanWalk requests position direction)

/-- The way to the edge of the disk and from there to any request on the other side is no
longer than `INT32_MAX`. -/
def ReachedIn32 {info : TypeInfo} (requests : List (Request info))
    (position : TrackNumber info) (direction : HeadDirection) : Prop :=
  ∀ req ∈ requests, direction.reversed.Beyond position.value req.track →
    |direction.edge info - position.value| + |direction.edge info - req.track| ≤ int32Max

/-- The greatest element, or the least one, of those that pass a test: the greatest of all, if any
of them passes. -/
theorem extreme_filter {extreme : List ℤ → Option ℤ} {r : ℤ → ℤ → Prop} (hnone : extreme [] = none)
    (hsome : ∀ {l m}, m ∈ l → (∀ x ∈ l, r x m) → extreme l = some m) {l : List ℤ} {m : ℤ}
    (p : ℤ → Bool) (hmem : m ∈ l) (hr : ∀ x ∈ l, r x m)
    (hp : ∀ x, r x m → p x = true → p m = true) :
    extreme (l.filter p) = if p m then some m else none := by
  split
  · next hm => exact hsome (List.mem_filter.2 ⟨hmem, hm⟩) fun x hx => hr x (List.mem_filter.1 hx).1
  · next hm =>
      have hnil : l.filter p = [] :=
        List.filter_eq_nil_iff.2 fun x hx hpx => hm (hp x (hr x hx) hpx)
      rw [hnil]
      exact hnone

/-- The way from the edge back to the request at the bottom, if that lies behind the head. -/
def wayBack {info : TypeInfo} (direction : HeadDirection) (position : TrackNumber info)
    (bottom : ℤ) : ℤ :=
  if bottom < direction.along position.value then
    direction.along (direction.edge info) - bottom else 0

section Walk

variable {info : TypeInfo} {direction : HeadDirection} {requests : List (Request info)}
  {position : TrackNumber info} {bottom top : ℤ}

theorem Reach.forall_here_iff (h : Reach direction requests bottom top) :
    (∀ req ∈ requests, req.track = position.value) ↔
      bottom = top ∧ bottom = direction.along position.value := by
  constructor
  · intro hall
    have hplaces : ∀ x ∈ places direction requests, x = direction.along position.value := by
      intro x hx
      obtain ⟨req, hreq, rfl⟩ := List.mem_map.1 hx
      rw [hall req hreq]
    rw [hplaces bottom h.bottom_mem, hplaces top h.top_mem]
    exact ⟨rfl, rfl⟩
  · rintro ⟨rfl, hbottom⟩ req hreq
    have hmem : direction.along req.track ∈ places direction requests :=
      List.mem_map_of_mem hreq
    have hplace : direction.along req.track = direction.along position.value :=
      (le_antisymm (h.le_top _ hmem) (h.bottom_le _ hmem)).trans hbottom
    exact HeadDirection.along_inj.1 hplace

theorem places_right (requests : List (Request info)) :
    places .right requests = requests.map Request.track := rfl

/-- The farthest request behind the head is at the bottom. -/
theorem Reach.farthestBehind_eq (h : Reach direction requests bottom top)
    (position : TrackNumber info) :
    (farthestBehind direction position.value requests).map direction.along =
      if bottom < direction.along position.value then some bottom else none := by
  cases direction with
  | left =>
      have hfar := extreme_filter (r := (· ≤ ·)) List.max?_nil
        (fun hmem hle => List.max?_eq_some_iff.2 ⟨hmem, hle⟩)
        (fun track => decide (position.value < track))
        h.toRight.top_mem h.toRight.le_top fun x hx hlt => by simp at hlt ⊢; omega
      have hiff : decide (position.value < -bottom) = true ↔ bottom < -position.value := by
        rw [decide_eq_true_iff, lt_neg]
      show (((requests.map Request.track).filter _).max?).map Neg.neg = _
      rw [places_right] at hfar
      rw [hfar, apply_ite (Option.map Neg.neg), Option.map_some, neg_neg]
      exact if_congr hiff rfl rfl
  | right =>
      have hfar := extreme_filter (r := (· ≥ ·)) List.min?_nil
        (fun hmem hge => List.min?_eq_some_iff.2 ⟨hmem, hge⟩)
        (fun track => decide (track < position.value))
        h.bottom_mem h.bottom_le fun x hx hlt => by simp at hlt ⊢; omega
      show (((requests.map Request.track).filter _).min?).map id = _
      rw [places_right] at hfar
      rw [Option.map_id, id, hfar]
      exact if_congr decide_eq_true_iff rfl rfl

theorem wayBack_nonneg (direction : HeadDirection) (position : TrackNumber info) (bottom : ℤ) :
    0 ≤ wayBack direction position bottom := by
  unfold wayBack
  have hle := position.along_le direction
  split
  · omega
  · exact le_rfl

/-- The length of the walk along the direction. -/
theorem Reach.travel_scanWalk (h : Reach direction requests bottom top)
    (hmove : ¬(bottom = top ∧ bottom = direction.along position.value)) :
    travel position.value (scanWalk requests position direction) =
      (direction.along (direction.edge info) - direction.along position.value) +
        wayBack direction position bottom := by
  have hfar := h.farthestBehind_eq position
  have hedge := position.along_le direction
  rw [scanWalk, if_neg (h.forall_here_iff.not.2 hmove), ← travel_along direction, List.map_cons,
    ← Option.toList_map, hfar, wayBack, travel, abs_of_nonneg (sub_nonneg.2 hedge)]
  split
  · next hbehind =>
      have hback : bottom ≤ direction.along (direction.edge info) := hbehind.le.trans hedge
      rw [Option.toList_some, travel, travel, abs_sub_comm, abs_of_nonneg (sub_nonneg.2 hback),
        add_zero]
  · rfl

/-- The request at the bottom is the one that may be too far. -/
theorem Reach.reachedIn32_iff (h : Reach direction requests bottom top) :
    ReachedIn32 requests position direction ↔
      (bottom < direction.along position.value →
        (direction.along (direction.edge info) - direction.along position.value) +
          (direction.along (direction.edge info) - bottom) ≤ int32Max) := by
  have hedge := position.along_le direction
  have hway : ∀ req : Request info,
      |direction.edge info - position.value| + |direction.edge info - req.track| =
        (direction.along (direction.edge info) - direction.along position.value) +
          (direction.along (direction.edge info) - direction.along req.track) := by
    intro req
    have hreq : direction.along req.track ≤ direction.along (direction.edge info) :=
      req.trackNumber.along_le direction
    rw [← direction.abs_along _ position.value, ← direction.abs_along _ req.track,
      abs_of_nonneg (sub_nonneg.2 hedge), abs_of_nonneg (sub_nonneg.2 hreq)]
  constructor
  · intro hreached hbehind
    obtain ⟨req, hreq, rfl⟩ := List.mem_map.1 h.bottom_mem
    exact hway req ▸ hreached req hreq (HeadDirection.beyond_reversed_iff.2 hbehind)
  · intro hbound req hreq hbehind
    have hge := h.bottom_le _ (List.mem_map_of_mem hreq)
    have hlt := HeadDirection.beyond_reversed_iff.1 hbehind
    have hle := hbound (hge.trans_lt hlt)
    rw [hway]
    omega

end Walk

section Checked

variable {direction : HeadDirection} {requests : List (Request info.toTypeInfo)}
  {position : TrackNumber info.toTypeInfo} {bottom top : ℤ}

theorem int32_of_le {value : ℤ} (hnonneg : 0 ≤ value) (hle : value ≤ int32Max) :
    int32 value = some value := by
  refine if_pos ⟨le_trans ?_ hnonneg, hle⟩
  decide

/-- No need to move. -/
theorem Reach.computeSeekDistance32_here (h : Reach direction requests bottom top)
    (hhere : bottom = top ∧ bottom = direction.along position.value) :
    computeSeekDistance32 requests position direction = some 0 := by
  obtain ⟨rfl, hhere⟩ := hhere
  cases direction with
  | left =>
      have hhere' : -bottom = position.value := by rw [hhere]; exact neg_neg position.value
      simp only [computeSeekDistance32, h.toRight.min?_eq, h.toRight.max?_eq]
      exact if_pos ⟨trivial, hhere'⟩
  | right =>
      simp only [computeSeekDistance32, h.min?_eq, h.max?_eq]
      exact if_pos ⟨trivial, hhere⟩

/-- Only the sum can overflow. -/
theorem Reach.computeSeekDistance32_eq (h : Reach direction requests bottom top)
    (hmove : ¬(bottom = top ∧ bottom = direction.along position.value)) :
    computeSeekDistance32 requests position direction =
      (int32 ((direction.along (direction.edge info.toTypeInfo) -
        direction.along position.value) + wayBack direction position bottom)).map toSize := by
  have hmin := position.min_le
  have hmax := position.le_max
  have hnonneg := info.min_nonneg
  have hrange := info.max_le
  rw [Option.map_eq_bind]
  cases direction with
  | left =>
      have hmove' : ¬(-top = -bottom ∧ -top = position.value) := fun ⟨htop, hhere⟩ =>
        hmove ⟨(neg_inj.1 htop).symm, neg_eq_iff_eq_neg.1 (htop.symm.trans hhere)⟩
      have hhead : int32 (position.value - info.min) = some (-info.min - -position.value) := by
        rw [int32_of_le (by omega) (by omega), neg_sub_neg]
      have hedge : -bottom ≤ info.max := h.toRight.top_le
      simp only [computeSeekDistance32, h.toRight.min?_eq, h.toRight.max?_eq, if_neg hmove', hhead]
      by_cases hturn : position.value < -bottom
      · have hback : int32 (-bottom - info.min) = some (-info.min - bottom) := by
          rw [int32_of_le (by omega) (by omega)]
          exact congrArg some (by omega)
        have hbehind : bottom < HeadDirection.left.along position.value := lt_neg.1 hturn
        simp only [if_pos hturn, hback, wayBack, if_pos hbehind]
        rfl
      · have hahead : ¬bottom < HeadDirection.left.along position.value := lt_neg.not.1 hturn
        simp only [if_neg hturn, wayBack, if_neg hahead]
        rfl
  | right =>
      have hhead : int32 (info.max - position.value) = some (info.max - position.value) :=
        int32_of_le (by omega) (by omega)
      have hmove' : ¬(bottom = top ∧ bottom = position.value) := hmove
      simp only [computeSeekDistance32, h.min?_eq, h.max?_eq, if_neg hmove', hhead]
      obtain ⟨lowest, -, hlowest⟩ := List.mem_map.1 h.bottom_mem
      have hge : info.min ≤ bottom := hlowest ▸ lowest.trackNumber.min_le
      by_cases hturn : position.value > bottom
      · have hback : int32 (info.max - bottom) = some (info.max - bottom) :=
          int32_of_le (by omega) (by omega)
        have hbehind : bottom < HeadDirection.right.along position.value := hturn
        simp only [if_pos hturn, hback, wayBack, if_pos hbehind]
        rw [add_comm]
        rfl
      · have hahead : ¬bottom < HeadDirection.right.along position.value := hturn
        simp only [if_neg hturn, wayBack, if_neg hahead]
        rw [add_comm]
        rfl

theorem toSize_of_le {value : ℤ} (hnonneg : 0 ≤ value) (hle : value ≤ int32Max) :
    (toSize value : ℤ) = value := by
  unfold int32Max at hle
  unfold toSize
  omega

/-- The way to the edge alone fits. -/
theorem sum_le_iff (direction : HeadDirection) (position : TrackNumber info.toTypeInfo)
    (bottom : ℤ) :
    direction.along (direction.edge info.toTypeInfo) - direction.along position.value +
        wayBack direction position bottom ≤ int32Max ↔
      (bottom < direction.along position.value →
        (direction.along (direction.edge info.toTypeInfo) - direction.along position.value) +
          (direction.along (direction.edge info.toTypeInfo) - bottom) ≤ int32Max) := by
  have hrange := info.max_le
  have hnonneg := info.min_nonneg
  have hmin := position.min_le
  have hmax := position.le_max
  unfold wayBack
  split
  · next hbehind => exact ⟨fun h _ => h, fun h => h hbehind⟩
  · next hahead =>
      refine iff_of_true ?_ fun hbehind => absurd hbehind hahead
      cases direction with
      | left =>
          show -info.min - -position.value + 0 ≤ int32Max
          omega
      | right =>
          show info.max - position.value + 0 ≤ int32Max
          omega

end Checked

/-- On 32 bits the seek distance is the length of the walk of the head iff no request on the
other side of the head is too far. -/
theorem measuresWalk_iff (requests : List (Request info.toTypeInfo))
    (position : TrackNumber info.toTypeInfo) (direction : HeadDirection) :
    MeasuresWalk requests position direction ↔ ReachedIn32 requests position direction := by
  by_cases hne : requests = []
  · subst hne
    exact iff_of_true ⟨0, rfl, rfl⟩ (List.forall_mem_nil _)
  obtain ⟨bottom, top, hreach⟩ := exists_reach direction hne
  have hedge := position.along_le direction
  rw [hreach.reachedIn32_iff]
  by_cases hmove : bottom = top ∧ bottom = direction.along position.value
  · have hwalk : scanWalk requests position direction = [] :=
      if_pos (hreach.forall_here_iff.2 hmove)
    refine iff_of_true ⟨0, hreach.computeSeekDistance32_here hmove, ?_⟩ fun hbehind => ?_
    · rw [hwalk]
      rfl
    · exact absurd hmove.2 hbehind.ne
  have hnonneg := wayBack_nonneg direction position bottom
  have hsum := sum_le_iff direction position bottom
  rw [MeasuresWalk, hreach.computeSeekDistance32_eq hmove, hreach.travel_scanWalk hmove, ← hsum]
  by_cases hle : direction.along (direction.edge info.toTypeInfo) -
      direction.along position.value + wayBack direction position bottom ≤ int32Max
  · rw [int32_of_le (by omega) hle]
    exact iff_of_true ⟨_, rfl, toSize_of_le (by omega) hle⟩ hle
  · rw [int32, if_neg fun h => hle h.2]
    refine iff_of_false ?_ hle
    rintro ⟨distance, hnone, -⟩
    cases hnone

/-- The head next to the last track of the largest disk. -/
theorem not_measuresWalk : ¬∀ (info : TypeInfo32) (requests : List (Request info.toTypeInfo))
    (position : TrackNumber info.toTypeInfo) (direction : HeadDirection), requests ≠ [] →
    MeasuresWalk requests position direction := by
  let info : TypeInfo32 := ⟨⟨0, 2147483647, by decide, by decide⟩, by decide⟩
  let far : Request info.toTypeInfo := ⟨⟨2147483647, by decide, by decide⟩⟩
  let head : TrackNumber info.toTypeInfo := ⟨2147483646, by decide, by decide⟩
  intro h
  obtain ⟨distance, hdistance, -⟩ := h info [far] head .left (List.cons_ne_nil _ _)
  have hnone : computeSeekDistance32 [far] head .left = none := by decide
  rw [hnone] at hdistance
  cases hdistance

end InterProcess.DiskScheduling
