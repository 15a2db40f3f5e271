import InterProcess.Lib.Outcome
import Mathlib.Data.List.Sort

/-!
# The SCAN disk scheduler

A disk with its tracks, requests for tracks, and a scheduler that keeps the
direction in which the head moves. `select_next` comes in two overloads, for an
array in any order and for a set that is kept sorted; `compute_seek_distance`
says in advance how far the head will travel.

Track numbers are integers, and the arithmetic on them is exact.
-/

namespace InterProcess.DiskScheduling

/-- `type_info` with the static asserts about it. -/
structure TypeInfo where
  min : ℤ
  max : ℤ
  min_lt_max : min < max
  min_nonneg : 0 ≤ min

/-- `track_number` with its asserts. -/
structure TrackNumber (info : TypeInfo) where
  value : ℤ
  min_le : info.min ≤ value
  le_max : value ≤ info.max
  deriving DecidableEq

structure Request (info : TypeInfo) where
  trackNumber : TrackNumber info
  deriving DecidableEq

inductive HeadDirection
  | left
  | right
  deriving DecidableEq

structure Disk (info : TypeInfo) where
  headPosition : TrackNumber info

variable {info : TypeInfo}

def Request.track (req : Request info) : ℤ := req.trackNumber.value

theorem Request.track_inj {fst snd : Request info} (h : fst.track = snd.track) : fst = snd := by
  obtain ⟨⟨value, _, _⟩⟩ := fst
  obtain ⟨⟨value', _, _⟩⟩ := snd
  cases (h : value = value')
  rfl

instance : Std.Total fun fst snd : Request info => fst.track ≤ snd.track :=
  ⟨fun fst snd => Int.le_total fst.track snd.track⟩

instance : IsTrans (Request info) fun fst snd => fst.track ≤ snd.track :=
  ⟨fun _ _ _ => Int.le_trans⟩

/-- `etl::flat_set` of requests, which are ordered by their tracks. -/
structure FlatSet (info : TypeInfo) where
  requests : List (Request info)
  sorted : requests.Pairwise fun fst snd => fst.track < snd.track

theorem FlatSet.erase_sorted (set : FlatSet info) (req : Request info) :
    (set.requests.erase req).Pairwise fun fst snd => fst.track < snd.track :=
  set.sorted.sublist List.erase_sublist

def FlatSet.erase (set : FlatSet info) (req : Request info) : FlatSet info :=
  ⟨set.requests.erase req, set.erase_sorted req⟩

/-! ## The seek distance -/

/-- `compute_seek_distance`. -/
def computeSeekDistance (requests : List (Request info)) (initHeadPosition : TrackNumber info)
    (direction : HeadDirection) : ℕ :=
  match (requests.map Request.track).min?, (requests.map Request.track).max? with
  | some min, some max =>
      -- no need to move
      if min = max ∧ min = initHeadPosition.value then 0
      else
        match direction with
        | .left =>
            let leftDistance := initHeadPosition.value - info.min
            let rightDistance := if initHeadPosition.value < max then max - info.min else 0
            (leftDistance + rightDistance).toNat
        | .right =>
            let rightDistance := info.max - initHeadPosition.value
            let leftDistance := if initHeadPosition.value > min then info.max - min else 0
            (leftDistance + rightDistance).toNat
  | _, _ => 0

/-! ## The scheduler -/

structure Scheduler where
  currDirection : HeadDirection

/-- `std::upper_bound` of the head among the requests, as an index. -/
def upperBound (target : TrackNumber info) (requests : List (Request info)) : ℕ :=
  requests.findIdx fun req => target.value < req.track

/-- `std::lower_bound` of the head among the requests, as an index. -/
def lowerBound (target : TrackNumber info) (requests : List (Request info)) : ℕ :=
  requests.findIdx fun req => !decide (req.track < target.value)

namespace Scheduler

/-- `select_next` for an array: the request, and the scheduler and the array as
they are left. `none` on an array without elements. -/
def selectNextArray (scheduler : Scheduler) (disk : Disk info) (requests : List (Request info)) :
    Option (Request info × Scheduler × List (Request info)) :=
  let requests := requests.insertionSort fun fst snd => fst.track ≤ snd.track
  let index := requests.findIdx fun req => req.track > disk.headPosition.value
  match scheduler.currDirection with
  | .right =>
      if index = requests.length then requests.getLast?.map fun req => (req, ⟨.left⟩, requests)
      else requests[index]?.map fun req => (req, scheduler, requests)
  | .left =>
      if index = 0 then requests.head?.map fun req => (req, ⟨.right⟩, requests)
      else requests[index - 1]?.map fun req => (req, scheduler, requests)

/-- `select_next` for a set: the request, and the scheduler as it is left. `none`
on an empty set. -/
def selectNext (scheduler : Scheduler) (disk : Disk info) (set : FlatSet info) :
    Option (Request info × Scheduler) :=
  match scheduler.currDirection with
  | .right =>
      let firstGreater := upperBound disk.headPosition set.requests
      if firstGreater = set.requests.length then
        set.requests.getLast?.map fun req => (req, ⟨.left⟩)
      else set.requests[firstGreater]?.map fun req => (req, scheduler)
  | .left =>
      let notLess := lowerBound disk.headPosition set.requests
      if notLess = 0 then set.requests.head?.map fun req => (req, ⟨.right⟩)
      else set.requests[notLess - 1]?.map fun req => (req, scheduler)

/-- The run of a disk: select a request, move the head to its track and erase it,
until the set is empty. Lists the requests served, each with the direction the
scheduler has after selecting it. -/
def serveAll : ℕ → Scheduler → Disk info → FlatSet info →
    Outcome (List (Request info × HeadDirection))
  | 0, _, _, _ => .outOfFuel
  | fuel + 1, scheduler, disk, set =>
      if set.requests = [] then pure []
      else
        match scheduler.selectNext disk set with
        | none => .aborted
        | some (req, scheduler) => do
            let served ← serveAll fuel scheduler ⟨req.trackNumber⟩ (set.erase req)
            pure ((req, scheduler.currDirection) :: served)

end Scheduler

end InterProcess.DiskScheduling
