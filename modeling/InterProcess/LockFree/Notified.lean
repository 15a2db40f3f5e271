import InterProcess.LockFree.RingBuffer
import InterProcess.Lib.Lts
import InterProcess.Lib.Slots
import InterProcess.Lib.Threads

/-!
# Pushers that notify, poppers that wait

The pattern of both programs: pushers call `push` and then `notify_one`,
poppers `wait_for_one` and then `pop`, with one `ring_buffer` and one counting
semaphore between them. A token says that some push has completed, not which:
`push` claims its slot before it stores, so a popper with the token of one push
may come to the slot of another that has not stored yet.

`returned_iff`: a pop returns what the push of its position has stored iff that
push has stored when the pop loads its slot.
-/

namespace InterProcess.LockFree.Notified

open Function Lts Threads RingBuffer

variable {ι κ α : Type}

/-- A value in the ring; `claim` is history: the number of the push that has
stored it. -/
structure Entry (α : Type) where
  value : α
  claim : Option ℕ

instance [Inhabited α] : Inhabited (Entry α) := ⟨⟨default, none⟩⟩

/-- Where a pusher is. `claim` is history: the number of its push. -/
inductive Pusher (α : Type)
  | outside
  | push (value : α) (claim : ℕ) (pc : PushPc)
  | notify

/-- Where a popper is. `position` is history: the number of its pop. -/
inductive Popper
  | wait
  | pop (position : ℕ) (pc : PopPc)

/-- The ring, the semaphore, the processes; `returned` is history: the pops
completed, with their numbers. -/
structure State (ι κ α : Type) where
  ring : RingBuffer (Entry α)
  tokens : ℕ
  pushers : ι → Pusher α
  poppers : κ → Popper
  returned : List (ℕ × Entry α)

def State.init (ι κ α : Type) [Inhabited α] : State ι κ α :=
  { ring := .fresh
    tokens := 0
    pushers := fun _ => .outside
    poppers := fun _ => .wait
    returned := [] }

/-- A pusher calls `push`, or a process takes its next step. -/
inductive Label (ι κ α : Type)
  | push (i : ι) (value : α)
  | pusher (i : ι)
  | popper (k : κ)

/-- The push the pusher is to store. -/
def Pusher.storing : Pusher α → Option ℕ
  | .push _ claim (.store _) => some claim
  | _ => none

/-- The pop the popper is to load a slot for. -/
def Popper.loading : Popper → Option ℕ
  | .pop position (.read _) => some position
  | _ => none

section Steps

variable [DecidableEq ι] [DecidableEq κ]

def State.setPusher (σ : State ι κ α) (i : ι) (pusher : Pusher α) : State ι κ α :=
  { σ with pushers := update σ.pushers i pusher }

def State.setPopper (σ : State ι κ α) (k : κ) (popper : Popper) : State ι κ α :=
  { σ with poppers := update σ.poppers k popper }

def stepPusher (capacity : ℕ) (σ : State ι κ α) (i : ι) : Option (State ι κ α) :=
  match σ.pushers i with
  | .outside => none
  | .push value claim pc =>
      match RingBuffer.push capacity ⟨value, some claim⟩ σ.ring pc with
      -- the next compare-exchange to succeed has this number
      | (ring, .inl pc) =>
          some ({ σ with ring := ring }.setPusher i (.push value σ.ring.pushes pc))
      | (ring, .inr ()) => some ({ σ with ring := ring }.setPusher i .notify)
  | .notify => some ({ σ with tokens := σ.tokens + 1 }.setPusher i .outside)

def stepPopper (capacity : ℕ) (σ : State ι κ α) (k : κ) : Option (State ι κ α) :=
  match σ.poppers k with
  | .wait =>
      if 1 ≤ σ.tokens then
        some ({ σ with tokens := σ.tokens - 1 }.setPopper k (.pop 0 .load))
      else none
  | .pop position pc =>
      match RingBuffer.pop capacity σ.ring pc with
      | (ring, .inl pc) => some ({ σ with ring := ring }.setPopper k (.pop σ.ring.pops pc))
      | (ring, .inr entry) =>
          some ({ σ with
            ring := ring, returned := (position, entry) :: σ.returned }.setPopper k .wait)

def step (capacity : ℕ) (σ : State ι κ α) : Label ι κ α → Option (State ι κ α)
  | .push i value =>
      match σ.pushers i with
      | .outside => some (σ.setPusher i (.push value 0 .load))
      | _ => none
  | .pusher i => stepPusher capacity σ i
  | .popper k => stepPopper capacity σ k

end Steps

/-! ## The property and the conditions -/

/-- Each pop has returned what the push of its position has stored. -/
def ReturnsOwn (σ : State ι κ α) : Prop := ∀ r ∈ σ.returned, r.2.claim = some r.1

/-- Fewer than `capacity` messages are claimed and not popped completely. -/
def Few (capacity : ℕ) (σ : State ι κ α) : Prop := σ.ring.pushes < σ.returned.length + capacity

instance (capacity : ℕ) : DecidablePred (Few capacity (ι := ι) (κ := κ) (α := α)) := fun σ =>
  inferInstanceAs (Decidable (σ.ring.pushes < σ.returned.length + capacity))

/-- If the step stores to a slot, nobody is to load another message from it. -/
def Kept (σ : State ι κ α) : Label ι κ α → Prop
  | .pusher i => ∀ value claim slot, σ.pushers i = .push value claim (.store slot) →
      ∀ k position, σ.poppers k = .pop position (.read slot) → position = claim
  | _ => True

/-- If the step loads a slot, the push of that position has stored. -/
def Stored (σ : State ι κ α) : Label ι κ α → Prop
  | .popper k => ∀ position slot, σ.poppers k = .pop position (.read slot) →
      ∀ i, (σ.pushers i).storing ≠ some position
  | _ => True

/-! ## What the steps do -/

section Moves

variable [DecidableEq ι] {capacity : ℕ}

/-- A step of a pusher. -/
inductive PusherMoves (capacity : ℕ) (σ : State ι κ α) (i : ι) : State ι κ α → Prop
  | load {value : α} {claim : ℕ} (hpc : σ.pushers i = .push value claim .load) :
      PusherMoves capacity σ i
        (σ.setPusher i (.push value σ.ring.pushes (.compareExchange σ.ring.writeIdx)))
  | reload {value : α} {claim writeIdx : ℕ}
      (hpc : σ.pushers i = .push value claim (.compareExchange writeIdx)) :
      PusherMoves capacity σ i
        (σ.setPusher i (.push value σ.ring.pushes (.compareExchange σ.ring.writeIdx)))
  | claim {value : α} {claim : ℕ}
      (hpc : σ.pushers i = .push value claim (.compareExchange σ.ring.writeIdx)) :
      PusherMoves capacity σ i
        ({ σ with ring := σ.ring.claimSlot capacity σ.ring.writeIdx }.setPusher i
          (.push value σ.ring.pushes (.store σ.ring.writeIdx)))
  | store {value : α} {claim slot : ℕ} (hpc : σ.pushers i = .push value claim (.store slot)) :
      PusherMoves capacity σ i
        ({ σ with ring := { σ.ring with
            data := update σ.ring.data slot ⟨value, some claim⟩ } }.setPusher i .notify)
  | notify (hpc : σ.pushers i = .notify) :
      PusherMoves capacity σ i ({ σ with tokens := σ.tokens + 1 }.setPusher i .outside)

theorem stepPusher_moves {σ σ' : State ι κ α} {i : ι} (h : stepPusher capacity σ i = some σ') :
    PusherMoves capacity σ i σ' := by
  unfold stepPusher at h
  cases hpc : σ.pushers i with
  | outside => simp [hpc] at h
  | push value claim pc =>
      cases pc with
      | load =>
          simp only [hpc, RingBuffer.push, Option.some.injEq] at h
          exact h ▸ .load hpc
      | compareExchange writeIdx =>
          by_cases hwin : σ.ring.writeIdx = writeIdx
          · subst hwin
            simp only [hpc, RingBuffer.push, if_true, Option.some.injEq] at h
            exact h ▸ .claim hpc
          · simp only [hpc, RingBuffer.push, if_neg hwin, Option.some.injEq] at h
            exact h ▸ .reload hpc
      | store slot =>
          simp only [hpc, RingBuffer.push, Option.some.injEq] at h
          exact h ▸ .store hpc
  | notify =>
      simp only [hpc, Option.some.injEq] at h
      exact h ▸ .notify hpc

end Moves

section Moves

variable [DecidableEq κ] {capacity : ℕ}

/-- A step of a popper. -/
inductive PopperMoves (capacity : ℕ) (σ : State ι κ α) (k : κ) : State ι κ α → Prop
  | wait (hpc : σ.poppers k = .wait) (hle : 1 ≤ σ.tokens) :
      PopperMoves capacity σ k ({ σ with tokens := σ.tokens - 1 }.setPopper k (.pop 0 .load))
  | load {position : ℕ} (hpc : σ.poppers k = .pop position .load) :
      PopperMoves capacity σ k
        (σ.setPopper k (.pop σ.ring.pops (.compareExchange σ.ring.readIdx)))
  | reload {position readIdx : ℕ}
      (hpc : σ.poppers k = .pop position (.compareExchange readIdx)) :
      PopperMoves capacity σ k
        (σ.setPopper k (.pop σ.ring.pops (.compareExchange σ.ring.readIdx)))
  | release {position : ℕ}
      (hpc : σ.poppers k = .pop position (.compareExchange σ.ring.readIdx)) :
      PopperMoves capacity σ k
        ({ σ with ring := σ.ring.releaseSlot capacity σ.ring.readIdx }.setPopper k
          (.pop σ.ring.pops (.read σ.ring.readIdx)))
  | read {position slot : ℕ} (hpc : σ.poppers k = .pop position (.read slot)) :
      PopperMoves capacity σ k
        ({ σ with returned := (position, σ.ring.data slot) :: σ.returned }.setPopper k .wait)

theorem stepPopper_moves {σ σ' : State ι κ α} {k : κ} (h : stepPopper capacity σ k = some σ') :
    PopperMoves capacity σ k σ' := by
  unfold stepPopper at h
  cases hpc : σ.poppers k with
  | wait =>
      simp only [hpc] at h
      split at h
      · next hle => cases h; exact .wait hpc hle
      · cases h
  | pop position pc =>
      cases pc with
      | load =>
          simp only [hpc, RingBuffer.pop, Option.some.injEq] at h
          exact h ▸ .load hpc
      | compareExchange readIdx =>
          by_cases hwin : σ.ring.readIdx = readIdx
          · subst hwin
            simp only [hpc, RingBuffer.pop, if_true, Option.some.injEq] at h
            exact h ▸ .release hpc
          · simp only [hpc, RingBuffer.pop, if_neg hwin, Option.some.injEq] at h
            exact h ▸ .reload hpc
      | read slot =>
          simp only [hpc, RingBuffer.pop, Option.some.injEq] at h
          exact h ▸ .read hpc

end Moves

/-! ## Tokens and positions -/

/-- The pusher has claimed a slot and not notified. -/
def Pusher.owing : Pusher α → ℕ
  | .push _ _ (.store _) | .notify => 1
  | _ => 0

/-- The popper has taken a token and not released a slot. -/
def Popper.taken : Popper → ℕ
  | .pop _ .load | .pop _ (.compareExchange _) => 1
  | _ => 0

/-- The popper has released a slot and not loaded it. -/
def Popper.reading : Popper → ℕ
  | .pop _ (.read _) => 1
  | _ => 0

/-- The pusher stores to the slot of its number. -/
def Pusher.InSlot (capacity : ℕ) : Pusher α → Prop
  | .push _ claim (.store slot) => slot = claim % capacity
  | _ => True

/-- The popper loads the slot of its number. -/
def Popper.InSlot (capacity : ℕ) : Popper → Prop
  | .pop position (.read slot) => slot = position % capacity
  | _ => True

theorem Pusher.inSlot_of_storing {capacity : ℕ} {pusher : Pusher α}
    (h : pusher.storing = none) : pusher.InSlot capacity := by
  cases pusher with
  | push value claim pc =>
      cases pc with
      | store slot => cases h
      | load | compareExchange => trivial
  | outside | notify => trivial

theorem Popper.inSlot_of_loading {capacity : ℕ} {popper : Popper} (h : popper.loading = none) :
    popper.InSlot capacity := by
  cases popper with
  | pop position pc =>
      cases pc with
      | read slot => cases h
      | load | compareExchange => trivial
  | wait => trivial

def State.storing (σ : State ι κ α) : ι → Option ℕ := Pusher.storing ∘ σ.pushers

def State.loading (σ : State ι κ α) : κ → Option ℕ := Popper.loading ∘ σ.poppers

/-- The pushes stored last, slot by slot. -/
def State.slots (σ : State ι κ α) (slot : ℕ) : Option ℕ := (σ.ring.data slot).claim

/-- What holds while few messages are outstanding, none is overwritten and each
is stored before it is loaded. -/
structure Inv [Fintype ι] [Fintype κ] (capacity : ℕ) (σ : State ι κ α) : Prop where
  balance : σ.tokens + total Popper.taken σ.poppers + σ.ring.pops +
    total Pusher.owing σ.pushers = σ.ring.pushes
  completed : σ.returned.length + total Popper.reading σ.poppers = σ.ring.pops
  readIdx_eq : σ.ring.readIdx = σ.ring.pops % capacity
  writeIdx_eq : σ.ring.writeIdx = σ.ring.pushes % capacity
  pushers : ∀ i, (σ.pushers i).InSlot capacity
  poppers : ∀ k, (σ.poppers k).InSlot capacity
  slots : Slots capacity σ.ring.pushes σ.ring.pops σ.storing σ.loading σ.slots
  returned : ReturnsOwn σ

section Run

variable [Fintype ι] [Fintype κ] {capacity : ℕ} {σ σ' : State ι κ α} {i : ι} {k : κ}

theorem Inv.init [Inhabited α] (capacity : ℕ) : Inv capacity (State.init ι κ α) := by
  have htaken : total Popper.taken (State.init ι κ α).poppers = 0 := total_eq_zero fun _ => rfl
  have howing : total Pusher.owing (State.init ι κ α).pushers = 0 := total_eq_zero fun _ => rfl
  have hreading : total Popper.reading (State.init ι κ α).poppers = 0 :=
    total_eq_zero fun _ => rfl
  refine ⟨?_, ?_, (Nat.zero_mod _).symm, (Nat.zero_mod _).symm, fun _ => trivial,
    fun _ => trivial, Slots.init capacity, fun _ h => nomatch h⟩
  · rw [htaken, howing]
    rfl
  · rw [hreading]
    rfl

theorem Inv.pops_le (h : Inv capacity σ) : σ.ring.pops ≤ σ.ring.pushes := by
  have hbalance := h.balance
  omega

/-- Few outstanding messages are less than one turn of positions. -/
theorem Inv.room (h : Inv capacity σ) (hfew : Few capacity σ) :
    σ.ring.pushes ≤ σ.ring.pops + capacity := by
  have hcompleted := h.completed
  unfold Few at hfew
  omega

/-- A popper that loads gets its own message iff that is stored. -/
theorem Inv.read_iff (h : Inv capacity σ) {position slot : ℕ}
    (hpc : σ.poppers k = .pop position (.read slot)) :
    (σ.ring.data slot).claim = some position ↔ ∀ i, (σ.pushers i).storing ≠ some position := by
  have hsome : σ.loading k = some position := congrArg Popper.loading hpc
  have hslot : slot = position % capacity := by
    have hk := h.poppers k
    rw [hpc] at hk
    exact hk
  rw [hslot]
  exact h.slots.loaded_iff h.pops_le hsome

section Pusher

variable [DecidableEq ι]

/-- A step of a pusher that claims and stores nothing. -/
theorem Inv.quietPusher (h : Inv capacity σ) {tokens : ℕ} {pusher : Pusher α}
    (hold : (σ.pushers i).storing = none) (hnew : pusher.storing = none)
    (htokens : tokens + pusher.owing = σ.tokens + (σ.pushers i).owing) :
    Inv capacity ({ σ with tokens := tokens }.setPusher i pusher) := by
  have howing := total_update Pusher.owing σ.pushers i pusher
  have hbalance := h.balance
  have hstoring : (({ σ with tokens := tokens } : State ι κ α).setPusher i pusher).storing =
      σ.storing := by
    show Pusher.storing ∘ update σ.pushers i pusher = _
    rw [comp_update, hnew, ← hold]
    exact update_eq_self i (Pusher.storing ∘ σ.pushers)
  refine ⟨?_, h.completed, h.readIdx_eq, h.writeIdx_eq, ?_, h.poppers, ?_, h.returned⟩
  · show tokens + total Popper.taken σ.poppers + σ.ring.pops +
      total Pusher.owing (update σ.pushers i pusher) = σ.ring.pushes
    omega
  · exact forall_update (Pusher.inSlot_of_storing hnew) fun j _ => h.pushers j
  · rw [hstoring]
    exact h.slots

/-- A pusher wins its compare-exchange. -/
theorem Inv.claim (h : Inv capacity σ) {value : α} {claim : ℕ}
    (hpc : σ.pushers i = .push value claim (.compareExchange σ.ring.writeIdx)) :
    Inv capacity ({ σ with ring := σ.ring.claimSlot capacity σ.ring.writeIdx }.setPusher i
      (.push value σ.ring.pushes (.store σ.ring.writeIdx))) := by
  have howing := total_update Pusher.owing σ.pushers i
    (.push value σ.ring.pushes (.store σ.ring.writeIdx))
  rw [hpc, show Pusher.owing (.push value claim (.compareExchange _)) = 0 from rfl] at howing
  have hnone : σ.storing i = none := congrArg Pusher.storing hpc
  have hbalance := h.balance
  refine ⟨?_, h.completed, h.readIdx_eq, ?_, ?_, h.poppers, ?_, h.returned⟩
  · show σ.tokens + total Popper.taken σ.poppers + σ.ring.pops +
      total Pusher.owing (update σ.pushers i _) = σ.ring.pushes + 1
    have hone : Pusher.owing (.push value σ.ring.pushes (.store σ.ring.writeIdx)) = 1 := rfl
    omega
  · show (σ.ring.writeIdx + 1) % capacity = (σ.ring.pushes + 1) % capacity
    rw [h.writeIdx_eq, Nat.mod_add_mod]
  · exact forall_update h.writeIdx_eq fun j _ => h.pushers j
  · have hclaim := h.slots.claim h.pops_le hnone
    show Slots capacity (σ.ring.pushes + 1) σ.ring.pops
      (Pusher.storing ∘ update σ.pushers i _) σ.loading σ.slots
    rw [comp_update]
    exact hclaim

/-- A pusher stores its message, and nobody is to load another one from the slot. -/
theorem Inv.store (h : Inv capacity σ) (hfew : Few capacity σ) {value : α} {claim slot : ℕ}
    (hpc : σ.pushers i = .push value claim (.store slot)) (hkept : Kept σ (.pusher i)) :
    Inv capacity ({ σ with ring := { σ.ring with
      data := update σ.ring.data slot ⟨value, some claim⟩ } }.setPusher i .notify) := by
  have howing := total_update_of_eq Pusher.owing σ.pushers i .notify (by rw [hpc]; rfl)
  have hsome : σ.storing i = some claim := congrArg Pusher.storing hpc
  have hslot : slot = claim % capacity := by
    have hi := h.pushers i
    rw [hpc] at hi
    exact hi
  refine ⟨?_, h.completed, h.readIdx_eq, h.writeIdx_eq, ?_, h.poppers, ?_, h.returned⟩
  · show σ.tokens + total Popper.taken σ.poppers + σ.ring.pops +
      total Pusher.owing (update σ.pushers i .notify) = σ.ring.pushes
    rw [howing]
    exact h.balance
  · exact forall_update trivial fun j _ => h.pushers j
  · have hother : ∀ k r, σ.loading k = some r → r % capacity = claim % capacity → r = claim := by
      intro k r hk hr
      have hpopper := h.poppers k
      have hk : (σ.poppers k).loading = some r := hk
      cases hpc' : σ.poppers k with
      | wait =>
          rw [hpc'] at hk
          cases hk
      | pop position pc =>
          rw [hpc'] at hk hpopper
          cases pc with
          | load | compareExchange => cases hk
          | read slot' =>
              obtain rfl : position = r := Option.some.inj hk
              obtain rfl : slot' = position % capacity := hpopper
              exact hkept value claim slot hpc k position (by rw [hpc', hslot, hr])
    have hstore := h.slots.store (h.room hfew) hsome hother
    show Slots capacity σ.ring.pushes σ.ring.pops (Pusher.storing ∘ update σ.pushers i .notify)
      σ.loading (Entry.claim ∘ update σ.ring.data slot ⟨value, some claim⟩)
    rw [comp_update, comp_update, hslot]
    exact hstore

theorem Inv.pusher (h : Inv capacity σ) (hfew : Few capacity σ) (hkept : Kept σ (.pusher i))
    (hmove : PusherMoves capacity σ i σ') : Inv capacity σ' := by
  cases hmove with
  | load hpc | reload hpc =>
      exact h.quietPusher (by rw [hpc]; rfl) rfl (by rw [hpc]; rfl)
  | claim hpc => exact h.claim hpc
  | store hpc => exact h.store hfew hpc hkept
  | notify hpc => exact h.quietPusher (by rw [hpc]; rfl) rfl (by rw [hpc]; rfl)

end Pusher

section Popper

variable [DecidableEq κ]

/-- A step of a popper that releases and loads nothing. -/
theorem Inv.quietPopper (h : Inv capacity σ) {tokens : ℕ} {popper : Popper}
    (hold : (σ.poppers k).loading = none) (hnew : popper.loading = none)
    (htokens : tokens + popper.taken = σ.tokens + (σ.poppers k).taken)
    (hreading : popper.reading = (σ.poppers k).reading) :
    Inv capacity ({ σ with tokens := tokens }.setPopper k popper) := by
  have htaken := total_update Popper.taken σ.poppers k popper
  have hbalance := h.balance
  have hloading : (({ σ with tokens := tokens } : State ι κ α).setPopper k popper).loading =
      σ.loading := by
    show Popper.loading ∘ update σ.poppers k popper = _
    rw [comp_update, hnew, ← hold]
    exact update_eq_self k (Popper.loading ∘ σ.poppers)
  refine ⟨?_, ?_, h.readIdx_eq, h.writeIdx_eq, h.pushers, ?_, ?_, h.returned⟩
  · show tokens + total Popper.taken (update σ.poppers k popper) + σ.ring.pops +
      total Pusher.owing σ.pushers = σ.ring.pushes
    omega
  · show σ.returned.length + total Popper.reading (update σ.poppers k popper) = σ.ring.pops
    rw [total_update_of_eq Popper.reading σ.poppers k popper hreading]
    exact h.completed
  · exact forall_update (Popper.inSlot_of_loading hnew) fun j _ => h.poppers j
  · rw [hloading]
    exact h.slots

/-- A popper wins its compare-exchange. -/
theorem Inv.release (h : Inv capacity σ) (hfew : Few capacity σ) {position : ℕ}
    (hpc : σ.poppers k = .pop position (.compareExchange σ.ring.readIdx)) :
    Inv capacity ({ σ with ring := σ.ring.releaseSlot capacity σ.ring.readIdx }.setPopper k
      (.pop σ.ring.pops (.read σ.ring.readIdx))) := by
  have htaken := total_update Popper.taken σ.poppers k (.pop σ.ring.pops (.read σ.ring.readIdx))
  have hreading := total_update Popper.reading σ.poppers k
    (.pop σ.ring.pops (.read σ.ring.readIdx))
  rw [hpc, show Popper.taken (.pop position (.compareExchange _)) = 1 from rfl,
    show Popper.taken (.pop σ.ring.pops (.read _)) = 0 from rfl] at htaken
  rw [hpc, show Popper.reading (.pop position (.compareExchange _)) = 0 from rfl,
    show Popper.reading (.pop σ.ring.pops (.read _)) = 1 from rfl] at hreading
  have hnone : σ.loading k = none := congrArg Popper.loading hpc
  have hbalance := h.balance
  have hcompleted := h.completed
  refine ⟨?_, ?_, ?_, h.writeIdx_eq, h.pushers, ?_, ?_, h.returned⟩
  · show σ.tokens + total Popper.taken (update σ.poppers k _) + (σ.ring.pops + 1) +
      total Pusher.owing σ.pushers = σ.ring.pushes
    omega
  · show σ.returned.length + total Popper.reading (update σ.poppers k _) = σ.ring.pops + 1
    omega
  · show (σ.ring.readIdx + 1) % capacity = (σ.ring.pops + 1) % capacity
    rw [h.readIdx_eq, Nat.mod_add_mod]
  · exact forall_update h.readIdx_eq fun j _ => h.poppers j
  · have hrelease := h.slots.release (h.room hfew) hnone
    show Slots capacity σ.ring.pushes (σ.ring.pops + 1) σ.storing
      (Popper.loading ∘ update σ.poppers k _) σ.slots
    rw [comp_update]
    exact hrelease

/-- A popper loads its message. -/
theorem Inv.read (h : Inv capacity σ) {position slot : ℕ}
    (hpc : σ.poppers k = .pop position (.read slot))
    (hstored : ∀ i, (σ.pushers i).storing ≠ some position) :
    Inv capacity ({ σ with
      returned := (position, σ.ring.data slot) :: σ.returned }.setPopper k .wait) := by
  have htaken := total_update_of_eq Popper.taken σ.poppers k .wait (by rw [hpc]; rfl)
  have hreading := total_update Popper.reading σ.poppers k .wait
  rw [hpc, show Popper.reading (.pop position (.read slot)) = 1 from rfl,
    show Popper.reading .wait = 0 from rfl] at hreading
  have hsome : σ.loading k = some position := congrArg Popper.loading hpc
  have hcompleted := h.completed
  refine ⟨?_, ?_, h.readIdx_eq, h.writeIdx_eq, h.pushers, ?_, ?_, ?_⟩
  · show σ.tokens + total Popper.taken (update σ.poppers k .wait) + σ.ring.pops +
      total Pusher.owing σ.pushers = σ.ring.pushes
    rw [htaken]
    exact h.balance
  · show σ.returned.length + 1 + total Popper.reading (update σ.poppers k .wait) = σ.ring.pops
    omega
  · exact forall_update trivial fun j _ => h.poppers j
  · have hload := h.slots.load hsome hstored
    show Slots capacity σ.ring.pushes σ.ring.pops σ.storing
      (Popper.loading ∘ update σ.poppers k .wait) σ.slots
    rw [comp_update]
    exact hload
  · intro r hr
    rcases List.mem_cons.mp hr with rfl | hr
    · exact (h.read_iff hpc).mpr hstored
    · exact h.returned r hr

theorem Inv.popper (h : Inv capacity σ) (hfew : Few capacity σ) (hstored : Stored σ (.popper k))
    (hmove : PopperMoves capacity σ k σ') : Inv capacity σ' := by
  cases hmove with
  | wait hpc hle =>
      refine h.quietPopper (by rw [hpc]; rfl) rfl ?_ (by rw [hpc]; rfl)
      rw [hpc]
      show σ.tokens - 1 + 1 = σ.tokens + 0
      omega
  | load hpc | reload hpc =>
      exact h.quietPopper (by rw [hpc]; rfl) rfl (by rw [hpc]; rfl) (by rw [hpc]; rfl)
  | release hpc => exact h.release hfew hpc
  | read hpc => exact h.read hpc (hstored _ _ hpc)

end Popper

variable [DecidableEq ι] [DecidableEq κ]

theorem Inv.step {l : Label ι κ α} (h : Inv capacity σ) (hfew : Few capacity σ)
    (hkept : Kept σ l) (hstored : Stored σ l)
    (hstep : Notified.step capacity σ l = some σ') : Inv capacity σ' := by
  cases l with
  | push i value =>
      cases hpc : σ.pushers i with
      | outside =>
          simp only [Notified.step, hpc, Option.some.injEq] at hstep
          subst hstep
          exact h.quietPusher (by rw [hpc]; rfl) rfl (by rw [hpc]; rfl)
      | push | notify => simp [Notified.step, hpc] at hstep
  | pusher i => exact h.pusher hfew hkept (stepPusher_moves hstep)
  | popper k => exact h.popper hfew hstored (stepPopper_moves hstep)

/-- A popper that loads its slot too early returns something else. -/
theorem not_returnsOwn {l : Label ι κ α} (h : Inv capacity σ) (hstored : ¬ Stored σ l)
    (hstep : Notified.step capacity σ l = some σ') : ¬ ReturnsOwn σ' := by
  cases l with
  | popper k =>
      simp only [Stored, Classical.not_imp, not_forall] at hstored
      obtain ⟨position, slot, hpc, i, hi⟩ := hstored
      intro hown
      simp only [Notified.step, stepPopper, hpc, RingBuffer.pop, Option.some.injEq] at hstep
      subst hstep
      have hclaim := hown (position, σ.ring.data slot) (List.mem_cons_self ..)
      exact hi ((h.read_iff hpc).mp hclaim i)
  | push | pusher => exact absurd trivial hstored

/-- In a run with few messages outstanding, none overwritten before it is
loaded, every pop returns what the push of its position has stored iff that
push has always stored when the pop loads. -/
theorem returned_iff [Inhabited α] (capacity : ℕ) (ls : List (Label ι κ α))
    (hfew : Along (Notified.step capacity) (Few capacity) (State.init ι κ α) ls)
    (hkept : StepsMeet (Notified.step capacity) Kept (State.init ι κ α) ls) :
    Along (Notified.step capacity) ReturnsOwn (State.init ι κ α) ls ↔
      StepsMeet (Notified.step capacity) Stored (State.init ι κ α) ls := by
  have hpre := hfew.stepsMeet.and hkept
  constructor
  · intro halong
    exact StepsMeet.of_along (fun σ l σ' h hpre hstored hstep => h.step hpre.1 hpre.2 hstored hstep)
      (fun σ l σ' h _ hstored hstep => not_returnsOwn h hstored hstep) (Inv.init capacity) hpre
      halong
  · intro hstored
    refine (along_of_stepsMeet (fun σ l σ' h hok hstep => ?_) (Inv.init capacity)
      (hpre.and hstored)).mono fun σ h => h.returned
    exact h.step hok.1.1 hok.1.2 hok.2 hstep

end Run

/-- Two pushers and two poppers compete on a ring for two values: one of each loses its first
compare-exchange, and the popper of the second message loads its slot first. -/
def twoMessages : List (Label Bool Bool ℕ) :=
  [.push false 7, .push true 8, .pusher false, .pusher true, .pusher false, .pusher true,
    .pusher true, .pusher false, .pusher false, .popper false, .pusher true, .popper false,
    .pusher true, .popper true, .popper true, .popper false, .popper true, .popper true,
    .popper true, .popper false]

theorem returned_iff_twoMessages :
    Along (step 3) ReturnsOwn (State.init Bool Bool ℕ) twoMessages := by
  refine (returned_iff 3 twoMessages (by decide +kernel) ?_).mpr ?_
  · refine .cons trivial rfl <| .cons trivial rfl <| .cons (fun _ _ _ h => by cases h) rfl <|
      .cons (fun _ _ _ h => by cases h) rfl <| .cons (fun _ _ _ h => by cases h) rfl <|
      .cons (fun _ _ _ h => by cases h) rfl <| .cons (fun _ _ _ h => by cases h) rfl <|
      -- nobody is to load a slot when a pusher stores
      .cons (fun _ _ _ _ k _ hk => by cases k <;> cases hk) rfl <|
      .cons (fun _ _ _ h => by cases h) rfl <| .cons trivial rfl <|
      .cons (fun _ _ _ _ k _ hk => by cases k <;> cases hk) rfl <| .cons trivial rfl <|
      .cons (fun _ _ _ h => by cases h) rfl <| .cons trivial rfl <| .cons trivial rfl <|
      .cons trivial rfl <| .cons trivial rfl <| .cons trivial rfl <| .cons trivial rfl <|
      .cons trivial rfl trivial
  · refine .cons trivial rfl <| .cons trivial rfl <| .cons trivial rfl <| .cons trivial rfl <|
      .cons trivial rfl <| .cons trivial rfl <| .cons trivial rfl <| .cons trivial rfl <|
      .cons trivial rfl <| .cons (fun _ _ h => by cases h) rfl <| .cons trivial rfl <|
      .cons (fun _ _ h => by cases h) rfl <| .cons trivial rfl <|
      .cons (fun _ _ h => by cases h) rfl <| .cons (fun _ _ h => by cases h) rfl <|
      .cons (fun _ _ h => by cases h) rfl <| .cons (fun _ _ h => by cases h) rfl <|
      .cons (fun _ _ h => by cases h) rfl <|
      -- both pushers have stored when the slots are loaded
      .cons (fun _ _ _ i hi => by cases i <;> cases hi) rfl <|
      .cons (fun _ _ _ i hi => by cases i <;> cases hi) rfl trivial

/-- One pusher claims slot 0. The other one claims slot 1, stores its message
there and notifies; the popper takes that token and loads slot 0. -/
def othersToken : List (Label Bool Unit ℕ) :=
  .push false 7 :: .replicate 2 (.pusher false) ++ .push true 8 :: .replicate 4 (.pusher true) ++
    .replicate 4 (.popper ())

/-- Not in every run: in `othersToken` the popper returns what nobody has
stored. -/
theorem not_along_returnsOwn :
    ¬ ∀ (ι κ α : Type) [DecidableEq ι] [DecidableEq κ] [Inhabited α] (capacity : ℕ)
      (ls : List (Label ι κ α)), 1 < capacity →
        Along (step capacity) (Few capacity) (State.init ι κ α) ls →
          Along (step capacity) ReturnsOwn (State.init ι κ α) ls := by
  intro hall
  refine not_along_of_run (fun σ => σ.returned.map fun r => (r.1, r.2.claim)) [(0, none)] ?_ ?_
    (hall Bool Unit ℕ 4 othersToken (by decide) (by decide +kernel))
  · decide +kernel
  · intro σ' hobs hown
    have hmem : (0, none) ∈ σ'.returned.map fun r => (r.1, r.2.claim) :=
      hobs ▸ List.mem_singleton_self _
    obtain ⟨r, hr, hpair⟩ := List.mem_map.mp hmem
    obtain ⟨hposition, hclaim⟩ := Prod.mk.inj hpair
    have hreturned := hown r hr
    rw [hposition, hclaim] at hreturned
    cases hreturned

end InterProcess.LockFree.Notified
