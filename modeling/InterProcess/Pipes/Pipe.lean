import InterProcess.Lib.Monitor
import Mathlib.Logic.Function.Basic

/-!
# `unix::ipc::posix::pipe`

A pipe remembers in one bit for each of its ends whether it is open. A function
that uses an end asserts the bit, `close_end` clears it when the descriptor has
been closed, and the destructor closes the ends whose bits are still set.

A descriptor is named by its index in `fds_`, and asserts are enabled. No session
uses a descriptor after it has been closed, and a session whose calls of `close`
succeed closes both of them: `session_closes`.
-/

namespace InterProcess.Pipes

open Function Interaction

abbrev EndIndex := Fin 2

def readEndIndex : EndIndex := ⟨0, Nat.zero_lt_two⟩

def writeEndIndex : EndIndex := Fin.last 1

structure Pipe where
  endOpen : UInt8 := 0b11111111
  deriving DecidableEq

/-- The calls on the descriptors, and `printf` of what a buffer holds. -/
inductive Call
  | close (index : EndIndex)
  | write (index : EndIndex) (data : List UInt8)
  | read (index : EndIndex) (count : ℕ)
  | printf (text : List UInt8)
  deriving DecidableEq

/-- What a call returns, and what `read` has put into the buffer. -/
structure Answer where
  value : ℤ
  data : List UInt8 := []
  deriving DecidableEq

abbrev Program (β : Type) := Interaction Call Answer β

/-- Both take an `int`, whatever the call returns. -/
def operationSuccessful (ret : ℤ) : Bool := Int32.ofInt ret = 0

def operationFailed (ret : ℤ) : Bool := Int32.ofInt ret = -1

namespace Pipe

variable (pipe : Pipe)

/-- `1 << index`. -/
def bit (index : EndIndex) : UInt8 := 1 <<< UInt8.ofNat index.val

def isEndOpen (index : EndIndex) : Bool := pipe.endOpen &&& bit index ≠ 0

def isReadEndOpen : Bool := pipe.isEndOpen readEndIndex

def isWriteEndOpen : Bool := pipe.isEndOpen writeEndIndex

def closed (index : EndIndex) : Pipe := { endOpen := pipe.endOpen &&& ~~~bit index }

/-- Whether the end has been closed; `none` when an assert fails. -/
def closeEnd (index : EndIndex) : Program (Option (Bool × Pipe)) := do
  if !pipe.isEndOpen index then
    return none
  let ret := (← perform (.close index)).value
  if operationSuccessful ret then
    return some (true, pipe.closed index)
  if !operationFailed ret then
    return none
  return some (false, pipe)

def closeReadEnd : Program (Option (Bool × Pipe)) := pipe.closeEnd readEndIndex

def closeWriteEnd : Program (Option (Bool × Pipe)) := pipe.closeEnd writeEndIndex

def write (data : List UInt8) : Program (Option Bool) := do
  if !pipe.isWriteEndOpen then
    return none
  let ret := (← perform (.write writeEndIndex data)).value
  if !operationFailed ret then
    if ret ≠ data.length then
      return none
    return some true
  return some false

/-- The characters that are in the buffer afterwards. -/
def read (count : ℕ) : Program (Option (Bool × List UInt8)) := do
  if !pipe.isReadEndOpen then
    return none
  let answer ← perform (.read readEndIndex count)
  if !operationFailed answer.value then
    if answer.value < 0 ∨ (count : ℤ) < answer.value then
      return none
    return some (true, answer.data)
  return some (false, [])

/-- `if (is_read_end_open()) close_read_end();`, and the same for the other end. -/
def closeIfOpen (index : EndIndex) : Program (Option Pipe) := do
  if !pipe.isEndOpen index then
    return some pipe
  match ← pipe.closeEnd index with
  | none => return none
  | some (_, pipe) => return some pipe

/-- `~pipe()`. -/
def destroy : Program (Option Pipe) := do
  match ← pipe.closeIfOpen readEndIndex with
  | none => return none
  | some pipe => pipe.closeIfOpen writeEndIndex

/-! ## Sessions -/

inductive Method
  | isReadEndOpen
  | isWriteEndOpen
  | write (data : List UInt8)
  | read (count : ℕ)
  | closeReadEnd
  | closeWriteEnd

/-- The pipe after the call of one method, whatever that has returned. -/
def call : Method → Program (Option Pipe)
  | .isReadEndOpen | .isWriteEndOpen => return some pipe
  | .write data => return (← pipe.write data).map fun _ => pipe
  | .read count => return (← pipe.read count).map fun _ => pipe
  | .closeReadEnd => return (← pipe.closeReadEnd).map Prod.snd
  | .closeWriteEnd => return (← pipe.closeWriteEnd).map Prod.snd

/-- The pipe after the calls of some methods. -/
def calls (pipe : Pipe) : List Method → Program (Option Pipe)
  | [] => return some pipe
  | method :: methods => do
    match ← pipe.call method with
    | none => return none
    | some pipe => calls pipe methods

/-- The life of a pipe that has been created. -/
def session (methods : List Method) : Program (Option Pipe) := do
  match ← pipe.calls methods with
  | none => return none
  | some pipe => pipe.destroy

end Pipe

/-! ## The descriptors -/

/-- The descriptors a `close` has succeeded for, and whether one has failed. -/
structure Descriptors where
  closed : EndIndex → Bool := fun _ => false
  closeFailed : Bool := false

/-- After a call of `close` with this answer. -/
def Descriptors.close (σ : Descriptors) (index : EndIndex) (answer : Answer) : Descriptors :=
  if operationSuccessful answer.value then { σ with closed := update σ.closed index true }
  else { σ with closeFailed := true }

/-- A call on a descriptor that has been closed is objected to. -/
def Descriptors.next (σ : Descriptors) : Call × Answer → Option Descriptors
  | (.close index, answer) => if σ.closed index then none else some (σ.close index answer)
  | (.write index _, _) | (.read index _, _) => if σ.closed index then none else some σ
  | (.printf _, _) => some σ

/-- The end is taken care of: it is closed, unless a `close` has failed. -/
def Descriptors.Done (σ : Descriptors) (index : EndIndex) : Prop :=
  σ.closeFailed = true ∨ σ.closed index = true

/-- The bits say which descriptors are open. -/
def Pipe.Matches (pipe : Pipe) (σ : Descriptors) : Prop :=
  ∀ index, pipe.isEndOpen index = !σ.closed index

/-- What a part of a session leaves to the rest of it: the bits still match, and what was taken
care of is. -/
def Leaves (σ σ' : Descriptors) (pipe : Pipe) : Prop :=
  pipe.Matches σ' ∧ ∀ index, σ.Done index → σ'.Done index

namespace Pipe

variable {pipe : Pipe} {σ : Descriptors} {index j : EndIndex}

theorem bit_mask (i j : EndIndex) :
    ~~~bit i &&& bit j = if j = i then 0 else bit j := by
  revert i j
  decide

/-- Closing an end clears its bit and no other. -/
theorem isEndOpen_closed (pipe : Pipe) (i j : EndIndex) :
    (pipe.closed i).isEndOpen j = if j = i then false else pipe.isEndOpen j := by
  unfold isEndOpen closed
  rw [UInt8.and_assoc, bit_mask]
  by_cases h : j = i
  · rw [if_pos h, if_pos h, UInt8.and_zero]
    rfl
  · rw [if_neg h, if_neg h]

theorem Matches.init : ({} : Pipe).Matches {} := by
  intro index
  revert index
  decide

theorem Matches.closed (h : pipe.Matches σ) (index : EndIndex) :
    (pipe.closed index).Matches { σ with closed := update σ.closed index true } := by
  intro j
  show _ = !update σ.closed index true j
  rw [isEndOpen_closed]
  by_cases hj : j = index
  · subst hj
    rw [if_pos rfl, update_self]
    rfl
  · rw [if_neg hj, update_of_ne hj]
    exact h j

theorem Matches.closed_eq (h : pipe.Matches σ) (hopen : pipe.isEndOpen index = true) :
    σ.closed index = false := by
  have hindex := h index
  rw [hopen] at hindex
  rwa [eq_comm, Bool.not_eq_true'] at hindex

/-- What was closed stays closed. -/
theorem done_update (h : σ.Done j) :
    Descriptors.Done { σ with closed := update σ.closed index true } j := by
  rcases h with hfailed | hclosed
  · exact .inl hfailed
  · refine .inr ?_
    show update σ.closed index true j = true
    by_cases hj : j = index
    · rw [hj, update_self]
    · rw [update_of_ne hj, hclosed]

/-- A call that is not objected to, whatever its answer is. -/
theorem heeds_perform {β : Type} {Q : Descriptors → β → Prop} {op : Call}
    {next : Answer → Program β} (τ : Answer → Descriptors)
    (hm : ∀ a, Descriptors.next σ (op, a) = some (τ a))
    (hnext : ∀ a, Heeds Descriptors.next (fun _ => False) Q (τ a) (next a)) :
    Heeds Descriptors.next (fun _ => False) Q σ (perform op >>= next) := by
  refine .perform (fun a hno => ?_) fun a σ' hσ' => ?_
  · rw [hm] at hno
    cases hno
  · rw [hm] at hσ'
    cases hσ'
    exact hnext a

theorem closeEnd_heeds (h : pipe.Matches σ) (index : EndIndex) :
    Heeds Descriptors.next (fun _ => False)
      (fun σ' (result : Option (Bool × Pipe)) => ∀ r ∈ result, Leaves σ σ' r.2 ∧ σ'.Done index)
      σ (pipe.closeEnd index) := by
  unfold closeEnd
  by_cases hopen : pipe.isEndOpen index = true
  · rw [if_neg (by rw [hopen]; exact Bool.false_ne_true)]
    refine heeds_perform (fun answer => σ.close index answer) (fun answer => ?_) fun answer => ?_
    · rw [Descriptors.next, if_neg (by rw [h.closed_eq hopen]; exact Bool.false_ne_true)]
    · simp only [Descriptors.close]
      by_cases hsuccess : operationSuccessful answer.value = true
      · rw [if_pos hsuccess, if_pos hsuccess]
        refine .pure not_false fun r hr => ?_
        cases hr
        exact ⟨⟨h.closed index, fun j => done_update⟩, .inr (update_self ..)⟩
      · rw [if_neg hsuccess, if_neg hsuccess]
        split
        · exact .pure not_false fun r hr => nomatch hr
        · refine .pure not_false fun r hr => ?_
          cases hr
          exact ⟨⟨h, fun j _ => .inl rfl⟩, .inl rfl⟩
  · rw [if_pos (by rw [Bool.eq_false_iff.mpr hopen]; rfl)]
    exact .pure not_false fun r hr => nomatch hr

theorem write_heeds (h : pipe.Matches σ) (data : List UInt8) :
    Heeds Descriptors.next (fun _ => False) (fun σ' _ => σ' = σ) σ (pipe.write data) := by
  unfold write isWriteEndOpen
  by_cases hopen : pipe.isEndOpen writeEndIndex = true
  · rw [if_neg (by rw [hopen]; exact Bool.false_ne_true)]
    refine heeds_perform (fun _ => σ) (fun answer => ?_) fun answer => ?_
    · rw [Descriptors.next, if_neg (by rw [h.closed_eq hopen]; exact Bool.false_ne_true)]
    · simp only
      split
      · split <;> exact .pure not_false rfl
      · exact .pure not_false rfl
  · rw [if_pos (by rw [Bool.eq_false_iff.mpr hopen]; rfl)]
    exact .pure not_false rfl

theorem read_heeds (h : pipe.Matches σ) (count : ℕ) :
    Heeds Descriptors.next (fun _ => False) (fun σ' _ => σ' = σ) σ (pipe.read count) := by
  unfold read isReadEndOpen
  by_cases hopen : pipe.isEndOpen readEndIndex = true
  · rw [if_neg (by rw [hopen]; exact Bool.false_ne_true)]
    refine heeds_perform (fun _ => σ) (fun answer => ?_) fun answer => ?_
    · rw [Descriptors.next, if_neg (by rw [h.closed_eq hopen]; exact Bool.false_ne_true)]
    · split
      · split <;> exact .pure not_false rfl
      · exact .pure not_false rfl
  · rw [if_pos (by rw [Bool.eq_false_iff.mpr hopen]; rfl)]
    exact .pure not_false rfl

/-- A part of a session that ends it or goes on with the pipe it returns. -/
theorem heeds_bind {α β : Type} {R : Descriptors → α → Prop} {Q : Descriptors → β → Prop}
    {p : Program α} {f : α → Program β}
    (hp : Heeds Descriptors.next (fun _ => False) R σ p)
    (hf : ∀ a σ', R σ' a → Heeds Descriptors.next (fun _ => False) Q σ' (f a)) :
    Heeds Descriptors.next (fun _ => False) Q σ (p >>= f) :=
  hp.bind (fun _ hno => hno.elim) fun a σ' _ hR => hf a σ' hR

theorem call_heeds (h : pipe.Matches σ) (method : Method) :
    Heeds Descriptors.next (fun _ => False) (fun σ' result => ∀ p ∈ result, Leaves σ σ' p) σ
      (pipe.call method) := by
  have hsame : Leaves σ σ pipe := ⟨h, fun _ hdone => hdone⟩
  cases method with
  | isReadEndOpen | isWriteEndOpen =>
      refine .pure not_false fun p hp => ?_
      cases hp
      exact hsame
  | write data =>
      refine heeds_bind (pipe.write_heeds h data) fun result σ' hσ' =>
        .pure not_false fun p hp => ?_
      obtain ⟨-, -, rfl⟩ := Option.map_eq_some_iff.mp hp
      exact hσ' ▸ hsame
  | read count =>
      refine heeds_bind (pipe.read_heeds h count) fun result σ' hσ' =>
        .pure not_false fun p hp => ?_
      obtain ⟨-, -, rfl⟩ := Option.map_eq_some_iff.mp hp
      exact hσ' ▸ hsame
  | closeReadEnd =>
      refine heeds_bind (closeEnd_heeds h readEndIndex) fun result σ' hresult =>
        .pure not_false fun p hp => ?_
      obtain ⟨r, hr, rfl⟩ := Option.map_eq_some_iff.mp hp
      exact (hresult r hr).1
  | closeWriteEnd =>
      refine heeds_bind (closeEnd_heeds h writeEndIndex) fun result σ' hresult =>
        .pure not_false fun p hp => ?_
      obtain ⟨r, hr, rfl⟩ := Option.map_eq_some_iff.mp hp
      exact (hresult r hr).1

theorem closeIfOpen_heeds (h : pipe.Matches σ) (index : EndIndex) :
    Heeds Descriptors.next (fun _ => False)
      (fun σ' result => ∀ p ∈ result, Leaves σ σ' p ∧ σ'.Done index) σ
      (pipe.closeIfOpen index) := by
  unfold closeIfOpen
  by_cases hopen : pipe.isEndOpen index = true
  · rw [if_neg (by rw [hopen]; exact Bool.false_ne_true)]
    refine heeds_bind (closeEnd_heeds h index) fun result σ' hresult => ?_
    cases result with
    | none => exact .pure not_false fun p hp => nomatch hp
    | some r =>
        refine .pure not_false fun p hp => ?_
        cases hp
        exact hresult r rfl
  · rw [if_pos (by rw [Bool.eq_false_iff.mpr hopen]; rfl)]
    refine .pure not_false fun p hp => ?_
    cases hp
    have hindex := h index
    rw [Bool.eq_false_iff.mpr hopen, eq_comm, Bool.not_eq_false'] at hindex
    exact ⟨⟨h, fun _ hdone => hdone⟩, .inr hindex⟩

theorem destroy_heeds (h : pipe.Matches σ) :
    Heeds Descriptors.next (fun _ => False)
      (fun σ' (result : Option Pipe) => result.isSome → ∀ index, σ'.Done index) σ
      pipe.destroy := by
  refine heeds_bind (closeIfOpen_heeds h readEndIndex) fun result σ₁ hresult => ?_
  cases result with
  | none => exact .pure not_false fun hno => nomatch hno
  | some pipe₁ =>
      obtain ⟨⟨hmatches, -⟩, hread⟩ := hresult pipe₁ rfl
      refine (closeIfOpen_heeds hmatches writeEndIndex).mono fun σ₂ result hresult hsome index => ?_
      obtain ⟨pipe₂, rfl⟩ := Option.isSome_iff_exists.mp hsome
      obtain ⟨⟨-, hkept⟩, hwrite⟩ := hresult pipe₂ rfl
      rcases Fin.eq_zero_or_eq_succ index with rfl | ⟨i, rfl⟩
      · exact hkept _ hread
      · rw [Subsingleton.elim i 0]
        exact hwrite

theorem calls_heeds (h : pipe.Matches σ) (methods : List Method) :
    Heeds Descriptors.next (fun _ => False) (fun σ' result => ∀ p ∈ result, p.Matches σ') σ
      (pipe.calls methods) := by
  induction methods generalizing pipe σ with
  | nil =>
      refine .pure not_false fun p hp => ?_
      cases hp
      exact h
  | cons method methods ih =>
      refine heeds_bind (call_heeds h method) fun result σ' hresult => ?_
      cases result with
      | none => exact .pure not_false fun p hp => nomatch hp
      | some pipe' => exact ih (hresult pipe' rfl).1

theorem session_heeds (h : pipe.Matches σ) (methods : List Method) :
    Heeds Descriptors.next (fun _ => False)
      (fun σ' (result : Option Pipe) => result.isSome → ∀ index, σ'.Done index) σ
      (pipe.session methods) := by
  refine heeds_bind (calls_heeds h methods) fun result σ' hresult => ?_
  cases result with
  | none => exact .pure not_false fun hno => nomatch hno
  | some pipe' => exact destroy_heeds (hresult pipe' rfl)

/-- The calls of some methods begin with those of the first ones. -/
theorem runs_calls_append {first rest : List Method} {trace : List (Call × Answer)}
    {result : Option Pipe} (h : Runs (pipe.calls (first ++ rest)) trace result) :
    ∃ trace₁ result₁, trace₁ <+: trace ∧ Runs (pipe.calls first) trace₁ result₁ := by
  induction first generalizing pipe trace with
  | nil => exact ⟨[], some pipe, List.nil_prefix, runs_pure.mpr ⟨rfl, rfl⟩⟩
  | cons method first ih =>
      obtain ⟨called, before, after, rfl, hcall, hrest⟩ := runs_bind.mp h
      cases called with
      | none =>
          refine ⟨before, none, List.prefix_append _ _, ?_⟩
          exact runs_bind.mpr ⟨none, before, [], (List.append_nil _).symm, hcall,
            runs_pure.mpr ⟨rfl, rfl⟩⟩
      | some pipe' =>
          obtain ⟨trace₁, result₁, hbegin, hfirst⟩ := ih hrest
          refine ⟨before ++ trace₁, result₁, List.prefix_append_right_inj _ |>.mpr hbegin, ?_⟩
          exact runs_bind.mpr ⟨some pipe', before, trace₁, rfl, hcall, hfirst⟩

end Pipe

/-- Whatever the methods that are called and whatever the calls return: no call is made on a
descriptor that has been closed, and a pipe that is destroyed has closed both, unless a `close`
has failed. After any of the methods, unless an assert has failed, the bits of the pipe say which
descriptors are open. -/
theorem session_closes {methods : List Pipe.Method} {trace : List (Call × Answer)}
    {result : Option Pipe} (h : Runs (Pipe.session {} methods) trace result) :
    (∃ σ', Lts.run Descriptors.next {} trace = some σ' ∧
      (result.isSome → σ'.closeFailed = true ∨ ∀ index, σ'.closed index = true)) ∧
    ∀ first, first <+: methods → ∃ trace₁ result₁, trace₁ <+: trace ∧
      Runs (Pipe.calls {} first) trace₁ result₁ ∧
      ∀ pipe ∈ result₁, ∃ σ, Lts.run Descriptors.next {} trace₁ = some σ ∧ pipe.Matches σ := by
  refine ⟨?_, fun first hmethods => ?_⟩
  · rcases Pipe.session_heeds Pipe.Matches.init methods trace result h with
      ⟨-, hno⟩ | ⟨σ', hrun, -, hdone⟩
    · exact hno.elim
    · refine ⟨σ', hrun, fun hsome => ?_⟩
      by_cases hfailed : σ'.closeFailed = true
      · exact .inl hfailed
      · exact .inr fun index => (hdone hsome index).resolve_left hfailed
  · obtain ⟨rest, rfl⟩ := hmethods
    obtain ⟨_, before, after, rfl, hcalls, -⟩ := runs_bind.mp h
    obtain ⟨trace₁, result₁, hbegin, hfirst⟩ := Pipe.runs_calls_append hcalls
    refine ⟨trace₁, result₁, hbegin.trans (List.prefix_append _ _), hfirst, fun pipe hpipe => ?_⟩
    rcases Pipe.calls_heeds Pipe.Matches.init first trace₁ result₁ hfirst with
      ⟨-, hno⟩ | ⟨σ, hrun, -, hmatches⟩
    · exact hno.elim
    · exact ⟨σ, hrun, hmatches pipe hpipe⟩

/-- Two bytes are written, the read end is closed by hand, the write end by the destructor. -/
def writeThenClose : List (Call × Answer) :=
  [(.write writeEndIndex [104, 105], { value := 2 }), (.close readEndIndex, { value := 0 }),
    (.close writeEndIndex, { value := 0 })]

theorem session_closes_readEnd :
    (∃ σ', Lts.run Descriptors.next {} writeThenClose = some σ' ∧
      (σ'.closeFailed = true ∨ ∀ index, σ'.closed index = true)) ∧
    ∃ trace₁ result₁, trace₁ <+: writeThenClose ∧
      Runs (Pipe.calls {} [.write [104, 105], .closeReadEnd]) trace₁ result₁ ∧
      ∀ pipe ∈ result₁, ∃ σ, Lts.run Descriptors.next {} trace₁ = some σ ∧ pipe.Matches σ := by
  have hrun : Runs (Pipe.session {} [.write [104, 105], .closeReadEnd]) writeThenClose
      (some { endOpen := 0b11111100 }) := .ask (.ask (.ask (.done _)))
  obtain ⟨⟨σ', hσ', hclosed⟩, hmatches⟩ := session_closes hrun
  exact ⟨⟨σ', hσ', hclosed rfl⟩, hmatches _ List.prefix_rfl⟩

end InterProcess.Pipes
