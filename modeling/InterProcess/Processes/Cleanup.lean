import InterProcess.Buffering.FailedForks
import InterProcess.Lib.Scopes

/-!
# What a program leaves behind

The two programs of several processes create a semaphore set and a shared
memory, fork, attach the memory and construct their data in it. Each of these is
owned by an object: a `resource_remover_t`, the pointer to the attachment, a
`resource_destroyer_t`. A fork copies the objects, so a child has to release
those of what it shares with the others.

`CleansUp`: a process disposes of what it holds once everything else is done,
the latest first and each once. What it holds is what it has acquired, but for
what it has released as a child.
-/

namespace InterProcess.Cleanup

open Buffering Interaction Scoped

inductive Resource
  | sharedMemory
  | semaphores
  | attachment
  | data
  deriving DecidableEq, Repr

/-- The calls of a `main`: to acquire `data` is to construct it. `work` is what a program does once
all is set up. -/
inductive Call (Work : Type)
  | acquire (r : Resource)
  | setValues
  | fork
  | work (w : Work)
  | dispose (r : Resource)

/-- How a call returns, and of a fork in which process. -/
inductive Answer
  | failed
  | succeeded
  | inChild
  deriving DecidableEq, Repr

inductive ExitCode
  | success
  | failure
  deriving DecidableEq, Repr

abbrev Program (Work β : Type) := Scoped Resource (Call Work) Answer β

def Answer.fork : Answer → ForkResult
  | .failed => .failed
  | .succeeded => .parent
  | .inChild => .child

variable {Work β : Type}

/-- The forks of a program. -/
def forking (p : Forks β) : Program Work β := lift (fun _ => .fork) Answer.fork p

/-- The destructors: to remove and to detach may fail, and then an assertion does. -/
def destroy (asserts : Bool) (r : Resource) : Interaction (Call Work) Answer Bool := do
  let answer ← perform (.dispose r)
  return r = .data || !(asserts && answer = .failed)

/-! ## What a process has done -/

abbrev Trace (Work : Type) := List (Call Work × Answer)

/-- The data is constructed whatever the answer is. -/
def acquires : Call Work × Answer → Option Resource
  | (.acquire r, answer) => if r = .data ∨ answer ≠ .failed then some r else none
  | _ => none

def disposes : Call Work → Option Resource
  | .dispose r => some r
  | _ => none

/-- What the process has acquired, the latest first. -/
def acquired (trace : Trace Work) : List Resource := (trace.filterMap acquires).reverse

def disposed (trace : Trace Work) : List Resource := (trace.map Prod.fst).filterMap disposes

/-- The answers to its forks. -/
def forksOf (trace : Trace Work) : History :=
  trace.filterMap fun
    | (.fork, answer) => some ((), answer.fork)
    | _ => none

/-- The process is a child. -/
def isChild (trace : Trace Work) : Bool := forkedIn (forksOf trace)

/-- The process has got to its work. -/
def works (trace : Trace Work) : Bool :=
  trace.any fun
    | (.work _, _) => true
    | _ => false

theorem acquired_append (trace trace' : Trace Work) :
    acquired (trace ++ trace') = acquired trace' ++ acquired trace := by
  rw [acquired, List.filterMap_append, List.reverse_append]
  rfl

theorem disposed_append (trace trace' : Trace Work) :
    disposed (trace ++ trace') = disposed trace ++ disposed trace' := by
  rw [disposed, List.map_append, List.filterMap_append]
  rfl

theorem forksOf_append (trace trace' : Trace Work) :
    forksOf (trace ++ trace') = forksOf trace ++ forksOf trace' := List.filterMap_append

theorem works_append (trace trace' : Trace Work) :
    works (trace ++ trace') = (works trace || works trace') := List.any_append

/-- A parent holds all it has acquired, a child what it keeps of that. -/
def holding (keeps : Trace Work → Resource → Bool) (trace : Trace Work) : List Resource :=
  if isChild trace then (acquired trace).filter (keeps trace) else acquired trace

/-- A process that is left with the given result has worked first and then disposed of what it
held; of all of it, unless a destructor has aborted the program. -/
def CleansUp (held : Trace Work → List Resource) (trace : Trace Work) (result : Option ExitCode) :
    Prop :=
  ∃ first last, trace = first ++ last ∧ disposed first = [] ∧
    (∀ x ∈ last, (disposes x.1).isSome = true) ∧ disposed last <+: held first ∧
    (result ≠ none → disposed last = held first)

/-- A parent gets to its work only with all `count` children, no fork having failed. -/
def Complete (count : ℕ) (trace : Trace Work) : Prop :=
  isChild trace = false → works trace = true →
    NoneFailed (forksOf trace) ∧ forks (forksOf trace) = count

/-! ## Every way through a program -/

/-- What a process has done so far: `resources` acquired, nothing disposed of, forks with the
answers `history`, and its work, if `worked`. -/
structure Summary (before : Trace Work) (resources : List Resource) (history : History)
    (worked : Bool) : Prop where
  acquired : acquired before = resources
  disposed : disposed before = []
  forksOf : forksOf before = history
  works : works before = worked

theorem Summary.nil : Summary ([] : Trace Work) [] [] false := ⟨rfl, rfl, rfl, rfl⟩

/-- What holds at the end of a program, before its objects are destroyed. -/
structure Ends (count : ℕ) (held : Trace Work → List Resource) (first : Trace Work)
    (result : Option ExitCode) (owned : List Resource) : Prop where
  disposed : disposed first = []
  owned : result ≠ none → owned = held first
  complete : Complete count first

section Summary

variable {before : Trace Work} {resources : List Resource} {history : History} {worked : Bool}

theorem Summary.append {segment : Trace Work} {more : List Resource} {history' : History}
    {worked' : Bool} (h : Summary before resources history worked)
    (h' : Summary segment more history' worked') :
    Summary (before ++ segment) (more ++ resources) (history ++ history') (worked || worked') where
  acquired := by rw [acquired_append, h.acquired, h'.acquired]
  disposed := by rw [disposed_append, h.disposed, h'.disposed]; rfl
  forksOf := by rw [forksOf_append, h.forksOf, h'.forksOf]
  works := by rw [works_append, h.works, h'.works]

theorem Summary.acquire (h : Summary before resources history worked) (r : Resource)
    (answer : Answer) (hr : r = .data ∨ answer ≠ .failed) :
    Summary (before ++ [(.acquire r, answer)]) (r :: resources) history worked := by
  have hone : Summary ([(.acquire r, answer)] : Trace Work) [r] [] false := by
    refine ⟨?_, rfl, rfl, rfl⟩
    simp [Cleanup.acquired, acquires, hr]
  have hboth := h.append hone
  rw [List.append_nil, Bool.or_false] at hboth
  exact hboth

/-- A call that has failed, or is not one for a resource, changes nothing of that. -/
theorem Summary.skip (h : Summary before resources history worked) (x : Call Work × Answer)
    (hx : Summary [x] [] [] false) : Summary (before ++ [x]) resources history worked := by
  have hboth := h.append hx
  rw [List.append_nil, Bool.or_false] at hboth
  exact hboth

theorem Summary.work (h : Summary before resources history worked) (w : Work) (answer : Answer) :
    Summary (before ++ [(.work w, answer)]) resources history true := by
  have hboth := h.append (⟨rfl, rfl, rfl, rfl⟩ : Summary [(.work w, answer)] [] [] true)
  rw [List.append_nil, Bool.or_true] at hboth
  exact hboth

theorem Summary.ends {count : ℕ} {held : Trace Work → List Resource} {result : Option ExitCode}
    {owned : List Resource} (h : Summary before resources history worked)
    (howned : owned = held before)
    (hall : worked = true → forkedIn history = false →
      NoneFailed history ∧ forks history = count) : Ends count held before result owned where
  disposed := h.disposed
  owned := fun _ => howned
  complete := by
    intro hparent hworks
    rw [isChild, h.forksOf] at hparent
    rw [h.works] at hworks
    rw [h.forksOf]
    exact hall hworks hparent

theorem Summary.ends_holding {count : ℕ} {keeps : Trace Work → Resource → Bool}
    {result : Option ExitCode} {owned : List Resource}
    (h : Summary before resources history worked)
    (howned : owned = if forkedIn history then resources.filter (keeps before) else resources)
    (hall : worked = true → forkedIn history = false →
      NoneFailed history ∧ forks history = count) :
    Ends count (holding keeps) before result owned := by
  refine h.ends ?_ hall
  rw [holding, isChild, h.forksOf, h.acquired]
  exact howned

end Summary

section Ways

variable {Q : Trace Work → β → List Resource → Prop} {before : Trace Work} {owned : List Resource}

/-- The part of a program in which it forks acquires nothing and disposes of nothing. -/
theorem ensures_forking {α : Type} {p : Forks α} {f : α → Program Work β}
    (h : ∀ (segment : Trace Work) (history : History) (a : α), Runs p history a →
      Summary segment [] history false → Ensures Q (f a) (before ++ segment) owned) :
    Ensures Q (forking p >>= f) before owned := by
  refine ensures_bind.mpr (ensures_lift fun trace a hruns => ?_)
  refine h _ _ a hruns ⟨?_, ?_, ?_, ?_⟩
  · simp [acquired, acquires]
  · simp [disposed, disposes]
  · simp [forksOf]
  · simp [works]

variable {asserts : Bool}

theorem destroy_runs {r : Resource} {trace : Trace Work} {ok : Bool}
    (h : Runs (destroy asserts r) trace ok) : trace.map Prod.fst = [.dispose r] := by
  obtain ⟨answer, rest, rfl, hrest⟩ := runs_perform.mp h
  obtain ⟨rfl, -⟩ := runs_pure.mp hrest
  rfl

theorem filterMap_disposes (owned : List Resource) :
    (owned.map (Call.dispose : Resource → Call Work)).filterMap disposes = owned := by
  rw [List.filterMap_map]
  exact List.filterMap_some

/-- The destructors dispose of what is owned and do nothing else. -/
theorem disposed_of_leave {last : Trace Work} {ok : Bool}
    (h : Runs (leave (destroy asserts) owned) last ok) :
    (∀ x ∈ last, (disposes x.1).isSome = true) ∧ disposed last <+: owned ∧
      (ok = true → disposed last = owned) := by
  obtain ⟨hinitial, hall⟩ := leave_disposes (fun r trace ok => destroy_runs) h
  refine ⟨fun x hx => ?_, ?_, fun hok => ?_⟩
  · have hmem := hinitial.subset (List.mem_map_of_mem hx)
    obtain ⟨r, -, hr⟩ := List.mem_map.mp hmem
    rw [← hr]
    rfl
  · have hdisposed := hinitial.filterMap disposes
    rw [filterMap_disposes] at hdisposed
    exact hdisposed
  · rw [disposed, hall hok, filterMap_disposes]

theorem complete_append {count : ℕ} {first last : Trace Work}
    (h : ∀ x ∈ last, (disposes x.1).isSome = true) :
    Complete count (first ++ last) ↔ Complete count first := by
  have hforks : forksOf last = [] := by
    refine List.filterMap_eq_nil_iff.mpr fun x hx => ?_
    have hdispose := h x hx
    obtain ⟨call, answer⟩ := x
    cases call <;> first | rfl | cases hdispose
  have hworks : works last = false := by
    refine List.any_eq_false.mpr fun x hx => ?_
    have hdispose := h x hx
    obtain ⟨call, answer⟩ := x
    cases call <;> first | exact Bool.false_ne_true | cases hdispose
  rw [Complete, Complete, isChild, isChild, forksOf_append, works_append, hforks, hworks,
    List.append_nil, Bool.or_false]

/-- A program that ends so on every way through it cleans up, and starts no work without all its
children. -/
theorem cleansUp_of_ends {count : ℕ} {held : Trace Work → List Resource}
    {p : Program Work (Option ExitCode)} {trace : Trace Work} {result : Option ExitCode}
    (h : Ensures (Ends count held) p [] [])
    (hruns : Runs (p.enter (destroy asserts) []) trace result) :
    CleansUp held trace result ∧ Complete count trace := by
  obtain ⟨first, b, owned, last, rfl, hends, hleaves⟩ := h.enter hruns
  obtain ⟨hdisposed, howned, hcomplete⟩ : Ends count held first b owned := hends
  cases hleaves with
  | aborted =>
      rw [List.append_nil]
      exact ⟨⟨first, [], (List.append_nil _).symm, hdisposed, List.forall_mem_nil _,
        List.nil_prefix, fun hresult => absurd rfl hresult⟩, hcomplete⟩
  | left hleave =>
      obtain ⟨honly, hinitial, hall⟩ := disposed_of_leave hleave
      rw [howned nofun] at hinitial hall
      exact ⟨⟨first, last, rfl, hdisposed, honly, hinitial, fun _ => hall rfl⟩,
        (complete_append honly).mpr hcomplete⟩
  | stopped hleave =>
      obtain ⟨honly, hinitial, -⟩ := disposed_of_leave hleave
      rw [howned nofun] at hinitial
      exact ⟨⟨first, last, rfl, hdisposed, honly, hinitial, fun hresult => absurd rfl hresult⟩,
        (complete_append honly).mpr hcomplete⟩

end Ways

end InterProcess.Cleanup
