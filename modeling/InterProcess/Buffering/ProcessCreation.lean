import InterProcess.Lib.Interaction
import Mathlib.Data.List.Nodup

/-!
# `buffering::create_child_processes`

The parent forks in two nested loops and leaves them with `is_child` false; a
child returns at once from the round it was forked in. What `fork` returns is
the answer of the environment, and since a process goes on on both sides of it,
the processes are the runs of the code: each gets its own sequence of answers.

`processes_creation` lists the processes when no fork fails, whatever record a
process makes of the end of its loops. Here the role is the index of the loop,
so the children of the first count are the consumers: `createdAsRequested_iff`.
-/

namespace InterProcess.Buffering

open Interaction

structure ProcessInfo where
  createdProcessCount : ℕ
  isChild : Bool
  isProducer : Bool
  groupId : ℕ
  deriving DecidableEq, Repr

/-- What `unix::create_process` returns, and to whom. -/
inductive ForkResult
  | failed
  | child
  | parent
  deriving DecidableEq, Repr

abbrev Forks (β : Type) := Interaction Unit ForkResult β

/-- The loops are left, with `i` as it is then, or the function returns. -/
inductive LoopExit
  | left (info : ProcessInfo) (i : ℕ)
  | returned (info : ProcessInfo)
  deriving DecidableEq, Repr

/-- The inner loop, with the number of rounds to go. -/
def forkLoop : ℕ → ℕ → ProcessInfo → Forks LoopExit
  | 0, i, info => return .left info i
  | rounds + 1, i, info => do
    match ← perform () with
    | .failed => return .left info i
    | .child => return .returned { info with createdProcessCount := info.createdProcessCount + 1 }
    | .parent =>
      forkLoop rounds (i + 1) { info with createdProcessCount := info.createdProcessCount + 1 }

/-- The outer loop over the process counts, with the role each index stands for. -/
def createLoop : List (Bool × ℕ) → ℕ → ProcessInfo → Forks LoopExit
  | [], i, info => return .left info i
  | (isProducer, count) :: counts, _, info => do
    match ← forkLoop count 0 { info with isProducer := isProducer } with
    | .left info i => createLoop counts i info
    | .returned info => return .returned info

def createChildProcesses (childProducerCount childConsumerCount : ℕ) : Forks ProcessInfo := do
  let processCounts := [(false, childProducerCount), (true, childConsumerCount)]
  let info : ProcessInfo :=
    { createdProcessCount := 0, isChild := true, isProducer := false, groupId := 0 }
  match ← createLoop processCounts 0 info with
  | .left info i => return { info with isChild := false, isProducer := true, groupId := i }
  | .returned info => return info

/-! ## The processes -/

/-- What `fork` has returned to a process, one answer after the other. -/
abbrev History := List (Unit × ForkResult)

/-- The process has forked `n` others. -/
def forked (n : ℕ) : History := List.replicate n ((), .parent)

variable {Info : Type}

/-- The processes there are once all have returned, if no fork fails. -/
def processes (program : Forks Info) : List (History × Info) :=
  program.outcomes [.child, .parent]

/-- The processes are the runs in which no fork fails. -/
theorem mem_processes {program : Forks Info} {history : History} {info : Info} :
    (history, info) ∈ processes program ↔
      Runs program history info ∧ ∀ x ∈ history, x.2 ≠ .failed := by
  have hanswer : ∀ answer : ForkResult, answer ∈ [.child, .parent] ↔ answer ≠ .failed := by
    intro answer
    cases answer <;> decide
  simp only [processes, mem_outcomes, hanswer]

/-- The children `start, …, start + count - 1` of the parent, with what each knows by its count. -/
def childrenOf (info : ℕ → Info) (start count : ℕ) : List (History × Info) :=
  (List.range count).map fun k => (forked (start + k) ++ [((), .child)], info (start + k + 1))

theorem forked_zero : forked 0 = [] := rfl

theorem forked_succ (n : ℕ) : forked (n + 1) = ((), .parent) :: forked n := rfl

theorem outcomes_forkLoop (rounds i : ℕ) (info : ProcessInfo) :
    (forkLoop rounds i info).outcomes [.child, .parent] =
      ((List.range rounds).map fun k => (forked k ++ [((), .child)], LoopExit.returned
        { info with createdProcessCount := info.createdProcessCount + k + 1 })) ++
      [(forked rounds, .left
        { info with createdProcessCount := info.createdProcessCount + rounds } (i + rounds))] := by
  induction rounds generalizing i info with
  | zero => rfl
  | succ rounds ih =>
      rw [forkLoop, outcomes_perform]
      simp only [List.flatMap_cons, List.flatMap_nil, List.append_nil, outcomes_pure,
        List.map_cons, List.map_nil, ih]
      simp [List.range_succ_eq_map, forked_zero, forked_succ, Function.comp_def, Nat.add_assoc,
        Nat.add_comm 1]

theorem forked_append (m n : ℕ) : forked m ++ forked n = forked (m + n) :=
  (List.replicate_add m n _).symm

/-- The children of one count, and the processes of the counts after it. -/
theorem outcomes_createLoop_cons (isProducer : Bool) (count i : ℕ) (counts : List (Bool × ℕ))
    (info : ProcessInfo) :
    (createLoop ((isProducer, count) :: counts) i info).outcomes [.child, .parent] =
      ((List.range count).map fun k => (forked k ++ [((), .child)], LoopExit.returned
        { info with
          isProducer := isProducer
          createdProcessCount := info.createdProcessCount + k + 1 })) ++
      ((createLoop counts count { info with
          isProducer := isProducer
          createdProcessCount := info.createdProcessCount + count }).outcomes
        [.child, .parent]).map fun r => (forked count ++ r.1, r.2) := by
  rw [createLoop, outcomes_bind, outcomes_forkLoop, List.flatMap_append, List.flatMap_singleton,
    List.flatMap_map]
  simp only [outcomes_pure, List.map_cons, List.map_nil, List.append_nil, Nat.zero_add,
    ← List.map_eq_flatMap]

/-- The process is one that was forked. -/
def forkedIn (history : History) : Bool := ((), ForkResult.child) ∈ history

theorem forkedIn_child (n : ℕ) : forkedIn (forked n ++ [((), .child)]) = true := by
  simp [forkedIn]

theorem forkedIn_parent (n : ℕ) : forkedIn (forked n) = false := by
  simp [forkedIn, forked]

theorem forked_inj {m n : ℕ} (h : forked m ++ [((), .child)] = forked n ++ [((), .child)]) :
    m = n := by
  have hlength := congrArg List.length h
  simpa [forked] using hlength

theorem after_child {k : ℕ} {before after : History}
    (h : forked k ++ [((), .child)] = before ++ ((), .child) :: after) : after = [] := by
  by_contra hne
  have hinit := congrArg List.dropLast h
  rw [List.dropLast_concat, List.dropLast_append_of_ne_nil (List.cons_ne_nil _ _),
    List.dropLast_cons_of_ne_nil hne] at hinit
  have hparent := forkedIn_parent k
  rw [hinit] at hparent
  simp [forkedIn] at hparent

/-! ## The two counts of a program -/

/-- The record that a process makes of the end of the loops: a child keeps its role, and everyone
the number of processes created so far. -/
structure Report (Info : Type) where
  info : LoopExit → Info
  isChild : Info → Bool
  role : Info → Bool
  createdProcessCount : Info → ℕ
  isChild_left : ∀ i n, isChild (info (.left i n)) = false
  isChild_returned : ∀ i, isChild (info (.returned i)) = i.isChild
  role_returned : ∀ i, role (info (.returned i)) = i.isProducer
  created_left : ∀ i n, createdProcessCount (info (.left i n)) = i.createdProcessCount
  created_returned : ∀ i, createdProcessCount (info (.returned i)) = i.createdProcessCount

namespace Report

/-- The loops over two counts, and the record. -/
def creation (r : Report Info) (first second : ℕ) : Forks Info := do
  return r.info (← createLoop [(false, first), (true, second)] 0 ⟨0, true, false, 0⟩)

/-- What a child records that is forked with the given flag. -/
def child (r : Report Info) (role : Bool) (created : ℕ) : Info :=
  r.info (.returned ⟨created, true, role, 0⟩)

def parent (r : Report Info) (first second : ℕ) : Info :=
  r.info (.left ⟨first + second, true, true, 0⟩ second)

variable (r : Report Info)

/-- One child for each round of the two loops, and the parent. -/
theorem processes_creation (first second : ℕ) :
    processes (r.creation first second) =
      childrenOf (r.child false) 0 first ++ childrenOf (r.child true) first second ++
        [(forked (first + second), r.parent first second)] := by
  rw [processes, creation, outcomes_bind, outcomes_createLoop_cons, outcomes_createLoop_cons,
    createLoop, outcomes_pure]
  simp only [List.map_append, List.map_cons, List.map_nil, List.map_map, List.flatMap_append,
    List.flatMap_cons, List.flatMap_nil, List.flatMap_map, outcomes_pure, List.append_nil,
    Nat.zero_add, Function.comp_def, ← List.map_eq_flatMap, forked_append, ← List.append_assoc]
  simp only [childrenOf, child, parent, Nat.zero_add]

/-- The children of both loops are forked in a row. -/
theorem histories_eq (first second : ℕ) :
    (processes (r.creation first second)).map Prod.fst =
      (List.range (first + second)).map (fun k => forked k ++ [((), .child)]) ++
        [forked (first + second)] := by
  rw [processes_creation, List.range_add]
  simp only [childrenOf, List.map_append, List.map_map, Function.comp_def, List.map_cons,
    List.map_nil, Nat.zero_add]

theorem countP_childrenOf (f : Bool → Bool → Bool) (role : Bool) (start count : ℕ) :
    (childrenOf (r.child role) start count).countP (fun x => f (forkedIn x.1) (r.role x.2)) =
      if f true role then count else 0 := by
  unfold childrenOf
  rw [List.countP_map]
  simp only [Function.comp_def, forkedIn_child, child, r.role_returned]
  split
  · next h => simp [h]
  · next h => simp [h]

/-- The processes of each kind. -/
theorem countP_processes (f : Bool → Bool → Bool) (first second : ℕ) :
    (processes (r.creation first second)).countP (fun x => f (forkedIn x.1) (r.role x.2)) =
      (if f true false then first else 0) + (if f true true then second else 0) +
        (if f false (r.role (r.parent first second)) then 1 else 0) := by
  rw [processes_creation, List.countP_append, List.countP_append, countP_childrenOf,
    countP_childrenOf]
  simp only [List.countP_cons, List.countP_nil, forkedIn_parent, Nat.zero_add]

theorem histories_nodup (first second : ℕ) :
    ((processes (r.creation first second)).map Prod.fst).Nodup := by
  rw [histories_eq, List.nodup_append]
  refine ⟨List.nodup_range.map fun _ _ => forked_inj, List.nodup_singleton _, ?_⟩
  intro x hx y hy hxy
  obtain ⟨k, -, rfl⟩ := List.mem_map.mp hx
  rw [List.mem_singleton.mp hy] at hxy
  have hchild := forkedIn_child k
  rw [hxy, forkedIn_parent] at hchild
  cases hchild

variable {r} {first second : ℕ} {x : History × Info}

/-- A child has no further answer of `fork`. -/
theorem child_last (hx : x ∈ processes (r.creation first second)) {before after : History}
    (heq : x.1 = before ++ ((), .child) :: after) : after = [] := by
  have hmem : x.1 ∈ (processes (r.creation first second)).map Prod.fst := List.mem_map_of_mem hx
  rw [histories_eq] at hmem
  rcases List.mem_append.mp hmem with hmem | hmem
  · obtain ⟨k, -, hk⟩ := List.mem_map.mp hmem
    exact after_child (hk.trans heq)
  · have hparent := forkedIn_parent (first + second)
    rw [← List.mem_singleton.mp hmem, heq] at hparent
    simp [forkedIn] at hparent

theorem parent_info (hx : x ∈ processes (r.creation first second))
    (hparent : forkedIn x.1 = false) :
    r.isChild x.2 = false ∧ r.createdProcessCount x.2 = first + second := by
  rw [processes_creation] at hx
  simp only [List.mem_append, List.mem_singleton, childrenOf, List.mem_map] at hx
  rcases hx with (⟨k, -, rfl⟩ | ⟨k, -, rfl⟩) | rfl
  · rw [forkedIn_child] at hparent
    cases hparent
  · rw [forkedIn_child] at hparent
    cases hparent
  · exact ⟨r.isChild_left _ _, r.created_left _ _⟩

end Report

/-! ## The property -/

/-- The parent is a producer whose group is the index the loops are left with. -/
def report : Report ProcessInfo where
  info
    | .left info i => { info with isChild := false, isProducer := true, groupId := i }
    | .returned info => info
  isChild := ProcessInfo.isChild
  role := ProcessInfo.isProducer
  createdProcessCount := ProcessInfo.createdProcessCount
  isChild_left _ _ := rfl
  isChild_returned _ := rfl
  role_returned _ := rfl
  created_left _ _ := rfl
  created_returned _ := rfl

theorem createChildProcesses_eq (childProducerCount childConsumerCount : ℕ) :
    createChildProcesses childProducerCount childConsumerCount =
      report.creation childProducerCount childConsumerCount := by
  refine congrArg (Bind.bind _) (funext fun exit => ?_)
  cases exit <;> rfl

/-- The processes are the parent, `childProducerCount` child producers and
`childConsumerCount` child consumers, and only the parent forks. -/
structure AsRequested (childProducerCount childConsumerCount : ℕ)
    (runs : List (History × ProcessInfo)) : Prop where
  distinct : (runs.map Prod.fst).Nodup
  parent_once : runs.countP (fun r => !forkedIn r.1) = 1
  parent_info : ∀ r ∈ runs, forkedIn r.1 = false → r.2.isChild = false ∧
    r.2.createdProcessCount = childProducerCount + childConsumerCount
  children : runs.countP (fun r => forkedIn r.1) = childProducerCount + childConsumerCount
  producers : runs.countP (fun r => forkedIn r.1 && r.2.isProducer) = childProducerCount
  consumers : runs.countP (fun r => forkedIn r.1 && !r.2.isProducer) = childConsumerCount
  no_fork : ∀ r ∈ runs, ∀ before after, r.1 = before ++ ((), .child) :: after → after = []

/-- The processes of each kind: the first loop creates consumers, the second producers. -/
theorem countP_createChildProcesses (f : Bool → Bool → Bool) (p c : ℕ) :
    (processes (createChildProcesses p c)).countP (fun r => f (forkedIn r.1) r.2.isProducer) =
      (if f true false then p else 0) + (if f true true then c else 0) +
        (if f false true then 1 else 0) := by
  rw [createChildProcesses_eq]
  exact report.countP_processes f p c

/-- The processes are the ones asked for iff as many producers as consumers are: the roles
are swapped. -/
theorem createdAsRequested_iff (childProducerCount childConsumerCount : ℕ) :
    AsRequested childProducerCount childConsumerCount
      (processes (createChildProcesses childProducerCount childConsumerCount)) ↔
    childProducerCount = childConsumerCount := by
  have hcount := fun f => countP_createChildProcesses f childProducerCount childConsumerCount
  constructor
  · intro h
    have hproducers := (hcount fun child producer => child && producer).symm.trans h.producers
    simpa using hproducers.symm
  · intro heq
    refine ⟨?_, ?_, ?_, ?_, ?_, ?_, ?_⟩
    · rw [createChildProcesses_eq]
      exact report.histories_nodup _ _
    · simpa using hcount fun child _ => !child
    · rw [createChildProcesses_eq]
      exact fun _ => Report.parent_info
    · simpa using hcount fun child _ => child
    · simpa [heq] using hcount fun child producer => child && producer
    · simpa [heq] using hcount fun child producer => child && !producer
    · rw [createChildProcesses_eq]
      exact fun _ hr _ _ => Report.child_last hr

/-- The counts of `main`. -/
theorem not_asRequested : ¬∀ childProducerCount childConsumerCount : ℕ,
    AsRequested childProducerCount childConsumerCount
      (processes (createChildProcesses childProducerCount childConsumerCount)) := by
  intro h
  have hproducers := (h 2 10).producers
  exact absurd hproducers (by decide)

end InterProcess.Buffering
