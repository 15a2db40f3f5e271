import InterProcess.Buffering.ProcessCreation

/-!
# Forks that fail

A fork that fails ends the round of the inner loop only: the outer one goes on
with the next count. `created_process_count` is the number of forks that have
succeeded, so in the parent it is the number asked for iff none has failed:
`createLoop_ends`. A process is told that it is a child iff it has been forked.
-/

namespace InterProcess.Buffering

open Interaction

/-- The children a process has forked. -/
def forks (history : History) : ℕ := history.countP fun x => x.2 = .parent

def NoneFailed (history : History) : Prop := ∀ x ∈ history, x.2 ≠ .failed

/-- How loops that are to fork `count` children end, begun with `info`. -/
inductive LoopEnds (count : ℕ) (info : ProcessInfo) (history : History) : LoopExit → Prop
  | left {info' : ProcessInfo} {i : ℕ} (hparent : forkedIn history = false)
      (hchild : info'.isChild = info.isChild)
      (hcreated : info'.createdProcessCount = info.createdProcessCount + forks history)
      (hle : forks history ≤ count) (hall : forks history = count ↔ NoneFailed history) :
      LoopEnds count info history (.left info' i)
  | returned {info' : ProcessInfo} (hforked : forkedIn history = true)
      (hchild : info'.isChild = info.isChild) : LoopEnds count info history (.returned info')

variable {count count' i : ℕ} {info info' : ProcessInfo} {history history' : History}
  {exit : LoopExit}

theorem forkedIn_append :
    forkedIn (history ++ history') = (forkedIn history || forkedIn history') := by
  simp [forkedIn]

theorem forks_append : forks (history ++ history') = forks history + forks history' :=
  List.countP_append

/-- The rounds of a loop, and those after them. -/
theorem LoopEnds.append (h : LoopEnds count info history (.left info' i))
    (h' : LoopEnds count' info' history' exit) :
    LoopEnds (count + count') info (history ++ history') exit := by
  cases h with
  | left hparent hchild hcreated hle hall =>
      cases h' with
      | left hparent' hchild' hcreated' hle' hall' =>
          refine .left ?_ (hchild'.trans hchild) ?_ ?_ ?_
          · rw [forkedIn_append, hparent, hparent']
            rfl
          · rw [hcreated', hcreated, forks_append]
            omega
          · rw [forks_append]
            omega
          · have hboth : NoneFailed (history ++ history') ↔
                NoneFailed history ∧ NoneFailed history' := List.forall_mem_append
            rw [hboth, ← hall, ← hall', forks_append]
            omega
      | returned hforked hchild' =>
          refine .returned ?_ (hchild'.trans hchild)
          rw [forkedIn_append, hforked, Bool.or_true]

/-- A loop that is not begun. -/
theorem LoopEnds.nil : LoopEnds 0 info [] (.left info i) :=
  .left rfl rfl rfl (Nat.le_refl 0) (iff_of_true rfl (List.forall_mem_nil _))

theorem forkLoop_ends {rounds : ℕ} (h : Runs (forkLoop rounds i info) history exit) :
    LoopEnds rounds info history exit := by
  induction rounds generalizing i info history with
  | zero =>
      obtain ⟨rfl, rfl⟩ := runs_pure.mp h
      exact .nil
  | succ rounds ih =>
      obtain ⟨answer, rest, rfl, hrest⟩ := runs_perform.mp h
      cases answer with
      | failed =>
          obtain ⟨rfl, rfl⟩ := runs_pure.mp hrest
          refine .left rfl rfl rfl (Nat.zero_le _) (iff_of_false (Nat.succ_ne_zero _).symm ?_)
          intro hnone
          exact hnone _ List.mem_cons_self rfl
      | child =>
          obtain ⟨rfl, rfl⟩ := runs_pure.mp hrest
          exact .returned rfl rfl
      | parent =>
          have hfirst : LoopEnds 1 info [((), .parent)] (.left
              { info with createdProcessCount := info.createdProcessCount + 1 } (i + 1)) :=
            .left rfl rfl rfl (Nat.le_refl 1) (iff_of_true rfl (by simp [NoneFailed]))
          rw [Nat.add_comm]
          exact hfirst.append (ih hrest)

/-- The number of children that are to be forked. -/
def requested : List (Bool × ℕ) → ℕ
  | [] => 0
  | (_, count) :: counts => count + requested counts

/-- The outer loop goes through all counts, whatever has failed. -/
theorem createLoop_ends {counts : List (Bool × ℕ)}
    (h : Runs (createLoop counts i info) history exit) :
    LoopEnds (requested counts) info history exit := by
  induction counts generalizing i info history with
  | nil =>
      obtain ⟨rfl, rfl⟩ := runs_pure.mp h
      exact .nil
  | cons count counts ih =>
      obtain ⟨isProducer, count⟩ := count
      obtain ⟨first, history₁, history₂, rfl, hfirst, hrest⟩ := runs_bind.mp h
      -- the role is no part of what is said of the loop
      cases forkLoop_ends hfirst with
      | @left info' i hparent hchild hcreated hle hall =>
          have hends : LoopEnds count info history₁ (.left info' i) :=
            .left hparent hchild hcreated hle hall
          exact hends.append (ih hrest)
      | returned hforked hchild =>
          obtain ⟨rfl, rfl⟩ := runs_pure.mp hrest
          rw [List.append_nil]
          exact .returned hforked hchild

/-- What a process knows of itself and of its children when the creation is over. -/
structure Knows (count : ℕ) (history : History) (isChild : Bool) (createdCount : ℕ) : Prop where
  child : isChild = forkedIn history
  created : isChild = false → createdCount = forks history
  all : isChild = false → (createdCount = count ↔ NoneFailed history)

/-- The parent leaves the loops, and a child returns from within. -/
theorem LoopEnds.knows_left (h : LoopEnds count ⟨0, true, false, 0⟩ history (.left info i)) :
    Knows count history false info.createdProcessCount := by
  cases h with
  | left hparent hchild hcreated hle hall =>
      have hcount := hcreated.trans (Nat.zero_add _)
      refine ⟨hparent.symm, fun _ => hcount, fun _ => ?_⟩
      rw [← hall]
      exact Eq.congr_left hcount

theorem LoopEnds.knows_returned (h : LoopEnds count ⟨0, true, false, 0⟩ history (.returned info)) :
    Knows count history info.isChild info.createdProcessCount := by
  cases h with
  | returned hforked hchild =>
      have hself : ∀ {P : Prop}, _ = false → P := fun hparent => nomatch hchild.symm.trans hparent
      exact ⟨hchild.trans hforked.symm, hself, hself⟩

/-- Whatever record a process makes, it tells the child, and the parent by its count that no fork
has failed. -/
theorem Report.creation_knows {Info : Type} (r : Report Info) {first second : ℕ} {record : Info}
    (h : Runs (r.creation first second) history record) :
    Knows (first + second) history (r.isChild record) (r.createdProcessCount record) := by
  obtain ⟨exit, loops, rest, rfl, hloop, hrest⟩ := runs_bind.mp h
  obtain ⟨rfl, rfl⟩ := runs_pure.mp hrest
  rw [List.append_nil]
  have hends := createLoop_ends hloop
  cases exit with
  | left info i =>
      rw [r.isChild_left, r.created_left]
      exact hends.knows_left
  | returned info =>
      rw [r.isChild_returned, r.created_returned]
      exact hends.knows_returned

theorem createChildProcesses_knows {p c : ℕ}
    (h : Runs (createChildProcesses p c) history info) :
    Knows (p + c) history info.isChild info.createdProcessCount := by
  rw [createChildProcesses_eq] at h
  exact report.creation_knows h

end InterProcess.Buffering
