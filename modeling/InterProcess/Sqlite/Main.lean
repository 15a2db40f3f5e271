import InterProcess.Lib.Scopes
import InterProcess.Sqlite.Flushing

/-!
# `main` of the SQLite program

The script is run on a connection of its own; then `sql_database::open` opens
the two databases, loads one into the other and prepares the statement of the
writer. `sqlite3_open` gives a connection that has to be closed also where it
fails, unless there is no memory for one: then `close_database` is called with
`nullptr`, and its assertion fails. The destructor of the database finalizes the
statement and closes both connections.

Each connection is closed once, whatever fails. The statement is kept where its
finalization reports an error, though it is gone then, and the assertion in its
destructor finalizes it once more, after the connections: `main_closes`.
-/

namespace InterProcess.Sqlite

open Interaction Scoped

/-- What `sqlite3_open` is called for. -/
inductive Connection
  /-- the one of `create_database` -/
  | script
  | disk
  | memory
  deriving DecidableEq, Repr

/-- The calls of `main`; `sqlite3_close` is called with a handle or with `nullptr`. -/
inductive Use
  | currentPath
  | opening (c : Connection)
  | closing (handle : Option Connection)
  | execute
  | prepare
  | finalize
  | call (call : Call)
  deriving DecidableEq

/-- What a call is answered. `sqlite3_open` may fail without a connection; any other call has only
failed then. -/
inductive Reply
  | code (code : Code)
  | noMemory
  deriving DecidableEq, Repr

def Reply.toCode : Reply → Code
  | .code c => c
  | .noMemory => .error

/-- The handle `sqlite3_open` writes for the connection. -/
def Reply.handle (c : Connection) : Reply → Option Connection
  | .code _ => some c
  | .noMemory => none

/-- The one object with a destructor. -/
inductive Owner
  | database
  deriving DecidableEq

inductive ExitCode
  | success
  | failure
  deriving DecidableEq

abbrev Program (β : Type) := Scoped Owner Use Reply β

/-- The calls on an opened database. -/
def requesting {α : Type} (p : Calls α) : Program α := lift .call Reply.toCode p

def close (handle : Option Connection) : Program Unit := do
  let _ ← call (.closing handle)

/-- `close_database`; `false` when its assertion fails. -/
def closeDatabase (asserts : Bool) (handle : Option Connection) : Program Bool := do
  if asserts && handle.isNone then
    return false
  close handle
  return true

/-- `create_database`; `none` when an assertion fails. -/
def createDatabase (asserts : Bool) : Program (Option Bool) := do
  let reply ← call (.opening .script)
  if reply ≠ .code .ok then
    if !(← closeDatabase asserts (reply.handle .script)) then
      return none
    return some false
  if (← call .execute) ≠ .code .ok then
    if !(← closeDatabase asserts (some .script)) then
      return none
    return some false
  if !(← closeDatabase asserts (some .script)) then
    return none
  return some true

/-- `sql_database::open`. -/
def openDatabase : Program Bool := do
  let reply ← call (.opening .disk)
  if reply ≠ .code .ok then
    close (reply.handle .disk)
    return false
  let reply ← call (.opening .memory)
  if reply ≠ .code .ok then
    close (some .disk)
    close (reply.handle .memory)
    return false
  if !(← requesting loadIntoMemoryImpl) then
    return false
  if (← call .prepare) ≠ .code .ok then
    close (some .disk)
    close (some .memory)
    return false
  owning .database
  return true

/-- `main`, which writes one person and flushes. -/
def main (asserts : Bool) (person : Person) : Program (Option ExitCode) := do
  if (← call .currentPath) ≠ .code .ok then
    return some .failure
  match ← createDatabase asserts with
  | none => return none
  | some false => return some .failure
  | some true =>
    if !(← openDatabase) then
      return some .failure
    match ← requesting (write asserts person) with
    | none => return none
    | some false => return some .failure
    | some true =>
      if !(← requesting flushToDisk) then
        return some .failure
      return some .success

/-- `~sql_database`, and then the destructor of the statement. -/
def destroy (asserts : Bool) (_ : Owner) : Interaction Use Reply Bool := do
  let finalized ← perform .finalize
  let _ ← perform (.closing (some .disk))
  let _ ← perform (.closing (some .memory))
  -- the statement is still there if that has reported an error
  if asserts && finalized ≠ .code .ok then
    return (← perform .finalize) = .code .ok
  return true

/-! ## The calls that were made -/

abbrev Uses := List (Use × Reply)

/-- The connections that are opened, also where that has reported an error. -/
def opened (trace : Uses) : List Connection :=
  trace.filterMap fun
    | (.opening c, reply) => reply.handle c
    | _ => none

def closed (trace : Uses) : List Connection :=
  trace.filterMap fun
    | (.closing handle, _) => handle
    | _ => none

/-- How often the statement has been prepared. -/
def prepared (trace : Uses) : ℕ := trace.count (.prepare, .code .ok)

/-- What the finalizations of the statement have reported. -/
def finalized (trace : Uses) : List Reply :=
  trace.filterMap fun
    | (.finalize, reply) => some reply
    | _ => none

/-- The statement has returned a row. -/
def returnsRow (trace : Uses) : Bool := trace.any fun x => x.1 = .call .step && x.2 = .code .row

/-- All calls but those on an opened database. -/
def isHandle : Use × Reply → Bool
  | (.call _, _) => false
  | _ => true

def handles (trace : Uses) : Uses := trace.filter isHandle

theorem handles_append (trace trace' : Uses) :
    handles (trace ++ trace') = handles trace ++ handles trace' := List.filter_append ..

/-- The calls of an opened database. -/
def asUses (calls : List (Call × Reply)) : Uses := calls.map fun x => (.call x.1, x.2)

theorem handles_asUses (calls : List (Call × Reply)) : handles (asUses calls) = [] := by
  rw [handles, asUses, List.filter_eq_nil_iff]
  intro x hx
  obtain ⟨y, -, rfl⟩ := List.mem_map.mp hx
  exact Bool.false_ne_true

theorem filterMap_handles {β : Type} {f : Use × Reply → Option β}
    (h : ∀ call reply, f (.call call, reply) = none) (trace : Uses) :
    (handles trace).filterMap f = trace.filterMap f := by
  rw [handles, List.filterMap_filter]
  congr 1
  funext x
  obtain ⟨use, reply⟩ := x
  cases use with
  | call call => exact (h call reply).symm
  | currentPath | opening | closing | execute | prepare | finalize => rfl

theorem opened_handles (trace : Uses) : opened (handles trace) = opened trace :=
  filterMap_handles (fun _ _ => rfl) trace

theorem closed_handles (trace : Uses) : closed (handles trace) = closed trace :=
  filterMap_handles (fun _ _ => rfl) trace

theorem finalized_handles (trace : Uses) : finalized (handles trace) = finalized trace :=
  filterMap_handles (fun _ _ => rfl) trace

theorem prepared_handles (trace : Uses) : prepared (handles trace) = prepared trace :=
  List.count_filter rfl

/-- The calls are balanced: each connection is closed once, in the order in which they were opened,
and the statement is finalized once, twice where the assertion has found it still there; and then
the connections have been closed before. -/
structure Balanced (asserts : Bool) (trace : Uses) : Prop where
  closes : closed trace = opened trace
  once : (opened trace).Nodup
  finalizes : (finalized trace).length =
    prepared trace + if asserts && (finalized trace).head?.any (· ≠ .code .ok) then 1 else 0
  afterwards : ∀ before reply after, trace = before ++ (.finalize, reply) :: after →
    finalized before ≠ [] → closed before = opened trace

theorem balanced_handles {asserts : Bool} {trace : Uses} (h : Balanced asserts (handles trace)) :
    Balanced asserts trace := by
  obtain ⟨hcloses, honce, hfinalizes, hafterwards⟩ := h
  rw [closed_handles, opened_handles] at hcloses
  rw [opened_handles] at honce
  rw [finalized_handles, prepared_handles] at hfinalizes
  refine ⟨hcloses, honce, hfinalizes, ?_⟩
  rintro before reply after rfl hbefore
  rw [← finalized_handles] at hbefore
  have hclosed := hafterwards (handles before) reply (handles after) (handles_append ..) hbefore
  rw [closed_handles, opened_handles] at hclosed
  exact hclosed

theorem finalized_append (trace : Uses) (reply : Reply) (trace' : Uses) :
    finalized (trace ++ (.finalize, reply) :: trace') =
      finalized trace ++ reply :: finalized trace' := List.filterMap_append ..

/-- Of two finalizations, one of them the last call, the other is the first. -/
theorem eq_of_finalized {trace before after : Uses} {reply reply' : Reply}
    (h : trace ++ [(.finalize, reply')] = before ++ (.finalize, reply) :: after)
    (honce : (finalized trace).length = 1) (hbefore : finalized before ≠ []) : before = trace := by
  rcases List.eq_nil_or_concat after with rfl | ⟨after, last, rfl⟩
  · exact (List.append_inj' h rfl).1.symm
  · rw [List.concat_eq_append, ← List.cons_append, ← List.append_assoc] at h
    obtain rfl := (List.append_inj' h rfl).1
    rw [finalized_append, List.length_append, List.length_cons] at honce
    have hpos := List.length_pos_iff.mpr hbefore
    omega

/-! ## Every way through the program -/

/-- The calls up to the statement of the writer. -/
def opening (closed : Reply) : Uses :=
  [(.currentPath, .code .ok), (.opening .script, .code .ok), (.execute, .code .ok),
    (.closing (some .script), closed), (.opening .disk, .code .ok), (.opening .memory, .code .ok)]

/-- What has been done with the connections and the statement when the program is left. -/
inductive Way : Uses → List Owner → Prop
  | failed {trace : Uses} (hclosed : closed trace = opened trace) (honce : (opened trace).Nodup)
      (hfinalized : finalized trace = []) (hprepared : prepared trace = 0) : Way trace []
  | database (closed : Reply) : Way (opening closed ++ [(.prepare, .code .ok)]) [.database]

/-- It is left so, or aborted after the statement has returned a row. It may also be aborted while
there is no database. -/
def Ends (first : Uses) (result : Option ExitCode) (owned : List Owner) : Prop :=
  (result = none ∧ returnsRow first = true) ∨
    (result = none → owned = []) ∧ Way (handles first) owned

/-- A way on which the connections `cs` are opened, and no database. -/
theorem ends_failed {first trace : Uses} {result : Option ExitCode} (cs : List Connection)
    (h : handles first = trace) (hopened : opened trace = cs) (hclosed : closed trace = cs)
    (honce : cs.Nodup) (hfinalized : finalized trace = []) (hprepared : prepared trace = 0) :
    Ends first result [] := by
  subst h hopened
  exact .inr ⟨fun _ => rfl, .failed hclosed honce hfinalized hprepared⟩

theorem returnsRow_of_mem {before : Uses} {written : List (Call × Reply)}
    (h : (Call.step, Code.row) ∈ written.map fun x => (x.1, x.2.toCode)) :
    returnsRow (before ++ asUses written) = true := by
  obtain ⟨⟨call, reply⟩, hmem, heq⟩ := List.mem_map.mp h
  rw [Prod.mk.injEq] at heq
  obtain ⟨rfl, hrow⟩ := heq
  cases reply with
  | noMemory => cases hrow
  | code c =>
      obtain rfl : c = .row := hrow
      have hcall : (Use.call .step, Reply.code .row) ∈ asUses written := List.mem_map_of_mem hmem
      exact List.any_eq_true.mpr ⟨_, List.mem_append_right _ hcall, rfl⟩

/-- The calls on an opened database leave the rest as it is. -/
theorem handles_requesting {before trace : Uses} {calls : List (Call × Reply)}
    (h : handles before = trace) : handles (before ++ asUses calls) = trace := by
  rw [handles_append, handles_asUses, List.append_nil]
  exact h

/-- `close_database` aborts, or calls `sqlite3_close`. -/
theorem ensures_closeDatabase {β : Type} {Q : Uses → β → List Owner → Prop} {asserts : Bool}
    {handle : Option Connection} {next : Bool → Program β} {before : Uses} {owned : List Owner} :
    Ensures Q (closeDatabase asserts handle >>= next) before owned ↔
      ((asserts && handle.isNone) = true → Ensures Q (next false) before owned) ∧
      (¬(asserts && handle.isNone) = true →
        ∀ reply, Ensures Q (next true) (before ++ [(.closing handle, reply)]) owned) := by
  rw [ensures_bind]
  exact ensures_ite

theorem not_null {asserts : Bool} {c : Connection} : ¬(asserts && (some c).isNone) = true := by
  rw [Option.isNone_some, Bool.and_false]
  exact Bool.false_ne_true

theorem ends_opened {before : Uses} {closed : Reply} (person : Person) (asserts : Bool)
    (h : handles before = opening closed ++ [(.prepare, .code .ok)]) :
    Ensures Ends (do
      match ← requesting (write asserts person) with
      | none => return none
      | some false => return some .failure
      | some true =>
        if !(← requesting flushToDisk) then
          return some .failure
        return some .success) before [.database] := by
  refine ensures_bind.mpr (ensures_lift fun written result hruns => ?_)
  have hwritten : handles (before ++ asUses written) = opening closed ++ [(.prepare, .code .ok)] :=
    handles_requesting h
  match result, hruns with
  | none, hruns =>
    have hrow : (Call.step, Code.row) ∈ written.map fun x => (x.1, x.2.toCode) := by
      rcases write_cases hruns with ⟨_, -, hresult⟩ | ⟨-, hrow⟩
      · cases hresult
      · exact hrow nofun
    exact .inl ⟨rfl, returnsRow_of_mem hrow⟩
  | some false, _ => exact .inr ⟨nofun, hwritten ▸ .database closed⟩
  | some true, _ =>
    refine ensures_bind.mpr (ensures_lift fun flushed ok _ => ?_)
    have hflushed : handles (before ++ asUses written ++ asUses flushed) =
        opening closed ++ [(.prepare, .code .ok)] := handles_requesting hwritten
    cases ok with
    | false => exact .inr ⟨nofun, hflushed ▸ .database closed⟩
    | true => exact .inr ⟨nofun, hflushed ▸ .database closed⟩

theorem loadIntoMemoryImpl_true {trace : List (Call × Code)} {ok : Bool}
    (h : Runs loadIntoMemoryImpl trace ok) : ok = true := by
  rcases runs_check.mp h with ⟨-, hok⟩ | ⟨_, _, rfl, -, hrest⟩
  · exact hok
  · exact (runs_pure.mp hrest).2

/-- What follows `create_database`. -/
theorem ends_openDatabase (closed : Reply) (person : Person) (asserts : Bool) :
    Ensures Ends (do
      if !(← openDatabase) then
        return some .failure
      match ← requesting (write asserts person) with
      | none => return none
      | some false => return some .failure
      | some true =>
        if !(← requesting flushToDisk) then
          return some .failure
        return some .success) ((opening closed).take 4) [] := by
  refine ensures_bind.mpr (ensures_expect.mpr ⟨fun disk hdisk closedDisk => ?_, ?_⟩)
  · cases disk with
    | code c => exact ends_failed [.script, .disk] rfl rfl rfl (by decide) rfl rfl
    | noMemory => exact ends_failed [.script] rfl rfl rfl (by decide) rfl rfl
  refine ensures_expect.mpr ⟨fun memory hmemory closedDisk closedMemory => ?_, ?_⟩
  · cases memory with
    | code c => exact ends_failed [.script, .disk, .memory] rfl rfl rfl (by decide) rfl rfl
    | noMemory => exact ends_failed [.script, .disk] rfl rfl rfl (by decide) rfl rfl
  refine ensures_bind.mpr (ensures_lift fun loaded ok hruns => ?_)
  -- no load fails, so the `return` that closes nothing is not reached
  obtain rfl := loadIntoMemoryImpl_true hruns
  have hloaded : ∀ after, handles (opening closed ++ asUses loaded ++ after) =
      opening closed ++ handles after := by
    intro after
    rw [handles_append, handles_requesting rfl]
    rfl
  refine ensures_expect.mpr ⟨fun reply hreply closedDisk closedMemory => ?_, ?_⟩
  · have hcalls : handles (opening closed ++ asUses loaded ++ [(.prepare, reply)] ++
        [(.closing (some .disk), closedDisk)] ++ [(.closing (some .memory), closedMemory)]) =
        opening closed ++ [(.prepare, reply), (.closing (some .disk), closedDisk),
          (.closing (some .memory), closedMemory)] := by
      rw [List.append_assoc, List.append_assoc, hloaded]
      rfl
    refine ends_failed [.script, .disk, .memory] hcalls rfl rfl (by decide) rfl ?_
    match reply, hreply with
    | .code .ok, hreply => exact absurd rfl hreply
    | .code .done, _ | .code .row, _ | .code .error, _ | .noMemory, _ => rfl
  · exact ends_opened person asserts (hloaded [(.prepare, .code .ok)])

theorem ends_main (asserts : Bool) (person : Person) :
    Ensures Ends (main asserts person) [] [] := by
  refine ensures_expect.mpr ⟨fun path hpath => ?_, ?_⟩
  · exact ends_failed [] rfl rfl rfl (by decide) rfl rfl
  refine ensures_bind.mpr (ensures_expect.mpr ⟨fun script hscript => ?_, ?_⟩)
  · refine ensures_closeDatabase.mpr ⟨fun hnull => ?_, fun _ closed => ?_⟩
    · cases script with
      | code c => exact absurd hnull not_null
      | noMemory => exact ends_failed [] rfl rfl rfl (by decide) rfl rfl
    · cases script with
      | code c => exact ends_failed [.script] rfl rfl rfl (by decide) rfl rfl
      | noMemory => exact ends_failed [] rfl rfl rfl (by decide) rfl rfl
  refine ensures_expect.mpr ⟨fun executed hexecuted => ?_, ?_⟩
  · refine ensures_closeDatabase.mpr ⟨fun hnull => absurd hnull not_null, fun _ closed => ?_⟩
    exact ends_failed [.script] rfl rfl rfl (by decide) rfl rfl
  · refine ensures_closeDatabase.mpr ⟨fun hnull => absurd hnull not_null, fun _ closed => ?_⟩
    exact ends_openDatabase closed person asserts

/-! ## The destructor of the database -/

/-- A second finalization is made by the assertion, where the first has reported an error. -/
theorem destroy_runs {asserts ok : Bool} {owner : Owner} {trace : Uses}
    (h : Runs (destroy asserts owner) trace ok) :
    ∃ reply closedDisk closedMemory again,
      trace = [(.finalize, reply), (.closing (some .disk), closedDisk),
        (.closing (some .memory), closedMemory)] ++ again ∧
      (again = [] ∧ (asserts && reply ≠ .code .ok) = false ∨
        ∃ reply', again = [(.finalize, reply')] ∧ (asserts && reply ≠ .code .ok) = true) := by
  obtain ⟨reply, _, rfl, h₁⟩ := runs_perform.mp h
  obtain ⟨closedDisk, _, rfl, h₂⟩ := runs_perform.mp h₁
  obtain ⟨closedMemory, again, rfl, h₃⟩ := runs_perform.mp h₂
  refine ⟨reply, closedDisk, closedMemory, again, rfl, ?_⟩
  split at h₃
  · next hstill =>
      obtain ⟨reply', rest, rfl, h₄⟩ := runs_perform.mp h₃
      obtain ⟨rfl, -⟩ := runs_pure.mp h₄
      exact .inr ⟨reply', rfl, hstill⟩
  · next hforgotten =>
      obtain ⟨rfl, -⟩ := runs_pure.mp h₃
      exact .inl ⟨rfl, Bool.eq_false_iff.mpr hforgotten⟩

/-! ## Main result -/

/-- Whatever its calls are answered, a run of the program in which the statement has returned no row
closes each connection once. It finalizes the statement once, too, unless that reports an error and
the assertions are compiled in: then the statement is finalized again, after its database has been
closed. -/
theorem main_closes (asserts : Bool) (person : Person) (trace : Uses) (result : Option ExitCode)
    (hruns : Runs ((main asserts person).enter (destroy asserts) []) trace result)
    (hrow : returnsRow trace = false) : Balanced asserts trace := by
  obtain ⟨first, left, owned, last, rfl, hends, hleaves⟩ :=
    (ends_main asserts person).enter hruns
  rw [List.nil_append] at hends
  rcases hends with ⟨-, hfirst⟩ | ⟨hleft, hway⟩
  · rw [returnsRow, List.any_append, ← returnsRow, hfirst] at hrow
    cases hrow
  obtain ⟨ok, hleave⟩ : ∃ ok, Runs (leave (destroy asserts) owned) last ok := by
    cases hleaves with
    | aborted =>
        obtain rfl := hleft rfl
        exact ⟨true, .done true⟩
    | left h => exact ⟨true, h⟩
    | stopped h => exact ⟨false, h⟩
  refine balanced_handles ?_
  rw [handles_append]
  -- from here on only the calls beside the requests matter
  generalize handles first = calls at hway
  cases hway with
  | failed hclosed honce hfinalized hprepared =>
      obtain ⟨rfl, -⟩ := runs_pure.mp hleave
      have hcalls : calls ++ handles [] = calls := List.append_nil calls
      rw [hcalls]
      refine ⟨hclosed, honce, ?_, ?_⟩
      · rw [hfinalized, hprepared, List.head?_nil, Option.any_none, Bool.and_false]
        rfl
      · rintro before reply after rfl
        rw [finalized_append] at hfinalized
        exact absurd hfinalized (List.append_ne_nil_of_right_ne_nil _ (List.cons_ne_nil _ _))
  | database closed =>
      have hdestroy : ∃ ok, Runs (destroy asserts .database) last ok := by
        rcases runs_check.mp hleave with ⟨h, -⟩ | ⟨_, _, rfl, h, hnone⟩
        · exact ⟨false, h⟩
        · obtain ⟨rfl, -⟩ := runs_pure.mp hnone
          rw [List.append_nil]
          exact ⟨true, h⟩
      obtain ⟨_, h⟩ := hdestroy
      obtain ⟨reply, closedDisk, closedMemory, again, rfl, hagain⟩ := destroy_runs h
      have honce : [Connection.script, .disk, .memory].Nodup := by decide
      rcases hagain with ⟨rfl, hforgotten⟩ | ⟨reply', rfl, hstill⟩
      · refine ⟨rfl, honce, ?_, fun before reply' after heq hbefore => ?_⟩
        · change 1 = 1 + if asserts && reply ≠ .code .ok then 1 else 0
          rw [hforgotten]
          rfl
        · have hlength := congrArg (fun trace => (finalized trace).length) heq
          rw [finalized_append, List.length_append, List.length_cons] at hlength
          change 1 = _ at hlength
          have hpos := List.length_pos_iff.mpr hbefore
          omega
      · refine ⟨rfl, honce, ?_, fun before reply'' after heq hbefore => ?_⟩
        · change 2 = 1 + if asserts && reply ≠ .code .ok then 1 else 0
          rw [hstill]
          rfl
        · obtain rfl : before = opening closed ++ [(.prepare, .code .ok), (.finalize, reply),
              (.closing (some .disk), closedDisk), (.closing (some .memory), closedMemory)] :=
            eq_of_finalized heq rfl hbefore
          rfl

/-- The step of the statement reports an error, and its finalization does, too. -/
def finalizedTwice : Uses :=
  opening (.code .ok) ++
    [(.call (.backupInit .memory .disk), .code .ok),
      (.call (.backupStep .memory .disk), .code .done),
      (.call (.backupFinish .memory .disk), .code .ok), (.prepare, .code .ok),
      (.call (.bindInt 1 tom.age), .code .ok),
      (.call (.bindText 2 (untilNul tom.name)), .code .ok), (.call .step, .code .error),
      (.finalize, .code .error), (.closing (some .disk), .code .ok),
      (.closing (some .memory), .code .ok), (.finalize, .code .error)]

theorem main_closes_finalizedTwice :
    Balanced true finalizedTwice ∧ finalized finalizedTwice = [.code .error, .code .error] := by
  have hruns : Runs ((main true tom).enter (destroy true) []) finalizedTwice none := by
    repeat' constructor
  exact ⟨main_closes true tom finalizedTwice none hruns rfl, rfl⟩

/-- Where `sqlite3_open` has no memory for the connection, the assertion of `close_database` aborts
the program, and without it `sqlite3_close` is called with `nullptr`. -/
example :
    Runs ((main true tom).enter (destroy true) [])
      [(.currentPath, .code .ok), (.opening .script, .noMemory)] none ∧
    Runs ((main false tom).enter (destroy false) [])
      [(.currentPath, .code .ok), (.opening .script, .noMemory), (.closing none, .code .ok)]
      (some .failure) := by
  constructor <;> repeat' constructor

end InterProcess.Sqlite
