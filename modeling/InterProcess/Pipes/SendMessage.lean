import InterProcess.Lib.SideBySide
import InterProcess.Pipes.Pipe

/-!
# `send_message_between_processes`

After the `fork` parent and child have a pipe each, with the same descriptors on
one and the same pipe of the kernel. Each closes the end it does not use, the
parent writes its message, and the child reads it.

The kernel lets a reader wait for as long as anybody holds the write end, and
fails a write once nobody holds the read end. Neither comes to that here:
`message_arrives`.
-/

namespace InterProcess.Pipes

open Function Interaction

inductive Process
  | parent
  | child
  deriving DecidableEq

/-! ## The program -/

/-- How a process ends. -/
inductive Ending
  | aborted
  | exitSuccess
  deriving DecidableEq

/-- `sizeof(buffer)`. -/
def bufferSize : ℕ := 128

/-- The end of the scope of the pipe. -/
def leave (pipe : Pipe) : Program Ending := do
  match ← pipe.destroy with
  | none => return .aborted
  | some _ => return .exitSuccess

def childProcess (pipe : Pipe) : Program Ending := do
  match ← pipe.closeWriteEnd with
  | some (true, pipe) =>
    match ← pipe.read bufferSize with
    | some (true, buffer) =>
      let _ ← perform (.printf buffer)
      match ← pipe.closeReadEnd with
      | some (true, pipe) => leave pipe
      | _ => return .aborted
    | _ => return .aborted
  | _ => return .aborted

def parentProcess (message : List UInt8) (pipe : Pipe) : Program Ending := do
  match ← pipe.closeReadEnd with
  | some (true, pipe) =>
    match ← pipe.write message with
    | some true =>
      match ← pipe.closeWriteEnd with
      | some (true, pipe) => leave pipe
      | _ => return .aborted
    | _ => return .aborted
  | _ => return .aborted

/-! ## The kernel -/

/-- What is in the pipe, who holds which end of it, and what has been printed. -/
structure Kernel where
  buffer : List UInt8
  holds : Process → EndIndex → Bool
  printed : List (List UInt8)

/-- Nobody holds this end. -/
def Kernel.abandoned (kernel : Kernel) (index : EndIndex) : Bool :=
  !kernel.holds .parent index && !kernel.holds .child index

def Kernel.release (kernel : Kernel) (p : Process) (index : EndIndex) : Kernel :=
  { kernel with holds := update kernel.holds p (update (kernel.holds p) index false) }

/-- A pipe of `capacity` bytes; what fits is written at once. -/
def serve (capacity : ℕ) (kernel : Kernel) (p : Process) : Call → Option (Answer × Kernel)
  | .close index =>
      if kernel.holds p index then some ({ value := 0 }, kernel.release p index)
      else some ({ value := -1 }, kernel)
  | .write index data =>
      if index = readEndIndex ∨ kernel.holds p index = false ∨ kernel.abandoned readEndIndex then
        some ({ value := -1 }, kernel)
      else if kernel.buffer.length + data.length ≤ capacity then
        some ({ value := data.length }, { kernel with buffer := kernel.buffer ++ data })
      else none
  | .read index count =>
      if index = writeEndIndex ∨ kernel.holds p index = false then some ({ value := -1 }, kernel)
      else if kernel.buffer = [] then
        if kernel.abandoned writeEndIndex then some ({ value := 0 }, kernel) else none
      else
        some ({ value := (kernel.buffer.take count).length, data := kernel.buffer.take count },
          { kernel with buffer := kernel.buffer.drop count })
  | .printf text =>
      some ({ value := text.length }, { kernel with printed := kernel.printed ++ [text] })

abbrev Processes := SideBySide Kernel Process Call Answer Ending

def programs (message : List UInt8) : Process → Program Ending
  | .parent => parentProcess message {}
  | .child => childProcess {}

/-- After the `fork`. -/
def forked (message : List UInt8) : Processes :=
  { kernel := { buffer := [], holds := fun _ _ => true, printed := [] }
    programs := programs message }

abbrev step (capacity : ℕ) : Processes → Process → Option Processes :=
  SideBySide.step (serve capacity)

/-! ## The stages of the processes -/

/-- What the calls are answered in a run without failures. -/
def closeAnswer : Answer := { value := 0 }

def writeAnswer (message : List UInt8) : Answer := { value := message.length }

def readAnswer (message : List UInt8) : Answer := { value := message.length, data := message }

inductive ParentStage
  | closeRead
  | write
  | closeWrite
  | finished
  deriving DecidableEq

inductive ChildStage
  | closeWrite
  | read
  | print
  | closeRead
  | finished
  deriving DecidableEq

def ParentStage.program (message : List UInt8) : ParentStage → Program Ending
  | .closeRead => parentProcess message {}
  | .write => (parentProcess message {}).resume closeAnswer
  | .closeWrite =>
      ((parentProcess message {}).resume closeAnswer).resume (writeAnswer message)
  | .finished => .done .exitSuccess

def ChildStage.program (message : List UInt8) : ChildStage → Program Ending
  | .closeWrite => childProcess {}
  | .read => (childProcess {}).resume closeAnswer
  | .print => ((childProcess {}).resume closeAnswer).resume (readAnswer message)
  | .closeRead =>
      (((childProcess {}).resume closeAnswer).resume (readAnswer message)).resume
        (writeAnswer message)
  | .finished => .done .exitSuccess

variable {message : List UInt8}

theorem operationFailed_natCast {n : ℕ} (h : n ≤ bufferSize) : operationFailed n = false := by
  unfold bufferSize at h
  refine decide_eq_false fun heq => ?_
  have htoInt := congrArg Int32.toInt heq
  rw [Int32.toInt_ofInt, Int.bmod_def, Int32.size] at htoInt
  have hneg : (-1 : Int32).toInt = -1 := by decide
  omega

theorem resume_write (pipe : Pipe) (hopen : pipe.isWriteEndOpen = true)
    (hlength : message.length ≤ bufferSize) :
    (pipe.write message).op? = some (.write writeEndIndex message) ∧
      (pipe.write message).resume (writeAnswer message) = pure (some true) := by
  unfold Pipe.write
  rw [if_neg (by rw [hopen]; exact Bool.false_ne_true)]
  refine ⟨rfl, ?_⟩
  show (if (!operationFailed message.length) = true then _ else _) = _
  rw [if_pos (by rw [operationFailed_natCast hlength]; rfl)]
  exact if_neg (not_not.mpr rfl)

theorem resume_read (pipe : Pipe) (hopen : pipe.isReadEndOpen = true)
    (hlength : message.length ≤ bufferSize) :
    (pipe.read bufferSize).op? = some (.read readEndIndex bufferSize) ∧
      (pipe.read bufferSize).resume (readAnswer message) = pure (some (true, message)) := by
  unfold Pipe.read
  rw [if_neg (by rw [hopen]; exact Bool.false_ne_true)]
  refine ⟨rfl, ?_⟩
  show (if (!operationFailed message.length) = true then _ else _) = _
  rw [if_pos (by rw [operationFailed_natCast hlength]; rfl)]
  refine if_neg ?_
  show ¬((message.length : ℤ) < 0 ∨ (bufferSize : ℤ) < message.length)
  omega

/-- The pipes as their processes have them when they use them. -/
def parentPipe : Pipe := { endOpen := 0b11111110 }

def childPipe : Pipe := { endOpen := 0b11111101 }

/-- What a process does next, the answer it counts on, and the stage after it. -/
def ParentStage.next (message : List UInt8) : ParentStage → Option (Call × Answer × ParentStage)
  | .closeRead => some (.close readEndIndex, closeAnswer, .write)
  | .write => some (.write writeEndIndex message, writeAnswer message, .closeWrite)
  | .closeWrite => some (.close writeEndIndex, closeAnswer, .finished)
  | .finished => none

def ChildStage.next (message : List UInt8) : ChildStage → Option (Call × Answer × ChildStage)
  | .closeWrite => some (.close writeEndIndex, closeAnswer, .read)
  | .read => some (.read readEndIndex bufferSize, readAnswer message, .print)
  | .print => some (.printf message, writeAnswer message, .closeRead)
  | .closeRead => some (.close readEndIndex, closeAnswer, .finished)
  | .finished => none

theorem ParentStage.op?_program (h : message.length ≤ bufferSize) (stage : ParentStage) :
    (stage.program message).op? = (stage.next message).map Prod.fst := by
  obtain ⟨hop, hrest⟩ := resume_write parentPipe rfl h
  cases stage with
  | closeRead | write | finished => rfl
  | closeWrite =>
      show (resume (parentPipe.write message >>= _) _).op? = _
      rw [resume_bind hop, hrest]
      rfl

theorem ParentStage.resume_program (h : message.length ≤ bufferSize) {stage stage' : ParentStage}
    {op : Call} {a : Answer} (hnext : stage.next message = some (op, a, stage')) :
    (stage.program message).resume a = stage'.program message := by
  obtain ⟨hop, hrest⟩ := resume_write parentPipe rfl h
  cases stage with
  | closeRead | write =>
      cases hnext
      rfl
  | closeWrite =>
      cases hnext
      show (resume (parentPipe.write message >>= _) _).resume closeAnswer = _
      rw [resume_bind hop, hrest]
      rfl
  | finished => cases hnext

theorem ChildStage.op?_program (h : message.length ≤ bufferSize) (stage : ChildStage) :
    (stage.program message).op? = (stage.next message).map Prod.fst := by
  obtain ⟨hop, hrest⟩ := resume_read childPipe rfl h
  cases stage with
  | closeWrite | read | finished => rfl
  | print =>
      show (resume (childPipe.read bufferSize >>= _) _).op? = _
      rw [resume_bind hop, hrest]
      rfl
  | closeRead =>
      show ((resume (childPipe.read bufferSize >>= _) _).resume _).op? = _
      rw [resume_bind hop, hrest]
      rfl

theorem ChildStage.resume_program (h : message.length ≤ bufferSize) {stage stage' : ChildStage}
    {op : Call} {a : Answer} (hnext : stage.next message = some (op, a, stage')) :
    (stage.program message).resume a = stage'.program message := by
  obtain ⟨hop, hrest⟩ := resume_read childPipe rfl h
  cases stage with
  | closeWrite | read | print =>
      cases hnext
      rfl
  | closeRead =>
      cases hnext
      show ((resume (childPipe.read bufferSize >>= _) _).resume _).resume closeAnswer = _
      rw [resume_bind hop, hrest]
      rfl
  | finished => cases hnext

def ParentStage.written : ParentStage → Bool
  | .closeRead | .write => false
  | .closeWrite | .finished => true

def ChildStage.hasRead : ChildStage → Bool
  | .closeWrite | .read => false
  | .print | .closeRead | .finished => true

def ChildStage.hasPrinted : ChildStage → Bool
  | .closeWrite | .read | .print => false
  | .closeRead | .finished => true

def heldBy (parent : ParentStage) (child : ChildStage) : Process → EndIndex → Bool
  | .parent, index => if index = readEndIndex then parent = .closeRead else parent ≠ .finished
  | .child, index => if index = readEndIndex then child ≠ .finished else child = .closeWrite

/-- The kernel when the processes are at these stages. -/
def kernelAt (message : List UInt8) (parent : ParentStage) (child : ChildStage) : Kernel :=
  { buffer := if parent.written && !child.hasRead then message else []
    holds := heldBy parent child
    printed := if child.hasPrinted then [message] else [] }

def programsAt (message : List UInt8) (parent : ParentStage) (child : ChildStage) :
    Process → Program Ending
  | .parent => parent.program message
  | .child => child.program message

/-- The child does not read before the parent has written. -/
def Ordered (parent : ParentStage) (child : ChildStage) : Prop :=
  child.hasRead = true → parent.written = true

variable {capacity : ℕ} {parent parent' : ParentStage} {child child' : ChildStage} {op : Call}
  {a : Answer}

/-- Closing an end changes who holds it, and nothing else. -/
theorem serve_close {p : Process} {index : EndIndex} (hheld : heldBy parent child p index = true)
    (hgiven : heldBy parent' child' p index = false)
    (hkept : ∀ j, j ≠ index → heldBy parent' child' p j = heldBy parent child p j)
    (hother : ∀ q, q ≠ p → heldBy parent' child' q = heldBy parent child q)
    (hwritten : (parent'.written && !child'.hasRead) = (parent.written && !child.hasRead))
    (hprinted : child'.hasPrinted = child.hasPrinted) :
    serve capacity (kernelAt message parent child) p (.close index) =
      some (closeAnswer, kernelAt message parent' child') := by
  have hholds : update (heldBy parent child) p (update (heldBy parent child p) index false) =
      heldBy parent' child' := by
    funext q j
    by_cases hq : q = p
    · subst hq
      rw [update_self]
      by_cases hj : j = index
      · subst hj
        rw [update_self, hgiven]
      · rw [update_of_ne hj, hkept j hj]
    · rw [update_of_ne hq, hother q hq]
  have hserve : (kernelAt message parent child).holds p index = true := hheld
  rw [serve, if_pos hserve]
  simp only [kernelAt, Kernel.release, hholds, hwritten, hprinted, closeAnswer]

theorem eq_readEndIndex {index : EndIndex} (h : index ≠ writeEndIndex) :
    index = readEndIndex := by
  revert index
  decide

theorem serve_parent (hcapacity : message.length ≤ capacity) (hordered : Ordered parent child)
    (hnext : parent.next message = some (op, a, parent')) :
    serve capacity (kernelAt message parent child) .parent op =
      some (a, kernelAt message parent' child) := by
  have hother : ∀ (stage stage' : ParentStage) q, q ≠ Process.parent →
      heldBy stage child q = heldBy stage' child q := by
    intro stage stage' q hq
    cases q with
    | parent => exact absurd rfl hq
    | child => rfl
  cases parent with
  | closeRead =>
      cases hnext
      refine serve_close rfl rfl (fun j hj => ?_) (hother _ _) rfl rfl
      simp only [heldBy, if_neg hj]
      rfl
  | write =>
      cases hnext
      -- the child has the read end, since it does not close it before it has read
      have hread : child.hasRead = false := Bool.eq_false_iff.mpr fun hread => by
        cases hordered hread
      have hheld : (kernelAt message .write child).holds .child readEndIndex = true := by
        cases child <;> first | rfl | cases hread
      have hheld' : (kernelAt message .write child).holds .parent writeEndIndex = true := rfl
      rw [serve, if_neg, if_pos]
      · simp only [kernelAt, hread, writeAnswer]
        rfl
      · simpa [kernelAt, ParentStage.written] using hcapacity
      · rintro (hno | hno | hno)
        · exact absurd hno (by decide)
        · rw [hheld'] at hno
          cases hno
        · rw [Kernel.abandoned, hheld, Bool.not_true, Bool.and_false] at hno
          cases hno
  | closeWrite =>
      cases hnext
      refine serve_close rfl rfl (fun j hj => ?_) (hother _ _) rfl rfl
      rw [eq_readEndIndex hj]
      rfl
  | finished => cases hnext

/-- The child is served what it counts on, except that it waits for the message. -/
theorem serve_child (hne : message ≠ []) (hlength : message.length ≤ bufferSize)
    (hnext : child.next message = some (op, a, child')) :
    serve capacity (kernelAt message parent child) .child op =
      if child = .read ∧ parent.written = false then none
      else some (a, kernelAt message parent child') := by
  have hother : ∀ (stage stage' : ChildStage) q, q ≠ Process.child →
      heldBy parent stage q = heldBy parent stage' q := by
    intro stage stage' q hq
    cases q with
    | parent => rfl
    | child => exact absurd rfl hq
  cases child with
  | closeWrite =>
      cases hnext
      rw [if_neg (fun hno => by cases hno.1)]
      refine serve_close rfl rfl (fun j hj => ?_) (hother _ _) rfl rfl
      rw [eq_readEndIndex hj]
      rfl
  | read =>
      cases hnext
      have hheld : (kernelAt message parent .read).holds .child readEndIndex = true := rfl
      rw [serve, if_neg]
      · cases hwritten : parent.written with
        | false =>
            have hempty : (kernelAt message parent .read).buffer = [] := by
              rw [kernelAt, hwritten]
              rfl
            have hparent : (kernelAt message parent .read).holds .parent writeEndIndex = true := by
              cases parent <;> first | rfl | cases hwritten
            rw [if_pos hempty, if_neg, if_pos ⟨rfl, rfl⟩]
            rw [Kernel.abandoned, hparent]
            exact Bool.false_ne_true
        | true =>
            have hbuffer : (kernelAt message parent .read).buffer = message := by
              rw [kernelAt, hwritten]
              rfl
            rw [if_neg (by rw [hbuffer]; exact hne), if_neg (by rintro ⟨-, ⟨⟩⟩), hbuffer,
              List.take_of_length_le hlength, List.drop_of_length_le hlength]
            simp only [kernelAt, readAnswer, hwritten]
            rfl
      · rintro (hno | hno)
        · exact absurd hno (by decide)
        · rw [hheld] at hno
          cases hno
  | print =>
      cases hnext
      rw [if_neg (fun hno => by cases hno.1)]
      rfl
  | closeRead =>
      cases hnext
      rw [if_neg (fun hno => by cases hno.1)]
      refine serve_close rfl rfl (fun j hj => ?_) (hother _ _) ?_ rfl
      · simp only [heldBy, if_neg hj]
        rfl
      · rfl
  | finished => cases hnext

/-- The processes are at these stages, and so is the kernel. -/
structure At (message : List UInt8) (parent : ParentStage) (child : ChildStage) (σ : Processes) :
    Prop where
  ordered : Ordered parent child
  kernel : σ.kernel = kernelAt message parent child
  programs : σ.programs = programsAt message parent child

theorem programsAt_parent : update (programsAt message parent child) .parent
    (parent'.program message) = programsAt message parent' child := by
  funext p
  cases p <;> rfl

theorem programsAt_child : update (programsAt message parent child) .child
    (child'.program message) = programsAt message parent child' := by
  funext p
  cases p <;> rfl

def ParentStage.rank : ParentStage → ℕ
  | .closeRead => 0
  | .write => 1
  | .closeWrite => 2
  | .finished => 3

def ChildStage.rank : ChildStage → ℕ
  | .closeWrite => 0
  | .read => 1
  | .print => 2
  | .closeRead => 3
  | .finished => 4

section Run

variable {σ σ' : Processes} {p : Process}

theorem ParentStage.rank_next {stage stage' : ParentStage}
    (h : stage.next message = some (op, a, stage')) :
    stage'.rank = stage.rank + 1 ∧ (stage.written = true → stage'.written = true) := by
  cases stage with
  | finished => cases h
  | closeRead | write | closeWrite =>
      cases h
      exact ⟨rfl, fun hwritten => by first | rfl | cases hwritten⟩

theorem ChildStage.rank_next {stage stage' : ChildStage}
    (h : stage.next message = some (op, a, stage')) :
    stage'.rank = stage.rank + 1 ∧
      (stage'.hasRead = true → stage.hasRead = true ∨ stage = .read) := by
  cases stage with
  | finished => cases h
  | closeWrite | read | print | closeRead =>
      cases h
      refine ⟨rfl, fun hread => ?_⟩
      first | exact .inl hread | exact .inr rfl

theorem At.move (hne : message ≠ []) (hlength : message.length ≤ bufferSize)
    (hcapacity : message.length ≤ capacity) (h : At message parent child σ)
    (hstep : step capacity σ p = some σ') :
    ∃ parent' child', At message parent' child' σ' ∧
      parent'.rank + child'.rank = parent.rank + child.rank + 1 := by
  obtain ⟨op, a, kernel, hop, hserve, rfl⟩ := SideBySide.step_eq_some hstep
  rw [h.kernel] at hserve
  rw [h.programs] at hop ⊢
  cases p with
  | parent =>
      change (parent.program message).op? = some op at hop
      rw [ParentStage.op?_program hlength] at hop
      obtain ⟨⟨op, answer, parent'⟩, hnext, rfl⟩ := Option.map_eq_some_iff.mp hop
      rw [serve_parent hcapacity h.ordered hnext] at hserve
      cases hserve
      obtain ⟨hrank, hwritten⟩ := ParentStage.rank_next hnext
      refine ⟨parent', child, ⟨fun hread => hwritten (h.ordered hread), rfl, ?_⟩, by omega⟩
      show update (programsAt message parent child) .parent ((parent.program message).resume a) = _
      rw [ParentStage.resume_program hlength hnext, programsAt_parent]
  | child =>
      change (child.program message).op? = some op at hop
      rw [ChildStage.op?_program hlength] at hop
      obtain ⟨⟨op, answer, child'⟩, hnext, rfl⟩ := Option.map_eq_some_iff.mp hop
      rw [serve_child hne hlength hnext] at hserve
      split at hserve
      · cases hserve
      · next hready =>
          cases hserve
          obtain ⟨hrank, hread⟩ := ChildStage.rank_next hnext
          refine ⟨parent, child', ⟨fun hread' => ?_, rfl, ?_⟩, by omega⟩
          · rcases hread hread' with hread | hread
            · exact h.ordered hread
            · exact (Bool.not_eq_false _).mp fun hunwritten => hready ⟨hread, hunwritten⟩
          · show update (programsAt message parent child) .child
              ((child.program message).resume a) = _
            rw [ChildStage.resume_program hlength hnext, programsAt_child]

theorem At.moves (hne : message ≠ []) (hlength : message.length ≤ bufferSize)
    (hcapacity : message.length ≤ capacity) {ps : List Process} (h : At message parent child σ)
    (hrun : Lts.run (step capacity) σ ps = some σ') :
    ∃ parent' child', At message parent' child' σ' ∧
      parent'.rank + child'.rank = parent.rank + child.rank + ps.length := by
  induction ps generalizing parent child σ with
  | nil =>
      rw [Lts.run_nil, Option.some.injEq] at hrun
      exact ⟨parent, child, hrun ▸ h, rfl⟩
  | cons p ps ih =>
      rw [Lts.run_cons, Option.bind_eq_some_iff] at hrun
      obtain ⟨σ₁, hσ₁, hrun⟩ := hrun
      obtain ⟨parent₁, child₁, h₁, hrank₁⟩ := h.move hne hlength hcapacity hσ₁
      obtain ⟨parent', child', h', hrank⟩ := ih h₁ hrun
      refine ⟨parent', child', h', ?_⟩
      rw [List.length_cons]
      omega

/-- A parent that is not done can go on, and then so can the child. -/
theorem At.finished (hne : message ≠ []) (hlength : message.length ≤ bufferSize)
    (hcapacity : message.length ≤ capacity) (h : At message parent child σ)
    (hstuck : ∀ p, step capacity σ p = none) : parent = .finished ∧ child = .finished := by
  have hparent : parent = .finished := by
    by_contra hno
    obtain ⟨⟨op, answer, parent'⟩, hnext⟩ : ∃ next, parent.next message = some next := by
      cases parent with
      | finished => exact absurd rfl hno
      | closeRead | write | closeWrite => exact ⟨_, rfl⟩
    have hop : (σ.programs .parent).op? = some op := by
      rw [h.programs]
      show (parent.program message).op? = _
      rw [ParentStage.op?_program hlength, hnext]
      rfl
    have hserve : serve capacity σ.kernel .parent op =
        some (answer, kernelAt message parent' child) := by
      rw [h.kernel]
      exact serve_parent hcapacity h.ordered hnext
    have hno := hstuck .parent
    rw [step, SideBySide.step_of_serve hop hserve] at hno
    cases hno
  refine ⟨hparent, ?_⟩
  by_contra hno
  obtain ⟨⟨op, answer, child'⟩, hnext⟩ : ∃ next, child.next message = some next := by
    cases child with
    | finished => exact absurd rfl hno
    | closeWrite | read | print | closeRead => exact ⟨_, rfl⟩
  have hop : (σ.programs .child).op? = some op := by
    rw [h.programs]
    show (child.program message).op? = _
    rw [ChildStage.op?_program hlength, hnext]
    rfl
  have hserve : serve capacity σ.kernel .child op =
      some (answer, kernelAt message parent child') := by
    rw [h.kernel, serve_child hne hlength hnext, if_neg]
    rintro ⟨-, hunwritten⟩
    rw [hparent] at hunwritten
    cases hunwritten
  have hno := hstuck .child
  rw [step, SideBySide.step_of_serve hop hserve] at hno
  cases hno

end Run

end InterProcess.Pipes
