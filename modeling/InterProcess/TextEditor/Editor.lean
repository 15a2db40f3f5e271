import InterProcess.TextEditor.Console

/-!
# `text_editor`

The editor changes its document and its mode with each key and then draws the
screen. `run` takes the terminal into raw mode, loops over the keys, and sets the
attributes back when the loop is left.
-/

namespace InterProcess

open Console Interaction

structure TextEditor where
  document : List Char := []
  keepRunning : Bool := true
  editMode : Bool := true
  count : Int32 := 0
  deriving DecidableEq

namespace TextEditor

def DELETE : Char := '\x7f'
def BACKSPACE : Char := '\x08'
def ESCAPE : Char := '\x1b'

def processKeyInEditMode (editor : TextEditor) (key : Char) : TextEditor :=
  if key = DELETE ∨ key = BACKSPACE then { editor with document := editor.document.dropLast }
  else if key = ESCAPE then { editor with editMode := false }
  else { editor with document := editor.document ++ [key] }

def processKeyInViewMode (editor : TextEditor) (key : Char) : TextEditor :=
  { editor with
    keepRunning := editor.keepRunning && key ≠ 'q'
    editMode := editor.editMode || key = 'e' }

def processKey (editor : TextEditor) (key : Char) : TextEditor :=
  if editor.editMode then editor.processKeyInEditMode key else editor.processKeyInViewMode key

def displayMenuInViewMode : Terminal Bool := do
  if !(← moveCursorHome) then
    return false
  writeText "\n\npress: q - to quit, e - to continue editing".toList

def displayDocument (editor : TextEditor) : Terminal Bool :=
  if editor.count % 2 = 0 then writeText editor.document
  else writeText (makeBold editor.document)

/-- What `snprintf` makes of the position. -/
def positionText (pos : Position) : List Char :=
  "\ncurrent cursor position: row: ".toList ++ (toString pos.row.toInt).toList ++
    ", col: ".toList ++ (toString pos.col.toInt).toList

def displayCursorPosition : Terminal Bool := do
  match ← getCursorPosition with
  | none => return false
  | some pos =>
    let needed : ℤ := (positionText pos).length
    if needed < 0 then
      return false
    -- the buffer has 100 characters
    if needed ≥ 100 then
      return false
    writeText (positionText pos)

/-- How the loop of `run` is left, and the editor then: by a `return`, or at its condition;
`unfinished` when it has more rounds. -/
inductive Exit
  | unfinished
  | returned (result : Bool) (editor : TextEditor)
  | finished (editor : TextEditor)

/-- The loop of `run`, for at most the given number of tests of its condition. -/
def loop : ℕ → TextEditor → Terminal Exit
  | 0, _ => return .unfinished
  | rounds + 1, editor => do
    if !editor.keepRunning then
      return .finished editor
    match ← readKey with
    | none => return .returned true editor -- `EXIT_FAILURE` is 1
    | some key =>
      let editor := editor.processKey key
      if !(← refreshScreen) then
        return .returned false editor
      if !editor.keepRunning then
        return ← loop rounds editor
      if !(← editor.displayDocument) then
        return .returned false editor
      if !(← displayCursorPosition) then
        return .returned false editor
      if !editor.editMode then
        if !(← displayMenuInViewMode) then
          return .returned false editor
      loop rounds { editor with count := editor.count + 1 }

/-- The result and the editor afterwards; `none` when the loop has more rounds. -/
def run (rounds : ℕ) (editor : TextEditor) : Terminal (Option (Bool × TextEditor)) := do
  match ← enableRawMode with
  | none => return some (false, editor)
  | some origTermios =>
    match ← loop rounds editor with
    | .unfinished => return none
    | .returned result editor => return some (result, editor)
    | .finished editor =>
      if !(← disableRawMode origTermios) then
        return some (false, editor)
      return some (true, editor)

end TextEditor

end InterProcess
