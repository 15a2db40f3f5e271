import InterProcess.TextEditor.Terminal

/-!
# Sessions at a terminal

A user types, and the editor draws its screen after each key. Played in a
terminal that answers every request before the next key is typed, the editor
reads the keys one by one up to the first `q` outside the edit mode
(`play_run_typed`). Whoever types faster than the terminal reports is thrown
out: `play_run_early`.
-/

namespace InterProcess.TextEditor

open Console Interaction

/-- The editor after a round of the loop with this key. -/
def round (editor : TextEditor) (key : Char) : TextEditor :=
  if (editor.processKey key).keepRunning then
    { editor.processKey key with count := editor.count + 1 }
  else editor.processKey key

/-- The keys up to the one the editor stops at. -/
def keysRead : TextEditor → List Char → List Char
  | _, [] => []
  | editor, key :: keys =>
    if (editor.round key).keepRunning then key :: keysRead (editor.round key) keys else [key]

def clearText : List Char := "\x1b[2J".toList

def homeText : List Char := "\x1b[H".toList

def menuText : List Char := "\n\npress: q - to quit, e - to continue editing".toList

def documentText (editor : TextEditor) : List Char :=
  if editor.count % 2 = 0 then editor.document else makeBold editor.document

variable (cursor : List (List Char) → Position)

/-- What has been written after a key: the document and below it the position of the cursor, and
the menu outside the edit mode. -/
def drawn (editor : TextEditor) (screen : List (List Char)) : List (List Char) :=
  let screen := screen ++ [clearText, homeText, editor.documentText]
  let screen := screen ++ [positionText (cursor screen)]
  if editor.editMode then screen else screen ++ [homeText, menuText]

/-- What has been written after the keys. -/
def shown : TextEditor → List (List Char) → List Char → List (List Char)
  | _, screen, [] => screen
  | editor, screen, key :: keys =>
    if (editor.round key).keepRunning then
      shown (editor.round key) (drawn cursor (editor.processKey key) screen) keys
    else screen ++ [clearText, homeText]

variable {cursor} {editor : TextEditor} {σ : Tty}

/-! ## The document -/

/-- An escape changes the mode and never gets into the document. -/
theorem escape_not_mem_processKey (h : ESCAPE ∉ editor.document) (key : Char) :
    ESCAPE ∉ (editor.processKey key).document := by
  unfold processKey
  split
  · unfold processKeyInEditMode
    split
    · exact fun hmem => h (List.dropLast_subset _ hmem)
    split
    · exact h
    · next hescape =>
        rw [List.mem_append, List.mem_singleton, not_or]
        exact ⟨h, Ne.symm hescape⟩
  · exact h

theorem round_document (editor : TextEditor) (key : Char) :
    (editor.round key).document = (editor.processKey key).document := by
  unfold round
  split <;> rfl

theorem round_keepRunning (editor : TextEditor) (key : Char) :
    (editor.round key).keepRunning = (editor.processKey key).keepRunning := by
  unfold round
  split <;> rfl

theorem processKey_count (editor : TextEditor) (key : Char) :
    (editor.processKey key).count = editor.count := by
  unfold processKey processKeyInEditMode processKeyInViewMode
  split
  · split
    · rfl
    split <;> rfl
  · rfl

theorem documentText_ne_request (h : ESCAPE ∉ editor.document) :
    editor.documentText ≠ positionRequest := by
  unfold documentText
  split
  · rintro hrequest
    rw [hrequest] at h
    exact h (by decide)
  · intro hrequest
    have hthird := congrArg (fun text => text[2]?) hrequest
    exact absurd hthird (by simp [makeBold, positionRequest])

/-! ## One round -/

theorem play_clearScreen :
    clearScreen.play (terminal cursor) σ =
      ({ σ with screen := σ.screen ++ [clearText] }, true) :=
  play_writeText (by decide)

theorem play_moveCursorHome :
    moveCursorHome.play (terminal cursor) σ =
      ({ σ with screen := σ.screen ++ [homeText] }, true) :=
  play_writeText (by decide)

theorem play_refreshScreen :
    refreshScreen.play (terminal cursor) σ =
      ({ σ with screen := σ.screen ++ [clearText, homeText] }, true) := by
  unfold refreshScreen
  rw [play_bind_of_eq _ _ play_clearScreen]
  simp only [Bool.not_true, Bool.false_eq_true, if_false]
  rw [play_moveCursorHome, List.append_assoc]
  rfl

theorem play_displayDocument (h : ESCAPE ∉ editor.document) :
    editor.displayDocument.play (terminal cursor) σ =
      ({ σ with screen := σ.screen ++ [editor.documentText] }, true) := by
  have htext := documentText_ne_request h
  unfold displayDocument
  unfold documentText at htext ⊢
  split at htext
  · next heven =>
      rw [if_pos heven, if_pos heven]
      exact play_writeText htext
  · next hodd =>
      rw [if_neg hodd, if_neg hodd]
      exact play_writeText htext

theorem play_displayMenuInViewMode :
    displayMenuInViewMode.play (terminal cursor) σ =
      ({ σ with screen := σ.screen ++ [homeText, menuText] }, true) := by
  unfold displayMenuInViewMode
  rw [play_bind_of_eq _ _ play_moveCursorHome]
  simp only [Bool.not_true, Bool.false_eq_true, if_false]
  exact (play_writeText (by decide)).trans (by rw [List.append_assoc]; rfl)

theorem play_displayCursorPosition (harrived : σ.arrived = []) (hearly : σ.early.headD 0 = 0) :
    displayCursorPosition.play (terminal cursor) σ =
      ({ σ with
        early := σ.early.tail
        screen := σ.screen ++ [positionText (cursor σ.screen)] }, true) := by
  have hlength := positionText_length_lt (cursor σ.screen)
  unfold displayCursorPosition
  rw [play_bind_of_eq _ _ (play_getCursorPosition harrived hearly)]
  simp only
  rw [if_neg (by omega), if_neg (by omega)]
  exact play_writeText (positionText_ne_request _)

/-- A round of the loop: a key is read, and the screen is drawn unless the editor stops. -/
theorem play_loop_round (rounds : ℕ) {key : Char} {keys : List Char}
    (hkeep : editor.keepRunning = true) (hdocument : ESCAPE ∉ editor.document)
    (harrived : σ.arrived = []) (hkeys : σ.keys = key :: keys) (hearly : σ.early.headD 0 = 0) :
    (loop (rounds + 1) editor).play (terminal cursor) σ =
      (loop rounds (editor.round key)).play (terminal cursor)
        (if (editor.round key).keepRunning then
          { σ with
            keys := keys
            early := σ.early.tail
            screen := drawn cursor (editor.processKey key) σ.screen }
        else { σ with keys := keys, screen := σ.screen ++ [clearText, homeText] }) := by
  have hdocument' := escape_not_mem_processKey hdocument key
  rw [loop, if_neg (by rw [hkeep]; exact Bool.false_ne_true),
    play_bind_of_eq _ _ (play_readKey_typed harrived hkeys)]
  simp only
  rw [play_bind_of_eq _ _ play_refreshScreen]
  simp only [Bool.not_true, Bool.false_eq_true, if_false]
  by_cases hkeep' : (editor.processKey key).keepRunning = true
  · have hround : editor.round key =
        { editor.processKey key with count := (editor.processKey key).count + 1 } := by
      rw [round, if_pos hkeep', processKey_count]
    rw [hround, if_neg (by rw [hkeep']; exact Bool.false_ne_true),
      play_bind_of_eq _ _ (play_displayDocument hdocument')]
    simp only [Bool.not_true, Bool.false_eq_true, if_false, if_pos hkeep']
    rw [play_bind_of_eq _ _ (play_displayCursorPosition (by exact harrived) (by exact hearly))]
    simp only [Bool.not_true, Bool.false_eq_true, if_false]
    by_cases hmode : (editor.processKey key).editMode = true
    · rw [if_neg (by rw [hmode]; exact Bool.false_ne_true)]
      simp only [drawn, if_pos hmode, List.append_assoc, List.cons_append, List.nil_append]
    · rw [if_pos (by rw [Bool.eq_false_iff.mpr hmode]; rfl),
        play_bind_of_eq _ _ play_displayMenuInViewMode]
      simp only [Bool.not_true, Bool.false_eq_true, if_false, drawn, if_neg hmode,
        List.append_assoc, List.cons_append, List.nil_append]
  · have hround : editor.round key = editor.processKey key := if_neg hkeep'
    rw [hround, if_neg hkeep', if_pos (by rw [Bool.eq_false_iff.mpr hkeep']; rfl)]

theorem play_loop_stopped (rounds : ℕ) (hstop : editor.keepRunning = false) :
    (loop (rounds + 1) editor).play (terminal cursor) σ = (σ, .finished editor) := by
  rw [loop, if_pos (by rw [hstop]; rfl), play_pure]

theorem play_loop_end (rounds : ℕ) (hkeep : editor.keepRunning = true) (harrived : σ.arrived = [])
    (hkeys : σ.keys = []) :
    (loop (rounds + 1) editor).play (terminal cursor) σ = (σ, .returned true editor) := by
  rw [loop, if_neg (by rw [hkeep]; exact Bool.false_ne_true),
    play_bind_of_eq _ _ (play_readKey_end harrived hkeys)]
  rfl

/-! ## One key after the other -/

/-- How the loop is left once the keys are read: the last of them has stopped the editor, or
there is no further one. -/
def exitOf (editor : TextEditor) : Exit :=
  if editor.keepRunning then .returned true editor else .finished editor

theorem exitOf_of_keepRunning (h : editor.keepRunning = true) :
    exitOf editor = .returned true editor := if_pos h

theorem exitOf_of_stopped (h : editor.keepRunning = false) :
    exitOf editor = .finished editor := if_neg (Bool.eq_false_iff.mp h)

theorem play_loop_typed (cursor : List (List Char) → Position) {keys : List Char} (rounds : ℕ)
    (hrounds : keys.length < rounds)
    (hkeep : editor.keepRunning = true) (hdocument : ESCAPE ∉ editor.document)
    (harrived : σ.arrived = []) (hkeys : σ.keys = keys) (hearly : σ.early = []) :
    (loop rounds editor).play (terminal cursor) σ =
      ({ σ with
        keys := keys.drop (keysRead editor keys).length
        screen := shown cursor editor σ.screen keys },
      exitOf ((keysRead editor keys).foldl round editor)) := by
  induction keys generalizing rounds editor σ with
  | nil =>
      obtain ⟨rounds, rfl⟩ := Nat.exists_eq_succ_of_ne_zero (Nat.ne_zero_of_lt hrounds)
      rw [play_loop_end rounds hkeep harrived hkeys]
      show _ = ({ σ with keys := [] }, exitOf editor)
      rw [exitOf_of_keepRunning hkeep, ← hkeys]
  | cons key keys ih =>
      obtain ⟨rounds, rfl⟩ := Nat.exists_eq_succ_of_ne_zero (Nat.ne_zero_of_lt hrounds)
      rw [play_loop_round rounds hkeep hdocument harrived hkeys (by rw [hearly]; rfl)]
      have hdocument' := escape_not_mem_processKey hdocument key
      rw [← round_document] at hdocument'
      by_cases hround : (editor.round key).keepRunning = true
      · rw [if_pos hround,
          ih rounds (Nat.lt_of_succ_lt_succ hrounds) hround hdocument' (by exact harrived) rfl
            (by rw [hearly]; rfl)]
        simp only [keysRead, shown, if_pos hround, List.foldl_cons, List.length_cons,
          List.drop_succ_cons, hearly, List.tail_nil]
      · obtain ⟨rounds, rfl⟩ := Nat.exists_eq_succ_of_ne_zero
          (Nat.ne_zero_of_lt (Nat.lt_of_succ_lt_succ hrounds))
        rw [if_neg hround, play_loop_stopped rounds (Bool.eq_false_iff.mpr hround)]
        simp only [keysRead, shown, if_neg hround, List.foldl_cons, List.foldl_nil,
          List.length_singleton, List.drop_succ_cons, List.drop_zero]
        rw [exitOf_of_stopped (Bool.eq_false_iff.mpr hround)]

theorem play_enableRawMode (σ : Tty) :
    enableRawMode.play (terminal cursor) σ =
      ({ σ with termios := σ.termios.raw, arrived := [] }, some σ.termios) := rfl

/-- Every key is read and drawn, up to a `q` outside the edit mode; the attributes are set back
there, and left as they are when the keys end before. -/
theorem play_run_typed (cursor : List (List Char) → Position) (rounds : ℕ)
    (hkeep : editor.keepRunning = true) (hdocument : ESCAPE ∉ editor.document)
    (hrounds : σ.keys.length < rounds) (hearly : σ.early = []) :
    let read := keysRead editor σ.keys
    let editor' := read.foldl round editor
    (run rounds editor).play (terminal cursor) σ =
      ({ σ with
        termios := if editor'.keepRunning then σ.termios.raw else σ.termios
        arrived := []
        keys := σ.keys.drop read.length
        screen := shown cursor editor σ.screen σ.keys },
      some (true, editor')) := by
  intro read editor'
  have hloop := play_loop_typed cursor rounds hrounds hkeep hdocument
    (σ := { σ with termios := σ.termios.raw, arrived := [] }) rfl rfl hearly
  unfold run
  rw [play_bind_of_eq _ _ (play_enableRawMode σ)]
  simp only
  rw [play_bind_of_eq _ _ hloop]
  by_cases hkeep' : editor'.keepRunning = true
  · rw [exitOf_of_keepRunning hkeep', if_pos hkeep']
    rfl
  · rw [exitOf_of_stopped (Bool.eq_false_iff.mpr hkeep'), if_neg hkeep']
    rfl

/-- A terminal at which these keys are typed. -/
def typing (keys : List Char) (early : List ℕ) : Tty :=
  { termios := ⟨0, 0, 0, ECHO⟩, arrived := [], keys := keys, early := early, screen := [] }

/-- The `q` in the document, and the one that is left to the shell. -/
def quitTwice : List Char := ['q', ESCAPE, 'q', 'q']

theorem play_run_typed_quitTwice :
    ((run 5 {}).play (terminal fun _ => ⟨1, 2⟩) (typing quitTwice [])).2 =
      some (true, { document := ['q'], keepRunning := false, editMode := false, count := 2 }) :=
  (congrArg Prod.snd (play_run_typed (σ := typing quitTwice []) (fun _ => ⟨1, 2⟩) 5 rfl
    List.not_mem_nil (Nat.lt_succ_self 4) rfl)).trans rfl

/-! ## A key before the report -/

/-- An editor that has stopped does not start again. -/
theorem keepRunning_of_round {key : Char} (h : (editor.round key).keepRunning = true) :
    editor.keepRunning = true := by
  rw [round_keepRunning] at h
  unfold processKey processKeyInEditMode processKeyInViewMode at h
  split at h
  · split at h
    · exact h
    split at h <;> exact h
  · exact (Bool.and_eq_true_iff.mp h).1

theorem keepRunning_of_foldl {keys : List Char}
    (h : (keys.foldl round editor).keepRunning = true) : editor.keepRunning = true := by
  induction keys generalizing editor with
  | nil => exact h
  | cons key keys ih => exact keepRunning_of_round (ih h)

theorem play_displayCursorPosition_early (cursor : List (List Char) → Position) {key : Char}
    {keys : List Char} (harrived : σ.arrived = []) (hkeys : σ.keys = key :: keys)
    (hearly : σ.early.headD 0 ≠ 0) (hkey : key ≠ ESCAPE) :
    ∃ σ', displayCursorPosition.play (terminal cursor) σ = (σ', false) ∧ σ.SameScreen σ' := by
  obtain ⟨σ', hplay, hsame⟩ := play_getCursorPosition_early cursor harrived hkeys
    hearly hkey
  refine ⟨σ', ?_, hsame⟩
  unfold displayCursorPosition
  rw [play_bind_of_eq _ _ hplay, play_pure]

/-- The round that draws the screen while the next key is typed. -/
theorem play_loop_round_early (rounds : ℕ) {now ahead : Char} {keys : List Char}
    (hkeep : (editor.round now).keepRunning = true) (hdocument : ESCAPE ∉ editor.document)
    (harrived : σ.arrived = []) (hkeys : σ.keys = now :: ahead :: keys)
    (hearly : σ.early.headD 0 ≠ 0) (hahead : ahead ≠ ESCAPE) :
    ∃ σ', (loop (rounds + 1) editor).play (terminal cursor) σ =
      (σ', .returned false (editor.processKey now)) ∧ σ'.termios = σ.termios := by
  have hrunning := keepRunning_of_round hkeep
  have hdocument' := escape_not_mem_processKey hdocument now
  rw [round_keepRunning] at hkeep
  rw [loop, if_neg (by rw [hrunning]; exact Bool.false_ne_true),
    play_bind_of_eq _ _ (play_readKey_typed harrived hkeys)]
  simp only
  rw [play_bind_of_eq _ _ play_refreshScreen]
  simp only [Bool.not_true, Bool.false_eq_true, if_false]
  rw [if_neg (by rw [hkeep]; exact Bool.false_ne_true),
    play_bind_of_eq _ _ (play_displayDocument hdocument')]
  simp only [Bool.not_true, Bool.false_eq_true, if_false]
  obtain ⟨σ', hplay, htermios, -⟩ := play_displayCursorPosition_early cursor
    (σ := { σ with
      keys := ahead :: keys
      screen := σ.screen ++ [clearText, homeText] ++ [(editor.processKey now).documentText] })
    harrived rfl hearly hahead
  rw [play_bind_of_eq _ _ hplay]
  exact ⟨σ', rfl, htermios⟩

theorem play_loop_early (cursor : List (List Char) → Position) {first : List Char}
    {now ahead : Char} {keys : List Char} (rounds : ℕ) (hrounds : first.length < rounds)
    (hkeep : ((first ++ [now]).foldl round editor).keepRunning = true)
    (hdocument : ESCAPE ∉ editor.document) (harrived : σ.arrived = [])
    (hkeys : σ.keys = first ++ now :: ahead :: keys) (hahead : ahead ≠ ESCAPE)
    {count : ℕ} {early : List ℕ}
    (hearly : σ.early = List.replicate first.length 0 ++ (count + 1) :: early) :
    ∃ σ', (loop rounds editor).play (terminal cursor) σ =
      (σ', .returned false ((first.foldl round editor).processKey now)) ∧
        σ'.termios = σ.termios := by
  obtain ⟨rounds, rfl⟩ := Nat.exists_eq_succ_of_ne_zero (Nat.ne_zero_of_lt hrounds)
  induction first generalizing rounds editor σ with
  | nil =>
      refine play_loop_round_early rounds hkeep hdocument harrived hkeys ?_ hahead
      rw [hearly]
      exact Nat.succ_ne_zero count
  | cons key first ih =>
      have hround : (editor.round key).keepRunning = true := keepRunning_of_foldl hkeep
      have hdocument' := escape_not_mem_processKey hdocument key
      rw [← round_document] at hdocument'
      rw [play_loop_round _ (keepRunning_of_round hround) hdocument harrived hkeys
        (by rw [hearly]; rfl), if_pos hround]
      obtain ⟨rounds, rfl⟩ := Nat.exists_eq_succ_of_ne_zero
        (Nat.ne_zero_of_lt (Nat.lt_of_succ_lt_succ hrounds))
      obtain ⟨σ', hplay, htermios⟩ := ih (σ := { σ with
          keys := first ++ now :: ahead :: keys
          early := σ.early.tail
          screen := drawn cursor (editor.processKey key) σ.screen })
        hkeep hdocument' harrived rfl (by rw [hearly]; rfl) rounds (Nat.lt_of_succ_lt_succ hrounds)
      exact ⟨σ', hplay, htermios⟩

/-- Whoever types a key, but an escape, before the report of the cursor position has arrived ends
the editor, which fails and leaves the terminal in raw mode. -/
theorem play_run_early (cursor : List (List Char) → Position) {first : List Char}
    {now ahead : Char} {keys : List Char} {count : ℕ} {early : List ℕ} (rounds : ℕ)
    (hrounds : first.length < rounds)
    (hkeep : ((first ++ [now]).foldl round editor).keepRunning = true)
    (hdocument : ESCAPE ∉ editor.document)
    (hkeys : σ.keys = first ++ now :: ahead :: keys) (hahead : ahead ≠ ESCAPE)
    (hearly : σ.early = List.replicate first.length 0 ++ (count + 1) :: early) :
    ∃ σ', (run rounds editor).play (terminal cursor) σ =
      (σ', some (false, (first.foldl round editor).processKey now)) ∧
        σ'.termios = σ.termios.raw := by
  obtain ⟨σ', hloop, htermios⟩ := play_loop_early cursor
    (σ := { σ with termios := σ.termios.raw, arrived := [] }) rounds hrounds hkeep hdocument rfl
    hkeys hahead hearly
  refine ⟨σ', ?_, htermios⟩
  unfold run
  rw [play_bind_of_eq _ _ (play_enableRawMode σ)]
  simp only
  rw [play_bind_of_eq _ _ hloop]
  rfl

/-- The second key is typed while the screen is drawn for the first. -/
theorem play_run_early_quitTwice :
    ∃ σ', (run 5 {}).play (terminal fun _ => ⟨1, 2⟩) (typing ['q', 'q'] [1]) =
      (σ', some (false, { document := ['q'] })) ∧ σ'.termios = (Termios.mk 0 0 0 ECHO).raw :=
  @play_run_early {} (typing ['q', 'q'] [1]) (fun _ => ⟨1, 2⟩) [] 'q' 'q' [] 0 [] 5
    (Nat.zero_lt_succ 4) rfl List.not_mem_nil rfl (by decide) rfl

end InterProcess.TextEditor
