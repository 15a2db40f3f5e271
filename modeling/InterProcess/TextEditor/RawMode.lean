import InterProcess.Lib.Monitor
import InterProcess.TextEditor.Editor

/-!
# Leaving raw mode

`run` sets the attributes back where its loop is left at the condition. Every
`return` inside the loop, one for each call that can fail, passes that by.

Which calls fail is what a monitor of the answers says (`Awaits.next`): a text
that is not written whole, a character that is not read, and a report of the
cursor position that is none. `run` stops where the monitor objects, and nowhere
else before the condition of the loop fails: `restores_iff`.
-/

namespace InterProcess.TextEditor

open Console Interaction

/-- What the next character read is: a key, or one more of a report. -/
inductive Awaits
  | key
  | report (buf : List Char)

/-- Read up to an `R` or up to the end of the buffer, and no report of a position. -/
def Malformed (buf : List Char) : Prop :=
  if buf.getLast? = some 'R' then positionOf buf = none else reportSize ≤ buf.length

instance (buf : List Char) : Decidable (Malformed buf) :=
  inferInstanceAs (Decidable (ite _ _ _))

def Awaits.next : Awaits → Call × Answer → Option Awaits
  | _, (.write text, answer) =>
      if answer.value = text.length then some (if text = positionRequest then .report [] else .key)
      else none
  | .key, (.read, answer) => if answer.value = 1 then some .key else none
  | .report buf, (.read, answer) =>
      if answer.value = 1 ∧ ¬Malformed (buf ++ [answer.key]) then
        some (.report (buf ++ [answer.key]))
      else none
  | σ, _ => some σ

/-- All that was to be written was written, all that was to be read was read, and every report
of the cursor position is one. -/
def Undisturbed (session : List (Call × Answer)) : Prop :=
  (Lts.run Awaits.next .key session).isSome

/-- The last call sets the attributes back, or has tried to. -/
def Restores (original : Termios) (session : List (Call × Answer)) : Prop :=
  ∃ before answer, session = before ++ [(.tcsetattr original, answer)]

/-! ## The console -/

theorem writeText_heeds (text : List Char) (σ : Awaits) :
    Heeds Awaits.next (· = false)
      (fun σ' _ => σ' = if text = positionRequest then .report [] else .key) σ
      (writeText text) := by
  refine .guarded (fun answer => answer.value = text.length)
    (fun _ => if text = positionRequest then .report [] else .key) (fun _ => rfl)
    (fun answer hwritten => ⟨_, rfl, decide_eq_false hwritten⟩) fun answer hwritten => ?_
  rw [decide_eq_true hwritten]
  exact .pure nofun rfl

/-- A text that is no request for a report. -/
theorem writeText_heeds_key {text : List Char} (h : text ≠ positionRequest) (σ : Awaits) :
    Heeds Awaits.next (· = false) (fun σ' _ => σ' = .key) σ (writeText text) := by
  have hwrite := writeText_heeds text σ
  rw [if_neg h] at hwrite
  exact hwrite

theorem refreshScreen_heeds (σ : Awaits) :
    Heeds Awaits.next (· = false) (fun σ' _ => σ' = .key) σ refreshScreen :=
  (writeText_heeds _ σ).check rfl fun σ' _ => writeText_heeds_key (by decide) σ'

theorem readKey_heeds :
    Heeds Awaits.next (· = none) (fun σ' _ => σ' = .key) .key readKey := by
  refine .guarded (fun answer => answer.value = 1) (fun _ => .key) (fun _ => rfl)
    (fun answer hread => ⟨none, if_pos hread, rfl⟩) fun answer hread => ?_
  rw [if_neg (not_not.mpr hread)]
  exact .pure nofun rfl

/-- One round of the loop that reads the report. -/
theorem readReport_succ (rounds : ℕ) (buf : List Char) :
    readReport (rounds + 1) buf = perform .read >>= fun answer =>
      if answer.value ≠ 1 then pure none
      else if answer.key = 'R' then pure (some (buf ++ [answer.key]))
      else readReport rounds (buf ++ [answer.key]) := by
  refine congrArg (Interaction.ask Call.read) (funext fun answer => ?_)
  show (if answer.value ≠ 1 then pure none else pure (some answer.key) : Terminal (Option Char)) >>=
    _ = if answer.value ≠ 1 then _ else _
  by_cases hread : answer.value ≠ 1
  · rw [if_pos hread, if_pos hread]
    rfl
  · rw [if_neg hread, if_neg hread]
    rfl

theorem malformed_end {buf : List Char} :
    Malformed (buf ++ ['R']) ↔ positionOf (buf ++ ['R']) = none := by
  rw [Malformed, List.getLast?_concat, if_pos rfl]

theorem malformed_inside {buf : List Char} {key : Char} (h : key ≠ 'R') :
    Malformed (buf ++ [key]) ↔ reportSize ≤ buf.length + 1 := by
  rw [Malformed, List.getLast?_concat, if_neg fun heq => h (Option.some.inj heq),
    List.length_append, List.length_singleton]

/-- The report is read on as long as it may still become one. -/
theorem readReport_heeds {rounds : ℕ} (buf : List Char) (hpos : 0 < rounds)
    (hlength : buf.length + rounds = reportSize) :
    Heeds Awaits.next (fun read => read.bind positionOf = none) (fun _ _ => True)
      (.report buf) (readReport rounds buf) := by
  induction rounds generalizing buf with
  | zero => exact absurd hpos (Nat.lt_irrefl 0)
  | succ rounds ih =>
      rw [readReport_succ]
      refine .guarded (fun answer => answer.value = 1 ∧ ¬Malformed (buf ++ [answer.key]))
        (fun answer => .report (buf ++ [answer.key])) (fun _ => rfl)
        (fun answer hbad => ?_) fun answer hgood => ?_
      · by_cases hread : answer.value = 1
        · have hmalformed := not_not.mp fun h => hbad ⟨hread, h⟩
          rw [if_neg (not_not.mpr hread)]
          by_cases hend : answer.key = 'R'
          · rw [if_pos hend]
            rw [hend] at hmalformed ⊢
            exact ⟨_, rfl, malformed_end.mp hmalformed⟩
          · have hfull := (malformed_inside hend).mp hmalformed
            obtain rfl : rounds = 0 := by omega
            rw [if_neg hend]
            exact ⟨none, rfl, rfl⟩
        · rw [if_pos hread]
          exact ⟨none, rfl, rfl⟩
      · obtain ⟨hread, hformed⟩ := hgood
        rw [if_neg (not_not.mpr hread)]
        by_cases hend : answer.key = 'R'
        · rw [if_pos hend]
          rw [hend] at hformed ⊢
          exact .pure (mt malformed_end.mpr hformed) trivial
        · have hroom := mt (malformed_inside hend).mpr hformed
          rw [if_neg hend]
          refine ih _ (by omega) ?_
          rw [List.length_append, List.length_singleton]
          omega

theorem getCursorPosition_heeds (σ : Awaits) :
    Heeds Awaits.next (· = none) (fun _ _ => True) σ getCursorPosition := by
  refine (writeText_heeds _ σ).check rfl fun σ' hσ' => ?_
  rw [if_pos rfl] at hσ'
  subst hσ'
  refine (readReport_heeds [] (Nat.succ_pos 30) rfl).bind
    (fun read hread => ⟨none, ?_, rfl⟩) fun read σ' hread _ => ?_
  · cases read with
    | none => rfl
    | some buf =>
        exact congrArg pure hread
  · cases read with
    | none => exact absurd rfl hread
    | some buf => exact .pure hread trivial

/-! ## The editor -/

theorem positionText_ne_request (pos : Position) : positionText pos ≠ positionRequest := by
  intro h
  have hhead := congrArg List.head? h
  cases hhead

/-- An `int` takes eleven characters at most. -/
theorem length_toString_le (n : Int32) : (toString n.toInt).toList.length ≤ 11 := by
  have hlow := n.le_toInt
  have hhigh := n.toInt_lt
  have hdigits : ∀ m : ℕ, m < 10 ^ 10 → m.repr.toList.length ≤ 10 := by
    intro m hm
    rw [Nat.toList_repr]
    exact (Nat.length_toDigits_le_iff (by decide) (by decide)).mpr hm
  rw [Int.toString_eq_repr]
  cases hn : n.toInt with
  | ofNat m =>
      rw [hn, Int.ofNat_eq_natCast] at hhigh
      have hm := hdigits m (by omega)
      exact hm.trans (by decide)
  | negSucc m =>
      have hm := hdigits (m + 1) (by omega)
      show ("-" ++ (m + 1).repr).toList.length ≤ 11
      rw [String.toList_append, List.length_append]
      have hsign : "-".toList.length = 1 := by simp
      omega

/-- The text is not truncated. -/
theorem positionText_length_lt (pos : Position) : (positionText pos).length < 100 := by
  have hsum : ∀ row col : ℕ, row ≤ 11 → col ≤ 11 → 31 + row + 7 + col < 100 := by omega
  have hprefix : "\ncurrent cursor position: row: ".toList.length = 31 := by simp
  have hmiddle : ", col: ".toList.length = 7 := by simp
  unfold positionText
  rw [List.length_append, List.length_append, List.length_append, hprefix, hmiddle]
  exact hsum _ _ (length_toString_le pos.row) (length_toString_le pos.col)

theorem displayCursorPosition_heeds (σ : Awaits) :
    Heeds Awaits.next (· = false) (fun σ' _ => σ' = .key) σ displayCursorPosition := by
  refine (getCursorPosition_heeds σ).bind (fun pos hpos => ⟨false, ?_, rfl⟩) fun pos σ' hpos _ => ?_
  · rw [hpos]
  · cases pos with
    | none => exact absurd rfl hpos
    | some pos =>
        have hlength := positionText_length_lt pos
        simp only
        rw [if_neg (by omega), if_neg (by omega)]
        exact writeText_heeds_key (positionText_ne_request pos) σ'

theorem displayDocument_heeds (editor : TextEditor) (σ : Awaits) :
    Heeds Awaits.next (· = false) (fun _ _ => True) σ editor.displayDocument := by
  have hwrite : ∀ text, Heeds Awaits.next (· = false) (fun _ _ => True) σ (writeText text) :=
    fun text => (writeText_heeds text σ).mono fun _ _ _ => trivial
  unfold displayDocument
  split
  · exact hwrite _
  · exact hwrite _

theorem displayMenuInViewMode_heeds (σ : Awaits) :
    Heeds Awaits.next (· = false) (fun σ' _ => σ' = .key) σ displayMenuInViewMode :=
  (writeText_heeds _ σ).check rfl fun σ' _ => writeText_heeds_key (by decide) σ'

/-- A `return` inside the loop. -/
def Exit.early : Exit → Prop
  | .returned _ _ => True
  | _ => False

theorem loop_heeds (rounds : ℕ) (editor : TextEditor) :
    Heeds Awaits.next Exit.early (fun _ _ => True) .key (loop rounds editor) := by
  induction rounds generalizing editor with
  | zero => exact .pure not_false trivial
  | succ rounds ih =>
      unfold loop
      split
      · exact .pure not_false trivial
      refine readKey_heeds.bind (fun key hkey => ?_) fun key σ' hkey hσ' => ?_
      · rw [hkey]
        exact ⟨_, rfl, trivial⟩
      cases key with
      | none => exact absurd rfl hkey
      | some key =>
          refine (refreshScreen_heeds σ').check trivial fun σ' hσ' => ?_
          split
          · subst hσ'
            exact ih _
          refine (displayDocument_heeds _ σ').check trivial fun σ' _ => ?_
          refine (displayCursorPosition_heeds σ').check trivial fun σ' hσ' => ?_
          split
          · refine (displayMenuInViewMode_heeds σ').check trivial fun σ' hσ' => ?_
            subst hσ'
            exact ih _
          · subst hσ'
            exact ih _

/-! ## Runs -/

theorem disableRawMode_runs {original : Termios} {trace : List (Call × Answer)} {ok : Bool}
    (h : Runs (disableRawMode original) trace ok) :
    ∃ answer, trace = [(.tcsetattr original, answer)] := by
  obtain ⟨answer, rest, rfl, hrest⟩ := runs_perform.mp h
  obtain ⟨rfl, -⟩ := runs_pure.mp hrest
  exact ⟨answer, rfl⟩

/-- The monitor does not object to a call that sets the attributes. -/
theorem not_restores_of_objectsAtLast {original : Termios} {session : List (Call × Answer)}
    (h : ObjectsAtLast Awaits.next .key session) : ¬Restores original session := by
  rintro ⟨before, answer, rfl⟩
  obtain ⟨before', x, σ', heq, -, hx⟩ := h
  obtain rfl := List.singleton_inj.mp (List.append_inj' heq rfl).2
  cases hx

/-- Whenever `run` returns after raw mode has been enabled, the attributes have been set back,
or that was tried, iff no call of the loop was disturbed. -/
theorem restores_iff {rounds : ℕ} {editor : TextEditor} {original : Termios}
    {first session : List (Call × Answer)} {result : Bool × TextEditor}
    (hraw : Runs enableRawMode first (some original))
    (hrun : Runs (run rounds editor) (first ++ session) (some result)) :
    Restores original session ↔ Undisturbed session := by
  have hsession := hraw.of_bind hrun
  obtain ⟨exit, inside, rest, rfl, hloop, hrest⟩ := runs_bind.mp hsession
  have hheeds := loop_heeds rounds editor inside exit hloop
  cases exit with
  | unfinished =>
      obtain ⟨-, hresult⟩ := runs_pure.mp hrest
      cases hresult
  | returned returned left =>
      obtain ⟨rfl, -⟩ := runs_pure.mp hrest
      rw [List.append_nil]
      rcases hheeds with ⟨hobjects, -⟩ | ⟨σ', -, hearly, -⟩
      · have hdisturbed := (loop_heeds rounds editor).run_isSome_iff hloop
        exact iff_of_false (not_restores_of_objectsAtLast hobjects)
          (mt hdisturbed.mp (not_not.mpr trivial))
      · exact absurd trivial hearly
  | finished left =>
      rcases hheeds with ⟨-, hearly⟩ | ⟨σ', hinside, -, -⟩
      · exact hearly.elim
      obtain ⟨ok, disabling, last, rfl, hdisable, hlast⟩ := runs_bind.mp hrest
      obtain ⟨answer, rfl⟩ := disableRawMode_runs hdisable
      obtain rfl : last = [] := by
        cases ok <;> exact (runs_pure.mp hlast).1
      refine iff_of_true ⟨inside, answer, by rw [List.append_nil]⟩ ?_
      rw [Undisturbed, List.append_nil, Lts.run_append, hinside]
      rfl

/-- The calls that enable raw mode. -/
def enabling (original : Termios) : List (Call × Answer) :=
  [(.tcgetattr, { value := 0, termios := original }), (.tcsetattr original.raw, { value := 0 })]

theorem runs_enabling (original : Termios) :
    Runs enableRawMode (enabling original) (some original) := .ask (.ask (.done _))

/-- A text that is written as a whole. -/
def wrote (text : List Char) : Call × Answer := (.write text, { value := text.length })

def typed (key : Char) : Call × Answer := (.read, { value := 1, key := key })

/-- The calls of a loop that leaves the edit mode, shows the position the terminal reports, and
quits at the second key. -/
def quitting (original : Termios) : List (Call × Answer) :=
  typed ESCAPE :: wrote "\x1b[2J".toList :: wrote "\x1b[H".toList :: wrote [] ::
    wrote positionRequest :: "\x1b[3;14R".toList.map typed ++
    wrote (positionText ⟨3, 14⟩) :: wrote "\x1b[H".toList ::
    wrote "\n\npress: q - to quit, e - to continue editing".toList ::
    typed 'q' :: wrote "\x1b[2J".toList :: wrote "\x1b[H".toList ::
    [(.tcsetattr original, { value := 0 })]

theorem restores_quitting :
    Restores ⟨0, 0, 0, ECHO⟩ (quitting ⟨0, 0, 0, ECHO⟩) ↔
      Undisturbed (quitting ⟨0, 0, 0, ECHO⟩) := by
  have hrun : Runs (run 3 {})
      (enabling ⟨0, 0, 0, ECHO⟩ ++ quitting ⟨0, 0, 0, ECHO⟩)
      (some (true, { keepRunning := false, editMode := false, count := 1 })) := by
    repeat' constructor
  exact restores_iff (runs_enabling _) hrun

/-- The end of the input: `run` returns and leaves the terminal in raw mode. -/
theorem not_restores_endOfInput : ¬∀ (rounds : ℕ) (editor : TextEditor) (original : Termios)
    (first session : List (Call × Answer)) (result : Bool × TextEditor),
    Runs enableRawMode first (some original) →
      Runs (run rounds editor) (first ++ session) (some result) → Restores original session := by
  intro h
  have hend := h 1 {} ⟨0, 0, 0, ECHO⟩ _ [(.read, { value := 0 })] (true, {})
    (runs_enabling _) (.ask (.ask (.ask (.done _))))
  obtain ⟨before, answer, heq⟩ := hend
  have hlast := congrArg List.getLast? heq
  rw [List.getLast?_concat] at hlast
  cases hlast

end InterProcess.TextEditor
