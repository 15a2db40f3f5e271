import InterProcess.Logging.FormatLog

/-!
# `log::impl::log`

A call at a disabled level writes nothing. A call that returns `true` at an
enabled one writes a line and ends it. A call whose format does not match its
arguments returns `false` and does not end the line, but `format_log` has
written the beginning of it by then: the text stays in front of the next line.
-/

namespace InterProcess.Logging

variable {Arg : Type} (toString : Arg → List Char)

def log (level : Level) (format : List Char) (args : List Arg) : StateM State Bool := do
  if level.ctorIdx < (← get).currLevel.ctorIdx then
    return true
  match args with
  | [] =>
    if !(← Logger.log format) then
      return false
  | first :: rest =>
    if !(← formatLog toString format first rest) then
      return false
  Logger.endLine

inductive Request (Arg : Type)
  | setLevel (level : Level)
  | log (level : Level) (format : List Char) (args : List Arg)

def Request.serve : Request Arg → StateM State Bool
  | .setLevel level => fun σ => (true, { σ with currLevel := level })
  | .log level format args => Logging.log toString level format args

/-- A call of `log` at an enabled level. -/
def Request.enabled (σ : State) : Request Arg → Bool
  | .setLevel _ => false
  | .log level _ _ => σ.currLevel.ctorIdx ≤ level.ctorIdx

/-- The state after the requests. -/
def serveAll (σ : State) (requests : List (Request Arg)) : State :=
  requests.foldl (fun σ r => (r.serve toString σ).2) σ

/-- How many of the requests are calls that returned `true` at an enabled level. -/
def logged : State → List (Request Arg) → ℕ
  | _, [] => 0
  | σ, r :: requests =>
      (if r.enabled σ && (r.serve toString σ).1 then 1 else 0) +
        logged (r.serve toString σ).2 requests

/-- The format and the arguments print no newline. -/
def Request.OneLine : Request Arg → Prop
  | .setLevel _ => True
  | .log _ format args => '\n' ∉ format ∧ ∀ a ∈ args, '\n' ∉ toString a

/-- What a call of `log` writes, by whether its level is enabled and what it returns. -/
inductive Writes (format : List Char) : Bool → Bool → List Char → Prop
  | disabled : Writes format false true []
  | line {text : List Char} (h : '\n' ∉ text) : Writes format true true (text ++ ['\n'])
  | failed {text : List Char} (h : '\n' ∉ text) (hempty : text = [] ↔ '{' ∉ format) :
      Writes format true false text

/-- Complete lines, and the beginning of a further one. -/
def Lines (text : List Char) (count : ℕ) : Prop :=
  ∃ (lines : List (List Char)) (rest : List Char),
    text = lines.flatMap (fun line => line ++ ['\n']) ++ rest ∧
    lines.length = count ∧ (∀ line ∈ lines, '\n' ∉ line) ∧ '\n' ∉ rest

section Lines

variable {toString : Arg → List Char} {first : Arg} {rest : List Arg} {format text : List Char}
  {result : Bool}

/-- The pieces written in a round come from the format and the argument. -/
theorem not_mem_round {before tail arg : List Char} {p : Placeholder} {c : Char}
    (hformat : c ∉ before ++ '{' :: (p.inside ++ '}' :: (p.after ++ tail))) (harg : c ∉ arg) :
    c ∉ before ++ arg ++ p.after ∧ c ∉ tail := by
  simp only [List.mem_append, List.mem_cons, not_or] at hformat ⊢
  obtain ⟨hbefore, -, -, -, hafter, htail⟩ := hformat
  exact ⟨⟨⟨hbefore, harg⟩, hafter⟩, htail⟩

/-- What is written comes from the format and the arguments. -/
theorem Written.not_mem (h : Written toString format first rest result text) {c : Char}
    (hformat : c ∉ format) (hargs : ∀ a ∈ first :: rest, c ∉ toString a) : c ∉ text := by
  induction h with
  | noPlaceholder h => exact List.not_mem_nil
  | unclosed hbefore hinside =>
      intro hmem
      rcases List.mem_append.mp hmem with hmem | hmem
      · exact hformat (List.mem_append_left _ hmem)
      · exact hargs _ List.mem_cons_self hmem
  | last p hbefore htail => exact (not_mem_round hformat (hargs _ List.mem_cons_self)).1
  | exhausted p hbefore => exact (not_mem_round hformat (hargs _ List.mem_cons_self)).1
  | next p hbefore htail h ih =>
      obtain ⟨hround, htail⟩ := not_mem_round hformat (hargs _ List.mem_cons_self)
      have htext := ih htail fun a ha => hargs a (List.mem_cons_of_mem _ ha)
      intro hmem
      rcases List.mem_append.mp hmem with hmem | hmem
      · exact hround hmem
      · exact htext hmem

/-- Nothing is written iff there is no placeholder. -/
theorem Written.eq_nil_iff (h : Written toString format first rest result text)
    (hshow : ∀ a, toString a ≠ []) : text = [] ↔ '{' ∉ format := by
  cases h with
  | noPlaceholder h => exact iff_of_true rfl h
  | unclosed hbefore hinside => simp [hshow]
  | last p hbefore htail => simp [hshow]
  | exhausted p hbefore => simp [hshow]
  | next p hbefore htail h => simp [hshow]

theorem log_disabled {σ : State} {level : Level} (args : List Arg)
    (h : level.ctorIdx < σ.currLevel.ctorIdx) :
    log toString level format args σ = (true, σ) := congrFun (if_pos h) σ

theorem log_nil {σ : State} {level : Level} (h : ¬level.ctorIdx < σ.currLevel.ctorIdx) :
    log toString level format [] σ = (true, σ.write (format ++ ['\n'])) := by
  refine (congrFun (if_neg h) σ).trans ?_
  rw [← State.write_write]
  rfl

theorem bind_apply (code : StateM State Bool) (next : Bool → StateM State Bool) (σ : State) :
    (code >>= next) σ = next (code σ).1 (code σ).2 := rfl

theorem log_cons {σ : State} {level : Level} (h : ¬level.ctorIdx < σ.currLevel.ctorIdx)
    (hrun : formatLog toString format first rest σ = (result, σ.write text)) :
    log toString level format (first :: rest) σ =
      (result, σ.write (if result then text ++ ['\n'] else text)) := by
  refine (congrFun (if_neg h) σ).trans ?_
  show (formatLog toString format first rest >>= _ : StateM State Bool) σ = _
  rw [bind_apply, hrun]
  cases result with
  | false => rfl
  | true =>
      rw [if_pos rfl, ← State.write_write]
      rfl

theorem log_writes (hshow : ∀ a, toString a ≠ []) (σ : State) (level : Level) (args : List Arg)
    (hformat : '\n' ∉ format) (hargs : ∀ a ∈ args, '\n' ∉ toString a) :
    ∃ text, (log toString level format args σ).2 = σ.write text ∧
      Writes format (decide (σ.currLevel.ctorIdx ≤ level.ctorIdx))
        (log toString level format args σ).1 text := by
  by_cases hlevel : level.ctorIdx < σ.currLevel.ctorIdx
  · rw [log_disabled args hlevel, decide_eq_false (Nat.not_le.mpr hlevel)]
    exact ⟨[], (State.write_nil σ).symm, .disabled⟩
  rw [decide_eq_true (Nat.not_lt.mp hlevel)]
  cases args with
  | nil =>
      rw [log_nil hlevel]
      exact ⟨_, rfl, .line hformat⟩
  | cons first rest =>
      obtain ⟨result, text, hwritten, hrun⟩ := formatLog_written toString format first rest
      have hline : '\n' ∉ text := hwritten.not_mem hformat hargs
      rw [log_cons hlevel (hrun σ)]
      cases result with
      | false => exact ⟨text, rfl, .failed hline (hwritten.eq_nil_iff hshow)⟩
      | true => exact ⟨text ++ ['\n'], rfl, .line hline⟩

theorem Lines.nil : Lines [] 0 := ⟨[], [], rfl, rfl, List.forall_mem_nil _, List.not_mem_nil⟩

/-- A call completes the line that was begun, goes on with it or leaves it alone. -/
theorem Lines.append {before : List Char} {count : ℕ} {enabled : Bool} (h : Lines before count)
    (hwrites : Writes format enabled result text) :
    Lines (before ++ text) (count + if enabled && result then 1 else 0) := by
  obtain ⟨lines, rest, rfl, rfl, hlines, hrest⟩ := h
  cases hwrites with
  | disabled =>
      rw [List.append_nil]
      exact ⟨lines, rest, rfl, rfl, hlines, hrest⟩
  | @line line h =>
      refine ⟨lines ++ [rest ++ line], [], by simp, by simp, ?_, List.not_mem_nil⟩
      intro l hl
      rcases List.mem_append.mp hl with hl | hl
      · exact hlines l hl
      · rw [List.mem_singleton.mp hl, List.mem_append]
        exact not_or.mpr ⟨hrest, h⟩
  | failed h hempty =>
      refine ⟨lines, rest ++ text, List.append_assoc _ _ _, rfl, hlines, ?_⟩
      rw [List.mem_append]
      exact not_or.mpr ⟨hrest, h⟩

theorem serveAll_lines (hshow : ∀ a, toString a ≠ []) (requests : List (Request Arg))
    (honeLine : ∀ r ∈ requests, r.OneLine toString) (σ : State) {before : List Char} {count : ℕ}
    (h : Lines before count) : ∃ text, (serveAll toString σ requests).output = σ.output ++ text ∧
      Lines (before ++ text) (count + logged toString σ requests) := by
  induction requests generalizing σ before count with
  | nil =>
      refine ⟨[], (List.append_nil _).symm, ?_⟩
      rw [List.append_nil]
      exact h
  | cons r requests ih =>
      obtain ⟨hr, hrequests⟩ := List.forall_mem_cons.mp honeLine
      obtain ⟨text, htext, hwrites⟩ : ∃ text, (r.serve toString σ).2.output = σ.output ++ text ∧
          Lines (before ++ text)
            (count + if r.enabled σ && (r.serve toString σ).1 then 1 else 0) := by
        cases r with
        | setLevel level =>
            refine ⟨[], (List.append_nil _).symm, ?_⟩
            rw [List.append_nil]
            exact h
        | log level format args =>
            obtain ⟨text, htext, hwrites⟩ := log_writes hshow σ level args hr.1 hr.2
            exact ⟨text, congrArg State.output htext, h.append hwrites⟩
      obtain ⟨more, hmore, hlines⟩ := ih hrequests (r.serve toString σ).2 hwrites
      refine ⟨text ++ more, ?_, ?_⟩
      · rw [← List.append_assoc, ← htext]
        exact hmore
      · rw [← List.append_assoc, logged, ← Nat.add_assoc]
        exact hlines

/-- The calls write complete lines, one for each call that returned `true` at an enabled
level; a call that returned `false` has not ended its line, and has written nothing iff its
format has no placeholder. -/
theorem log_lines (toString : Arg → List Char) (hshow : ∀ a, toString a ≠ []) :
    (∀ σ level format args, (Request.log level format args).OneLine toString →
      ∃ text, (log toString level format args σ).2.output = σ.output ++ text ∧
        Writes format (decide (σ.currLevel.ctorIdx ≤ level.ctorIdx))
          (log toString level format args σ).1 text) ∧
    ∀ σ (requests : List (Request Arg)), (∀ r ∈ requests, r.OneLine toString) →
      ∃ text, (serveAll toString σ requests).output = σ.output ++ text ∧
        Lines text (logged toString σ requests) := by
  constructor
  · intro σ level format args honeLine
    obtain ⟨text, htext, hwrites⟩ := log_writes hshow σ level args honeLine.1 honeLine.2
    exact ⟨text, congrArg State.output htext, hwrites⟩
  · intro σ requests honeLine
    obtain ⟨text, htext, hlines⟩ := serveAll_lines hshow requests honeLine σ Lines.nil
    rw [List.nil_append, Nat.zero_add] at hlines
    exact ⟨text, htext, hlines⟩

end Lines

/-- `std::to_string` of a truth value. -/
def boolToString : Bool → List Char
  | false => ['0']
  | true => ['1']

theorem log_lines_bool :
    (log boolToString .info ['a', '{'] [true] ⟨.debug, []⟩).1 = false ∧
    ∃ text, (log boolToString .info ['a', '{'] [true] ⟨.debug, []⟩).2.output = [] ++ text ∧
      Writes ['a', '{'] true false text := by
  refine ⟨rfl, ?_⟩
  exact (log_lines boolToString (by decide)).1 ⟨.debug, []⟩ .info ['a', '{'] [true]
    ⟨by decide, by decide⟩

/-- A call with a placeholder that is not closed. -/
theorem not_log_lines : ¬∀ (σ : State) (level : Level) (format : List Char) (args : List Bool),
    (Request.log level format args).OneLine boolToString →
    (log boolToString level format args σ).1 = false →
    (log boolToString level format args σ).2.output = σ.output := by
  intro h
  have hnothing := h ⟨.debug, []⟩ .info ['a', '{'] [true] ⟨by decide, by decide⟩ rfl
  exact absurd hnothing (by decide)

end InterProcess.Logging
