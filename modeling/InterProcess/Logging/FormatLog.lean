import Mathlib.Data.List.Basic
import Mathlib.Tactic.ByContra

/-!
# `log::impl::format_log`

The text before the first placeholder `{…}` of the format is written, then the
first argument, then the text up to the next placeholder; the rest of the
format goes to a recursive call with the remaining arguments. The pieces are
written before it is known whether the placeholders match the arguments.

The arguments are of any types `std::to_string` takes; `toString` stands for it.
-/

namespace InterProcess.Logging

inductive Level
  | debug
  | info
  | warn
  | error
  | fatal
  | off
  deriving DecidableEq, Repr

/-- `curr_level`, and what was written to `std::cout`. -/
structure State where
  currLevel : Level
  output : List Char

def State.write (σ : State) (text : List Char) : State :=
  { σ with output := σ.output ++ text }

namespace Logger

/-- `logger::log`. -/
def log (token : List Char) : StateM State Bool := fun σ => (true, σ.write token)

def endLine : StateM State Bool := fun σ => (true, σ.write ['\n'])

end Logger

abbrev placeholderBegin : Char := '{'
abbrev placeholderEnd : Char := '}'

/-- The loop of `find_next`, over what is left of the format. -/
def advance (target : Char) : List Char → ℕ → ℕ
  | [], index => index
  | c :: rest, index => if c = target then index else advance target rest (index + 1)

/-- The index reached, and whether the target is there. -/
def findNext (index : ℕ) (format : List Char) (target : Char) : ℕ × Bool :=
  let index := advance target (format.drop index) index
  (index, index ≠ format.length)

variable {Arg : Type} (toString : Arg → List Char)

/-- `format_log` up to the place where it depends on the remaining arguments; `next` goes on
from the index reached and whether a placeholder begins there. -/
def formatFirst (format : List Char) (first : Arg) (allArgumentsFormatted : Bool)
    (next : ℕ → Bool → StateM State Bool) : StateM State Bool := do
  let (index, found) := findNext 0 format placeholderBegin
  if !found then
    return false
  if !(← Logger.log (format.take index)) then
    return false
  if !(← Logger.log (toString first)) then
    return false
  let (index, found) := findNext (index + 1) format placeholderEnd
  if !found then
    return false
  if index = format.length - 1 then
    return allArgumentsFormatted
  let firstIndex := index + 1
  let (index, nextFound) := findNext firstIndex format placeholderBegin
  if !(← Logger.log ((format.drop firstIndex).take (index - firstIndex))) then
    return false
  next index nextFound

def formatLog (format : List Char) (first : Arg) : List Arg → StateM State Bool
  | [] => formatFirst toString format first true fun _ nextFound => return !nextFound
  | second :: rest =>
      formatFirst toString format first false fun index nextFound => do
        if !nextFound then
          return false
        formatLog (format.drop index) second rest

/-! ## The searches -/

section Search

variable {target : Char} {before text : List Char}

theorem advance_of_mem (index : ℕ) (after : List Char) (h : target ∉ before) :
    advance target (before ++ target :: after) index = index + before.length := by
  induction before generalizing index with
  | nil => simp [advance]
  | cons c before ih =>
      obtain ⟨hne, hbefore⟩ := List.ne_and_not_mem_of_not_mem_cons h
      rw [List.cons_append, advance, if_neg (Ne.symm hne), ih (index + 1) hbefore]
      simp only [List.length_cons]
      omega

theorem advance_of_not_mem (index : ℕ) (h : target ∉ text) :
    advance target text index = index + text.length := by
  induction text generalizing index with
  | nil => rfl
  | cons c text ih =>
      obtain ⟨hne, htext⟩ := List.ne_and_not_mem_of_not_mem_cons h
      rw [advance, if_neg (Ne.symm hne), ih (index + 1) htext]
      simp only [List.length_cons]
      omega

theorem findNext_of_mem (skipped after : List Char) (h : target ∉ before) :
    findNext skipped.length (skipped ++ (before ++ target :: after)) target =
      (skipped.length + before.length, true) := by
  simp [findNext, advance_of_mem _ _ h]

theorem findNext_of_not_mem (skipped : List Char) (h : target ∉ text) :
    findNext skipped.length (skipped ++ text) target = (skipped.length + text.length, false) := by
  simp [findNext, advance_of_not_mem _ h]

end Search

/-! ## One round of `format_log` -/

@[simp] theorem State.write_nil (σ : State) : σ.write [] = σ := by
  simp [State.write]

@[simp] theorem State.write_write (σ : State) (text more : List Char) :
    (σ.write text).write more = σ.write (text ++ more) := by
  simp [State.write]

@[simp] theorem log_bind (text : List Char) (next : Bool → StateM State Bool) (σ : State) :
    (Logger.log text >>= next) σ = next true (σ.write text) := rfl

theorem pure_apply (b : Bool) (σ : State) : (pure b : StateM State Bool) σ = (b, σ) := rfl

section Round

variable {toString : Arg → List Char} {first second : Arg} {rest : List Arg} {all : Bool}
  {σ : State} {next : ℕ → Bool → StateM State Bool} {format before inside after tail : List Char}

theorem formatFirst_of_no_begin (h : '{' ∉ format) :
    formatFirst toString format first all next σ = (false, σ) := by
  have hfind : findNext 0 format placeholderBegin = (format.length, false) := by
    simpa using findNext_of_not_mem [] h
  rw [formatFirst, hfind]
  rfl

theorem formatFirst_of_no_end (hbefore : '{' ∉ before) (hinside : '}' ∉ inside) :
    formatFirst toString (before ++ '{' :: inside) first all next σ =
      (false, σ.write (before ++ toString first)) := by
  have hbegin : findNext 0 (before ++ '{' :: inside) placeholderBegin = (before.length, true) := by
    simpa using findNext_of_mem [] inside hbefore
  have hend : findNext (before.length + 1) (before ++ '{' :: inside) placeholderEnd =
      (before.length + 1 + inside.length, false) := by
    simpa using findNext_of_not_mem (before ++ ['{']) hinside
  simp only [formatFirst, hbegin, hend, log_bind, List.take_left', Bool.not_true, Bool.not_false,
    Bool.false_eq_true, if_false, if_true, State.write_write, pure_apply]

/-- The round of a placeholder: `tail` is empty or begins with the next one. -/
theorem formatFirst_of_placeholder (hbefore : '{' ∉ before) (hinside : '}' ∉ inside)
    (hafter : '{' ∉ after) (htail : ∀ c ∈ tail.head?, c = '{')
    (hall : next (before ++ '{' :: (inside ++ '}' :: after)).length false = pure all) :
    formatFirst toString (before ++ '{' :: (inside ++ '}' :: (after ++ tail))) first all next σ =
      next (before ++ '{' :: (inside ++ '}' :: after)).length (!tail.isEmpty)
        (σ.write (before ++ toString first ++ after)) := by
  have hbegin : findNext 0 (before ++ '{' :: (inside ++ '}' :: (after ++ tail)))
      placeholderBegin = (before.length, true) := by
    simpa using findNext_of_mem [] (inside ++ '}' :: (after ++ tail)) hbefore
  have hend : findNext (before.length + 1) (before ++ '{' :: (inside ++ '}' :: (after ++ tail)))
      placeholderEnd = (before.length + 1 + inside.length, true) := by
    simpa using findNext_of_mem (before ++ ['{']) (after ++ tail) hinside
  have hsplit : before ++ '{' :: (inside ++ '}' :: (after ++ tail)) =
      (before ++ '{' :: (inside ++ ['}'])) ++ (after ++ tail) := by simp
  have hskipped : before.length + 1 + inside.length + 1 =
      (before ++ '{' :: (inside ++ ['}'])).length := by
    simp only [List.length_append, List.length_cons, List.length_nil]
    omega
  have hnext : findNext (before.length + 1 + inside.length + 1)
      (before ++ '{' :: (inside ++ '}' :: (after ++ tail))) placeholderBegin =
        (before.length + 1 + inside.length + 1 + after.length, !tail.isEmpty) := by
    rw [hsplit, hskipped]
    cases tail with
    | nil => rw [List.append_nil]; exact findNext_of_not_mem _ hafter
    | cons c tail =>
        obtain rfl : c = '{' := htail c rfl
        exact findNext_of_mem _ tail hafter
  have htext : ((before ++ '{' :: (inside ++ '}' :: (after ++ tail))).drop
      (before.length + 1 + inside.length + 1)).take
        (before.length + 1 + inside.length + 1 + after.length -
          (before.length + 1 + inside.length + 1)) = after := by
    rw [hsplit, Nat.add_sub_cancel_left, List.drop_left' hskipped.symm, List.take_left]
  have hlength : (before ++ '{' :: (inside ++ '}' :: after)).length =
      before.length + 1 + inside.length + 1 + after.length := by
    simp only [List.length_append, List.length_cons]
    omega
  simp only [formatFirst, hbegin, hend, hnext, htext, log_bind, List.take_left', Bool.not_true,
    Bool.false_eq_true, if_false, State.write_write]
  rw [hlength] at hall ⊢
  split
  · -- the placeholder ends the format
    next hlast =>
      simp only [List.length_append, List.length_cons] at hlast
      obtain rfl : after = [] := List.length_eq_zero_iff.mp (by omega)
      obtain rfl : tail = [] := List.length_eq_zero_iff.mp (by omega)
      rw [List.append_nil]
      exact congrFun hall.symm _
  · rw [log_bind, State.write_write]
    rfl

theorem formatLog_of_no_begin (h : '{' ∉ format) :
    formatLog toString format first rest σ = (false, σ.write []) := by
  rw [State.write_nil]
  cases rest with
  | nil => exact formatFirst_of_no_begin h
  | cons second rest => exact formatFirst_of_no_begin h

theorem formatLog_of_no_end (hbefore : '{' ∉ before) (hinside : '}' ∉ inside) :
    formatLog toString (before ++ '{' :: inside) first rest σ =
      (false, σ.write (before ++ toString first)) := by
  cases rest with
  | nil => exact formatFirst_of_no_end hbefore hinside
  | cons second rest => exact formatFirst_of_no_end hbefore hinside

theorem formatLog_single (hbefore : '{' ∉ before) (hinside : '}' ∉ inside)
    (hafter : '{' ∉ after) (htail : ∀ c ∈ tail.head?, c = '{') :
    formatLog toString (before ++ '{' :: (inside ++ '}' :: (after ++ tail))) first [] σ =
      (tail.isEmpty, σ.write (before ++ toString first ++ after)) := by
  rw [formatLog, formatFirst_of_placeholder hbefore hinside hafter htail rfl, Bool.not_not]
  rfl

theorem formatLog_cons (hbefore : '{' ∉ before) (hinside : '}' ∉ inside)
    (hafter : '{' ∉ after) (htail : ∀ c ∈ tail.head?, c = '{') :
    formatLog toString (before ++ '{' :: (inside ++ '}' :: (after ++ tail))) first
        (second :: rest) σ =
      if tail.isEmpty then (false, σ.write (before ++ toString first ++ after))
      else formatLog toString tail second rest (σ.write (before ++ toString first ++ after)) := by
  have hsplit : before ++ '{' :: (inside ++ '}' :: (after ++ tail)) =
      (before ++ '{' :: (inside ++ '}' :: after)) ++ tail := by simp
  rw [formatLog, formatFirst_of_placeholder hbefore hinside hafter htail rfl, Bool.not_not]
  rw [hsplit, List.drop_left]
  cases tail with
  | nil => rfl
  | cons c tail => rfl

end Round

/-! ## The formats accepted -/

/-- A placeholder and the text up to the next one. -/
structure Placeholder where
  inside : List Char
  after : List Char
  inside_closed : '}' ∉ inside
  after_plain : '{' ∉ after

/-- A format taken apart: `t0 {p1} t1 … {pn} tn`. -/
structure Template where
  before : List Char
  placeholders : List Placeholder
  before_plain : '{' ∉ before

def Placeholder.format (p : Placeholder) : List Char := '{' :: (p.inside ++ '}' :: p.after)

def Template.format (t : Template) : List Char :=
  t.before ++ t.placeholders.flatMap Placeholder.format

/-- The text with an argument in the place of each placeholder. -/
def Template.filled (t : Template) (args : List (List Char)) : List Char :=
  t.before ++ (List.zipWith (fun arg p => arg ++ p.after) args t.placeholders).flatten

theorem Template.format_cons (before : List Char) (p : Placeholder) (ps : List Placeholder)
    (hbefore : '{' ∉ before) : (Template.mk before (p :: ps) hbefore).format =
      before ++ '{' :: (p.inside ++ '}' :: (p.after ++ ps.flatMap Placeholder.format)) := by
  simp [Template.format, Placeholder.format]

theorem Template.filled_cons (before arg : List Char) (args : List (List Char)) (p : Placeholder)
    (ps : List Placeholder) (hbefore : '{' ∉ before) :
    (Template.mk before (p :: ps) hbefore).filled (arg :: args) =
      before ++ arg ++ p.after ++
        (Template.mk [] ps (List.not_mem_nil)).filled args := by
  simp [Template.filled]

theorem head_placeholders (ps : List Placeholder) :
    ∀ c ∈ (ps.flatMap Placeholder.format).head?, c = '{' := by
  intro c hc
  cases ps with
  | nil => cases hc
  | cons p ps => exact (Option.some.inj hc).symm

theorem Template.before_eq_nil (t : Template) (h : ∀ c ∈ t.format.head?, c = '{') :
    t.before = [] := by
  obtain ⟨before, ps, hbefore⟩ := t
  cases before with
  | nil => rfl
  | cons c before => exact absurd (List.mem_cons.mpr (.inl (h c rfl).symm)) hbefore

/-- The format has no placeholder, one that is not closed, or a first one. -/
theorem format_cases (format : List Char) : '{' ∉ format ∨
    (∃ before inside, '{' ∉ before ∧ '}' ∉ inside ∧ format = before ++ '{' :: inside) ∨
    ∃ before, ∃ p : Placeholder, ∃ tail, '{' ∉ before ∧ (∀ c ∈ tail.head?, c = '{') ∧
      format = before ++ '{' :: (p.inside ++ '}' :: (p.after ++ tail)) := by
  by_cases hbegin : '{' ∈ format
  swap
  · exact .inl hbegin
  obtain ⟨before, behind, rfl, hbefore⟩ := List.eq_append_cons_of_mem hbegin
  by_cases hend : '}' ∈ behind
  swap
  · exact .inr (.inl ⟨before, behind, hbefore, hend, rfl⟩)
  obtain ⟨inside, text, rfl, hinside⟩ := List.eq_append_cons_of_mem hend
  by_cases hnext : '{' ∈ text
  · obtain ⟨after, tail, rfl, hafter⟩ := List.eq_append_cons_of_mem hnext
    refine .inr (.inr ⟨before, ⟨inside, after, hinside, hafter⟩, '{' :: tail, hbefore, ?_, rfl⟩)
    exact fun c hc => (Option.some.inj hc).symm
  · refine .inr (.inr ⟨before, ⟨inside, text, hinside, hnext⟩, [], hbefore, ?_, ?_⟩)
    · exact fun c hc => by cases hc
    · rw [List.append_nil]

section Formats

variable {toString : Arg → List Char} {first : Arg} {rest : List Arg} {σ : State}

/-- As many placeholders as arguments are filled. -/
theorem formatLog_template (t : Template) (h : t.placeholders.length = rest.length + 1) :
    formatLog toString t.format first rest σ =
      (true, σ.write (t.filled ((first :: rest).map toString))) := by
  obtain ⟨before, placeholders, hbefore⟩ := t
  induction rest generalizing before placeholders first σ with
  | nil =>
      obtain ⟨p, rfl⟩ := List.length_eq_one_iff.mp h
      rw [Template.format_cons, formatLog_single hbefore p.inside_closed p.after_plain
        (head_placeholders [])]
      simp [Template.filled]
  | cons second rest ih =>
      obtain ⟨p, ps, rfl⟩ := List.exists_cons_of_length_eq_add_one h
      have hlength : ps.length = rest.length + 1 := Nat.succ.inj h
      have hnonempty : (ps.flatMap Placeholder.format).isEmpty = false := by
        obtain ⟨q, qs, rfl⟩ := List.exists_cons_of_length_eq_add_one hlength
        rfl
      have htail : formatLog toString (ps.flatMap Placeholder.format) second rest
          (σ.write (before ++ toString first ++ p.after)) = (true, _) :=
        ih [] ps List.not_mem_nil hlength
      rw [Template.format_cons, formatLog_cons hbefore p.inside_closed p.after_plain
        (head_placeholders ps), hnonempty, if_neg Bool.false_ne_true, htail, State.write_write,
        List.map_cons (a := first), Template.filled_cons]

/-- What `format_log` returns and has written, round by round. -/
inductive Written (toString : Arg → List Char) :
    List Char → Arg → List Arg → Bool → List Char → Prop
  | noPlaceholder {format : List Char} {first : Arg} {rest : List Arg} (h : '{' ∉ format) :
      Written toString format first rest false []
  | unclosed {before inside : List Char} {first : Arg} {rest : List Arg}
      (hbefore : '{' ∉ before) (hinside : '}' ∉ inside) :
      Written toString (before ++ '{' :: inside) first rest false (before ++ toString first)
  | last {before tail : List Char} {first : Arg} (p : Placeholder)
      (hbefore : '{' ∉ before) (htail : ∀ c ∈ tail.head?, c = '{') :
      Written toString (before ++ '{' :: (p.inside ++ '}' :: (p.after ++ tail))) first []
        tail.isEmpty (before ++ toString first ++ p.after)
  | exhausted {before : List Char} {first second : Arg} {rest : List Arg} (p : Placeholder)
      (hbefore : '{' ∉ before) :
      Written toString (before ++ '{' :: (p.inside ++ '}' :: (p.after ++ []))) first
        (second :: rest) false (before ++ toString first ++ p.after)
  | next {before tail text : List Char} {first second : Arg} {rest : List Arg} {result : Bool}
      (p : Placeholder) (hbefore : '{' ∉ before) (htail : ∀ c ∈ tail.head?, c = '{')
      (h : Written toString tail second rest result text) :
      Written toString (before ++ '{' :: (p.inside ++ '}' :: (p.after ++ tail))) first
        (second :: rest) result (before ++ toString first ++ p.after ++ text)

theorem formatLog_written (toString : Arg → List Char) (format : List Char) (first : Arg)
    (rest : List Arg) : ∃ result text, Written toString format first rest result text ∧
      ∀ σ, formatLog toString format first rest σ = (result, σ.write text) := by
  induction rest generalizing format first with
  | nil =>
      rcases format_cases format with h | ⟨before, inside, hbefore, hinside, rfl⟩ |
        ⟨before, p, tail, hbefore, htail, rfl⟩
      · exact ⟨_, _, .noPlaceholder h, fun σ => formatLog_of_no_begin h⟩
      · exact ⟨_, _, .unclosed hbefore hinside, fun σ => formatLog_of_no_end hbefore hinside⟩
      · exact ⟨_, _, .last p hbefore htail, fun σ =>
          formatLog_single hbefore p.inside_closed p.after_plain htail⟩
  | cons second rest ih =>
      rcases format_cases format with h | ⟨before, inside, hbefore, hinside, rfl⟩ |
        ⟨before, p, tail, hbefore, htail, rfl⟩
      · exact ⟨_, _, .noPlaceholder h, fun σ => formatLog_of_no_begin h⟩
      · exact ⟨_, _, .unclosed hbefore hinside, fun σ => formatLog_of_no_end hbefore hinside⟩
      · cases tail with
        | nil =>
            exact ⟨_, _, .exhausted p hbefore, fun σ =>
              formatLog_cons hbefore p.inside_closed p.after_plain htail⟩
        | cons c tail =>
            obtain ⟨result, text, hwritten, hrun⟩ := ih (c :: tail) second
            refine ⟨result, _, .next p hbefore htail hwritten, fun σ => ?_⟩
            rw [formatLog_cons hbefore p.inside_closed p.after_plain htail, List.isEmpty_cons,
              if_neg Bool.false_ne_true, hrun, State.write_write]

/-- Only as many placeholders as arguments are reported as success. -/
theorem Written.exists_template {format text : List Char} {result : Bool}
    (h : Written toString format first rest result text) (hresult : result = true) :
    ∃ t : Template, t.format = format ∧ t.placeholders.length = rest.length + 1 := by
  induction h with
  | noPlaceholder h => cases hresult
  | unclosed hbefore hinside => cases hresult
  | last p hbefore htail =>
      obtain rfl := List.isEmpty_iff.mp hresult
      exact ⟨⟨_, [p], hbefore⟩, Template.format_cons _ p [] hbefore, rfl⟩
  | exhausted p hbefore => cases hresult
  | next p hbefore htail h ih =>
      obtain ⟨t, rfl, ht⟩ := ih hresult
      refine ⟨⟨_, p :: t.placeholders, hbefore⟩, ?_, congrArg (· + 1) ht⟩
      rw [Template.format_cons, Template.format, t.before_eq_nil htail, List.nil_append]

/-- A format is accepted iff it has one placeholder for each argument, and is then filled. -/
theorem formatLog_iff (toString : Arg → List Char) (format : List Char) (first : Arg)
    (rest : List Arg) (σ : State) :
    ((formatLog toString format first rest σ).1 = true ↔
      ∃ t : Template, t.format = format ∧ t.placeholders.length = (first :: rest).length) ∧
    ∀ t : Template, t.format = format → t.placeholders.length = (first :: rest).length →
      (formatLog toString format first rest σ).2.output =
        σ.output ++ t.filled ((first :: rest).map toString) := by
  obtain ⟨result, text, hwritten, hrun⟩ := formatLog_written toString format first rest
  refine ⟨⟨fun h => ?_, ?_⟩, ?_⟩
  · rw [hrun] at h
    exact hwritten.exists_template h
  · rintro ⟨t, rfl, ht⟩
    rw [formatLog_template t ht]
  · rintro t rfl ht
    rw [formatLog_template t ht]
    rfl

end Formats

end InterProcess.Logging
