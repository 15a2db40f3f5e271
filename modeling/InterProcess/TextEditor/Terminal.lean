import InterProcess.TextEditor.RawMode

/-!
# A terminal

Keys are typed, and the terminal answers a request for the cursor position by a
report, which arrives among the keys. Which keys are typed before a report
arrives is open (`early`), and where the cursor is may depend on all that has
been written.

A report of any position is read as that position (`positionOf_report`). A key
that arrives before it spoils it: `play_getCursorPosition_early`.
-/

namespace InterProcess.Console

open Interaction TextEditor

/-! ## Reports -/

/-- `%d` of `printf`. -/
def decimal (n : Int32) : List Char := (toString n.toInt).toList

/-- What a terminal answers the request with. -/
def report (pos : Position) : List Char :=
  "\x1b[".toList ++ decimal pos.row ++ [';'] ++ decimal pos.col ++ ['R']

theorem takeWhile_digits {digits rest : List Char} (hdigits : ∀ ch ∈ digits, ch.isDigit = true)
    (hrest : ∀ ch ∈ rest.head?, ch.isDigit = false) :
    (digits ++ rest).takeWhile Char.isDigit = digits ∧
      (digits ++ rest).dropWhile Char.isDigit = rest := by
  induction digits with
  | nil =>
      cases rest with
      | nil => exact ⟨rfl, rfl⟩
      | cons ch rest =>
          have hch := hrest ch rfl
          simp [hch]
  | cons digit digits ih =>
      obtain ⟨hdigit, hdigits⟩ := List.forall_mem_cons.mp hdigits
      obtain ⟨htake, hdrop⟩ := ih hdigits
      rw [List.cons_append, List.takeWhile_cons_of_pos hdigit, List.dropWhile_cons_of_pos hdigit]
      exact ⟨by rw [htake], hdrop⟩

theorem isDigit_of_mem_repr {n : ℕ} {ch : Char} (hch : ch ∈ n.repr.toList) :
    ch.isDigit = true := by
  rw [Nat.toList_repr] at hch
  exact Nat.isDigit_of_mem_toDigits (by decide) (by decide) hch

theorem repr_ne_nil (n : ℕ) : n.repr.toList ≠ [] := by
  rw [Nat.toList_repr]
  exact Nat.toDigits_ne_nil

theorem scanDigits_repr (negative : Bool) (n : ℕ) {rest : List Char}
    (hrest : ∀ ch ∈ rest.head?, ch.isDigit = false) :
    scanDigits negative (n.repr.toList ++ rest) =
      some (Int32.ofInt (if negative then -n else n), rest) := by
  obtain ⟨htake, hdrop⟩ := takeWhile_digits (fun _ => isDigit_of_mem_repr (n := n)) hrest
  simp only [scanDigits, htake, hdrop, if_neg (repr_ne_nil n)]
  rw [Nat.toList_repr, Nat.ofDigitChars_ten_toDigits]

theorem scanInt_digit {ch : Char} (hdigit : ch.isDigit = true) (rest : List Char) :
    scanInt (ch :: rest) = scanDigits false (ch :: rest) := by
  have hnospace : isspace ch = false := by
    have hlow : '0' ≤ ch := by
      simp only [Char.isDigit, Bool.and_eq_true, decide_eq_true_eq] at hdigit
      exact hdigit.1
    have hspace : ch ≠ ' ' := by
      rintro rfl
      exact absurd hdigit (by decide)
    have hcontrol : ¬ ch ≤ '\r' := fun hle => absurd (Char.le_trans hlow hle) (by decide)
    simp [isspace, hspace, hcontrol]
  have hminus : ch ≠ '-' := by
    rintro rfl
    exact absurd hdigit (by decide)
  have hplus : ch ≠ '+' := by
    rintro rfl
    exact absurd hdigit (by decide)
  unfold scanInt
  rw [List.dropWhile_cons_of_neg (by rw [hnospace]; exact Bool.false_ne_true)]
  split
  · next heq => cases heq; exact absurd rfl hminus
  · next heq => cases heq; exact absurd rfl hplus
  · rfl

theorem scanInt_repr (n : ℕ) {rest : List Char}
    (hrest : ∀ ch ∈ rest.head?, ch.isDigit = false) :
    scanInt (n.repr.toList ++ rest) = some (Int32.ofInt n, rest) := by
  obtain ⟨digit, digits, hn⟩ := List.exists_cons_of_ne_nil (repr_ne_nil n)
  have hdigit := isDigit_of_mem_repr (n := n) (by rw [hn]; exact List.mem_cons_self)
  have hscan := scanDigits_repr false n hrest
  rw [hn] at hscan ⊢
  rw [List.cons_append] at hscan ⊢
  rw [scanInt_digit hdigit, hscan]
  rfl

/-- The digits of an `int`, with a sign in front of them if it is negative. -/
theorem decimal_cases (n : Int32) :
    (∃ m : ℕ, n.toInt = m ∧ decimal n = m.repr.toList) ∨
      ∃ m : ℕ, n.toInt = -m ∧ decimal n = '-' :: m.repr.toList := by
  unfold decimal
  rw [Int.toString_eq_repr]
  cases n.toInt with
  | ofNat m => exact .inl ⟨m, rfl, rfl⟩
  | negSucc m =>
      refine .inr ⟨m + 1, rfl, ?_⟩
      show ("-" ++ (m + 1).repr).toList = _
      rw [String.toList_append]
      rfl

/-- `sscanf` reads back what `printf` writes. -/
theorem scanInt_decimal (n : Int32) {rest : List Char}
    (hrest : ∀ ch ∈ rest.head?, ch.isDigit = false) :
    scanInt (decimal n ++ rest) = some (n, rest) := by
  rcases decimal_cases n with ⟨m, hn, hdecimal⟩ | ⟨m, hn, hdecimal⟩
  · have hscan := scanInt_repr m hrest
    rw [← hn, Int32.ofInt_toInt] at hscan
    rw [hdecimal, hscan]
  · have hscan := scanDigits_repr true m hrest
    rw [if_pos rfl, ← hn, Int32.ofInt_toInt] at hscan
    rw [hdecimal, List.cons_append]
    unfold scanInt
    rw [List.dropWhile_cons_of_neg (by decide)]
    exact hscan

theorem not_mem_decimal (n : Int32) : 'R' ∉ decimal n := by
  have hrepr : ∀ m : ℕ, 'R' ∉ m.repr.toList := fun m hmem =>
    absurd (isDigit_of_mem_repr hmem) (by decide)
  rcases decimal_cases n with ⟨m, -, hdecimal⟩ | ⟨m, -, hdecimal⟩
  · rw [hdecimal]
    exact hrepr m
  · rw [hdecimal, List.mem_cons, not_or]
    exact ⟨by decide, hrepr m⟩

/-- A report is read as the position it is of, whatever that is. -/
theorem positionOf_report (pos : Position) : positionOf (report pos) = some pos := by
  have hcol : scanInt (decimal pos.col ++ ['R']) = some (pos.col, ['R']) :=
    scanInt_decimal pos.col (by rintro ch ⟨⟩; rfl)
  have hrow : scanInt (decimal pos.row ++ ';' :: (decimal pos.col ++ ['R'])) =
      some (pos.row, ';' :: (decimal pos.col ++ ['R'])) :=
    scanInt_decimal pos.row (by rintro ch ⟨⟩; rfl)
  have hreport : report pos = '\x1b' :: '[' ::
      (decimal pos.row ++ ';' :: (decimal pos.col ++ ['R'])) := by
    unfold report
    simp
  have hscan : scanPosition (decimal pos.row ++ ';' :: (decimal pos.col ++ ['R'])) = some pos := by
    unfold scanPosition
    rw [hrow]
    simp only
    rw [hcol]
    rfl
  rw [hreport]
  unfold positionOf
  simp only
  rw [if_neg, if_neg]
  · exact hscan
  · simp
  · simp only [List.length_cons, List.length_append]
    omega

/-- There is one `R` in a report, at its end. -/
theorem exists_report_eq (pos : Position) : ∃ body, report pos = body ++ ['R'] ∧ 'R' ∉ body ∧
    body.length < reportSize := by
  refine ⟨"\x1b[".toList ++ decimal pos.row ++ [';'] ++ decimal pos.col, rfl, ?_, ?_⟩
  · simp [not_mem_decimal]
  · have hrow := length_toString_le pos.row
    have hcol := length_toString_le pos.col
    unfold decimal reportSize
    simp only [List.length_append, List.length_singleton]
    have hstart : "\x1b[".toList.length = 2 := by simp
    omega

/-! ## The terminal -/

/-- The attributes, the characters that have arrived, the keys still to be typed and how many of
them are typed before each of the next reports arrives, and the texts that have been written. -/
structure Tty where
  termios : Termios
  arrived : List Char
  keys : List Char
  early : List ℕ
  screen : List (List Char)

variable (cursor : List (List Char) → Position)

/-- The report arrives behind the keys that are typed before it. -/
def Tty.request (σ : Tty) : Tty :=
  { σ with
    arrived := σ.arrived ++ σ.keys.take (σ.early.headD 0) ++ report (cursor σ.screen)
    keys := σ.keys.drop (σ.early.headD 0)
    early := σ.early.tail }

/-- A `read` waits for a key where no character has arrived; setting the attributes discards
those that have. -/
def terminal : Environment Call Answer Tty where
  answer σ
    | .tcgetattr => { value := 0, termios := σ.termios }
    | .read =>
      match (σ.arrived ++ σ.keys).head? with
      | none => { value := 0 }
      | some key => { value := 1, key := key }
    | .write text => { value := text.length }
    | _ => { value := 0 }
  effect σ x :=
    match x.1 with
    | .tcsetattr termios => { σ with termios := termios, arrived := [] }
    | .read =>
      if σ.arrived = [] then { σ with keys := σ.keys.tail }
      else { σ with arrived := σ.arrived.tail }
    | .write text =>
      if text = positionRequest then σ.request cursor
      else { σ with screen := σ.screen ++ [text] }
    | _ => σ

variable {cursor} {σ : Tty}

theorem play_writeText {text : List Char} (h : text ≠ positionRequest) :
    (writeText text).play (terminal cursor) σ =
      ({ σ with screen := σ.screen ++ [text] }, true) := by
  unfold writeText
  rw [play_perform, play_pure]
  simp only [terminal, if_neg h, decide_true]

theorem play_request :
    (writeText positionRequest).play (terminal cursor) σ = (σ.request cursor, true) := by
  unfold writeText
  rw [play_perform, play_pure]
  simp only [terminal, if_true, decide_true]

theorem play_readKey_arrived {key : Char} {rest : List Char} (h : σ.arrived = key :: rest) :
    readKey.play (terminal cursor) σ = ({ σ with arrived := rest }, some key) := by
  unfold readKey
  rw [play_perform]
  simp only [terminal, h, List.cons_append, List.head?_cons]
  rfl

theorem play_readKey_typed {key : Char} {keys : List Char} (harrived : σ.arrived = [])
    (hkeys : σ.keys = key :: keys) :
    readKey.play (terminal cursor) σ = ({ σ with keys := keys }, some key) := by
  unfold readKey
  rw [play_perform]
  simp only [terminal, harrived, hkeys, List.nil_append, List.head?_cons]
  rfl

theorem play_readKey_end (harrived : σ.arrived = []) (hkeys : σ.keys = []) :
    readKey.play (terminal cursor) σ = (σ, none) := by
  obtain ⟨termios, arrived, keys, early, screen⟩ := σ
  cases harrived
  cases hkeys
  rfl

/-- All that has arrived up to an `R` is taken for the report. -/
theorem play_readReport {body rest : List Char} (hbody : 'R' ∉ body) (rounds : ℕ)
    (hrounds : body.length < rounds) (buf : List Char)
    (harrived : σ.arrived = body ++ 'R' :: rest) :
    (readReport rounds buf).play (terminal cursor) σ =
      ({ σ with arrived := rest }, some (buf ++ (body ++ ['R']))) := by
  induction body generalizing σ rounds buf with
  | nil =>
      obtain ⟨rounds, rfl⟩ := Nat.exists_eq_succ_of_ne_zero (Nat.ne_zero_of_lt hrounds)
      unfold readReport
      rw [play_bind_of_eq _ _ (play_readKey_arrived harrived)]
      rfl
  | cons key body ih =>
      obtain ⟨rounds, rfl⟩ := Nat.exists_eq_succ_of_ne_zero (Nat.ne_zero_of_lt hrounds)
      obtain ⟨hkey, hbody⟩ := not_or.mp (mt List.mem_cons.mpr hbody)
      unfold readReport
      rw [play_bind_of_eq _ _ (play_readKey_arrived harrived)]
      simp only [if_neg (Ne.symm hkey)]
      rw [ih hbody rounds (Nat.lt_of_succ_lt_succ hrounds) _ rfl, List.append_assoc]
      rfl

/-- The position is the one the terminal has reported, when no key comes before the report. -/
theorem play_getCursorPosition (harrived : σ.arrived = []) (hearly : σ.early.headD 0 = 0) :
    getCursorPosition.play (terminal cursor) σ =
      ({ σ with early := σ.early.tail }, some (cursor σ.screen)) := by
  obtain ⟨body, hreport, hbody, hlength⟩ := exists_report_eq (cursor σ.screen)
  have hrequest : (σ.request cursor).arrived = body ++ 'R' :: [] := by
    rw [Tty.request, harrived, hearly, hreport]
    rfl
  unfold getCursorPosition
  rw [play_bind_of_eq _ _ play_request]
  simp only [Bool.not_true, Bool.false_eq_true, if_false]
  rw [play_bind_of_eq _ _ (play_readReport hbody _ hlength [] hrequest), List.nil_append,
    ← hreport]
  simp only
  rw [play_pure, positionOf_report, Tty.request, harrived.symm, hearly, List.drop_zero]

/-! ## Keys before the report -/

/-- Nothing but the input changes. -/
def Tty.SameScreen (σ σ' : Tty) : Prop := σ'.termios = σ.termios ∧ σ'.screen = σ.screen

theorem readKey_keeps (cursor : List (List Char) → Position) (σ : Tty) :
    σ.SameScreen (readKey.play (terminal cursor) σ).1 := by
  cases harrived : σ.arrived with
  | cons key rest =>
      rw [play_readKey_arrived harrived]
      exact ⟨rfl, rfl⟩
  | nil =>
      cases hkeys : σ.keys with
      | cons key keys =>
          rw [play_readKey_typed harrived hkeys]
          exact ⟨rfl, rfl⟩
      | nil =>
          rw [play_readKey_end harrived hkeys]
          exact ⟨rfl, rfl⟩

/-- Whatever is read begins with what had been read before. -/
theorem readReport_keeps (cursor : List (List Char) → Position) (rounds : ℕ) (buf : List Char)
    (σ : Tty) :
    σ.SameScreen ((readReport rounds buf).play (terminal cursor) σ).1 ∧
      ∀ read, ((readReport rounds buf).play (terminal cursor) σ).2 = some read → buf <+: read := by
  induction rounds generalizing buf σ with
  | zero => exact ⟨⟨rfl, rfl⟩, fun _ hno => nomatch hno⟩
  | succ rounds ih =>
      obtain ⟨htermios, hscreen⟩ := readKey_keeps cursor σ
      unfold readReport
      rw [play_bind]
      cases (readKey.play (terminal cursor) σ).2 with
      | none => exact ⟨⟨htermios, hscreen⟩, fun _ hno => nomatch hno⟩
      | some key =>
          simp only
          split
          · refine ⟨⟨htermios, hscreen⟩, fun read hread => ?_⟩
            cases hread
            exact List.prefix_append _ _
          · obtain ⟨hsame, hbegins⟩ := ih (buf ++ [key]) (readKey.play (terminal cursor) σ).1
            refine ⟨⟨hsame.1.trans htermios, hsame.2.trans hscreen⟩, fun read hread => ?_⟩
            exact (List.prefix_append buf [key]).trans (hbegins read hread)

theorem positionOf_eq_none {key : Char} {buf : List Char} (h : [key] <+: buf)
    (hkey : key ≠ '\x1b') : positionOf buf = none := by
  obtain ⟨rest, rfl⟩ := h
  unfold positionOf
  simp only
  split
  · rfl
  · rw [if_pos]
    refine .inl fun heq => hkey ?_
    exact Option.some.inj heq

/-- A key that arrives before the report is taken for its beginning. -/
theorem play_getCursorPosition_early (cursor : List (List Char) → Position) {key : Char}
    {keys : List Char} (harrived : σ.arrived = []) (hkeys : σ.keys = key :: keys)
    (hearly : σ.early.headD 0 ≠ 0) (hkey : key ≠ '\x1b') :
    ∃ σ', getCursorPosition.play (terminal cursor) σ = (σ', none) ∧ σ.SameScreen σ' := by
  obtain ⟨early, hsucc⟩ := Nat.exists_eq_succ_of_ne_zero hearly
  have hrequest : (σ.request cursor).arrived =
      key :: (keys.take early ++ report (cursor σ.screen)) := by
    rw [Tty.request, harrived, hkeys, hsucc]
    rfl
  have hread : ∀ buf, (readReport reportSize []).play (terminal cursor) (σ.request cursor) =
      buf → σ.SameScreen buf.1 ∧ ∀ read, buf.2 = some read → [key] <+: read := by
    rintro buf rfl
    unfold reportSize readReport
    rw [play_bind_of_eq _ _ (play_readKey_arrived hrequest)]
    simp only
    split
    · exact ⟨⟨rfl, rfl⟩, fun read hread => by cases hread; exact List.prefix_refl _⟩
    · exact readReport_keeps cursor 30 [key] _
  obtain ⟨hsame, hbegins⟩ := hread _ rfl
  unfold getCursorPosition
  rw [play_bind_of_eq _ _ play_request]
  simp only [Bool.not_true, Bool.false_eq_true, if_false]
  rw [play_bind]
  refine ⟨_, ?_, hsame⟩
  cases hbuf : ((readReport reportSize []).play (terminal cursor) (σ.request cursor)).2 with
  | none => rfl
  | some buf =>
      simp only
      rw [positionOf_eq_none (hbegins buf hbuf) hkey]
      rfl

end InterProcess.Console
