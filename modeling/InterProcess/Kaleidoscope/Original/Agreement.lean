import InterProcess.Kaleidoscope.Original.Lexer

/-!
# The two lexers

On an ASCII text `gettok` returns the tokens of the maximal-munch tokenisation
without the numerals it swallows: those that start with a `.` right behind
another numeral (`nthToken_joined`). So the two lexers return the same exactly
when there are none (`gettok_agrees_iff`).
-/

namespace InterProcess.Kaleidoscope

open Munch

theorem IsAscii.tail {ch : Int8} {u : List Int8} (hascii : IsAscii (ch :: u)) : IsAscii u :=
  fun d hd => hascii d (List.mem_cons_of_mem ch hd)

theorem IsAscii.right {l u : List Int8} (hascii : IsAscii (l ++ u)) : IsAscii u :=
  fun d hd => hascii d (List.mem_append_right l hd)

theorem IsLexeme.of_dot {body : List Int8} (h : IsLexeme (char '.' :: body)) :
    ∀ c ∈ body, isdigit c = true := by
  generalize hs : char '.' :: body = l at h
  cases h with
  | whitespace | symbol | other =>
      obtain ⟨-, rfl⟩ := List.cons.inj hs
      exact List.forall_mem_nil _
  | comment => cases (List.cons.inj hs).1
  | word halpha =>
      obtain ⟨rfl, -⟩ := List.cons.inj hs
      cases halpha
  | integer hne h =>
      subst hs
      cases h _ List.mem_cons_self
  | @decimal digits fraction h hfraction =>
      cases digits with
      | nil =>
          obtain ⟨-, rfl⟩ := List.cons.inj hs
          exact hfraction
      | cons digit digits =>
          obtain ⟨rfl, -⟩ := List.cons.inj hs
          cases h _ List.mem_cons_self

namespace Original

/-! ## Characters -/

theorem toNat_toUInt8 {ch : Int8} (h : 0 ≤ ch.toInt) : (ch.toUInt8.toNat : ℤ) = ch.toInt := by
  have hcond := BitVec.toInt_eq_toNat_cond ch.toBitVec
  have hlt := ch.toBitVec.isLt
  have htoInt : ch.toInt = ch.toBitVec.toInt := rfl
  have htoNat : ch.toUInt8.toNat = ch.toBitVec.toNat := rfl
  split at hcond <;> omega

theorem toInt_eq_iff (ch : Int8) (c : Char) (hc : (char c).toInt = (c.toNat : ℤ)) :
    ch.toInt = (c.toNat : ℤ) ↔ ch = char c := by
  rw [← hc, Int8.toInt_inj]

theorem isNumeric_toInt (ch : Int8) :
    isNumeric ch.toInt = (Kaleidoscope.isdigit ch || ch = char '.') := by
  have hdot : decide (ch.toInt = ('.'.toNat : ℤ)) = decide (ch = char '.') :=
    decide_eq_decide.mpr (toInt_eq_iff ch '.' rfl)
  show (Kaleidoscope.isdigit ch || decide (ch.toInt = ('.'.toNat : ℤ))) = _
  rw [hdot]

/-- `LastChar` and `stdin` when the lexer has `u` left to tokenise. -/
def chars (u : List Int8) : ℤ × List UInt8 := getchar (u.map Int8.toUInt8)

theorem chars_cons {ch : Int8} {u : List Int8} (hascii : IsAscii (ch :: u)) :
    chars (ch :: u) = (ch.toInt, u.map Int8.toUInt8) := by
  show ((ch.toUInt8.toNat : ℤ), u.map Int8.toUInt8) = _
  rw [toNat_toUInt8 (hascii ch List.mem_cons_self)]

/-! ## The loops -/

theorem skipSpaces_of_not_space {lastChar : ℤ} (stdin : List UInt8)
    (h : isspace lastChar = false) : skipSpaces lastChar stdin = (lastChar, stdin) := by
  cases stdin <;> simp [skipSpaces, h]

/-- One turn of the loop over whitespace. -/
theorem skipSpaces_chars {lastChar : ℤ} (h : isspace lastChar = true) (stdin : List UInt8) :
    skipSpaces lastChar stdin = skipSpaces (getchar stdin).1 (getchar stdin).2 := by
  cases stdin with
  | nil =>
      have heof : isspace eof = false := rfl
      simp [skipSpaces, h, getchar, heof]
  | cons c stdin => simp [skipSpaces, h, getchar]

/-- The loop stops at the first character that does not satisfy `p`. -/
theorem readWhile_append {p : ℤ → Bool} (str : List Int8) {body u : List Int8}
    (hbody : ∀ ch ∈ body, p ch.toInt = true) (hu : ∀ ch ∈ u.head?, p ch.toInt = false)
    (hascii : IsAscii (body ++ u)) :
    readWhile p str ((body ++ u).map Int8.toUInt8) = (str ++ body, chars u) := by
  induction body generalizing str with
  | nil =>
      cases u with
      | nil =>
          rw [List.append_nil, List.append_nil]
          rfl
      | cons c u =>
          have hc := toNat_toUInt8 (hascii c List.mem_cons_self)
          have hstop : p (c.toUInt8.toNat : ℤ) = false := by rw [hc]; exact hu c rfl
          show readWhile p str (c.toUInt8 :: u.map Int8.toUInt8) = _
          rw [readWhile, hstop, List.append_nil]
          rfl
  | cons ch body ih =>
      have hch := toNat_toUInt8 (hascii ch List.mem_cons_self)
      have hgoes : p (ch.toUInt8.toNat : ℤ) = true := by
        rw [hch]
        exact hbody ch List.mem_cons_self
      show readWhile p str (ch.toUInt8 :: (body ++ u).map Int8.toUInt8) = _
      rw [readWhile, if_pos hgoes, hch, Int8.ofInt_toInt,
        ih _ (fun d hd => hbody d (List.mem_cons_of_mem ch hd)) hascii.tail, List.append_assoc]
      rfl

/-! ## One call -/

/-- The static variables, with `u` left to tokenise. -/
def Globals.at (g : Globals) (u : List Int8) : Globals :=
  { g with lastChar := (chars u).1, stdin := (chars u).2 }

section Gettok

variable {ch : Int8} {body u : List Int8} {g : Globals}

/-- After the whitespace `gettok` goes by `LastChar`. -/
theorem gettok_of_skip {lastChar : ℤ} {stdin : List UInt8}
    (hskip : skipSpaces g.lastChar g.stdin = (lastChar, stdin)) :
    gettok g =
      if isalpha lastChar then
        let (identifierStr, lastChar, stdin) := readWhile isalnum [Int8.ofInt lastChar] stdin
        let tok :=
          if identifierStr = text "def" then tokDef
          else if identifierStr = text "extern" then tokExtern
          else tokIdentifier
        (tok, ⟨lastChar, stdin, identifierStr, g.numVal⟩)
      else if isNumeric lastChar then
        let (numStr, lastChar, stdin) := readWhile isNumeric [Int8.ofInt lastChar] stdin
        (tokNumber, ⟨lastChar, stdin, g.identifierStr, strtod numStr⟩)
      else if lastChar = ('#'.toNat : ℤ) then
        let after := (readWhile isComment [] stdin).2
        if after.1 ≠ eof then gettok ⟨after.1, after.2, g.identifierStr, g.numVal⟩
        else (tokEof, ⟨after.1, after.2, g.identifierStr, g.numVal⟩)
      else if lastChar = eof then (tokEof, ⟨lastChar, stdin, g.identifierStr, g.numVal⟩)
      else (lastChar, ⟨(getchar stdin).1, (getchar stdin).2, g.identifierStr, g.numVal⟩) := by
  rw [gettok]
  split
  next hskip' =>
  obtain ⟨rfl, rfl⟩ := Prod.mk.inj (hskip'.symm.trans hskip)
  rfl

/-- Whitespace makes no difference. -/
theorem gettok_space (hspace : Kaleidoscope.isspace ch = true) (hascii : IsAscii (ch :: u)) :
    gettok (g.at (ch :: u)) = gettok (g.at u) := by
  have hstart : chars (ch :: u) = (ch.toInt, u.map Int8.toUInt8) := chars_cons hascii
  have hskip : skipSpaces (g.at (ch :: u)).lastChar (g.at (ch :: u)).stdin =
      skipSpaces (g.at u).lastChar (g.at u).stdin := by
    show skipSpaces (chars (ch :: u)).1 (chars (ch :: u)).2 = _
    rw [hstart]
    exact skipSpaces_chars hspace _
  exact (gettok_of_skip hskip).trans (gettok_of_skip rfl).symm

theorem gettok_end : gettok (g.at []) = (tokEof, g.at []) := gettok_of_skip rfl

/-- With `v` left to tokenise, `gettok` returns the token and leaves `u`. -/
def Takes (g : Globals) (v : List Int8) (token : Token ℚ) (u : List Int8) : Prop :=
  ∃ tok after, gettok (g.at v) = (tok, Globals.at after u) ∧ seen tok (after.at u) = token

theorem skipSpaces_first (hspace : Kaleidoscope.isspace ch = false)
    (hascii : IsAscii (ch :: u)) :
    skipSpaces (g.at (ch :: u)).lastChar (g.at (ch :: u)).stdin =
      (ch.toInt, u.map Int8.toUInt8) := by
  show skipSpaces (chars (ch :: u)).1 (chars (ch :: u)).2 = _
  rw [chars_cons hascii]
  exact skipSpaces_of_not_space _ hspace

theorem takes_word (h : Kaleidoscope.isalpha ch = true)
    (hbody : ∀ c ∈ body, Kaleidoscope.isalnum c = true)
    (hu : ∀ c ∈ u.head?, Kaleidoscope.isalnum c = false) (hascii : IsAscii (ch :: (body ++ u))) :
    Takes g (ch :: (body ++ u)) (identifierToken (ch :: body)) u := by
  have halpha : isalpha ch.toInt = true := h
  have hread := readWhile_append (p := isalnum) [ch] hbody hu hascii.tail
  have hget := gettok_of_skip (skipSpaces_first (g := g) (isspace_of_isalpha h) hascii)
  simp only [halpha, if_true, Int8.ofInt_toInt, hread] at hget
  refine ⟨_, ⟨0, [], ch :: body, g.numVal⟩, hget, ?_⟩
  show seen (if ch :: body = text "def" then tokDef
    else if ch :: body = text "extern" then tokExtern else tokIdentifier) _ = _
  unfold identifierToken
  split
  · rfl
  · split <;> rfl

theorem takes_numeral (h : (Kaleidoscope.isdigit ch || ch = char '.') = true)
    (hbody : ∀ c ∈ body, (Kaleidoscope.isdigit c || c = char '.') = true)
    (hu : ∀ c ∈ u.head?, (Kaleidoscope.isdigit c || c = char '.') = false)
    (hascii : IsAscii (ch :: (body ++ u))) :
    Takes g (ch :: (body ++ u)) (.number (strtod (ch :: body))) u := by
  have halpha : isalpha ch.toInt = false := isalpha_of_numeral h
  have hnumeric : isNumeric ch.toInt = true := (isNumeric_toInt ch).trans h
  have hread := readWhile_append (p := isNumeric) [ch]
    (fun c hc => (isNumeric_toInt c).trans (hbody c hc))
    (fun c hc => (isNumeric_toInt c).trans (hu c hc)) hascii.tail
  have hget := gettok_of_skip (skipSpaces_first (g := g) (isspace_of_numeral h) hascii)
  simp only [halpha, hnumeric, if_true, Bool.false_eq_true, if_false, Int8.ofInt_toInt,
    hread] at hget
  exact ⟨tokNumber, ⟨0, [], g.identifierStr, strtod (ch :: body)⟩, hget, rfl⟩

/-- A comment makes no difference either. -/
theorem gettok_comment (hbody : ∀ c ∈ body, c ≠ char '\n' ∧ c ≠ char '\r')
    (hu : ∀ c ∈ u.head?, c = char '\n' ∨ c = char '\r')
    (hascii : IsAscii (char '#' :: (body ++ u))) :
    gettok (g.at (char '#' :: (body ++ u))) = gettok (g.at u) := by
  have hinside : ∀ c ∈ body, isComment c.toInt = true := by
    intro c hc
    have hpos := hascii c (List.mem_cons_of_mem _ (List.mem_append_left u hc))
    have hnewline := mt (toInt_eq_iff c '\n' rfl).mp (hbody c hc).1
    have hreturn := mt (toInt_eq_iff c '\r' rfl).mp (hbody c hc).2
    have heof : c.toInt ≠ eof := by unfold eof; omega
    simp only [isComment, heof, hnewline, hreturn, ne_eq, not_false_eq_true, decide_true,
      Bool.and_self]
  have hstop : ∀ c ∈ u.head?, isComment c.toInt = false := by
    intro c hc
    rcases hu c hc with rfl | rfl <;> rfl
  have hread := readWhile_append (p := isComment) [] hinside hstop hascii.tail
  have hspace : Kaleidoscope.isspace (char '#') = false := rfl
  have hget := gettok_of_skip (skipSpaces_first (g := g) hspace hascii)
  have halpha : isalpha (char '#').toInt = false := rfl
  have hnumeric : isNumeric (char '#').toInt = false := rfl
  have hhash : (char '#').toInt = ('#'.toNat : ℤ) := rfl
  rw [halpha, hnumeric, if_neg Bool.false_ne_true, if_neg Bool.false_ne_true, if_pos hhash,
    hread] at hget
  rw [hget]
  cases u with
  | nil => exact gettok_end.symm
  | cons c u =>
      have hc : chars (c :: u) = (c.toInt, u.map Int8.toUInt8) := chars_cons hascii.tail.right
      have hne : (chars (c :: u)).1 ≠ eof := by
        have hpos := hascii.tail.right c List.mem_cons_self
        rw [hc]
        show c.toInt ≠ -1
        omega
      exact if_pos hne

/-- Any other character is its own token. -/
theorem takes_char (hspace : Kaleidoscope.isspace ch = false)
    (halpha : Kaleidoscope.isalpha ch = false)
    (hnumeral : (Kaleidoscope.isdigit ch || ch = char '.') = false) (hhash : ch ≠ char '#')
    (hascii : IsAscii (ch :: u)) :
    Takes g (ch :: u) (((symbols ℚ).lookup ch).getD (.unknown ch)) u := by
  have hpos := hascii ch List.mem_cons_self
  have hget := gettok_of_skip (skipSpaces_first (g := g) hspace hascii)
  have halpha' : isalpha ch.toInt = false := halpha
  have hnumeric : isNumeric ch.toInt = false := (isNumeric_toInt ch).trans hnumeral
  have hhash' : ch.toInt ≠ ('#'.toNat : ℤ) := mt (toInt_eq_iff ch '#' rfl).mp hhash
  have heof : ch.toInt ≠ eof := by unfold eof; omega
  rw [halpha', hnumeric, if_neg Bool.false_ne_true, if_neg Bool.false_ne_true, if_neg hhash',
    if_neg heof] at hget
  refine ⟨ch.toInt, g, hget, ?_⟩
  have hnot : ∀ tok : ℤ, tok < 0 → ch.toInt ≠ tok := fun tok htok => by omega
  rw [seen, if_neg (hnot tokEof (by decide)), if_neg (hnot tokDef (by decide)),
    if_neg (hnot tokExtern (by decide)), if_neg (hnot tokIdentifier (by decide)),
    if_neg (hnot tokNumber (by decide)), Int8.ofInt_toInt]

end Gettok

/-! ## Numerals in a row -/

def startsWithDot (l : List Int8) : Bool := l.head? = some (char '.')

def isNumeral (l : List Int8) : Bool :=
  l.head?.any fun ch => Kaleidoscope.isdigit ch || ch = char '.'

/-- The lexemes without the numerals that start with a `.` right behind a numeral; the flag
says whether there is one in front of the list. -/
def joined : Bool → List (List Int8) → List (List Int8)
  | _, [] => []
  | behind, l :: ls =>
      if behind && startsWithDot l then joined true ls else l :: joined (isNumeral l) ls

/-- A digit continues a numeral with a `.`. -/
theorem Longest.not_digit_of_decimal {digits fraction u : List Int8}
    (h : Longest IsLexeme (digits ++ char '.' :: fraction) u)
    (hdigits : ∀ c ∈ digits, Kaleidoscope.isdigit c = true)
    (hfraction : ∀ c ∈ fraction, Kaleidoscope.isdigit c = true) :
    ∀ c ∈ u.head?, Kaleidoscope.isdigit c = false := by
  intro c hc
  cases u with
  | nil => cases hc
  | cons d u =>
      obtain rfl : d = c := Option.some.inj hc
      refine Bool.eq_false_iff.mpr fun hdigit => h.not_isLexeme_append ?_
      rw [List.append_assoc]
      refine .decimal hdigits fun e he => ?_
      rcases List.mem_append.mp he with he | he
      · exact hfraction e he
      · rwa [List.mem_singleton.mp he]

/-- Behind a numeral `gettok` goes on to the end of the numerals that follow at once. -/
theorem exists_run {u : List Int8} {ls : List (List Int8)} (hls : MaximalMunch IsLexeme u ls)
    (hu : ∀ c ∈ u.head?, Kaleidoscope.isdigit c = false) :
    ∃ run u' ls', u = run ++ u' ∧ (run ≠ [] → u.head? = some (char '.')) ∧
      (∀ c ∈ run, (Kaleidoscope.isdigit c || c = char '.') = true) ∧
      (∀ c ∈ u'.head?, (Kaleidoscope.isdigit c || c = char '.') = false) ∧
      MaximalMunch IsLexeme u' ls' ∧ joined true ls = joined false ls' := by
  induction hls with
  | nil => exact ⟨[], [], [], rfl, fun h => absurd rfl h, nofun, nofun, .nil, rfl⟩
  | @cons l rest ls hl hrest ih =>
      cases l with
      | nil => exact absurd rfl hl.ne_nil
      | cons ch body =>
          by_cases hdot : ch = char '.'
          · subst hdot
            have hbody := hl.isLexeme.of_dot
            have hdecimal : Longest IsLexeme ([] ++ char '.' :: body) rest := hl
            obtain ⟨run, u', ls', rfl, -, hrun, hu', hls', hjoined⟩ :=
              ih (Longest.not_digit_of_decimal hdecimal nofun hbody)
            refine ⟨char '.' :: body ++ run, u', ls', (List.append_assoc _ _ _).symm,
              fun _ => rfl, fun c hc => ?_, hu', hls', hjoined⟩
            rcases List.mem_append.mp hc with hc | hc
            · rcases List.mem_cons.mp hc with rfl | hc
              · rfl
              · simp [hbody c hc]
            · exact hrun c hc
          · have hdigit := hu ch rfl
            refine ⟨[], ch :: body ++ rest, (ch :: body) :: ls, rfl, fun h => absurd rfl h, nofun,
              fun c hc => ?_, .cons hl hrest, ?_⟩
            · obtain rfl : ch = c := Option.some.inj hc
              simp [hdigit, hdot]
            · simp [joined, startsWithDot, hdot]

/-- `strtod` reads the first numeral. -/
theorem strtod_decimal {digits fraction run : List Int8}
    (hdigits : ∀ c ∈ digits, Kaleidoscope.isdigit c = true)
    (hfraction : ∀ c ∈ fraction, Kaleidoscope.isdigit c = true)
    (hrun : ∀ c ∈ run.head?, Kaleidoscope.isdigit c = false) :
    strtod (digits ++ char '.' :: fraction ++ run) =
      numeralValue (digits ++ char '.' :: fraction) := by
  have hdot : Kaleidoscope.isdigit (char '.') = false := rfl
  have hstop : run.takeWhile Kaleidoscope.isdigit = [] := by
    cases run with
    | nil => rfl
    | cons c run => rw [List.takeWhile_cons, hrun c rfl]; rfl
  have hread : fractionOf (char '.' :: (fraction ++ run)) = fraction := by
    rw [fractionOf, if_pos rfl, List.takeWhile_append_of_pos hfraction, hstop, List.append_nil]
  rw [numeralValue_decimal hdigits, foldl_addFraction, foldl_addDigit, strtod, List.append_assoc,
    List.cons_append, List.takeWhile_append_of_pos hdigits, List.dropWhile_append_of_pos hdigits,
    List.takeWhile_cons, List.dropWhile_cons, hdot]
  simp [hread]

theorem strtod_integer {digits : List Int8}
    (hdigits : ∀ c ∈ digits, Kaleidoscope.isdigit c = true) :
    strtod digits = numeralValue digits := by
  rw [numeralValue_integer hdigits, foldl_addDigit, strtod,
    List.takeWhile_eq_self_iff.mpr hdigits, List.dropWhile_eq_nil_iff.mpr hdigits]
  simp [fractionOf, decimal_nil]

/-- A numeral, up to the end of those that follow at once. -/
theorem takes_numerals {ch : Int8} {body u : List Int8} {ls : List (List Int8)}
    (hl : Longest IsLexeme (ch :: body) u) (hls : MaximalMunch IsLexeme u ls)
    (h : (Kaleidoscope.isdigit ch || ch = char '.') = true)
    (hascii : IsAscii (ch :: (body ++ u))) :
    ∃ u' ls', u'.length ≤ u.length ∧ IsAscii u' ∧ MaximalMunch IsLexeme u' ls' ∧
      joined true ls = joined false ls' ∧
      ∀ g, Takes g (ch :: (body ++ u)) (.number (numeralValue (ch :: body))) u' := by
  -- all of it is digits and dots, no digit follows, and a dot only where there was one before
  have hnumeral : (∀ c ∈ body, (Kaleidoscope.isdigit c || c = char '.') = true) ∧
      (∀ c ∈ u.head?, Kaleidoscope.isdigit c = false) ∧
      ∀ run, (run ≠ [] → u.head? = some (char '.') ∧ run.head? = some (char '.')) →
        strtod (ch :: (body ++ run)) = numeralValue (ch :: body) := by
    have hlexeme := hl.isLexeme
    generalize hs : ch :: body = l at hl hlexeme
    cases hlexeme with
    | whitespace hspace =>
        obtain ⟨rfl, -⟩ := List.cons.inj hs
        rw [isspace_of_numeral h] at hspace
        cases hspace
    | comment =>
        obtain ⟨rfl, -⟩ := List.cons.inj hs
        cases h
    | symbol hsymbol =>
        obtain ⟨rfl, -⟩ := List.cons.inj hs
        have hnot : ∀ c ∈ text "(),<+-*", (Kaleidoscope.isdigit c || c = char '.') = false := by
          decide +kernel
        rw [hnot _ hsymbol] at h
        cases h
    | word halpha =>
        obtain ⟨rfl, -⟩ := List.cons.inj hs
        rw [isalpha_of_numeral h] at halpha
        cases halpha
    | other hother =>
        obtain ⟨rfl, -⟩ := List.cons.inj hs
        simp [hother.digit, hother.dot] at h
    | integer hne hdigits =>
        subst hs
        have hstop : ∀ c ∈ u.head?, Kaleidoscope.isdigit c = false ∧ c ≠ char '.' := by
          intro c hc
          cases u with
          | nil => cases hc
          | cons d u =>
              obtain rfl : d = c := Option.some.inj hc
              refine ⟨Bool.eq_false_iff.mpr fun hdigit => hl.not_isLexeme_append ?_, ?_⟩
              · refine .integer (by simp) fun e he => ?_
                rcases List.mem_append.mp he with he | he
                · exact hdigits e he
                · rwa [List.mem_singleton.mp he]
              · rintro rfl
                exact hl.not_isLexeme_append (.decimal hdigits nofun)
        refine ⟨fun c hc => by simp [hdigits c (List.mem_cons_of_mem ch hc)],
          fun c hc => (hstop c hc).1, fun run hrun => ?_⟩
        obtain rfl : run = [] := by
          by_contra hne
          exact (hstop _ (hrun hne).1).2 rfl
        rw [List.append_nil]
        exact strtod_integer hdigits
    | @decimal digits fraction hdigits hfraction =>
        refine ⟨fun c hc => ?_, Longest.not_digit_of_decimal hl hdigits hfraction,
          fun run hrun => ?_⟩
        · have hmem : c ∈ digits ++ char '.' :: fraction := hs ▸ List.mem_cons_of_mem ch hc
          rcases List.mem_append.mp hmem with hmem | hmem
          · simp [hdigits c hmem]
          · rcases List.mem_cons.mp hmem with rfl | hmem
            · rfl
            · simp [hfraction c hmem]
        · rw [← List.cons_append, hs]
          refine strtod_decimal hdigits hfraction fun c hc => ?_
          have hne : run ≠ [] := by
            rintro rfl
            cases hc
          obtain rfl : char '.' = c := Option.some.inj ((hrun hne).2.symm.trans hc)
          rfl
  obtain ⟨hbody, hdigit, hvalue⟩ := hnumeral
  obtain ⟨run, u', ls', rfl, hdot, hrun, hu', hls', hjoined⟩ := exists_run hls hdigit
  have hascii' : IsAscii (ch :: ((body ++ run) ++ u')) := by rwa [List.append_assoc]
  refine ⟨u', ls', by simp, hascii'.tail.right, hls', hjoined, fun g => ?_⟩
  have hall : ∀ c ∈ body ++ run, (Kaleidoscope.isdigit c || c = char '.') = true :=
    fun c hc => (List.mem_append.mp hc).elim (hbody c) (hrun c)
  have htakes := takes_numeral (g := g) h hall hu' hascii'
  rw [hvalue run fun hne => ⟨hdot hne, ?_⟩, List.append_assoc] at htakes
  · exact htakes
  · obtain ⟨c, run, rfl⟩ := List.exists_cons_of_ne_nil hne
    exact hdot hne

/-! ## The whole text -/

theorem nthToken_congr {g g' : Globals} (h : gettok g = gettok g') (k : ℕ) :
    nthToken k g = nthToken k g' := by
  cases k with
  | zero => rw [nthToken, nthToken, h]
  | succ k => rw [nthToken, nthToken, h]

/-- The token of one call in front of those of the calls after it. -/
theorem Takes.nthToken {g : Globals} {v u : List Int8} {token : Token ℚ}
    {tokens : List (Token ℚ)} (h : Takes g v token u)
    (hrest : ∀ (g : Globals) k, nthToken k (g.at u) = tokens[k]?.getD .eof) (k : ℕ) :
    nthToken k (g.at v) = (token :: tokens)[k]?.getD .eof := by
  obtain ⟨tok, after, hget, hseen⟩ := h
  cases k with
  | zero => rw [Original.nthToken, hget]; exact hseen
  | succ k => rw [Original.nthToken, hget]; exact hrest after k

theorem nthToken_end (g : Globals) (k : ℕ) : nthToken k (g.at []) = .eof := by
  induction k with
  | zero => rw [nthToken, gettok_end]; rfl
  | succ k ih => rw [nthToken, gettok_end]; exact ih

/-- Behind a comment its line or the text ends. -/
theorem Longest.newline {body u : List Int8} (h : Longest IsLexeme (char '#' :: body) u)
    (hbody : ∀ c ∈ body, c ≠ char '\n' ∧ c ≠ char '\r') :
    ∀ c ∈ u.head?, c = char '\n' ∨ c = char '\r' := by
  intro c hc
  cases u with
  | nil => cases hc
  | cons d u =>
      obtain rfl : d = c := Option.some.inj hc
      by_contra hnot
      refine h.not_isLexeme_append (.comment fun e he => ?_)
      rcases List.mem_append.mp he with he | he
      · exact hbody e he
      · rw [List.mem_singleton.mp he]
        exact not_or.mp hnot

/-- Behind a word there is neither a letter nor a digit. -/
theorem Longest.not_isalnum {ch : Int8} {body u : List Int8}
    (h : Longest IsLexeme (ch :: body) u) (halpha : Kaleidoscope.isalpha ch = true)
    (hbody : ∀ c ∈ body, Kaleidoscope.isalnum c = true) :
    ∀ c ∈ u.head?, Kaleidoscope.isalnum c = false := by
  intro c hc
  cases u with
  | nil => cases hc
  | cons d u =>
      obtain rfl : d = c := Option.some.inj hc
      refine Bool.eq_false_iff.mpr fun halnum => h.not_isLexeme_append (.word halpha fun e he => ?_)
      rcases List.mem_append.mp he with he | he
      · exact hbody e he
      · rwa [List.mem_singleton.mp he]

/-- The call on a lexeme: its token, or nothing is made of it. -/
def Handles (g : Globals) (l u u' : List Int8) : Prop :=
  (lexemeToken (D := ℚ) l = none ∧ gettok (g.at (l ++ u)) = gettok (g.at u')) ∨
    ∃ token, lexemeToken l = some token ∧ Takes g (l ++ u) token u'

/-- The call gets from a lexeme in front of `u` to where the tokens of what is left are those of
`ls'`. -/
structure Advances (l u : List Int8) (ls : List (List Int8)) (u' : List Int8)
    (ls' : List (List Int8)) : Prop where
  length_le : u'.length ≤ u.length
  ascii : IsAscii u'
  munch : MaximalMunch IsLexeme u' ls'
  joined_eq : joined (isNumeral l) ls = joined false ls'
  handles : ∀ g, Handles g l u u'

section Advances

variable {l u : List Int8} {ls : List (List Int8)}

/-- A lexeme that is no numeral is all that the call takes. -/
theorem Advances.of_handles (hls : MaximalMunch IsLexeme u ls) (hascii : IsAscii (l ++ u))
    (hbehind : isNumeral l = false) (h : ∀ g, Handles g l u u) : Advances l u ls u ls where
  length_le := Nat.le_refl _
  ascii := hascii.right
  munch := hls
  joined_eq := by rw [hbehind]
  handles := h

theorem advances_numeral {ch : Int8} {body : List Int8} (hl : Longest IsLexeme (ch :: body) u)
    (hls : MaximalMunch IsLexeme u ls) (hascii : IsAscii (ch :: body ++ u))
    (h : (Kaleidoscope.isdigit ch || ch = char '.') = true) :
    ∃ u' ls', Advances (ch :: body) u ls u' ls' := by
  obtain ⟨u', ls', hle, hascii', hls', hjoined, htakes⟩ := takes_numerals hl hls h hascii
  have hbehind : isNumeral (ch :: body) = true := h
  exact ⟨u', ls', hle, hascii', hls', by rw [hbehind]; exact hjoined,
    fun g => .inr ⟨_, lexemeToken_numeral body h, htakes g⟩⟩

theorem isNumeral_of_space {ch : Int8} {body : List Int8}
    (h : Kaleidoscope.isspace ch = true) : isNumeral (ch :: body) = false := by
  refine Bool.eq_false_iff.mpr fun hch => ?_
  rw [@isspace_of_numeral ch hch] at h
  cases h

theorem isNumeral_of_alpha {ch : Int8} {body : List Int8}
    (h : Kaleidoscope.isalpha ch = true) : isNumeral (ch :: body) = false := by
  refine Bool.eq_false_iff.mpr fun hch => ?_
  rw [@isalpha_of_numeral ch hch] at h
  cases h

theorem exists_advances (hl : Longest IsLexeme l u) (hls : MaximalMunch IsLexeme u ls)
    (hascii : IsAscii (l ++ u)) : ∃ u' ls', Advances l u ls u' ls' := by
  cases hl.isLexeme with
  | @whitespace ch hspace =>
      exact ⟨u, ls, .of_handles hls hascii (isNumeral_of_space hspace) fun g =>
        .inl ⟨by simp [lexemeToken, hspace], gettok_space hspace hascii⟩⟩
  | @comment body hbody =>
      exact ⟨u, ls, .of_handles hls hascii rfl fun g =>
        .inl ⟨by simp [lexemeToken], gettok_comment hbody (Longest.newline hl hbody) hascii⟩⟩
  | @symbol ch hsymbol =>
      have hclass : ∀ c ∈ text "(),<+-*", Kaleidoscope.isspace c = false ∧
          Kaleidoscope.isalpha c = false ∧
          (Kaleidoscope.isdigit c || c = char '.') = false ∧ c ≠ char '#' := by decide +kernel
      obtain ⟨hspace, halpha, hnumeral, hhash⟩ := hclass ch hsymbol
      obtain ⟨token, htoken⟩ := lookup_isSome (D := ℚ) hsymbol
      refine ⟨u, ls, .of_handles hls hascii hnumeral fun g =>
        .inr ⟨token, lexemeToken_symbol [] htoken hspace hhash, ?_⟩⟩
      have htakes := takes_char (g := g) hspace halpha hnumeral hhash hascii
      rwa [htoken] at htakes
  | @word ch body halpha hbody =>
      exact ⟨u, ls, .of_handles hls hascii (isNumeral_of_alpha halpha) fun g =>
        .inr ⟨_, lexemeToken_word body halpha,
          takes_word halpha hbody (Longest.not_isalnum hl halpha hbody) hascii⟩⟩
  | integer hne hdigits =>
      obtain ⟨ch, body, rfl⟩ := List.exists_cons_of_ne_nil hne
      exact advances_numeral hl hls hascii (by simp [hdigits ch List.mem_cons_self])
  | @decimal digits fraction hdigits hfraction =>
      cases digits with
      | nil => exact advances_numeral hl hls hascii rfl
      | cons digit digits =>
          exact advances_numeral hl hls hascii (by simp [hdigits digit List.mem_cons_self])
  | @other ch hother =>
      have hnumeral : (Kaleidoscope.isdigit ch || ch = char '.') = false := by
        simp [hother.digit, hother.dot]
      refine ⟨u, ls, .of_handles hls hascii hnumeral fun g =>
        .inr ⟨.unknown ch, lexemeToken_other [] hother, ?_⟩⟩
      have htakes := takes_char (g := g) hother.space hother.alpha hnumeral hother.hash hascii
      rwa [lookup_other hother] at htakes

end Advances

theorem nthToken_at {u : List Int8} {ls : List (List Int8)} (hls : MaximalMunch IsLexeme u ls)
    (hascii : IsAscii u) (g : Globals) (k : ℕ) :
    nthToken k (g.at u) = ((joined false ls).filterMap lexemeToken)[k]?.getD .eof := by
  induction hn : u.length using Nat.strong_induction_on generalizing u ls g k with
  | _ n ih =>
  subst hn
  cases hls with
  | nil => exact nthToken_end g k
  | @cons l u ls hl hrest =>
      obtain ⟨u', ls', h⟩ := exists_advances hl hrest hascii
      have hpos := List.length_pos_of_ne_nil hl.ne_nil
      have hle := h.length_le
      have hlater : ∀ (g : Globals) k,
          nthToken k (g.at u') = ((joined false ls').filterMap lexemeToken)[k]?.getD .eof :=
        fun g k => ih u'.length (by rw [List.length_append]; omega) h.munch h.ascii g k rfl
      have hjoined : joined false (l :: ls) = l :: joined false ls' := by
        rw [← h.joined_eq]
        rfl
      rw [hjoined]
      rcases h.handles g with ⟨hnone, hsame⟩ | ⟨token, htoken, htakes⟩
      · rw [List.filterMap_cons_none hnone]
        exact (nthToken_congr hsame k).trans (hlater g k)
      · rw [List.filterMap_cons_some htoken]
        exact htakes.nthToken hlater k

theorem nthToken_joined {s : List Int8} {ls : List (List Int8)} (hls : MaximalMunch IsLexeme s ls)
    (hascii : IsAscii s) (k : ℕ) :
    nthToken k (.start s) = ((joined false ls).filterMap lexemeToken)[k]?.getD .eof := by
  have hblank : joined false ([char ' '] :: ls) = [char ' '] :: joined false ls := rfl
  have hstart := nthToken_at (.cons (longest_blank s) hls) (isAscii_blank hascii) ⟨0, [], [], 0⟩ k
  rwa [hblank, List.filterMap_cons_none rfl] at hstart

/-! ## Where they agree -/

theorem joined_sublist (behind : Bool) (ls : List (List Int8)) :
    (joined behind ls).Sublist ls := by
  induction ls generalizing behind with
  | nil => exact .refl _
  | cons l ls ih =>
      unfold joined
      split
      · exact (ih true).trans (List.sublist_cons_self l ls)
      · exact (ih _).cons_cons l

/-- No numeral with a `.` at its start is right behind a numeral. -/
def Apart (l l' : List Int8) : Prop := ¬ (isNumeral l = true ∧ startsWithDot l' = true)

/-- What is left out has a token, so leaving it out shows in the tokens. -/
theorem tokens_joined_iff (behind : Bool) (ls : List (List Int8)) :
    (joined behind ls).filterMap (lexemeToken (D := ℚ)) = ls.filterMap lexemeToken ↔
      (behind = true → ∀ l ∈ ls.head?, startsWithDot l = false) ∧ ls.IsChain Apart := by
  induction ls generalizing behind with
  | nil => exact iff_of_true rfl ⟨nofun, .nil⟩
  | cons l ls ih =>
      unfold joined
      split
      · next hswallowed =>
          rw [Bool.and_eq_true] at hswallowed
          obtain ⟨hbehind, hdot⟩ := hswallowed
          obtain ⟨body, rfl⟩ : ∃ body, l = char '.' :: body := by
            cases l with
            | nil => cases hdot
            | cons ch body => exact ⟨body, by rw [Option.some.inj (of_decide_eq_true hdot)]⟩
          refine iff_of_false (fun heq => ?_) fun h => ?_
          · have hle := ((joined_sublist true ls).filterMap (lexemeToken (D := ℚ))).length_le
            rw [heq, List.filterMap_cons_some (lexemeToken_numeral body rfl),
              List.length_cons] at hle
            omega
          · have hnot := h.1 hbehind _ rfl
            rw [hdot] at hnot
            cases hnot
      · next hkept =>
          have hfirst : behind = true → startsWithDot l = false := by
            intro hbehind
            simpa [hbehind] using hkept
          have hchain : (l :: ls).IsChain Apart ↔
              (isNumeral l = true → ∀ l' ∈ ls.head?, startsWithDot l' = false) ∧
                ls.IsChain Apart := by
            cases ls with
            | nil => exact iff_of_true (.singleton l) ⟨nofun, .nil⟩
            | cons l' ls =>
                rw [List.isChain_cons_cons]
                simp [Apart]
          have hcons : (l :: joined (isNumeral l) ls).filterMap (lexemeToken (D := ℚ)) =
                (l :: ls).filterMap lexemeToken ↔
              (joined (isNumeral l) ls).filterMap (lexemeToken (D := ℚ)) =
                ls.filterMap lexemeToken := by
            cases htoken : lexemeToken (D := ℚ) l with
            | none => rw [List.filterMap_cons_none htoken, List.filterMap_cons_none htoken]
            | some token =>
                rw [List.filterMap_cons_some htoken, List.filterMap_cons_some htoken,
                  List.cons_inj_right]
          rw [hcons, ih, hchain]
          refine ⟨fun h => ⟨fun hbehind l' hl' => ?_, h⟩, fun h => h.2⟩
          obtain rfl : l = l' := Option.some.inj hl'
          exact hfirst hbehind

/-- Token lists that go on with `eof_token` in the same way are the same. -/
theorem tokens_ext {tokens tokens' : List (Token ℚ)} (heof : Token.eof ∉ tokens)
    (heof' : Token.eof ∉ tokens')
    (h : ∀ k : ℕ, tokens[k]?.getD .eof = tokens'[k]?.getD .eof) : tokens = tokens' := by
  refine List.ext_getElem? fun k => ?_
  have hk := h k
  cases htoken : tokens[k]? with
  | none =>
      rw [htoken] at hk
      cases htoken' : tokens'[k]? with
      | none => rfl
      | some token' =>
          rw [htoken'] at hk
          obtain rfl : Token.eof = token' := hk
          exact absurd (List.mem_of_getElem? htoken') heof'
  | some token =>
      rw [htoken] at hk
      cases htoken' : tokens'[k]? with
      | none =>
          rw [htoken'] at hk
          obtain rfl : token = Token.eof := hk
          exact absurd (List.mem_of_getElem? htoken) heof
      | some token' =>
          rw [htoken'] at hk
          exact congrArg some hk

theorem eof_not_mem (ls : List (List Int8)) :
    Token.eof ∉ ls.filterMap (lexemeToken (D := ℚ)) := by
  intro hmem
  obtain ⟨l, -, hl⟩ := List.mem_filterMap.mp hmem
  exact lexemeToken_ne_eof l hl

/-- On an ASCII text the original lexer returns the tokens of the lexemes, without the numerals
that start with a `.` right behind another. So it agrees with the other lexer, call by call,
exactly when there are none, as long as no assert fails there. -/
theorem gettok_agrees_iff (asserts : Bool) (s : List Int8) (hascii : IsAscii s)
    (ls : List (List Int8)) (hls : MaximalMunch IsLexeme s ls)
    (hzero : asserts = true → ∀ l ∈ ls, ¬ ZeroLed l) :
    (∀ k, nthToken k (.start s) = ((joined false ls).filterMap lexemeToken)[k]?.getD .eof) ∧
      ((∀ k, Lexer.nthToken asserts k (Lexer.new (s ++ [endOfFile])) =
          some (nthToken k (.start s))) ↔ ls.IsChain Apart) := by
  refine ⟨nthToken_joined hls hascii, ?_⟩
  have hlexer : ∀ k, Lexer.nthToken asserts k (Lexer.new (s ++ [endOfFile])) =
      some ((ls.filterMap (lexemeToken (D := ℚ)))[k]?.getD .eof) := fun k => by
    rw [nthToken_sentinel asserts hascii hls, filterMap_lexemeResult hzero, answers_map_some]
  have htokens := tokens_joined_iff false ls
  constructor
  · intro h
    refine (htokens.mp (tokens_ext (eof_not_mem _) (eof_not_mem _) fun k => ?_)).2
    rw [← nthToken_joined hls hascii]
    exact (Option.some.inj ((hlexer k).symm.trans (h k))).symm
  · intro h k
    rw [hlexer, nthToken_joined hls hascii, htokens.mpr ⟨nofun, h⟩]

/-- The lexemes of `.5.5`. -/
theorem maximalMunch_dots : MaximalMunch IsLexeme (text ".5.5") [text ".5", text ".5"] := by
  have hlexeme : IsLexeme (text ".5") :=
    @IsLexeme.decimal [] (text "5") nofun (List.all_eq_true.mp rfl)
  have hlast : Longest IsLexeme (text ".5") [] :=
    ⟨by decide, hlexeme, fun _ _ hstarts => hstarts.length_le⟩
  have hfirst : Longest IsLexeme (text ".5") (text ".5") := by
    refine ⟨by decide, hlexeme, ?_⟩
    -- a second dot ends the numeral
    rintro l hl ⟨rest, hrest⟩
    have hchars : text ".5" ++ text ".5" = [char '.', char '5', char '.', char '5'] := rfl
    rw [hchars] at hrest
    rcases l with _ | ⟨ch, _ | ⟨c, _ | ⟨d, body⟩⟩⟩
    · exact Nat.zero_le _
    · exact Nat.le_succ 1
    · exact Nat.le_refl 2
    · simp only [List.cons_append, List.cons.injEq] at hrest
      obtain ⟨rfl, rfl, rfl, -⟩ := hrest
      cases hl.of_dot (char '.') (by simp)
  exact .cons hfirst (.cons hlast .nil)

theorem gettok_agrees_iff_dots :
    nthToken 1 (.start (text ".5.5")) = .eof ∧
      ¬ ∀ k, Lexer.nthToken true k (Lexer.new (text ".5.5" ++ [endOfFile])) =
        some (nthToken k (.start (text ".5.5"))) := by
  have h := gettok_agrees_iff true (text ".5.5") (by unfold IsAscii; decide +kernel) _
    maximalMunch_dots (fun _ => by decide)
  refine ⟨(h.1 1).trans rfl, fun hall => ?_⟩
  have hchain := h.2.mp hall
  rw [List.isChain_cons_cons] at hchain
  exact hchain.1 ⟨rfl, rfl⟩

end Original

end InterProcess.Kaleidoscope
