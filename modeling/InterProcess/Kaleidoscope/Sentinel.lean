import InterProcess.Kaleidoscope.Tokenise
import Mathlib.Tactic.IntervalCases

/-!
# Buffers without the sentinel

`get_token` gives up when its reader is empty, and the digit loops of
`lex_number` end there, whether or not the pending character has been used.
The last lexeme of a buffer without the sentinel is therefore lost when it is
one character long and was read while the lexeme before it was lexed, and a
longer numeral loses its last digit. Everything else is lexed as with the
sentinel: `sameTokens_iff`.
-/

namespace InterProcess.Kaleidoscope

open Munch

/-- A numeral of several characters that ends in a digit. -/
def losesDigit (l : List Int8) : Bool :=
  l.head?.any (fun ch => isdigit ch || ch = char '.') && 2 ≤ l.length && l.getLast?.any isdigit

/-- What the lexer uses of the last lexeme, once it has got to its first character. -/
def readAtEnd (l : List Int8) : List Int8 := if losesDigit l then l.dropLast else l

def isBlank (l : List Int8) : Bool := l.head?.any isspace

theorem readAtEnd_concat {ch d : Int8} (body : List Int8) (h : (isdigit ch || ch = char '.') = true)
    (hd : isdigit d = true) : readAtEnd (ch :: (body ++ [d])) = ch :: body := by
  have hloses : losesDigit (ch :: (body ++ [d])) = true := by
    simp only [losesDigit, List.head?_cons, Option.any_some, h, List.getLast?_cons]
    simp [hd]
  rw [readAtEnd, if_pos hloses, ← List.cons_append, List.dropLast_concat]

section AtEnd

variable {D : Type} [Double D] (asserts : Bool)

theorem lexDigits_at_end {α : Type} (add : α → Int8 → α) (state : α) {digits : List Int8}
    {last d : Int8} {reader : List Int8} (hdigits : ∀ ch ∈ digits, isdigit ch = true)
    (h : last :: reader = digits ++ [d]) :
    lexDigits add state last reader = (digits.foldl add state, ⟨d, []⟩) := by
  induction digits generalizing state last reader with
  | nil =>
      obtain ⟨rfl, rfl⟩ := List.cons.inj h
      rfl
  | cons digit digits ih =>
      obtain ⟨rfl, rfl⟩ := List.cons.inj h
      have hrest := fun d hd => hdigits d (List.mem_cons_of_mem _ hd)
      cases digits with
      | nil => exact (if_pos (hdigits last List.mem_cons_self)).trans (ih _ hrest rfl)
      | cons digit digits =>
          exact (if_pos (hdigits last List.mem_cons_self)).trans (ih _ hrest rfl)

theorem lexNumber_integer_at_end {ch : Int8} {body : List Int8}
    (h : ∀ d ∈ ch :: body, isdigit d = true) (hzero : asserts = true → ch ≠ char '0') :
    ∃ stale, lexNumber asserts ⟨ch, body⟩ =
      some ((numeralValue (readAtEnd (ch :: body)) : D), ⟨stale, []⟩) := by
  have hch := h ch List.mem_cons_self
  have hdot : ∀ d, isdigit d = true → d ≠ char '.' := by
    rintro d hd rfl
    cases hd
  rw [lexNumber_digit asserts body hch hzero]
  rcases List.eq_nil_or_concat' body with rfl | ⟨body, d, rfl⟩
  · refine ⟨ch, ?_⟩
    have hread : readAtEnd [ch] = [ch] := by simp [readAtEnd, losesDigit]
    rw [hread, numeralValue_integer h]
    exact if_pos (hdot ch hch)
  · refine ⟨d, ?_⟩
    have hd : isdigit d = true := h d (by simp)
    have hbody : ∀ e ∈ ch :: body, isdigit e = true := fun e he => h e (by
      rw [← List.cons_append]
      exact List.mem_append_left _ he)
    have hrest := lexDigits_at_end addDigit (addDigit (0 : D) ch)
      (fun e he => hbody e (List.mem_cons_of_mem _ he))
      (Cursor.read_cons ch (by simp : body ++ [d] ≠ []))
    rw [readAtEnd_concat body (by simp [hch]) hd, numeralValue_integer hbody]
    simp only [hrest]
    exact if_pos (hdot d hd)

theorem lexNumber_decimal_at_end (cursor : Cursor) {digits fraction : List Int8}
    (h : ∀ d ∈ digits, isdigit d = true) (hfraction : ∀ d ∈ fraction, isdigit d = true)
    (hzero : asserts = true → ¬ ZeroLed digits)
    (heq : cursor.last :: cursor.reader = digits ++ char '.' :: fraction) :
    ∃ stale, lexNumber asserts cursor =
      some ((numeralValue (readAtEnd (digits ++ char '.' :: fraction)) : D), ⟨stale, []⟩) := by
  rw [lexNumber_append asserts h rfl hzero heq, if_neg (by simp)]
  rcases List.eq_nil_or_concat' fraction with rfl | ⟨fraction, d, rfl⟩
  · have hread : readAtEnd (digits ++ [char '.']) = digits ++ [char '.'] := by
      simp [readAtEnd, losesDigit, show isdigit (char '.') = false from rfl]
    rw [hread, numeralValue_decimal h]
    exact ⟨char '.', rfl⟩
  · have hread : readAtEnd (digits ++ char '.' :: (fraction ++ [d])) =
        digits ++ char '.' :: fraction := by
      have hd : isdigit d = true := hfraction d (by simp)
      cases digits with
      | nil => exact readAtEnd_concat fraction rfl hd
      | cons digit digits =>
          have hdigit : (isdigit digit || digit = char '.') = true := by
            simp [h digit List.mem_cons_self]
          have hconcat := readAtEnd_concat (digits ++ char '.' :: fraction) hdigit hd
          simpa using hconcat
    have hrest := lexDigits_at_end addFraction ((1 : D), digits.foldl addDigit (0 : D))
      (fun e he => hfraction e (List.mem_append_left _ he))
      (Cursor.read_cons (char '.') (by simp : fraction ++ [d] ≠ []))
    rw [hread, numeralValue_decimal h]
    simp only [hrest]
    exact ⟨d, rfl⟩

theorem lexIdentifier_at_end (identifier : List Int8) (last : Int8) {body : List Int8}
    (hbody : ∀ ch ∈ body, isalnum ch = true) :
    ∃ stale, lexIdentifier identifier last body = (identifier ++ body, ⟨stale, []⟩) := by
  induction body generalizing identifier last with
  | nil => exact ⟨last, by rw [List.append_nil]; rfl⟩
  | cons ch body ih =>
      obtain ⟨stale, hrest⟩ := ih (identifier ++ [ch]) ch fun d hd =>
        hbody d (List.mem_cons_of_mem _ hd)
      refine ⟨stale, ?_⟩
      rw [lexIdentifier, if_pos (hbody ch List.mem_cons_self), hrest, List.append_assoc]
      rfl

theorem skipComment_at_end (last : Int8) {body : List Int8}
    (hbody : ∀ ch ∈ body, ch ≠ endOfFile ∧ ch ≠ char '\n' ∧ ch ≠ char '\r')
    (hlast : last ≠ endOfFile) :
    ∃ stale, stale ≠ endOfFile ∧ skipComment last body = ⟨stale, []⟩ := by
  induction body generalizing last with
  | nil => exact ⟨last, hlast, rfl⟩
  | cons ch body ih =>
      have hch := hbody ch List.mem_cons_self
      obtain ⟨stale, hstale, hrest⟩ := ih ch (fun d hd => hbody d (List.mem_cons_of_mem _ hd)) hch.1
      exact ⟨stale, hstale, (if_pos hch).trans hrest⟩

/-! ## The last lexeme -/

theorem readAtEnd_cons (ch : Int8) (body : List Int8) :
    ∃ rest, readAtEnd (ch :: body) = ch :: rest := by
  cases hloses : losesDigit (ch :: body) with
  | false => exact ⟨body, by rw [readAtEnd, hloses]; rfl⟩
  | true =>
      cases body with
      | nil => simp [losesDigit] at hloses
      | cons b body => exact ⟨(b :: body).dropLast, by rw [readAtEnd, hloses]; rfl⟩

theorem readAtEnd_of_not_numeral {ch : Int8} (body : List Int8)
    (h : (isdigit ch || ch = char '.') = false) : readAtEnd (ch :: body) = ch :: body := by
  have hloses : losesDigit (ch :: body) = false := by
    rw [losesDigit, List.head?_cons, Option.any_some, h, Bool.false_and, Bool.false_and]
  rw [readAtEnd, hloses]
  rfl

section Last

variable {cursor : Cursor} {ch : Int8} {body : List Int8} (hreader : cursor.reader ≠ [])
  (hskip : skipWhitespace cursor.last cursor.reader = (true, ⟨ch, body⟩))

include hreader hskip

/-- The lexer is behind the whitespace and has only a lexeme left that is no comment. -/
theorem getToken_last (hl : IsLexeme (ch :: body)) (hascii : IsAscii (ch :: body))
    (hspace : isspace ch = false) (hhash : ch ≠ char '#')
    (hzero : ¬ (asserts = true ∧ ZeroLed (ch :: body))) :
    ∃ token stale, lexemeToken (D := D) (readAtEnd (ch :: body)) = some token ∧
      getToken asserts cursor = some (some token, ⟨stale, []⟩) := by
  have hnotNumeral : (isdigit ch || ch = char '.') = false →
      readAtEnd (ch :: body) = ch :: body := readAtEnd_of_not_numeral body
  generalize hs : ch :: body = l at hl hascii hzero
  cases hl with
  | whitespace h =>
      obtain ⟨rfl, -⟩ := List.cons.inj hs
      rw [hspace] at h
      cases h
  | comment h =>
      obtain ⟨rfl, -⟩ := List.cons.inj hs
      exact absurd rfl hhash
  | symbol h =>
      obtain ⟨rfl, rfl⟩ := List.cons.inj hs
      obtain ⟨token, htoken⟩ := lookup_isSome (D := D) h
      have hall : ∀ c ∈ text "(),<+-*", (isdigit c || c = char '.') = false := by decide +kernel
      rw [hnotNumeral (hall ch h)]
      exact ⟨token, ch, lexemeToken_symbol [] htoken hspace hhash,
        getToken_symbol asserts hreader hskip htoken⟩
  | word h hbody =>
      obtain ⟨rfl, rfl⟩ := List.cons.inj hs
      have hdot : ch ≠ char '.' := by rintro rfl; cases h
      have hdigit : isdigit ch = false := Bool.eq_false_iff.mpr fun hdigit => by
        rw [isalpha_of_isdigit hdigit] at h
        cases h
      obtain ⟨stale, hidentifier⟩ := lexIdentifier_at_end [ch] ch hbody
      rw [hnotNumeral (by simp [hdigit, hdot])]
      refine ⟨identifierToken (ch :: body), stale, lexemeToken_word body h, ?_⟩
      rw [getToken_word asserts hreader hskip h, hidentifier]
      rfl
  | integer hne h =>
      subst hs
      have hdigit : (isdigit ch || ch = char '.') = true := by simp [h ch List.mem_cons_self]
      obtain ⟨stale, hnumber⟩ := lexNumber_integer_at_end (D := D) asserts h
        fun hasserts heq => hzero ⟨hasserts, congrArg some heq⟩
      obtain ⟨rest, hrest⟩ := readAtEnd_cons ch body
      rw [hrest] at hnumber ⊢
      refine ⟨.number (numeralValue (ch :: rest)), stale, lexemeToken_numeral rest hdigit, ?_⟩
      rw [getToken_numeral asserts hreader hskip hdigit, hnumber]
      rfl
  | @decimal digits fraction h hfraction =>
      have hdigit : (isdigit ch || ch = char '.') = true := by
        cases digits with
        | nil => obtain ⟨rfl, -⟩ := List.cons.inj hs; rfl
        | cons digit digits =>
            obtain ⟨rfl, -⟩ := List.cons.inj hs
            simp [h ch List.mem_cons_self]
      have hzeroLed : asserts = true → ¬ ZeroLed digits := fun hasserts hled => by
        refine hzero ⟨hasserts, ?_⟩
        cases digits with
        | nil => cases hled
        | cons digit digits => exact hled
      obtain ⟨stale, hnumber⟩ := lexNumber_decimal_at_end (D := D) asserts ⟨ch, body⟩ h
        hfraction hzeroLed hs
      obtain ⟨rest, hrest⟩ := readAtEnd_cons ch body
      rw [← hs, hrest] at hnumber ⊢
      refine ⟨.number (numeralValue (ch :: rest)), stale, lexemeToken_numeral rest hdigit, ?_⟩
      rw [getToken_numeral asserts hreader hskip hdigit, hnumber]
      rfl
  | other h =>
      obtain ⟨rfl, rfl⟩ := List.cons.inj hs
      rw [hnotNumeral (by simp [h.digit, h.dot])]
      exact ⟨.unknown ch, ch, lexemeToken_other [] h,
        getToken_other asserts hreader hskip h (hascii ch List.mem_cons_self)⟩

/-- The calls from the last lexeme on. -/
theorem nthToken_last (hl : IsLexeme (ch :: body)) (hascii : IsAscii (ch :: body))
    (hspace : isspace ch = false) (token : Token D) (k : ℕ) :
    Lexer.nthToken asserts k ⟨cursor, token⟩ =
      answers (lexemeResult asserts (readAtEnd (ch :: body))).toList k := by
  obtain ⟨rest, hrest⟩ := readAtEnd_cons ch body
  by_cases hhash : ch = char '#'
  · obtain rfl := hhash
    obtain ⟨stale, hstale, hcomment⟩ :=
      skipComment_at_end (char '#') (hl.of_hash_ascii hascii) (by decide)
    have hget : getToken (D := D) asserts cursor = some (none, ⟨stale, []⟩) := by
      rw [getToken_comment asserts hreader hskip rfl, hcomment, if_pos hstale, getToken,
        dif_pos rfl]
    have hstep : Lexer.getNextToken asserts ⟨cursor, token⟩ =
        Lexer.getNextToken asserts ⟨⟨stale, []⟩, token⟩ := by
      rw [Lexer.getNextToken, hget, Lexer.getNextToken, getToken, dif_pos rfl]
    rw [hrest]
    exact (nthToken_congr asserts hstep k).trans (nthToken_exhausted asserts rfl k)
  by_cases hzero : asserts = true ∧ ZeroLed (ch :: body)
  · have hled : ZeroLed (readAtEnd (ch :: body)) := by rw [hrest]; exact hzero.2
    rw [lexemeResult_zeroLed ⟨hzero.1, hled⟩]
    have hget : getToken (D := D) asserts cursor =
        (none : Option (Token D)).map fun token => (some token, ⟨ch, []⟩) :=
      getToken_zeroLed asserts hreader hskip hzero.1 (Option.some.inj hzero.2)
    exact nthToken_cons asserts hget (fun token k => nthToken_exhausted asserts rfl k) k
  · obtain ⟨next, stale, hnext, hget⟩ :=
      getToken_last (D := D) asserts hreader hskip hl hascii hspace hhash hzero
    have hresult : lexemeResult asserts (readAtEnd (ch :: body)) = some (some next) := by
      rw [lexemeResult, hnext, Option.map_some, if_neg]
      rw [hrest]
      exact hzero
    rw [hresult]
    exact nthToken_cons asserts hget (fun token k => nthToken_exhausted asserts rfl k) k

end Last

/-! ## The whole buffer -/

/-- What comes of the lexemes of a buffer without the sentinel. -/
def resultsAtEnd : List (List Int8) → List (Option (Token D))
  | [] => []
  | [l] => if l.length = 1 then [] else (lexemeResult asserts (readAtEnd l)).toList
  | l :: l' :: ls =>
      -- the whitespace loop reads the last character
      if isBlank l ∧ ls = [] ∧ l'.length = 1 then (lexemeResult asserts l').toList
      else (lexemeResult asserts l).toList ++ resultsAtEnd (l' :: ls)

theorem isBlank_of_space {ch : Int8} {body : List Int8} :
    isBlank (ch :: body) = true ↔ isspace ch = true := by
  rw [isBlank, List.head?_cons, Option.any_some]

/-- Only the last lexeme is left, and its first character is pending. -/
theorem nthToken_of_last {ch : Int8} {body : List Int8} (hl : IsLexeme (ch :: body))
    (hascii : IsAscii (ch :: body)) (token : Token D) (k : ℕ) :
    Lexer.nthToken asserts k ⟨⟨ch, body⟩, token⟩ =
      answers (resultsAtEnd asserts [ch :: body]) k := by
  cases body with
  | nil => exact nthToken_exhausted asserts rfl k
  | cons b body =>
      have hspace : isspace ch = false := Bool.eq_false_iff.mpr fun hspace =>
        absurd (hl.eq_of_space hspace) (List.cons_ne_nil b body)
      have hlength : (ch :: b :: body).length ≠ 1 := by simp
      rw [resultsAtEnd, if_neg hlength]
      exact nthToken_last asserts (List.cons_ne_nil b body)
        (skipWhitespace_of_not_space _ hspace) hl hascii hspace token k

/-- Only one character is left, and it is read by the whitespace loop. -/
theorem nthToken_after_space {ch c : Int8} (hspace : isspace ch = true) (hl : IsLexeme [c])
    (hascii : IsAscii [c]) (token : Token D) (k : ℕ) :
    Lexer.nthToken asserts k ⟨⟨ch, [c]⟩, token⟩ =
      answers (lexemeResult asserts [c]).toList k := by
  by_cases hc : isspace c = true
  · have hskip : skipWhitespace ch [c] = (false, ⟨c, []⟩) := by
      rw [skipWhitespace, if_pos hspace, skipWhitespace, hc]
      rfl
    have hnone : lexemeToken (D := D) [c] = none := by simp [lexemeToken, hc]
    have hstep : Lexer.getNextToken (D := D) asserts ⟨⟨ch, [c]⟩, token⟩ =
        Lexer.getNextToken asserts ⟨⟨c, []⟩, token⟩ := by
      rw [Lexer.getNextToken, getToken_of_exhausted asserts (List.cons_ne_nil c []) hskip,
        Lexer.getNextToken, getToken, dif_pos rfl]
    rw [lexemeResult, hnone]
    exact (nthToken_congr asserts hstep k).trans (nthToken_exhausted asserts rfl k)
  · have hnot : isspace c = false := by simpa using hc
    have hskip : skipWhitespace ch [c] = (true, ⟨c, []⟩) := by
      rw [skipWhitespace, if_pos hspace, skipWhitespace, hnot]
      rfl
    have hread : readAtEnd [c] = [c] := by simp [readAtEnd, losesDigit]
    rw [nthToken_last asserts (List.cons_ne_nil c []) hskip hl hascii hnot token k, hread]

/-- Without the sentinel the lexer answers lexeme by lexeme up to the last one. -/
theorem nthToken_of_buffer {u : List Int8} {ls : List (List Int8)}
    (hmunch : MaximalMunch IsLexeme u ls) (hascii : IsAscii u) {cursor : Cursor}
    (hu : cursor.last :: cursor.reader = u) (token : Token D) (k : ℕ) :
    Lexer.nthToken asserts k ⟨cursor, token⟩ = answers (resultsAtEnd asserts ls) k := by
  induction hmunch generalizing cursor token k with
  | nil => cases hu
  | @cons l u ls hl hrest ih =>
      obtain ⟨last, reader⟩ := cursor
      cases l with
      | nil => exact absurd rfl hl.ne_nil
      | cons ch body =>
          obtain ⟨hlast, hreader⟩ := List.cons.inj hu
          obtain rfl : last = ch := hlast
          obtain rfl : reader = body ++ u := hreader
          have hasciiL : IsAscii (last :: body) := fun d hd => hascii d (List.mem_append_left u hd)
          have hasciiU : IsAscii u := fun d hd => hascii d (List.mem_append_right _ hd)
          cases ls with
          | nil =>
              obtain rfl : u = [] := hrest.flatten.symm
              rw [List.append_nil]
              exact nthToken_of_last asserts hl.isLexeme hasciiL token k
          | cons l' ls =>
              obtain ⟨c, rest, rfl⟩ : ∃ c rest, u = c :: rest :=
                List.exists_cons_of_ne_nil fun hnil => by
                  subst hnil
                  cases hrest.eq_nil
              have hend : c ≠ endOfFile := by
                rintro rfl
                exact absurd (hasciiU _ List.mem_cons_self) (by decide)
              have hstop : Stops (last :: body) c := .inl hl.not_isLexeme_append
              rw [resultsAtEnd]
              split
              · next hblank =>
                  obtain ⟨hblank, rfl, hlength⟩ := hblank
                  have hspace : isspace last = true := isBlank_of_space.mp hblank
                  obtain rfl := hl.isLexeme.eq_of_space hspace
                  obtain ⟨d, rfl⟩ := List.length_eq_one_iff.mp hlength
                  obtain ⟨rfl, rfl⟩ := List.cons.inj (show [d] = c :: rest from hrest.flatten)
                  exact nthToken_after_space asserts hspace
                    (hrest.of_mem _ List.mem_cons_self).2 hasciiU token k
              · next hmore =>
                  have hspaceEnd : isspace last = true → rest ≠ [] := by
                    rintro hspace rfl
                    obtain ⟨rfl, rfl⟩ := List.cons.inj hrest.eq_singleton
                    exact hmore ⟨isBlank_of_space.mpr hspace, rfl, rfl⟩
                  by_cases hskip : isspace last = true ∨ last = char '#'
                  · obtain ⟨hnone, hsame⟩ := getNextToken_skip asserts hl.isLexeme hskip hasciiL
                      hstop (fun hspace hnil => absurd hnil (hspaceEnd hspace))
                      (fun heq => absurd heq hend) token
                    rw [lexemeResult, hnone]
                    exact (nthToken_congr asserts hsame k).trans (ih hasciiU rfl token k)
                  · obtain ⟨hspace, hhash⟩ := not_or.mp hskip
                    obtain ⟨result, hresult, hget⟩ := getToken_of_isLexeme (D := D) asserts
                      hl.isLexeme hstop hasciiL (by simpa using hspace) hhash rest
                    rw [hresult]
                    exact nthToken_cons asserts hget (fun token k => ih hasciiU rfl token k) k

/-! ## Comparing the answers -/

theorem answers_toList {α : Type} (r : Option (Option (Token α))) :
    answers r.toList 0 = r.getD (some .eof) := by
  cases r with
  | none => rfl
  | some result => cases result <;> rfl

/-- Up to the first `eof_token` two sequences of answers that begin the same are the same iff
an assert has failed by then, or the last results are the same. -/
theorem answers_same_iff {α : Type} {results : List (Option (Token α))}
    {r r' : Option (Option (Token α))} (hresults : some .eof ∉ results) (hr : r ≠ some (some .eof))
    (hr' : r' ≠ some (some .eof)) :
    (∀ k, (∀ j < k, answers (results ++ r.toList) j ≠ some .eof) →
      answers (results ++ r.toList) k = answers (results ++ r'.toList) k) ↔
    none ∈ results ∨ r = r' := by
  induction results with
  | nil =>
      constructor
      · intro h
        have hfirst : answers r.toList 0 = answers r'.toList 0 :=
          h 0 fun j hj => absurd hj (Nat.not_lt_zero j)
        rw [answers_toList, answers_toList] at hfirst
        refine .inr ?_
        cases r with
        | none =>
            cases r' with
            | none => rfl
            | some result' => exact absurd (congrArg some hfirst.symm) hr'
        | some result =>
            cases r' with
            | none => exact absurd (congrArg some hfirst) hr
            | some result' => exact congrArg some hfirst
      · rintro (h | rfl) k -
        · cases h
        · rfl
  | cons result results ih =>
      obtain ⟨hne, hrest⟩ := List.ne_and_not_mem_of_not_mem_cons hresults
      cases result with
      | none => exact iff_of_true (fun k _ => rfl) (.inl List.mem_cons_self)
      | some token =>
          have hmem : none ∈ some token :: results ↔ none ∈ results := by simp
          rw [hmem, ← ih hrest]
          constructor
          · intro h k hk
            refine h (k + 1) fun j hj => ?_
            cases j with
            | zero => exact fun heq => hne (congrArg some (Option.some.inj heq).symm)
            | succ j => exact hk j (Nat.lt_of_succ_lt_succ hj)
          · intro h k hk
            cases k with
            | zero => rfl
            | succ k => exact h k fun j hj => hk (j + 1) (Nat.succ_lt_succ hj)

/-- What comes of the last lexeme, behind the lexemes before it. -/
def lastResult (before : List (List Int8)) (l : List Int8) : Option (Option (Token D)) :=
  if l.length = 1 then
    if before.getLast?.any isBlank then lexemeResult asserts l else none
  else lexemeResult asserts (readAtEnd l)

theorem lexemeResult_of_blank {l : List Int8} (h : isBlank l = true) :
    lexemeResult (D := D) asserts l = none := by
  cases l with
  | nil => rfl
  | cons ch body => simp [lexemeResult, lexemeToken, isBlank_of_space.mp h]

theorem resultsAtEnd_concat {before : List (List Int8)} (hbefore : before ≠ []) (l : List Int8) :
    resultsAtEnd (D := D) asserts (before ++ [l]) =
      before.filterMap (lexemeResult asserts) ++ (lastResult asserts before l).toList := by
  induction before with
  | nil => exact absurd rfl hbefore
  | cons l₀ before ih =>
      have hfirst : (l₀ :: before).filterMap (lexemeResult (D := D) asserts) =
          (lexemeResult asserts l₀).toList ++ before.filterMap (lexemeResult asserts) := by
        cases hresult : lexemeResult (D := D) asserts l₀ with
        | none => exact List.filterMap_cons_none hresult
        | some result => exact List.filterMap_cons_some hresult
      rw [hfirst]
      cases before with
      | nil =>
          by_cases hlength : l.length = 1
          · by_cases hblank : isBlank l₀ = true
            · simp [resultsAtEnd, lastResult, hlength, hblank, lexemeResult_of_blank]
            · simp [resultsAtEnd, lastResult, hlength, hblank]
          · simp [resultsAtEnd, lastResult, hlength]
      | cons l₁ before =>
          have hmore : ¬ (isBlank l₀ = true ∧ before ++ [l] = [] ∧ l₁.length = 1) := by simp
          have hlast : lastResult (D := D) asserts (l₀ :: l₁ :: before) l =
              lastResult asserts (l₁ :: before) l := rfl
          rw [hlast, List.append_assoc, ← ih (List.cons_ne_nil l₁ before)]
          exact if_neg hmore

/-! ## The property -/

variable (D)

/-- Up to the first `eof_token` the calls return the same with and without the sentinel. -/
def SameTokens (s : List Int8) : Prop :=
  ∀ k, (∀ j < k, Lexer.nthToken (D := D) asserts j (Lexer.new s) ≠ some .eof) →
    Lexer.nthToken (D := D) asserts k (Lexer.new s) =
      Lexer.nthToken asserts k (Lexer.new (s ++ [endOfFile]))

/-- The lexeme is whitespace or a comment. -/
def IsSkipped (l : List Int8) : Prop := ∀ ch ∈ l.head?, isspace ch = true ∨ ch = char '#'

/-- What comes before is whitespace, or nothing. -/
def EndsBlank (before : List (List Int8)) : Prop := ∀ l ∈ before.getLast?, isBlank l = true

/-- Nothing of the last lexeme is lost. -/
structure LastKept (before : List (List Int8)) (l : List Int8) : Prop where
  character : l.length = 1 → IsSkipped l ∨ EndsBlank before
  digit : losesDigit l = true →
    (asserts = true ∧ ZeroLed l) ∨ (numeralValue l.dropLast : D) = numeralValue l

variable {D}

theorem lexemeToken_eq_none_iff {l : List Int8} (hne : l ≠ []) :
    lexemeToken (D := D) l = none ↔ IsSkipped l := by
  cases l with
  | nil => exact absurd rfl hne
  | cons ch body =>
      constructor
      · intro h c hc
        obtain rfl : ch = c := Option.some.inj hc
        by_contra hnot
        simp only [lexemeToken, Bool.or_eq_true, decide_eq_true_eq, if_neg hnot] at h
        split at h
        · cases h
        · split at h
          · cases h
          · split at h <;> cases h
      · intro h
        have hskip := h ch rfl
        simp [lexemeToken, hskip]

theorem endsBlank_iff (before : List (List Int8)) :
    ([char ' '] :: before).getLast?.any isBlank = true ↔ EndsBlank before := by
  rcases List.eq_nil_or_concat' before with rfl | ⟨before, l, rfl⟩
  · exact iff_of_true rfl fun l hl => by cases hl
  · rw [← List.cons_append, List.getLast?_concat, EndsBlank, List.getLast?_concat]
    simp

/-- A longer numeral is kept iff the assert fails anyway, or its last digit does not count. -/
theorem readAtEnd_eq_iff {l : List Int8} (h : losesDigit l = true) :
    lexemeResult (D := D) asserts (readAtEnd l) = lexemeResult asserts l ↔
      (asserts = true ∧ ZeroLed l) ∨ (numeralValue l.dropLast : D) = numeralValue l := by
  have hread : readAtEnd l = l.dropLast := if_pos h
  cases l with
  | nil => cases h
  | cons ch body =>
      obtain ⟨rest, hrest⟩ := readAtEnd_cons ch body
      have hdigit : (isdigit ch || ch = char '.') = true := by
        simp only [losesDigit, List.head?_cons, Option.any_some, Bool.and_eq_true] at h
        exact h.1.1
      have hled : ZeroLed (ch :: rest) ↔ ZeroLed (ch :: body) := Iff.rfl
      rw [← hread, hrest, lexemeResult, lexemeResult, lexemeToken_numeral rest hdigit,
        lexemeToken_numeral body hdigit, Option.map_some, Option.map_some]
      by_cases hzero : asserts = true ∧ ZeroLed (ch :: body)
      · rw [if_pos hzero, if_pos ⟨hzero.1, hled.mpr hzero.2⟩]
        exact iff_of_true rfl (.inl hzero)
      · rw [if_neg hzero, if_neg fun h => hzero ⟨h.1, hled.mp h.2⟩]
        simp [hzero]

theorem lastResult_eq_iff {l : List Int8} (hne : l ≠ []) (before : List (List Int8)) :
    lastResult (D := D) asserts ([char ' '] :: before) l = lexemeResult asserts l ↔
      LastKept D asserts before l := by
  by_cases hlength : l.length = 1
  · have hloses : losesDigit l = false := by simp [losesDigit, hlength]
    have hkept : LastKept D asserts before l ↔ IsSkipped l ∨ EndsBlank before :=
      ⟨fun h => h.character hlength, fun h => ⟨fun _ => h, fun hdigit => by
        rw [hloses] at hdigit
        cases hdigit⟩⟩
    rw [hkept, lastResult, if_pos hlength, ← endsBlank_iff, ← lexemeToken_eq_none_iff (D := D) hne]
    split
    · next hblank => exact iff_of_true rfl (.inr hblank)
    · next hblank =>
        rw [or_iff_left hblank, eq_comm, lexemeResult, Option.map_eq_none_iff]
  · have hkept : LastKept D asserts before l ↔ (losesDigit l = true →
        (asserts = true ∧ ZeroLed l) ∨ (numeralValue l.dropLast : D) = numeralValue l) :=
      ⟨fun h => h.digit, fun h => ⟨fun h1 => absurd h1 hlength, h⟩⟩
    rw [hkept, lastResult, if_neg hlength]
    cases hloses : losesDigit l with
    | false =>
        rw [readAtEnd, hloses]
        exact iff_of_true rfl fun h => by cases h
    | true =>
        rw [readAtEnd_eq_iff asserts hloses]
        exact ⟨fun h _ => h, fun h => h rfl⟩

theorem lexemeResult_ne_eof (l : List Int8) :
    lexemeResult (D := D) asserts l ≠ some (some .eof) := by
  intro h
  obtain ⟨token, htoken, heof⟩ := Option.map_eq_some_iff.mp h
  split at heof
  · cases heof
  · obtain rfl := Option.some.inj heof
    exact lexemeToken_ne_eof l htoken

theorem lastResult_ne_eof (before : List (List Int8)) (l : List Int8) :
    lastResult (D := D) asserts before l ≠ some (some .eof) := by
  unfold lastResult
  split
  · split
    · exact lexemeResult_ne_eof asserts l
    · simp
  · exact lexemeResult_ne_eof asserts _

theorem none_mem_filterMap_iff (before : List (List Int8)) :
    none ∈ before.filterMap (lexemeResult (D := D) asserts) ↔
      asserts = true ∧ ∃ l ∈ before, ZeroLed l := by
  rw [List.mem_filterMap]
  constructor
  · rintro ⟨l, hl, hresult⟩
    obtain ⟨token, -, hfailed⟩ := Option.map_eq_some_iff.mp hresult
    split at hfailed
    · next hzero => exact ⟨hzero.1, l, hl, hzero.2⟩
    · cases hfailed
  · rintro ⟨hasserts, l, hl, hzero⟩
    exact ⟨l, hl, lexemeResult_zeroLed ⟨hasserts, hzero⟩⟩

theorem sameTokens_concat_iff {s : List Int8} (hascii : IsAscii s) {before : List (List Int8)}
    {l : List Int8} (hls : MaximalMunch IsLexeme s (before ++ [l])) :
    SameTokens D asserts s ↔
      (asserts = true ∧ ∃ l' ∈ before, ZeroLed l') ∨ LastKept D asserts before l := by
  have hplain : ∀ k, Lexer.nthToken (D := D) asserts k (Lexer.new s) =
      answers (before.filterMap (lexemeResult asserts) ++
        (lastResult asserts ([char ' '] :: before) l).toList) k := by
    intro k
    have hresults := resultsAtEnd_concat (D := D) asserts (List.cons_ne_nil [char ' '] before) l
    rw [List.filterMap_cons_none rfl] at hresults
    rw [← hresults]
    exact nthToken_of_buffer asserts (.cons (longest_blank s) hls) (isAscii_blank hascii) rfl .eof k
  have hsentinel : ∀ k, Lexer.nthToken (D := D) asserts k (Lexer.new (s ++ [endOfFile])) =
      answers (before.filterMap (lexemeResult asserts) ++ (lexemeResult asserts l).toList) k := by
    intro k
    have hlast : [l].filterMap (lexemeResult (D := D) asserts) =
        (lexemeResult asserts l).toList := by
      cases h : lexemeResult (D := D) asserts l with
      | none => exact List.filterMap_cons_none h
      | some result => exact List.filterMap_cons_some h
    rw [nthToken_sentinel asserts hascii hls, List.filterMap_append, hlast]
  have hne : l ≠ [] := (hls.of_mem l (List.mem_append_right before List.mem_cons_self)).1
  have hnone : some .eof ∉ before.filterMap (lexemeResult (D := D) asserts) := fun hmem => by
    obtain ⟨l', -, heof⟩ := List.mem_filterMap.mp hmem
    exact lexemeResult_ne_eof asserts l' heof
  unfold SameTokens
  simp only [hplain, hsentinel]
  rw [answers_same_iff hnone (lastResult_ne_eof asserts _ l) (lexemeResult_ne_eof asserts l),
    none_mem_filterMap_iff, lastResult_eq_iff asserts hne]

end AtEnd

/-- The tokens are the same with and without the sentinel iff an assert fails before the last
lexeme, or nothing of the last lexeme is lost. -/
theorem sameTokens_iff (D : Type) [Double D] (asserts : Bool) (s : List Int8)
    (hascii : IsAscii s) : ∃ ls, MaximalMunch IsLexeme s ls ∧
      (SameTokens D asserts s ↔ ∀ before l, ls = before ++ [l] →
        (asserts = true ∧ ∃ l' ∈ before, ZeroLed l') ∨ LastKept D asserts before l) := by
  obtain ⟨ls, hls⟩ := exists_maximalMunch exists_isLexeme s
  refine ⟨ls, hls, ?_⟩
  rcases List.eq_nil_or_concat' ls with rfl | ⟨before, l, rfl⟩
  · obtain rfl : s = [] := hls.flatten.symm
    refine iff_of_true (fun k _ => ?_) fun before l h => absurd h (by simp)
    rw [nthToken_sentinel asserts hascii hls]
    exact nthToken_exhausted asserts rfl k
  · rw [sameTokens_concat_iff asserts hascii hls]
    constructor
    · intro h before' l' heq
      obtain ⟨rfl, hl⟩ := List.append_inj' heq rfl
      obtain ⟨rfl, -⟩ := List.cons.inj hl
      exact h
    · exact fun h => h before l rfl

theorem sameTokens_sum : ∃ ls, MaximalMunch IsLexeme (text "1 + 2") ls ∧
    (SameTokens ℚ true (text "1 + 2") ↔ ∀ before l, ls = before ++ [l] →
      (true = true ∧ ∃ l' ∈ before, ZeroLed l') ∨ LastKept ℚ true before l) := by
  have hascii : IsAscii (text "1 + 2") := by unfold IsAscii; decide +kernel
  exact sameTokens_iff ℚ true (text "1 + 2") hascii

/-- The closing parenthesis is lost. -/
theorem not_sameTokens : ¬∀ s : List Int8, IsAscii s → SameTokens ℚ true s := by
  intro h
  have hopen : ∀ rest, getToken (D := ℚ) true ⟨char ' ', text "(x)" ++ rest⟩ =
      some (some .leftParenthesis, Cursor.read ⟨char '(', char 'x' :: char ')' :: rest⟩) := by
    intro rest
    have hskip : skipWhitespace (char ' ') (text "(x)" ++ rest) =
        (true, ⟨char '(', char 'x' :: char ')' :: rest⟩) := rfl
    have hlookup : (symbols ℚ).lookup (char '(') = some .leftParenthesis := rfl
    exact getToken_symbol true (List.cons_ne_nil _ _) hskip hlookup
  have hname : ∀ rest, getToken (D := ℚ) true ⟨char 'x', char ')' :: rest⟩ =
      some (some (.identifier (text "x")), ⟨char ')', rest⟩) := fun rest =>
    getToken_word true (List.cons_ne_nil _ _) (skipWhitespace_of_not_space _ rfl) rfl
  have hclose : getToken (D := ℚ) true ⟨char ')', [endOfFile]⟩ =
      some (some .rightParenthesis, Cursor.read ⟨char ')', [endOfFile]⟩) := by
    have hlookup : (symbols ℚ).lookup (char ')') = some .rightParenthesis := rfl
    exact getToken_symbol true (List.cons_ne_nil _ _) (skipWhitespace_of_not_space _ rfl) hlookup
  have hplain : ∀ k, Lexer.nthToken (D := ℚ) true k (Lexer.new (text "(x)")) =
      answers [some .leftParenthesis, some (.identifier (text "x"))] k :=
    nthToken_cons true (hopen []) fun token =>
      nthToken_cons true (hname []) fun token => nthToken_exhausted true rfl
  have hsentinel : ∀ k, Lexer.nthToken (D := ℚ) true k (Lexer.new (text "(x)" ++ [endOfFile])) =
      answers [some .leftParenthesis, some (.identifier (text "x")), some .rightParenthesis] k :=
    nthToken_cons true (hopen [endOfFile]) fun token =>
      nthToken_cons true (hname [endOfFile]) fun token =>
        nthToken_cons true hclose fun token => nthToken_exhausted true rfl
  have hthird := h (text "(x)") (by unfold IsAscii; decide +kernel) 2
  rw [hplain, hsentinel] at hthird
  have hbefore : ∀ j < 2, Lexer.nthToken (D := ℚ) true j (Lexer.new (text "(x)")) ≠ some .eof := by
    intro j hj
    rw [hplain]
    interval_cases j <;> simp [answers]
  exact absurd (hthird hbefore) (by simp [answers])

end InterProcess.Kaleidoscope
