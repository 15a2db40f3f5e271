import InterProcess.Kaleidoscope.Lexer
import InterProcess.Lib.Munch
import Mathlib.Data.List.TakeWhile
import Mathlib.Algebra.Field.Rat

/-!
# What the lexer returns

The lexemes of the language, the token each stands for, and the proof that on a
text of ASCII characters followed by the end-of-file character the lexer
returns the tokens of the maximal-munch tokenisation, then `eof_token` forever.

The lexer has always read one character more than it has used. `Pending` says
what is left to tokenise: the pending character, then what the reader has.
-/

namespace InterProcess.Kaleidoscope

open Munch

/-! ## Lexemes -/

/-- None of the characters the other lexemes start with. -/
structure IsOther (ch : Int8) : Prop where
  space : isspace ch = false
  hash : ch ≠ char '#'
  symbol : ch ∉ text "(),<+-*"
  alpha : isalpha ch = false
  digit : isdigit ch = false
  dot : ch ≠ char '.'

inductive IsLexeme : List Int8 → Prop
  | whitespace {ch : Int8} (h : isspace ch = true) : IsLexeme [ch]
  | comment {body : List Int8} (h : ∀ ch ∈ body, ch ≠ char '\n' ∧ ch ≠ char '\r') :
      IsLexeme (char '#' :: body)
  | symbol {ch : Int8} (h : ch ∈ text "(),<+-*") : IsLexeme [ch]
  | word {ch : Int8} {body : List Int8} (h : isalpha ch = true)
      (hbody : ∀ c ∈ body, isalnum c = true) : IsLexeme (ch :: body)
  | integer {digits : List Int8} (hne : digits ≠ []) (h : ∀ c ∈ digits, isdigit c = true) :
      IsLexeme digits
  | decimal {digits fraction : List Int8} (h : ∀ c ∈ digits, isdigit c = true)
      (hfraction : ∀ c ∈ fraction, isdigit c = true) : IsLexeme (digits ++ char '.' :: fraction)
  | other {ch : Int8} (h : IsOther ch) : IsLexeme [ch]

/-- The numeral starts with the digit 0, which `lex_number` asserts against. -/
def ZeroLed (l : List Int8) : Prop := l.head? = some (char '0')

/-- The text as `lex_number` has to read it, so without the sentinel. -/
def IsAscii (s : List Int8) : Prop := ∀ ch ∈ s, 0 ≤ ch.toInt

section Tokens

variable {D : Type} [Double D]

/-- The value of a numeral. -/
def numeralValue (l : List Int8) : D :=
  ((l.dropWhile isdigit).tail.foldl addFraction
    ((1 : D), (l.takeWhile isdigit).foldl addDigit (0 : D))).2

/-- The token of a lexeme; whitespace and comments have none. -/
def lexemeToken : List Int8 → Option (Token D)
  | [] => none
  | ch :: body =>
      if isspace ch || ch = char '#' then none
      else
        match (symbols D).lookup ch with
        | some token => some token
        | none =>
            if isalpha ch then some (identifierToken (ch :: body))
            else if isdigit ch || ch = char '.' then some (.number (numeralValue (ch :: body)))
            else some (.unknown ch)

instance ZeroLed.decidable : DecidablePred ZeroLed := fun l =>
  inferInstanceAs (Decidable (l.head? = some (char '0')))

/-- What comes of a lexeme: nothing, or its token, or a failed assert. -/
def lexemeResult (asserts : Bool) (l : List Int8) : Option (Option (Token D)) :=
  (lexemeToken l).map fun token => if asserts = true ∧ ZeroLed l then none else some token

/-- What the calls of `get_next_token` return when these are the results, from the first one on:
a failed assert is the last, else `eof_token` follows forever. -/
def answers : List (Option (Token D)) → ℕ → Option (Token D)
  | [], _ => some .eof
  | none :: _, _ => none
  | some token :: _, 0 => some token
  | some _ :: results, k + 1 => answers results k

end Tokens

/-! ## Classes of characters -/

theorem isspace_of_isalpha {ch : Int8} (h : isalpha ch = true) : isspace ch = false := by
  simp only [isalpha, isspace, inRange, Char.reduceToNat, Bool.or_eq_true, Bool.or_eq_false_iff,
    Bool.and_eq_true, Bool.and_eq_false_iff, decide_eq_true_eq, decide_eq_false_iff_not] at *
  omega

theorem isspace_of_isdigit {ch : Int8} (h : isdigit ch = true) : isspace ch = false := by
  simp only [isdigit, isspace, inRange, Char.reduceToNat, Bool.or_eq_false_iff,
    Bool.and_eq_true, Bool.and_eq_false_iff, decide_eq_true_eq, decide_eq_false_iff_not] at *
  omega

theorem isalpha_of_isdigit {ch : Int8} (h : isdigit ch = true) : isalpha ch = false := by
  simp only [isdigit, isalpha, inRange, Char.reduceToNat, Bool.or_eq_false_iff,
    Bool.and_eq_true, Bool.and_eq_false_iff, decide_eq_true_eq, decide_eq_false_iff_not] at *
  omega

/-- A character with a property no symbol has is not a symbol. -/
theorem lookup_eq_none {D : Type} {ch : Int8} (p : Int8 → Bool) (h : p ch = true)
    (hsymbols : ∀ c ∈ text "(),<+-*", p c = false) : (symbols D).lookup ch = none := by
  rw [List.lookup_eq_none_iff]
  intro entry hentry
  have hmem : entry.1 ∈ text "(),<+-*" := List.mem_map_of_mem (f := Prod.fst) hentry
  rw [bne_iff_ne]
  rintro rfl
  rw [hsymbols _ hmem] at h
  cases h

theorem lookup_isSome {D : Type} {ch : Int8} (h : ch ∈ text "(),<+-*") :
    ∃ token, (symbols D).lookup ch = some token := by
  cases hlookup : (symbols D).lookup ch with
  | some token => exact ⟨token, rfl⟩
  | none =>
      exfalso
      rw [List.lookup_eq_none_iff] at hlookup
      obtain ⟨entry, hentry, rfl⟩ := List.mem_map.mp (show ch ∈ (symbols D).map Prod.fst from h)
      simpa using hlookup entry hentry

/-! ## The loops -/

theorem skipWhitespace_of_not_space {last : Int8} (reader : List Int8)
    (h : isspace last = false) : skipWhitespace last reader = (true, ⟨last, reader⟩) := by
  cases reader with
  | nil => simp [skipWhitespace, h]
  | cons ch reader => simp [skipWhitespace, h]

theorem lexIdentifier_append (identifier : List Int8) {body : List Int8} {c : Int8}
    (hbody : ∀ ch ∈ body, isalnum ch = true) (hc : isalnum c = false) (last : Int8)
    (reader : List Int8) :
    lexIdentifier identifier last (body ++ c :: reader) = (identifier ++ body, ⟨c, reader⟩) := by
  induction body generalizing identifier last with
  | nil => simp [lexIdentifier, hc]
  | cons ch body ih =>
      rw [List.cons_append, lexIdentifier, if_pos (hbody ch List.mem_cons_self),
        ih _ fun d hd => hbody d (List.mem_cons_of_mem _ hd), List.append_assoc]
      rfl

theorem skipComment_append {body : List Int8} {c : Int8}
    (hbody : ∀ ch ∈ body, ch ≠ endOfFile ∧ ch ≠ char '\n' ∧ ch ≠ char '\r')
    (hc : ¬ (c ≠ endOfFile ∧ c ≠ char '\n' ∧ c ≠ char '\r')) (last : Int8)
    (reader : List Int8) : skipComment last (body ++ c :: reader) = ⟨c, reader⟩ := by
  induction body generalizing last with
  | nil => rw [List.nil_append, skipComment, if_neg hc]
  | cons ch body ih =>
      rw [List.cons_append, skipComment, if_pos (hbody ch List.mem_cons_self),
        ih fun d hd => hbody d (List.mem_cons_of_mem _ hd)]

theorem lexDigits_append {α : Type} (add : α → Int8 → α) (state : α) {digits : List Int8}
    {last c : Int8} {reader reader' : List Int8} (hdigits : ∀ ch ∈ digits, isdigit ch = true)
    (hc : isdigit c = false) (h : last :: reader = digits ++ c :: reader') :
    lexDigits add state last reader = (digits.foldl add state, ⟨c, reader'⟩) := by
  induction digits generalizing state last reader with
  | nil =>
      obtain ⟨rfl, rfl⟩ := List.cons.inj h
      cases reader with
      | nil => rfl
      | cons ch reader => simp [lexDigits, hc]
  | cons digit digits ih =>
      obtain ⟨rfl, rfl⟩ := List.cons.inj h
      have hlast := hdigits last List.mem_cons_self
      have hrest := fun d hd => hdigits d (List.mem_cons_of_mem _ hd)
      -- the reader is not empty: the character after the digits is still in it
      cases digits with
      | nil => exact (if_pos hlast).trans (ih _ hrest rfl)
      | cons digit digits => exact (if_pos hlast).trans (ih _ hrest rfl)

section GetToken

variable {D : Type} [Double D] (asserts : Bool)

theorem getToken_of_exhausted {cursor after : Cursor} (hreader : cursor.reader ≠ [])
    (hskip : skipWhitespace cursor.last cursor.reader = (false, after)) :
    getToken (D := D) asserts cursor = some (none, after) := by
  rw [getToken, dif_neg hreader]
  split
  · next hskip' => rw [hskip] at hskip'; cases hskip'; rfl
  · next hskip' => rw [hskip] at hskip'; cases hskip'

/-- After the whitespace `get_token` goes by the pending character. -/
theorem getToken_of_skip {cursor after : Cursor} (hreader : cursor.reader ≠ [])
    (hskip : skipWhitespace cursor.last cursor.reader = (true, after)) :
    getToken (D := D) asserts cursor =
      match (symbols D).lookup after.last with
      | some token => some (some token, after.read)
      | none =>
          if isalpha after.last then
            let (identifier, rest) := lexIdentifier [after.last] after.last after.reader
            some (some (identifierToken identifier), rest)
          else if isdigit after.last || after.last = char '.' then
            (lexNumber asserts after).map fun (value, rest) => (some (.number value), rest)
          else if after.last = char '#' then
            let rest := skipComment after.last after.reader
            if rest.last ≠ endOfFile then getToken asserts rest else some (some .eof, rest)
          else if after.last = endOfFile then some (some .eof, after)
          else some (some (.unknown after.last), after.read) := by
  rw [getToken, dif_neg hreader]
  split
  · next hskip' => rw [hskip] at hskip'; cases hskip'
  · next hskip' => rw [hskip] at hskip'; cases hskip'; rfl

/-- Whitespace makes no difference while the reader has something left. -/
theorem getToken_of_space {last ch : Int8} {reader : List Int8} (hspace : isspace last = true)
    (hreader : reader ≠ []) :
    getToken (D := D) asserts ⟨last, ch :: reader⟩ = getToken asserts ⟨ch, reader⟩ := by
  have heq : skipWhitespace last (ch :: reader) = skipWhitespace ch reader := by
    rw [skipWhitespace, if_pos hspace]
  cases hskip : skipWhitespace ch reader with
  | mk found after =>
      cases found with
      | false =>
          exact (getToken_of_exhausted asserts (List.cons_ne_nil ch reader)
            (heq.trans hskip)).trans (getToken_of_exhausted asserts hreader hskip).symm
      | true =>
          exact (getToken_of_skip asserts (List.cons_ne_nil ch reader)
            (heq.trans hskip)).trans (getToken_of_skip asserts hreader hskip).symm

/-! ## Numerals -/

theorem Cursor.read_cons (last : Int8) {reader : List Int8} (h : reader ≠ []) :
    (Cursor.read ⟨last, reader⟩).last :: (Cursor.read ⟨last, reader⟩).reader = reader := by
  cases reader with
  | nil => exact absurd rfl h
  | cons ch reader => rfl

theorem eq_zero_of_toDigit {ch : Int8} (h : isdigit ch = true) (hzero : toDigit ch = 0) :
    ch = char '0' := by
  rw [← Int8.toInt_inj]
  simp only [isdigit, toDigit, inRange, Char.reduceToNat, Bool.and_eq_true,
    decide_eq_true_eq] at h hzero
  show ch.toInt = 48
  omega

/-- A numeral that starts with a digit: the assert looks at that digit only. -/
theorem lexNumber_digit {ch : Int8} (reader : List Int8) (hdigit : isdigit ch = true)
    (hzero : asserts = true → ch ≠ char '0') :
    lexNumber asserts ⟨ch, reader⟩ =
      let after := Cursor.read ⟨ch, reader⟩
      let (num, cursor) := lexDigits addDigit (addDigit (0 : D) ch) after.last after.reader
      if cursor.last ≠ char '.' then some (num, cursor)
      else
        let cursor := cursor.read
        let ((_, num), cursor) := lexDigits addFraction ((1 : D), num) cursor.last cursor.reader
        some (num, cursor) := by
  have hassert : (asserts && decide (toDigit ch = 0)) = false := by
    cases hasserts : asserts with
    | false => rfl
    | true =>
        have hne : toDigit ch ≠ 0 := fun h0 => hzero hasserts (eq_zero_of_toDigit hdigit h0)
        simp [hne]
  simp only [lexNumber, hdigit, hassert, Bool.and_false, Bool.false_eq_true, if_false, if_true]

/-- The first half of `lex_number`, up to the test for a `.`. -/
theorem lexNumber_append {cursor : Cursor} {digits reader : List Int8} {c : Int8}
    (hdigits : ∀ ch ∈ digits, isdigit ch = true) (hc : isdigit c = false)
    (hzero : asserts = true → ¬ ZeroLed digits)
    (h : cursor.last :: cursor.reader = digits ++ c :: reader) :
    lexNumber asserts cursor =
      if c ≠ char '.' then some (digits.foldl addDigit (0 : D), ⟨c, reader⟩)
      else
        let after := Cursor.read ⟨c, reader⟩
        let ((_, num), rest) :=
          lexDigits addFraction ((1 : D), digits.foldl addDigit (0 : D)) after.last after.reader
        some (num, rest) := by
  obtain ⟨last, reader'⟩ := cursor
  cases digits with
  | nil =>
      -- a numeral that starts with its `.`
      obtain ⟨rfl, rfl⟩ := List.cons.inj h
      have hnone : lexDigits addDigit (0 : D) last reader' = (0, ⟨last, reader'⟩) :=
        @lexDigits_append D addDigit 0 [] last last reader' reader' (by simp) hc rfl
      have hc' : isdigit last = false := hc
      simp only [lexNumber, hc', Bool.false_and, Bool.false_eq_true, if_false, hnone]
      rfl
  | cons digit digits =>
      obtain ⟨rfl, rfl⟩ := List.cons.inj h
      have hrest := lexDigits_append addDigit (addDigit (0 : D) last)
        (fun d hd => hdigits d (List.mem_cons_of_mem _ hd)) hc
        (Cursor.read_cons last (by simp : digits ++ c :: reader ≠ []))
      rw [lexNumber_digit asserts _ (hdigits last List.mem_cons_self)
        fun hasserts heq => hzero hasserts (congrArg some heq)]
      rw [show List.append digits (c :: reader) = digits ++ c :: reader from rfl]
      simp only [hrest]
      rfl

theorem numeralValue_integer {digits : List Int8} (h : ∀ d ∈ digits, isdigit d = true) :
    (numeralValue digits : D) = digits.foldl addDigit 0 := by
  rw [numeralValue, List.takeWhile_eq_self_iff.mpr h, List.dropWhile_eq_nil_iff.mpr h]
  rfl

theorem numeralValue_decimal {digits : List Int8} (h : ∀ d ∈ digits, isdigit d = true)
    (fraction : List Int8) : (numeralValue (digits ++ char '.' :: fraction) : D) =
      (fraction.foldl addFraction ((1 : D), digits.foldl addDigit (0 : D))).2 := by
  have hdot : isdigit (char '.') = false := rfl
  rw [numeralValue, List.takeWhile_append_of_pos h, List.dropWhile_append_of_pos h]
  simp [hdot]

/-- `lex_number` on a numeral without a `.`. -/
theorem lexNumber_integer {cursor : Cursor} {digits reader : List Int8} {c : Int8}
    (h : ∀ d ∈ digits, isdigit d = true) (hdigit : isdigit c = false) (hdot : c ≠ char '.')
    (hzero : asserts = true → ¬ ZeroLed digits)
    (heq : cursor.last :: cursor.reader = digits ++ c :: reader) :
    lexNumber asserts cursor = some ((numeralValue digits : D), ⟨c, reader⟩) := by
  rw [lexNumber_append asserts h hdigit hzero heq, if_pos hdot, numeralValue_integer h]

/-- `lex_number` on a numeral with a `.`. -/
theorem lexNumber_decimal {cursor : Cursor} {digits fraction reader : List Int8} {c : Int8}
    (h : ∀ d ∈ digits, isdigit d = true) (hfraction : ∀ d ∈ fraction, isdigit d = true)
    (hdigit : isdigit c = false)
    (hzero : asserts = true → ¬ ZeroLed (digits ++ char '.' :: fraction))
    (heq : cursor.last :: cursor.reader = digits ++ char '.' :: fraction ++ c :: reader) :
    lexNumber asserts cursor =
      some ((numeralValue (digits ++ char '.' :: fraction) : D), ⟨c, reader⟩) := by
  have hdot : isdigit (char '.') = false := rfl
  have hzero' : asserts = true → ¬ ZeroLed digits := fun hasserts hdigits => by
    refine hzero hasserts ?_
    cases digits with
    | nil => cases hdigits
    | cons digit digits => exact hdigits
  have hrest := lexDigits_append addFraction ((1 : D), digits.foldl addDigit (0 : D)) hfraction
    hdigit (Cursor.read_cons (char '.') (by simp : fraction ++ c :: reader ≠ []))
  rw [lexNumber_append asserts h hdot hzero'
    (by rw [heq, List.append_assoc]; rfl : _ = digits ++ char '.' :: (fraction ++ c :: reader)),
    if_neg (by simp), numeralValue_decimal h]
  simp only [hrest]

/-! ## The first character of a lexeme -/

section FirstCharacter

variable {ch : Int8} (body : List Int8)

theorem lexemeToken_symbol {token : Token D} (h : (symbols D).lookup ch = some token)
    (hspace : isspace ch = false) (hhash : ch ≠ char '#') :
    lexemeToken (ch :: body) = some token := by
  simp [lexemeToken, hspace, hhash, h]

omit [Double D] in
theorem lookup_word (h : isalpha ch = true) : (symbols D).lookup ch = none :=
  lookup_eq_none isalpha h (by decide +kernel)

theorem lexemeToken_word (h : isalpha ch = true) :
    lexemeToken (D := D) (ch :: body) = some (identifierToken (ch :: body)) := by
  have hhash : ch ≠ char '#' := by rintro rfl; cases h
  simp [lexemeToken, isspace_of_isalpha h, hhash, lookup_word (D := D) h, h]

theorem isspace_of_numeral (h : (isdigit ch || ch = char '.') = true) : isspace ch = false := by
  rcases Bool.or_eq_true_iff.mp h with hdigit | hdot
  · exact isspace_of_isdigit hdigit
  · rw [of_decide_eq_true hdot]; rfl

theorem isalpha_of_numeral (h : (isdigit ch || ch = char '.') = true) : isalpha ch = false := by
  rcases Bool.or_eq_true_iff.mp h with hdigit | hdot
  · exact isalpha_of_isdigit hdigit
  · rw [of_decide_eq_true hdot]; rfl

omit [Double D] in
theorem lookup_numeral (h : (isdigit ch || ch = char '.') = true) :
    (symbols D).lookup ch = none :=
  lookup_eq_none (fun d => isdigit d || d = char '.') h (by decide +kernel)

theorem lexemeToken_numeral (h : (isdigit ch || ch = char '.') = true) :
    lexemeToken (D := D) (ch :: body) = some (.number (numeralValue (ch :: body))) := by
  have hhash : ch ≠ char '#' := by rintro rfl; cases h
  simp only [lexemeToken, isspace_of_numeral h, hhash, lookup_numeral h, isalpha_of_numeral h, h]
  rfl

omit [Double D] in
theorem lookup_other (h : IsOther ch) : (symbols D).lookup ch = none :=
  lookup_eq_none (· = ch) (by simp) fun d hd => by
    simpa using fun hd' : d = ch => h.symbol (hd' ▸ hd)

theorem lexemeToken_other (h : IsOther ch) :
    lexemeToken (D := D) (ch :: body) = some (.unknown ch) := by
  simp [lexemeToken, h.space, h.hash, lookup_other (D := D) h, h.alpha, h.digit, h.dot]

variable {cursor : Cursor} {rest : List Int8} (hreader : cursor.reader ≠ [])
  (hskip : skipWhitespace cursor.last cursor.reader = (true, ⟨ch, rest⟩))

include hreader hskip

theorem getToken_symbol {token : Token D} (h : (symbols D).lookup ch = some token) :
    getToken asserts cursor = some (some token, Cursor.read ⟨ch, rest⟩) := by
  rw [getToken_of_skip asserts hreader hskip]
  simp only [h]

theorem getToken_word (h : isalpha ch = true) :
    getToken (D := D) asserts cursor =
      let (identifier, after) := lexIdentifier [ch] ch rest
      some (some (identifierToken identifier), after) := by
  rw [getToken_of_skip asserts hreader hskip]
  simp only [lookup_word h, h, if_true]

/-- A lexeme that starts like a numeral is left to `lex_number`. -/
theorem getToken_numeral (h : (isdigit ch || ch = char '.') = true) :
    getToken (D := D) asserts cursor =
      (lexNumber asserts ⟨ch, rest⟩).map fun (value, after) => (some (.number value), after) := by
  rw [getToken_of_skip asserts hreader hskip]
  simp only [lookup_numeral h, isalpha_of_numeral h, h, Bool.false_eq_true, if_false, if_true]

/-- A numeral that starts with a 0 fails the assert. -/
theorem getToken_zeroLed (hasserts : asserts = true) (h : ch = char '0') :
    getToken (D := D) asserts cursor = none := by
  obtain rfl := h
  obtain rfl := hasserts
  rw [getToken_numeral true hreader hskip rfl]
  rfl

theorem getToken_comment (h : ch = char '#') :
    getToken (D := D) asserts cursor =
      if (skipComment ch rest).last ≠ endOfFile then getToken asserts (skipComment ch rest)
      else some (some .eof, skipComment ch rest) := by
  obtain rfl := h
  have hlookup : (symbols D).lookup (char '#') = none := rfl
  have halpha : isalpha (char '#') = false := rfl
  have hnumeral : (isdigit (char '#') || char '#' = char '.') = false := rfl
  rw [getToken_of_skip asserts hreader hskip]
  simp only [hlookup, halpha, hnumeral, Bool.false_eq_true, if_false, if_true]

theorem getToken_other (h : IsOther ch) (hascii : 0 ≤ ch.toInt) :
    getToken (D := D) asserts cursor = some (some (.unknown ch), Cursor.read ⟨ch, rest⟩) := by
  have hend : ch ≠ endOfFile := by rintro rfl; exact absurd hascii (by decide)
  rw [getToken_of_skip asserts hreader hskip]
  simp [lookup_other (D := D) h, h.alpha, h.digit, h.dot, h.hash, hend]

end FirstCharacter

/-! ## One lexeme -/

/-- The character after a lexeme does not continue it, or is the sentinel. -/
def Stops (l : List Int8) (c : Int8) : Prop := ¬ IsLexeme (l ++ [c]) ∨ c = endOfFile

theorem Stops.eq_false {l : List Int8} {c : Int8} {p : Int8 → Bool} (h : Stops l c)
    (hcontinues : p c = true → IsLexeme (l ++ [c])) (hend : p endOfFile = false) :
    p c = false := by
  rcases h with h | rfl
  · exact Bool.eq_false_iff.mpr fun hp => h (hcontinues hp)
  · exact hend

/-- `get_token` on a lexeme that is not skipped returns its token and leaves the
character after it pending. -/
structure Lexes (l : List Int8) (c : Int8) (reader : List Int8) : Prop where
  exists_token : ∃ token : Token D, lexemeToken l = some token ∧
    ∀ cursor : Cursor, cursor.last :: cursor.reader = l ++ c :: reader →
      getToken asserts cursor = some (some token, ⟨c, reader⟩)

variable {c : Int8} {reader : List Int8}

theorem lexes_symbol {ch : Int8} (h : ch ∈ text "(),<+-*") (hspace : isspace ch = false)
    (hhash : ch ≠ char '#') : Lexes (D := D) asserts [ch] c reader := by
  obtain ⟨token, htoken⟩ := lookup_isSome (D := D) h
  refine ⟨token, lexemeToken_symbol [] htoken hspace hhash, ?_⟩
  rintro ⟨last, reader'⟩ heq
  obtain ⟨rfl, rfl⟩ := List.cons.inj heq
  exact getToken_symbol asserts (List.cons_ne_nil c reader)
    (skipWhitespace_of_not_space _ hspace) htoken

theorem lexes_word {ch : Int8} {body : List Int8} (h : isalpha ch = true)
    (hbody : ∀ c ∈ body, isalnum c = true) (hstop : Stops (ch :: body) c) :
    Lexes (D := D) asserts (ch :: body) c reader := by
  -- a letter or a digit would make the word longer
  have hc : isalnum c = false := by
    refine hstop.eq_false (fun hc => .word h fun d hd => ?_) rfl
    rcases List.mem_append.mp hd with hd | hd
    · exact hbody d hd
    · rwa [List.mem_singleton.mp hd]
  refine ⟨identifierToken (ch :: body), lexemeToken_word body h, ?_⟩
  rintro ⟨last, reader'⟩ heq
  obtain ⟨rfl, rfl⟩ := List.cons.inj heq
  rw [getToken_word asserts (by simp) (skipWhitespace_of_not_space _ (isspace_of_isalpha h)) h]
  rw [show List.append body (c :: reader) = body ++ c :: reader from rfl,
    lexIdentifier_append _ hbody hc]
  rfl

theorem lexes_other {ch : Int8} (h : IsOther ch) (hascii : 0 ≤ ch.toInt) :
    Lexes (D := D) asserts [ch] c reader := by
  refine ⟨.unknown ch, lexemeToken_other [] h, ?_⟩
  rintro ⟨last, reader'⟩ heq
  obtain ⟨rfl, rfl⟩ := List.cons.inj heq
  exact getToken_other asserts (List.cons_ne_nil c reader)
    (skipWhitespace_of_not_space _ h.space) h hascii

theorem lexes_numeral {ch : Int8} {body : List Int8}
    (h : (isdigit ch || ch = char '.') = true)
    (hnumber : ∀ cursor : Cursor, cursor.last :: cursor.reader = ch :: body ++ c :: reader →
      lexNumber asserts cursor = some ((numeralValue (ch :: body) : D), ⟨c, reader⟩)) :
    Lexes (D := D) asserts (ch :: body) c reader := by
  refine ⟨.number (numeralValue (ch :: body)), lexemeToken_numeral body h, ?_⟩
  rintro ⟨last, reader'⟩ heq
  have hvalue := hnumber ⟨last, reader'⟩ heq
  obtain ⟨rfl, rfl⟩ := List.cons.inj heq
  rw [getToken_numeral asserts (by simp) (skipWhitespace_of_not_space _ (isspace_of_numeral h)) h]
  exact (congrArg _ hvalue).trans rfl

theorem lexes_integer {ch : Int8} {body : List Int8}
    (h : ∀ d ∈ ch :: body, isdigit d = true) (hstop : Stops (ch :: body) c)
    (hzero : asserts = true → ¬ ZeroLed (ch :: body)) :
    Lexes (D := D) asserts (ch :: body) c reader := by
  have hdigit : isdigit c = false := by
    refine hstop.eq_false (fun hc => .integer (by simp) fun d hd => ?_) rfl
    rcases List.mem_append.mp hd with hd | hd
    · exact h d hd
    · rwa [List.mem_singleton.mp hd]
  have hdot : c ≠ char '.' := by
    refine of_decide_eq_false (hstop.eq_false (p := fun d => d = char '.') (fun hc => ?_)
      rfl)
    rw [of_decide_eq_true hc]
    exact .decimal h (by simp)
  exact lexes_numeral asserts (by simp [h ch List.mem_cons_self]) fun cursor heq =>
    lexNumber_integer asserts h hdigit hdot hzero heq

theorem lexes_decimal {digits fraction : List Int8} (h : ∀ d ∈ digits, isdigit d = true)
    (hfraction : ∀ d ∈ fraction, isdigit d = true)
    (hstop : Stops (digits ++ char '.' :: fraction) c)
    (hzero : asserts = true → ¬ ZeroLed (digits ++ char '.' :: fraction)) :
    Lexes (D := D) asserts (digits ++ char '.' :: fraction) c reader := by
  have hdigit : isdigit c = false := by
    refine hstop.eq_false (fun hc => ?_) rfl
    rw [List.append_assoc]
    refine .decimal h fun d hd => ?_
    rcases List.mem_append.mp hd with hd | hd
    · exact hfraction d hd
    · rwa [List.mem_singleton.mp hd]
  have hnumber : ∀ cursor : Cursor,
      cursor.last :: cursor.reader = digits ++ char '.' :: fraction ++ c :: reader →
        lexNumber asserts cursor =
          some ((numeralValue (digits ++ char '.' :: fraction) : D), ⟨c, reader⟩) :=
    fun cursor heq => lexNumber_decimal asserts h hfraction hdigit hzero heq
  cases digits with
  | nil => exact lexes_numeral asserts (by simp) hnumber
  | cons digit digits =>
      exact lexes_numeral asserts (by simp [h digit List.mem_cons_self]) hnumber

/-- Every lexeme but whitespace and comments. -/
theorem lexes_of_isLexeme {ch : Int8} {body : List Int8} (hl : IsLexeme (ch :: body))
    (hstop : Stops (ch :: body) c) (hascii : IsAscii (ch :: body))
    (hzero : asserts = true → ¬ ZeroLed (ch :: body)) (hspace : isspace ch = false)
    (hhash : ch ≠ char '#') : Lexes (D := D) asserts (ch :: body) c reader := by
  generalize hs : ch :: body = l at hl hstop hascii hzero
  cases hl with
  | whitespace h =>
      obtain ⟨rfl, -⟩ := List.cons.inj hs
      rw [hspace] at h
      cases h
  | comment h =>
      obtain ⟨rfl, -⟩ := List.cons.inj hs
      exact absurd rfl hhash
  | symbol h =>
      obtain ⟨rfl, -⟩ := List.cons.inj hs
      exact lexes_symbol asserts h hspace hhash
  | word h hbody => exact lexes_word asserts h hbody hstop
  | integer hne h =>
      subst hs
      exact lexes_integer asserts h hstop hzero
  | decimal h hfraction => exact lexes_decimal asserts h hfraction hstop hzero
  | other h => exact lexes_other asserts h (hascii _ List.mem_cons_self)

theorem lexemeResult_zeroLed {asserts : Bool} {l : List Int8}
    (h : asserts = true ∧ ZeroLed l) : lexemeResult (D := D) asserts l = some none := by
  cases l with
  | nil => cases h.2
  | cons ch body =>
      obtain rfl : ch = char '0' := Option.some.inj h.2
      rw [lexemeResult, lexemeToken_numeral body rfl, Option.map_some, if_pos h]

/-- The result of a lexeme that is not skipped. -/
theorem getToken_of_isLexeme {ch : Int8} {body : List Int8} (hl : IsLexeme (ch :: body))
    (hstop : Stops (ch :: body) c) (hascii : IsAscii (ch :: body)) (hspace : isspace ch = false)
    (hhash : ch ≠ char '#') (reader : List Int8) :
    ∃ result : Option (Token D), lexemeResult asserts (ch :: body) = some result ∧
      getToken asserts ⟨ch, body ++ c :: reader⟩ =
        result.map fun token => (some token, ⟨c, reader⟩) := by
  by_cases hzero : asserts = true ∧ ZeroLed (ch :: body)
  · refine ⟨none, lexemeResult_zeroLed hzero, ?_⟩
    exact getToken_zeroLed asserts (by simp) (skipWhitespace_of_not_space _ hspace) hzero.1
      (Option.some.inj hzero.2)
  · have hlexes : Lexes (D := D) asserts (ch :: body) c reader := lexes_of_isLexeme asserts hl
      hstop hascii (fun hasserts hled => hzero ⟨hasserts, hled⟩) hspace hhash
    obtain ⟨token, htoken, hget⟩ := hlexes.exists_token
    refine ⟨some token, ?_, hget _ rfl⟩
    rw [lexemeResult, htoken, Option.map_some, if_neg hzero]

/-! ## Whitespace and comments -/

theorem getToken_at_end :
    getToken (D := D) asserts ⟨endOfFile, []⟩ = some (none, ⟨endOfFile, []⟩) := by
  rw [getToken, dif_pos rfl]

theorem getNextToken_space {ch : Int8} (h : isspace ch = true)
    (hend : reader = [] → c = endOfFile) (token token' : Token D) :
    Lexer.getNextToken asserts ⟨⟨ch, c :: reader⟩, token⟩ =
      Lexer.getNextToken asserts ⟨⟨c, reader⟩, token'⟩ := by
  cases reader with
  | nil =>
      -- here the one returns `eof_token`, the other `false`
      obtain rfl := hend rfl
      have hskip : skipWhitespace ch [endOfFile] = (true, ⟨endOfFile, []⟩) := by
        rw [skipWhitespace, if_pos h]; rfl
      have hget : getToken (D := D) asserts ⟨ch, [endOfFile]⟩ =
          some (some .eof, ⟨endOfFile, []⟩) :=
        (getToken_of_skip asserts (List.cons_ne_nil _ _) hskip).trans rfl
      simp only [Lexer.getNextToken, getToken_at_end, hget]
      rfl
  | cons d reader =>
      simp only [Lexer.getNextToken, getToken_of_space asserts h (List.cons_ne_nil d reader)]

theorem getNextToken_comment {body : List Int8}
    (hbody : ∀ ch ∈ body, ch ≠ endOfFile ∧ ch ≠ char '\n' ∧ ch ≠ char '\r')
    (hstop : ¬ (c ≠ endOfFile ∧ c ≠ char '\n' ∧ c ≠ char '\r'))
    (hend : c = endOfFile → reader = []) (token token' : Token D) :
    Lexer.getNextToken asserts ⟨⟨char '#', body ++ c :: reader⟩, token⟩ =
      Lexer.getNextToken asserts ⟨⟨c, reader⟩, token'⟩ := by
  have hget : getToken (D := D) asserts ⟨char '#', body ++ c :: reader⟩ =
      if c ≠ endOfFile then getToken asserts ⟨c, reader⟩
      else some (some .eof, ⟨c, reader⟩) := by
    rw [getToken_comment asserts (by simp) (skipWhitespace_of_not_space _
      (show isspace (char '#') = false from rfl)) rfl, skipComment_append hbody hstop]
  simp only [Lexer.getNextToken, hget]
  by_cases hc : c = endOfFile
  · -- `eof_token` after the comment, `false` without it
    obtain rfl := hc
    obtain rfl := hend rfl
    simp [getToken_at_end]
  · rw [if_pos hc]

/-! ## The whole text -/

theorem IsLexeme.eq_of_space {ch : Int8} {body : List Int8} (h : IsLexeme (ch :: body))
    (hspace : isspace ch = true) : body = [] := by
  generalize hs : ch :: body = l at h
  have hdigit : isdigit ch = false :=
    Bool.eq_false_iff.mpr fun hdigit => by simp [isspace_of_isdigit hdigit] at hspace
  cases h with
  | whitespace | symbol | other => exact (List.cons.inj hs).2
  | comment =>
      obtain ⟨rfl, -⟩ := List.cons.inj hs
      cases hspace
  | word halpha =>
      obtain ⟨rfl, -⟩ := List.cons.inj hs
      rw [isspace_of_isalpha halpha] at hspace
      cases hspace
  | integer hne h =>
      subst hs
      rw [h ch List.mem_cons_self] at hdigit
      cases hdigit
  | @decimal digits fraction h =>
      cases digits with
      | nil =>
          obtain ⟨rfl, -⟩ := List.cons.inj hs
          cases hspace
      | cons digit digits =>
          obtain ⟨rfl, -⟩ := List.cons.inj hs
          rw [h ch List.mem_cons_self] at hdigit
          cases hdigit

theorem IsLexeme.of_hash {body : List Int8} (h : IsLexeme (char '#' :: body)) :
    ∀ ch ∈ body, ch ≠ char '\n' ∧ ch ≠ char '\r' := by
  generalize hs : char '#' :: body = l at h
  cases h with
  | comment h =>
      obtain ⟨-, rfl⟩ := List.cons.inj hs
      exact h
  | whitespace | symbol | other =>
      obtain ⟨-, rfl⟩ := List.cons.inj hs
      simp
  | word halpha =>
      obtain ⟨rfl, -⟩ := List.cons.inj hs
      cases halpha
  | integer hne h =>
      subst hs
      cases h _ List.mem_cons_self
  | @decimal digits fraction h =>
      cases digits with
      | nil => cases (List.cons.inj hs).1
      | cons digit digits =>
          obtain ⟨rfl, -⟩ := List.cons.inj hs
          cases h _ List.mem_cons_self

/-- Every text starts with a lexeme: at least its first character is one. -/
theorem exists_isLexeme (s : List Int8) (hs : s ≠ []) : ∃ l, l ≠ [] ∧ IsLexeme l ∧ l <+: s := by
  cases s with
  | nil => exact absurd rfl hs
  | cons ch s =>
      refine ⟨[ch], List.cons_ne_nil ch [], ?_, s, rfl⟩
      by_cases hspace : isspace ch = true
      · exact .whitespace hspace
      by_cases hhash : ch = char '#'
      · subst hhash
        exact .comment (by simp)
      by_cases hsymbol : ch ∈ text "(),<+-*"
      · exact .symbol hsymbol
      by_cases halpha : isalpha ch = true
      · exact .word halpha (by simp)
      by_cases hdigit : isdigit ch = true
      · exact .integer (List.cons_ne_nil ch []) (by simpa using hdigit)
      by_cases hdot : ch = char '.'
      · subst hdot
        exact @IsLexeme.decimal [] [] (by simp) (by simp)
      · exact .other ⟨by simpa using hspace, hhash, hsymbol, by simpa using halpha,
          by simpa using hdigit, hdot⟩

/-- The lexer has `u` left to tokenise. -/
def Pending (u : List Int8) (cursor : Cursor) : Prop :=
  cursor.last :: cursor.reader = u ++ [endOfFile]

theorem Longest.stops {l u : List Int8} (h : Longest IsLexeme l u)
    (hrest : u ++ [endOfFile] = c :: reader) : Stops l c := by
  cases u with
  | nil => exact .inr (List.cons.inj hrest).1.symm
  | cons d u =>
      obtain ⟨rfl, -⟩ := List.cons.inj hrest
      exact .inl h.not_isLexeme_append

/-- A comment ends at the end of its line or of the text. -/
theorem Stops.not_comment {body : List Int8} (h : Stops (char '#' :: body) c)
    (hbody : ∀ ch ∈ body, ch ≠ char '\n' ∧ ch ≠ char '\r') :
    ¬ (c ≠ endOfFile ∧ c ≠ char '\n' ∧ c ≠ char '\r') := by
  rintro ⟨hend, hline⟩
  rcases h with h | h
  · refine h (.comment fun d hd => ?_)
    rcases List.mem_append.mp hd with hd | hd
    · exact hbody d hd
    · rwa [List.mem_singleton.mp hd]
  · exact hend h

/-- In an ASCII text only the sentinel is the end-of-file character. -/
theorem eq_nil_of_endOfFile {u : List Int8} (hascii : IsAscii u)
    (hu : u ++ [endOfFile] = c :: reader) (hc : c = endOfFile) : reader = [] := by
  cases u with
  | nil => exact (List.cons.inj hu).2.symm
  | cons d u =>
      obtain ⟨rfl, -⟩ := List.cons.inj hu
      exact absurd (hascii d List.mem_cons_self) (by rw [hc]; decide)

/-- The sentinel is not ASCII, so no comment contains it. -/
theorem IsLexeme.of_hash_ascii {body : List Int8} (h : IsLexeme (char '#' :: body))
    (hascii : IsAscii (char '#' :: body)) :
    ∀ ch ∈ body, ch ≠ endOfFile ∧ ch ≠ char '\n' ∧ ch ≠ char '\r' := by
  intro ch hch
  refine ⟨?_, h.of_hash ch hch⟩
  rintro rfl
  exact absurd (hascii _ (List.mem_cons_of_mem _ hch)) (by decide)

/-- Whitespace and comments have no token, and the lexer goes on behind them. -/
theorem getNextToken_skip {ch : Int8} {body : List Int8} (hl : IsLexeme (ch :: body))
    (hskip : isspace ch = true ∨ ch = char '#') (hascii : IsAscii (ch :: body))
    (hstop : Stops (ch :: body) c) (hspaceEnd : isspace ch = true → reader = [] → c = endOfFile)
    (hend : c = endOfFile → reader = []) (token : Token D) :
    lexemeToken (D := D) (ch :: body) = none ∧
      Lexer.getNextToken asserts ⟨⟨ch, body ++ c :: reader⟩, token⟩ =
        Lexer.getNextToken asserts ⟨⟨c, reader⟩, token⟩ := by
  rcases hskip with hspace | rfl
  · obtain rfl := hl.eq_of_space hspace
    exact ⟨by simp [lexemeToken, hspace],
      getNextToken_space asserts hspace (hspaceEnd hspace) token token⟩
  · have hinside := hl.of_hash_ascii hascii
    exact ⟨by simp [lexemeToken], getNextToken_comment asserts hinside
      (hstop.not_comment fun d hd => (hinside d hd).2) hend token token⟩

/-! ## What call after call returns -/

/-- A call that finds nothing more in the reader returns `eof_token`, and so do all after it. -/
theorem nthToken_exhausted {lexer : Lexer D} (h : lexer.cursor.reader = []) (k : ℕ) :
    Lexer.nthToken asserts k lexer = some .eof := by
  have hstep : lexer.getNextToken asserts = some ⟨lexer.cursor, .eof⟩ := by
    rw [Lexer.getNextToken, getToken, dif_pos h]
    rfl
  induction k generalizing lexer with
  | zero => rw [Lexer.nthToken, hstep]; rfl
  | succ k ih =>
      rw [Lexer.nthToken, hstep]
      exact ih h (by rw [Lexer.getNextToken, getToken, dif_pos h]; rfl)

theorem nthToken_congr {lexer lexer' : Lexer D}
    (h : lexer.getNextToken asserts = lexer'.getNextToken asserts) (k : ℕ) :
    Lexer.nthToken asserts k lexer = Lexer.nthToken asserts k lexer' := by
  cases k with
  | zero => rw [Lexer.nthToken, Lexer.nthToken, h]
  | succ k => rw [Lexer.nthToken, Lexer.nthToken, h]

/-- The result of one call in front of those of the calls after it. -/
theorem nthToken_cons {lexer : Lexer D} {result : Option (Token D)} {cursor : Cursor}
    {results : List (Option (Token D))}
    (h : getToken asserts lexer.cursor = result.map fun token => (some token, cursor))
    (hrest : ∀ token k, Lexer.nthToken asserts k ⟨cursor, token⟩ = answers results k) (k : ℕ) :
    Lexer.nthToken asserts k lexer = answers (result :: results) k := by
  cases result with
  | none =>
      have hstep : lexer.getNextToken asserts = none := by rw [Lexer.getNextToken, h]; rfl
      cases k with
      | zero => rw [Lexer.nthToken, hstep]; rfl
      | succ k => rw [Lexer.nthToken, hstep]; rfl
  | some token =>
      have hstep : lexer.getNextToken asserts = some ⟨cursor, token⟩ := by
        rw [Lexer.getNextToken, h]
        rfl
      cases k with
      | zero => rw [Lexer.nthToken, hstep]; rfl
      | succ k => rw [Lexer.nthToken, hstep]; exact hrest token k

/-- With the sentinel the lexer answers lexeme by lexeme. -/
theorem Pending.nthToken {u : List Int8} {ls : List (List Int8)}
    (hmunch : MaximalMunch IsLexeme u ls) (hascii : IsAscii u) {cursor : Cursor}
    (hpending : Pending u cursor) (token : Token D) (k : ℕ) :
    Lexer.nthToken asserts k ⟨cursor, token⟩ =
      answers (ls.filterMap (lexemeResult asserts)) k := by
  induction hmunch generalizing cursor token k with
  | nil =>
      obtain ⟨last, reader⟩ := cursor
      obtain ⟨-, rfl⟩ := List.cons.inj hpending
      exact nthToken_exhausted asserts rfl k
  | @cons l u ls hl hrest ih =>
      obtain ⟨last, reader'⟩ := cursor
      have hasciiU : IsAscii u := fun ch hch => hascii ch (List.mem_append_right l hch)
      obtain ⟨c, reader, hu⟩ : ∃ c reader, u ++ [endOfFile] = c :: reader :=
        List.exists_cons_of_ne_nil (by simp)
      have hnext : Pending u ⟨c, reader⟩ := hu.symm
      cases l with
      | nil => exact absurd rfl hl.ne_nil
      | cons ch body =>
          have hasciiL : IsAscii (ch :: body) := fun d hd => hascii d (List.mem_append_left u hd)
          rw [Pending, List.append_assoc, hu] at hpending
          obtain ⟨rfl, rfl⟩ := List.cons.inj hpending
          by_cases hskip : isspace last = true ∨ last = char '#'
          · have hlast : reader = [] → c = endOfFile := fun hnil => by
              simpa [hnil] using (congrArg List.getLast? hu).symm
            obtain ⟨hnone, hsame⟩ := getNextToken_skip asserts hl.isLexeme hskip hasciiL
              (Longest.stops hl hu) (fun _ => hlast) (eq_nil_of_endOfFile hasciiU hu) token
            rw [List.filterMap_cons_none (by rw [lexemeResult, hnone]; rfl)]
            exact (nthToken_congr asserts hsame k).trans (ih hasciiU hnext token k)
          · obtain ⟨hspace, hhash⟩ := not_or.mp hskip
            obtain ⟨result, hresult, hget⟩ := getToken_of_isLexeme (D := D) asserts hl.isLexeme
              (Longest.stops hl hu) hasciiL (by simpa using hspace) hhash reader
            rw [List.filterMap_cons_some hresult]
            exact nthToken_cons asserts hget (fun token k => ih hasciiU hnext token k) k

omit [Double D] in
theorem lookup_ne_eof (ch : Int8) : (symbols D).lookup ch ≠ some .eof := by
  intro h
  obtain ⟨l, l', hsplit, -⟩ := List.lookup_eq_some_iff.mp h
  have hmem : (ch, Token.eof) ∈ symbols D := by
    rw [hsplit]
    exact List.mem_append_right l List.mem_cons_self
  simp [symbols] at hmem

omit [Double D] in
theorem identifierToken_ne_eof (identifier : List Int8) :
    (identifierToken identifier : Token D) ≠ .eof := by
  unfold identifierToken
  split
  · simp
  · split <;> simp

/-- No lexeme stands for `eof_token`. -/
theorem lexemeToken_ne_eof (l : List Int8) : lexemeToken (D := D) l ≠ some .eof := by
  cases l with
  | nil => simp [lexemeToken]
  | cons ch body =>
      simp only [lexemeToken]
      split
      · simp
      · split
        · next token htoken => exact htoken ▸ lookup_ne_eof ch
        · split
          · exact fun h => identifierToken_ne_eof _ (Option.some.inj h)
          · split <;> simp

/-- The lexer starts with a pending blank in front of the text. -/
theorem longest_blank (s : List Int8) : Longest IsLexeme [char ' '] s := by
  refine ⟨List.cons_ne_nil _ _, .whitespace rfl, fun l' hl' hstarts => ?_⟩
  obtain ⟨rest, hrest⟩ := hstarts
  cases l' with
  | nil => exact Nat.zero_le _
  | cons ch body =>
      obtain ⟨rfl, -⟩ := List.cons.inj hrest
      rw [hl'.eq_of_space rfl]

theorem isAscii_blank {s : List Int8} (hascii : IsAscii s) : IsAscii (char ' ' :: s) := by
  intro ch hch
  rcases List.mem_cons.mp hch with rfl | hch
  · decide
  · exact hascii ch hch

theorem nthToken_sentinel {s : List Int8} (hascii : IsAscii s) {ls : List (List Int8)}
    (hls : MaximalMunch IsLexeme s ls) (k : ℕ) :
    Lexer.nthToken (D := D) asserts k (Lexer.new (s ++ [endOfFile])) =
      answers (ls.filterMap (lexemeResult asserts)) k := by
  have hpending : Pending (char ' ' :: s) ⟨char ' ', s ++ [endOfFile]⟩ := rfl
  exact hpending.nthToken asserts (.cons (longest_blank s) hls) (isAscii_blank hascii) .eof k

theorem filterMap_lexemeResult {asserts : Bool} {ls : List (List Int8)}
    (hzero : asserts = true → ∀ l ∈ ls, ¬ ZeroLed l) :
    ls.filterMap (lexemeResult (D := D) asserts) = (ls.filterMap lexemeToken).map some := by
  rw [List.map_filterMap]
  refine List.filterMap_congr fun l hl => ?_
  have hnot : ¬ (asserts = true ∧ ZeroLed l) := fun h => hzero h.1 l hl h.2
  simp only [lexemeResult, if_neg hnot]

omit [Double D] in
theorem answers_map_some (tokens : List (Token D)) (k : ℕ) :
    answers (tokens.map some) k = some (tokens[k]?.getD .eof) := by
  induction tokens generalizing k with
  | nil => rfl
  | cons token tokens ih =>
      cases k with
      | zero => rfl
      | succ k => exact ih k

end GetToken

/-- On an ASCII text with the sentinel the lexer returns, call by call, the
tokens of its only maximal-munch tokenisation and then `eof_token` forever,
as long as no numeral starts with the digit 0. -/
theorem lexer_maximalMunch (D : Type) [Double D] (asserts : Bool) (s : List Int8)
    (hascii : IsAscii s) :
    (∃! ls, MaximalMunch IsLexeme s ls) ∧
      ∀ ls, MaximalMunch IsLexeme s ls → (asserts = true → ∀ l ∈ ls, ¬ ZeroLed l) →
        ls.flatten = s ∧ Token.eof ∉ ls.filterMap (lexemeToken (D := D)) ∧
          ∀ k, Lexer.nthToken asserts k (Lexer.new (s ++ [endOfFile])) =
            some ((ls.filterMap (lexemeToken (D := D)))[k]?.getD .eof) := by
  refine ⟨?_, fun ls hls hzero => ⟨hls.flatten, ?_, fun k => ?_⟩⟩
  · obtain ⟨ls, hls⟩ := exists_maximalMunch exists_isLexeme s
    exact ⟨ls, hls, fun ls' hls' => hls'.unique hls⟩
  · intro hmem
    obtain ⟨l, -, hl⟩ := List.mem_filterMap.mp hmem
    exact lexemeToken_ne_eof l hl
  · have hresults : ls.filterMap (lexemeResult (D := D) asserts) =
        (ls.filterMap lexemeToken).map some := filterMap_lexemeResult hzero
    rw [nthToken_sentinel asserts hascii hls, hresults, answers_map_some]

instance : Double ℚ where

/-- A call with a comment behind it, lexed with rational numbers. -/
theorem lexer_maximalMunch_call :
    ∃ ls, MaximalMunch IsLexeme (text "f(.5)#c") ls ∧
      ∀ k, Lexer.nthToken true k (Lexer.new (text "f(.5)#c" ++ [endOfFile])) =
        some ((ls.filterMap (lexemeToken (D := ℚ)))[k]?.getD .eof) := by
  have hascii : IsAscii (text "f(.5)#c") := by unfold IsAscii; decide +kernel
  obtain ⟨⟨ls, hls, -⟩, hall⟩ := lexer_maximalMunch ℚ true (text "f(.5)#c") hascii
  refine ⟨ls, hls, (hall ls hls fun _ l hl hzero => ?_).2.2⟩
  -- there is no 0 in the text at all
  have hmem : char '0' ∈ text "f(.5)#c" := by
    rw [← hls.flatten]
    exact List.mem_flatten.mpr ⟨l, hl, List.mem_of_mem_head? hzero⟩
  exact absurd hmem (by decide)

end InterProcess.Kaleidoscope
