import Mathlib.Data.List.Basic

/-!
# The Kaleidoscope lexer

`kaleidoscope::lexer` over a `buffer_reader`. A `char` is signed, so the
sentinel `static_cast<char>(EOF)` is the character -1. The reader is the list
of characters not read yet: `read` takes the first one, and on an empty reader
fails and leaves the value alone. `last` is the one character that has been
read and belongs to no token yet.

The `ctype.h` functions are those of the C locale, false on negative
characters. Numbers are of any type with the operations the code uses.
-/

namespace InterProcess.Kaleidoscope

/-- What `lex_number` uses of `double`. -/
class Double (D : Type) extends Zero D, One D, Add D, Mul D, Div D, NatCast D

inductive Token (D : Type)
  | eof
  | leftParenthesis
  | rightParenthesis
  | comma
  | defToken
  | externToken
  | identifier (identifier : List Int8)
  | number (number : D)
  | unknown (value : Int8)
  | less
  | plus
  | minus
  | star
  deriving DecidableEq

/-! ## Characters -/

/-- A character literal of the source. -/
def char (ch : Char) : Int8 := Int8.ofNat ch.toNat

/-- A string literal of the source. -/
def text (s : String) : List Int8 := s.toList.map char

/-- `static_cast<char>(EOF)`. -/
def endOfFile : Int8 := -1

def inRange (first last : Char) (ch : Int8) : Bool :=
  (first.toNat : Int) ≤ ch.toInt && ch.toInt ≤ (last.toNat : Int)

def isspace (ch : Int8) : Bool := ch.toInt = (' '.toNat : Int) || inRange '\t' '\r' ch

def isdigit (ch : Int8) : Bool := inRange '0' '9' ch

def isalpha (ch : Int8) : Bool := inRange 'a' 'z' ch || inRange 'A' 'Z' ch

def isalnum (ch : Int8) : Bool := isalpha ch || isdigit ch

/-- The flat map of the one-character tokens. -/
def symbols (D : Type) : List (Int8 × Token D) :=
  [(char '(', .leftParenthesis), (char ')', .rightParenthesis), (char ',', .comma),
    (char '<', .less), (char '+', .plus), (char '-', .minus), (char '*', .star)]

/-! ## The loops -/

/-- Where the lexer is: `last_` and what its reader has left. -/
structure Cursor where
  last : Int8
  reader : List Int8

/-- `reader.read(last)` where its result is not looked at. -/
def Cursor.read : Cursor → Cursor
  | ⟨last, []⟩ => ⟨last, []⟩
  | ⟨_, ch :: reader⟩ => ⟨ch, reader⟩

/-- The loop over whitespace; `false` when the reader runs out in it. -/
def skipWhitespace (last : Int8) : List Int8 → Bool × Cursor
  | [] => (!isspace last, ⟨last, []⟩)
  | ch :: reader =>
      if isspace last then skipWhitespace ch reader else (true, ⟨last, ch :: reader⟩)

/-- The loop that collects an identifier. -/
def lexIdentifier (identifier : List Int8) (last : Int8) : List Int8 → List Int8 × Cursor
  | [] => (identifier, ⟨last, []⟩)
  | ch :: reader =>
      if isalnum ch then lexIdentifier (identifier ++ [ch]) ch reader
      else (identifier, ⟨ch, reader⟩)

/-- The loop over a comment. -/
def skipComment (last : Int8) : List Int8 → Cursor
  | [] => ⟨last, []⟩
  | ch :: reader =>
      if ch ≠ endOfFile ∧ ch ≠ char '\n' ∧ ch ≠ char '\r' then skipComment ch reader
      else ⟨ch, reader⟩

section Number

variable {D : Type} [Double D]

/-- `to_digit`, only called on digits. -/
def toDigit (digit : Int8) : ℕ := (digit.toInt - ('0'.toNat : Int)).toNat

/-- One digit of the part before the `.`. -/
def addDigit (num : D) (digit : Int8) : D :=
  num * ((10 : ℕ) : D) + ((toDigit digit : ℕ) : D)

/-- One digit of the part after the `.`: the factor and the number. -/
def addFraction (state : D × D) (digit : Int8) : D × D :=
  let factor := state.1 / ((10 : ℕ) : D)
  (factor, state.2 + factor * ((toDigit digit : ℕ) : D))

/-- A digit loop of `lex_number`. -/
def lexDigits {α : Type} (add : α → Int8 → α) (state : α) (last : Int8) :
    List Int8 → α × Cursor
  | [] => (state, ⟨last, []⟩)
  | ch :: reader =>
      if isdigit last then lexDigits add (add state last) ch reader
      else (state, ⟨last, ch :: reader⟩)

/-- `lex_number`; `none` when an assert fails. The conversion of a digit to
`double` is exact, so the digit is compared before it. -/
def lexNumber (asserts : Bool) (cursor : Cursor) : Option (D × Cursor) :=
  if isdigit cursor.last && (asserts && toDigit cursor.last = 0) then none
  else
    let (num, cursor) :=
      if isdigit cursor.last then (addDigit (0 : D) cursor.last, cursor.read)
      else (0, cursor)
    let (num, cursor) := lexDigits addDigit num cursor.last cursor.reader
    if cursor.last ≠ char '.' then some (num, cursor)
    else
      let cursor := cursor.read
      let ((_, num), cursor) := lexDigits addFraction ((1 : D), num) cursor.last cursor.reader
      some (num, cursor)

end Number

/-! ## Tokens -/

theorem skipWhitespace_length (last : Int8) (reader : List Int8) :
    (skipWhitespace last reader).2.reader.length ≤ reader.length := by
  induction reader generalizing last with
  | nil => exact Nat.le_refl 0
  | cons ch reader ih =>
      unfold skipWhitespace
      split
      · exact Nat.le_trans (ih ch) (Nat.le_succ _)
      · exact Nat.le_refl _

theorem skipComment_length (last : Int8) (reader : List Int8) :
    (skipComment last reader).reader.length ≤ reader.length - 1 := by
  induction reader generalizing last with
  | nil => exact Nat.le_refl 0
  | cons ch reader ih =>
      unfold skipComment
      split
      · exact Nat.le_trans (ih ch) (Nat.sub_le _ _)
      · exact Nat.le_refl _

variable {D : Type} [Double D]

/-- The token of a whole identifier. -/
def identifierToken (identifier : List Int8) : Token D :=
  if identifier = text "def" then .defToken
  else if identifier = text "extern" then .externToken
  else .identifier identifier

/-- `get_token`: the token, or nothing where the code returns `false`; `none`
when an assert fails. -/
def getToken (asserts : Bool) (cursor : Cursor) : Option (Option (Token D) × Cursor) :=
  if _hempty : cursor.reader = [] then some (none, cursor)
  else
    match _hskip : skipWhitespace cursor.last cursor.reader with
    | (false, after) => some (none, after)
    | (true, after) =>
        match (symbols D).lookup after.last with
        | some token => some (some token, after.read)
        | none =>
            if isalpha after.last then
              let (identifier, rest) := lexIdentifier [after.last] after.last after.reader
              some (some (identifierToken identifier), rest)
            else if isdigit after.last || after.last = char '.' then
              (lexNumber asserts after).map fun (value, rest) => (some (.number value), rest)
            else if after.last = char '#' then
              let rest := skipComment after.last after.reader
              if rest.last ≠ endOfFile then getToken asserts rest
              else some (some .eof, rest)
            -- the end of the file is not eaten
            else if after.last = endOfFile then some (some .eof, after)
            else some (some (.unknown after.last), after.read)
termination_by cursor.reader.length
decreasing_by
  have hwhitespace := skipWhitespace_length cursor.last cursor.reader
  rw [_hskip] at hwhitespace
  have hcomment := skipComment_length after.last after.reader
  have hpos := List.length_pos_of_ne_nil _hempty
  simp only at hwhitespace ⊢
  omega

/-- The lexer with its current token. -/
structure Lexer (D : Type) where
  cursor : Cursor
  currToken : Token D

/-- A lexer just constructed. -/
def Lexer.new (buffer : List Int8) : Lexer D :=
  { cursor := { last := char ' ', reader := buffer }, currToken := .eof }

/-- `get_next_token`; the token it returns is the current one afterwards. -/
def Lexer.getNextToken (asserts : Bool) (lexer : Lexer D) : Option (Lexer D) :=
  (getToken asserts lexer.cursor).map fun (token, cursor) =>
    { cursor := cursor, currToken := token.getD .eof }

/-- The token call number `k` of `get_next_token` returns, from 0 on. -/
def Lexer.nthToken (asserts : Bool) : ℕ → Lexer D → Option (Token D)
  | 0, lexer => (lexer.getNextToken asserts).map Lexer.currToken
  | k + 1, lexer => (lexer.getNextToken asserts).bind (nthToken asserts k)

end InterProcess.Kaleidoscope
