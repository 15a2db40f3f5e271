import InterProcess.Kaleidoscope.Numeral

/-!
# The original lexer

`gettok` reads characters from `stdin`, an `int` each, and returns an `int`: a
negative number for the tokens that have a name, else the character. What an
identifier or a number is, is left in a static variable.

It takes all digits and dots in a row for one number and gives them to
`strtod`, which stops at the second dot. So on an ASCII text it returns the
tokens of the lexemes the other lexer finds, except those of the numerals that
follow another numeral at once (`joined`). Numbers are rational here.
-/

namespace InterProcess.Kaleidoscope.Original

open Munch

/-! ## Characters -/

/-- `EOF`. -/
def eof : ℤ := -1

def between (first last : Char) (c : ℤ) : Bool :=
  (first.toNat : ℤ) ≤ c && c ≤ (last.toNat : ℤ)

def isspace (c : ℤ) : Bool := c = (' '.toNat : ℤ) || between '\t' '\r' c

def isdigit (c : ℤ) : Bool := between '0' '9' c

def isalpha (c : ℤ) : Bool := between 'a' 'z' c || between 'A' 'Z' c

def isalnum (c : ℤ) : Bool := isalpha c || isdigit c

/-- `isdigit(LastChar) || LastChar == '.'`. -/
def isNumeric (c : ℤ) : Bool := isdigit c || c = ('.'.toNat : ℤ)

/-- The characters of a comment after its `#`. -/
def isComment (c : ℤ) : Bool := c ≠ eof && c ≠ ('\n'.toNat : ℤ) && c ≠ ('\r'.toNat : ℤ)

/-! ## The lexer -/

def tokEof : ℤ := -1
def tokDef : ℤ := -2
def tokExtern : ℤ := -3
def tokIdentifier : ℤ := -4
def tokNumber : ℤ := -5

/-- The static variables, and what `stdin` has left. -/
structure Globals where
  lastChar : ℤ
  stdin : List UInt8
  identifierStr : List Int8
  numVal : ℚ

/-- `getchar`: the next character as an `unsigned char`. -/
def getchar : List UInt8 → ℤ × List UInt8
  | [] => (eof, [])
  | c :: stdin => ((c.toNat : ℤ), stdin)

/-- The loop over whitespace. -/
def skipSpaces (lastChar : ℤ) : List UInt8 → ℤ × List UInt8
  | [] => if isspace lastChar then getchar [] else (lastChar, [])
  | c :: stdin =>
      if isspace lastChar then skipSpaces (c.toNat : ℤ) stdin else (lastChar, c :: stdin)

/-- `while (p(LastChar = getchar())) str += LastChar`, where `p` does not hold of `EOF`. -/
def readWhile (p : ℤ → Bool) (str : List Int8) : List UInt8 → List Int8 × ℤ × List UInt8
  | [] => (str, eof, [])
  | c :: stdin =>
      if p (c.toNat : ℤ) then readWhile p (str ++ [Int8.ofInt (c.toNat : ℤ)]) stdin
      else (str, (c.toNat : ℤ), stdin)

/-- The digits after a `.` at the start. -/
def fractionOf : List Int8 → List Int8
  | [] => []
  | ch :: rest => if ch = char '.' then rest.takeWhile Kaleidoscope.isdigit else []

/-- `strtod` on digits and dots: the number the longest numeral at the start denotes, and 0
where there is none. -/
def strtod (str : List Int8) : ℚ :=
  let fraction := fractionOf (str.dropWhile Kaleidoscope.isdigit)
  (decimal (str.takeWhile Kaleidoscope.isdigit) : ℚ) +
    (decimal fraction : ℚ) / 10 ^ fraction.length

theorem skipSpaces_length (lastChar : ℤ) (stdin : List UInt8) :
    (skipSpaces lastChar stdin).2.length ≤ stdin.length := by
  induction stdin generalizing lastChar with
  | nil =>
      unfold skipSpaces
      split <;> exact Nat.le_refl 0
  | cons c stdin ih =>
      unfold skipSpaces
      split
      · exact Nat.le_trans (ih _) (Nat.le_succ _)
      · exact Nat.le_refl _

theorem readWhile_length (p : ℤ → Bool) (str : List Int8) (stdin : List UInt8)
    (h : (readWhile p str stdin).2.1 ≠ eof) :
    (readWhile p str stdin).2.2.length < stdin.length := by
  induction stdin generalizing str with
  | nil => exact absurd rfl h
  | cons c stdin ih =>
      unfold readWhile at h ⊢
      split
      · next hp =>
          rw [if_pos hp] at h
          exact Nat.lt_succ_of_lt (ih _ h)
      · exact Nat.lt_succ_self _

/-- `gettok`: the token it returns, and the static variables afterwards. -/
def gettok (g : Globals) : ℤ × Globals :=
  match _hskip : skipSpaces g.lastChar g.stdin with
  | (lastChar, stdin) =>
      if isalpha lastChar then
        let (identifierStr, lastChar, stdin) := readWhile isalnum [Int8.ofInt lastChar] stdin
        let tok :=
          if identifierStr = text "def" then tokDef
          else if identifierStr = text "extern" then tokExtern
          else tokIdentifier
        (tok, ⟨lastChar, stdin, identifierStr, g.numVal⟩)
      else if isNumeric lastChar then
        let (numStr, lastChar, stdin) := readWhile isNumeric [Int8.ofInt lastChar] stdin
        (tokNumber, ⟨lastChar, stdin, g.identifierStr, strtod numStr⟩)
      else if lastChar = ('#'.toNat : ℤ) then
        let after := (readWhile isComment [] stdin).2
        if _hend : after.1 ≠ eof then gettok ⟨after.1, after.2, g.identifierStr, g.numVal⟩
        else (tokEof, ⟨after.1, after.2, g.identifierStr, g.numVal⟩)
      -- the end of the file is not eaten
      else if lastChar = eof then (tokEof, ⟨lastChar, stdin, g.identifierStr, g.numVal⟩)
      else (lastChar, ⟨(getchar stdin).1, (getchar stdin).2, g.identifierStr, g.numVal⟩)
termination_by g.stdin.length
decreasing_by
  have hspaces := skipSpaces_length g.lastChar g.stdin
  rw [_hskip] at hspaces
  exact Nat.lt_of_lt_of_le (readWhile_length _ _ _ _hend) hspaces

/-- What the parser makes of a token: which one it is, and what the static variable holds. -/
def seen (tok : ℤ) (g : Globals) : Token ℚ :=
  if tok = tokEof then .eof
  else if tok = tokDef then .defToken
  else if tok = tokExtern then .externToken
  else if tok = tokIdentifier then .identifier g.identifierStr
  else if tok = tokNumber then .number g.numVal
  else ((symbols ℚ).lookup (Int8.ofInt tok)).getD (.unknown (Int8.ofInt tok))

/-- The token call number `k` of `gettok` returns, from 0 on. -/
def nthToken : ℕ → Globals → Token ℚ
  | 0, g => seen (gettok g).1 (gettok g).2
  | k + 1, g => nthToken k (gettok g).2

/-- The static variables at the start, with a text on `stdin`. -/
def Globals.start (s : List Int8) : Globals :=
  { lastChar := (' '.toNat : ℤ), stdin := s.map Int8.toUInt8, identifierStr := [], numVal := 0 }

end InterProcess.Kaleidoscope.Original
