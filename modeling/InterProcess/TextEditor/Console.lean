import InterProcess.Lib.Interaction
import Mathlib.Data.Int.Notation
import Mathlib.Data.Nat.Notation

/-!
# The console

The functions of the namespace `console` over the calls they make: `tcgetattr`
and `tcsetattr`, `read` of one character and `write` of a text. A call answers
with what it returns and with what it has put into the memory it was given.

A character is a `Char`, a text a list of them.
-/

namespace InterProcess.Console

open Interaction

/-- The flags of a `termios`. -/
structure Termios where
  iflag : UInt32
  oflag : UInt32
  cflag : UInt32
  lflag : UInt32
  deriving DecidableEq, Repr

def ISIG : UInt32 := 0x1
def ICANON : UInt32 := 0x2
def ECHO : UInt32 := 0x8
def ICRNL : UInt32 := 0x100
def IXON : UInt32 := 0x400
def OPOST : UInt32 := 0x1

inductive Call
  | tcgetattr
  | tcsetattr (termios : Termios)
  | read
  | write (text : List Char)
  | println (text : List Char)
  deriving DecidableEq

/-- What a call returns, the attributes `tcgetattr` has stored and the character `read` has. -/
structure Answer where
  value : ℤ
  termios : Termios := ⟨0, 0, 0, 0⟩
  key : Char := '\x00'
  deriving DecidableEq

abbrev Terminal (β : Type) := Interaction Call Answer β

def writeText (text : List Char) : Terminal Bool := do
  return (← perform (.write text)).value = text.length

def clearScreen : Terminal Bool := writeText "\x1b[2J".toList

def moveCursorHome : Terminal Bool := writeText "\x1b[H".toList

def refreshScreen : Terminal Bool := do
  if !(← clearScreen) then
    return false
  moveCursorHome

def readKey : Terminal (Option Char) := do
  let answer ← perform .read
  if answer.value ≠ 1 then
    return none
  return some answer.key

def disableRawMode (origTermios : Termios) : Terminal Bool := do
  return (← perform (.tcsetattr origTermios)).value ≠ -1

/-- The attributes `enable_raw_mode` sets. -/
def Termios.raw (origTermios : Termios) : Termios :=
  { origTermios with
    lflag := origTermios.lflag &&& ~~~(ECHO ||| ICANON ||| ISIG)
    iflag := origTermios.iflag &&& ~~~(IXON ||| ICRNL)
    oflag := origTermios.oflag &&& ~~~OPOST }

/-- The original attributes, which the source returns through its argument, or nothing for
`false`. -/
def enableRawMode : Terminal (Option Termios) := do
  let got ← perform .tcgetattr
  if got.value = -1 then
    let _ ← perform (.println "failed to get terminal attributes".toList)
    return none
  if (← perform (.tcsetattr got.termios.raw)).value = -1 then
    let _ ← perform (.println "failed to set terminal attributes".toList)
    return none
  return some got.termios

def makeBold (text : List Char) : List Char := "\x1b[1m".toList ++ text ++ "\x1b[0m".toList

/-! ## The cursor position -/

structure Position where
  row : Int32
  col : Int32
  deriving DecidableEq, Repr

def isspace (ch : Char) : Bool := ch = ' ' || ('\t' ≤ ch && ch ≤ '\r')

/-- The digits of a `%d` of `sscanf` after its sign: the number and what follows it. What becomes
of a number that is no `int` is not defined; here it is cut down to 32 bits. -/
def scanDigits (negative : Bool) (input : List Char) : Option (Int32 × List Char) :=
  let digits := input.takeWhile Char.isDigit
  let value : ℤ := Nat.ofDigitChars 10 digits 0
  if digits = [] then none
  else some (Int32.ofInt (if negative then -value else value), input.dropWhile Char.isDigit)

/-- `%d` of `sscanf`. -/
def scanInt (input : List Char) : Option (Int32 × List Char) :=
  match input.dropWhile isspace with
  | '-' :: input => scanDigits true input
  | '+' :: input => scanDigits false input
  | input => scanDigits false input

/-- `sscanf` with the format `"%d;%d"`; nothing unless it returns 2. -/
def scanPosition (input : List Char) : Option Position :=
  match scanInt input with
  | some (row, ';' :: rest) => (scanInt rest).map fun scanned => ⟨row, scanned.1⟩
  | _ => none

/-- What `get_cursor_position` makes of the characters it has read, up to an `R`. -/
def positionOf (buf : List Char) : Option Position :=
  let i := buf.length - 1
  if i < 2 then none
  else if buf[0]? ≠ some '\x1b' ∨ buf[1]? ≠ some '[' then none
  else scanPosition (buf.drop 2)

/-- The loop that reads the report, with the rounds to go; nothing unless it ends at an `R`. -/
def readReport : ℕ → List Char → Terminal (Option (List Char))
  | 0, _ => return none
  | rounds + 1, buf => do
    match ← readKey with
    | none => return none
    | some key =>
      if key = 'R' then
        return some (buf ++ [key])
      readReport rounds (buf ++ [key])

/-- The request for a report of the cursor position. -/
def positionRequest : List Char := "\x1b[6n".toList

/-- A buffer of 32 characters, the last of which is not used. -/
def reportSize : ℕ := 31

def getCursorPosition : Terminal (Option Position) := do
  if !(← writeText positionRequest) then
    return none
  match ← readReport reportSize [] with
  | none => return none
  | some buf => return positionOf buf

end InterProcess.Console
