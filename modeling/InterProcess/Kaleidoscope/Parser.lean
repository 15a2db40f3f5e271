import InterProcess.Kaleidoscope.Lexer
import InterProcess.Lib.Outcome

/-!
# The Kaleidoscope expression parser

The parser looks at the lexer's current token and asks it for the next one, so
it is given here over any source of tokens. An empty expression
(`std::monostate`) is `none`. `log_error` writes to `stderr`, which is a list
of lines. The functions call each other; their first argument bounds the depth
of the calls.
-/

namespace InterProcess.Kaleidoscope

inductive BinaryOperator
  | lessThan
  | addition
  | subtraction
  | multiplication
  deriving DecidableEq

/-- An expression that is not empty. -/
inductive Expression (D : Type)
  | number (value : D)
  | variable (name : List Int8)
  | binary (op : BinaryOperator) (lhs rhs : Expression D)
  | call (calle : List Int8) (args : List (Expression D))

/-- What the parser uses of the lexer. `get_next_token` does not return when an
assert of the lexer fails. -/
structure Source (S D : Type) where
  currentToken : S → Token D
  getNextToken : S → Outcome S

/-- A line of output. -/
inductive Output
  | stdout (line : String)
  | stderr (line : String)
  deriving DecidableEq

structure ParserState (S : Type) where
  lexer : S
  output : List Output

/-- The lexer as a source of tokens. -/
def Lexer.source (D : Type) [Double D] (asserts : Bool) : Source (Lexer D) D where
  currentToken := Lexer.currToken
  getNextToken lexer :=
    match lexer.getNextToken asserts with
    | some lexer => .done lexer
    | none => .aborted

variable {S D : Type}

def logError (message : String) (σ : ParserState S) :
    Option (Expression D) × ParserState S :=
  (none, { σ with output := σ.output ++ [.stderr s!"error: {message}"] })

/-- `get_token_precendence`, of the current token. -/
def getTokenPrecendence : Token D → Int
  | .less => 10
  | .plus => 20
  | .minus => 30
  | .star => 40
  | _ => -1

def getBinaryOperator : Token D → Option BinaryOperator
  | .less => some .lessThan
  | .plus => some .addition
  | .minus => some .subtraction
  | .star => some .multiplication
  | _ => none

namespace Source

variable (src : Source S D)

/-- `lexer.current_token()`. -/
def current (σ : ParserState S) : Token D := src.currentToken σ.lexer

/-- `lexer.get_next_token()`. -/
def eat (σ : ParserState S) : Outcome (ParserState S) := do
  let lexer ← src.getNextToken σ.lexer
  pure { σ with lexer := lexer }

def parseNumberExpression (σ : ParserState S) :
    Outcome (Option (Expression D) × ParserState S) :=
  match src.current σ with
  | .number value => do
      let σ ← src.eat σ
      pure (some (.number value), σ)
  | _ => .aborted

mutual

def parseExpression :
    ℕ → ParserState S → Outcome (Option (Expression D) × ParserState S)
  | 0, _ => .outOfFuel
  | fuel + 1, σ => do
      let (lhs, σ) ← parsePrimary fuel σ
      match lhs with
      | none => pure (none, σ)
      | some lhs => parseBinarayOperationRhs fuel σ 0 lhs

def parsePrimary : ℕ → ParserState S → Outcome (Option (Expression D) × ParserState S)
  | 0, _ => .outOfFuel
  | fuel + 1, σ =>
      match src.current σ with
      | .identifier _ => parseIdentifierExpression fuel σ
      | .number _ => src.parseNumberExpression σ
      | .leftParenthesis => parseParenthesisExpression fuel σ
      | .eof => pure (none, σ)
      | _ => pure (logError "unknown token when expecting an expression" σ)

def parseParenthesisExpression :
    ℕ → ParserState S → Outcome (Option (Expression D) × ParserState S)
  | 0, _ => .outOfFuel
  | fuel + 1, σ => do
      let σ ← src.eat σ
      let (expr, σ) ← parseExpression fuel σ
      match expr with
      | none => pure (none, σ)
      | some expr =>
          match src.current σ with
          | .rightParenthesis => do
              let σ ← src.eat σ
              pure (some expr, σ)
          | _ => pure (logError "expected ')'" σ)

def parseIdentifierExpression :
    ℕ → ParserState S → Outcome (Option (Expression D) × ParserState S)
  | 0, _ => .outOfFuel
  | fuel + 1, σ =>
      match src.current σ with
      | .identifier identifier => do
          let σ ← src.eat σ
          match src.current σ with
          | .leftParenthesis => do
              let σ ← src.eat σ
              let (args, σ) ← match src.current σ with
                | .rightParenthesis => pure (some [], σ)
                | _ => parseArguments fuel σ []
              match args with
              | none => pure (none, σ)
              | some args => do
                  let σ ← src.eat σ
                  pure (some (.call identifier args), σ)
          | _ => pure (some (.variable identifier), σ)
      | _ => .aborted

/-- The loop over the arguments of a call, left in front of the `)`. -/
def parseArguments :
    ℕ → ParserState S → List (Expression D) →
      Outcome (Option (List (Expression D)) × ParserState S)
  | 0, _, _ => .outOfFuel
  | fuel + 1, σ, args => do
      let (arg, σ) ← parseExpression fuel σ
      match arg with
      | none => pure (none, σ)
      | some arg =>
          match src.current σ with
          | .rightParenthesis => pure (some (args ++ [arg]), σ)
          | .comma => do
              let σ ← src.eat σ
              parseArguments fuel σ (args ++ [arg])
          | _ =>
              let (_, σ) := logError (D := D) "Expected ')' or ',' in argument list" σ
              pure (none, σ)

/-- `parse_binaray_operation_rhs`; each pass of its loop is a call. -/
def parseBinarayOperationRhs :
    ℕ → ParserState S → Int → Expression D → Outcome (Option (Expression D) × ParserState S)
  | 0, _, _, _ => .outOfFuel
  | fuel + 1, σ, exprPrecendence, lhs =>
      let tokenPrecedence := getTokenPrecendence (src.current σ)
      if tokenPrecedence < exprPrecendence then pure (some lhs, σ)
      else
        match getBinaryOperator (src.current σ) with
        | none => pure (logError "unknown binary operator" σ)
        | some op => do
            let σ ← src.eat σ
            let (rhs, σ) ← parsePrimary fuel σ
            match rhs with
            | none => pure (none, σ)
            | some rhs => do
                -- a pending operator that binds tighter takes rhs as its lhs
                let (rhs, σ) ←
                  if tokenPrecedence < getTokenPrecendence (src.current σ) then
                    parseBinarayOperationRhs fuel σ (tokenPrecedence + 1) rhs
                  else pure (some rhs, σ)
                match rhs with
                | none => pure (none, σ)
                | some rhs => parseBinarayOperationRhs fuel σ exprPrecendence (.binary op lhs rhs)

end

end Source

end InterProcess.Kaleidoscope
