import InterProcess.Kaleidoscope.Parser

/-!
# The Kaleidoscope top level

`main_loop` reads definitions, externs and expressions until the end of the
file, reports each, and skips a token where one could not be parsed. As in the
expression parser, loops and calls share one bound on their depth.
-/

namespace InterProcess.Kaleidoscope

/-- `ast::prototype`. -/
structure Prototype where
  name : List Int8
  args : List (List Int8)

/-- `ast::function`. -/
structure Function (D : Type) where
  proto : Prototype
  body : Expression D

/-- The characters as a line shows them. -/
def asString (chars : List Int8) : String :=
  String.ofList (chars.map fun ch => Char.ofNat ch.toUInt8.toNat)

variable {S D : Type}

def ParserState.print (σ : ParserState S) (line : Output) : ParserState S :=
  { σ with output := σ.output ++ [line] }

def logErrorPrototype (message : String) (σ : ParserState S) :
    Option Prototype × ParserState S :=
  (none, (logError (D := Unit) message σ).2)

/-- What `handle_extern` prints of a prototype. -/
def externLines (proto : Prototype) : List Output :=
  .stdout "parsed an extern" :: .stdout ("name: " ++ asString proto.name) ::
    proto.args.map fun arg => .stdout ("    arg: " ++ asString arg)

namespace Source

variable (src : Source S D)

/-- The loop over the argument names of a prototype, left at the first token
that is none. -/
def readArgNames :
    ℕ → ParserState S → List (List Int8) → Outcome (List (List Int8) × ParserState S)
  | 0, _, _ => .outOfFuel
  | fuel + 1, σ, argNames => do
      let σ ← src.eat σ
      match src.current σ with
      | .identifier name => readArgNames fuel σ (argNames ++ [name])
      | _ => pure (argNames, σ)

def parsePrototype (fuel : ℕ) (σ : ParserState S) :
    Outcome (Option Prototype × ParserState S) :=
  match src.current σ with
  | .identifier functionName => do
      let σ ← src.eat σ
      match src.current σ with
      | .leftParenthesis => do
          let (argNames, σ) ← src.readArgNames fuel σ []
          match src.current σ with
          | .rightParenthesis => do
              let σ ← src.eat σ
              pure (some ⟨functionName, argNames⟩, σ)
          | _ => pure (logErrorPrototype "expected ')' in prototype" σ)
      | _ => pure (logErrorPrototype "expected '(' in prototype" σ)
  | _ => pure (logErrorPrototype "expected function name in prototype" σ)

def parseDefinition (fuel : ℕ) (σ : ParserState S) :
    Outcome (Option (Function D) × ParserState S) := do
  let σ ← src.eat σ
  let (proto, σ) ← src.parsePrototype fuel σ
  match proto with
  | none => pure (none, σ)
  | some proto => do
      let (expr, σ) ← src.parseExpression fuel σ
      pure (expr.map fun body => ⟨proto, body⟩, σ)

def parseExtern (fuel : ℕ) (σ : ParserState S) : Outcome (Option Prototype × ParserState S) := do
  let σ ← src.eat σ
  src.parsePrototype fuel σ

/-- `parse_top_level_expression`; its prototype is anonymous. -/
def parseTopLevelExpression (fuel : ℕ) (σ : ParserState S) :
    Outcome (Option (Function D) × ParserState S) := do
  let (expr, σ) ← src.parseExpression fuel σ
  pure (expr.map fun body => ⟨⟨[], []⟩, body⟩, σ)

def handleDefinition (fuel : ℕ) (σ : ParserState S) : Outcome (ParserState S) := do
  let (function, σ) ← src.parseDefinition fuel σ
  match function with
  | some _ => pure (σ.print (.stdout "parsed a function definition"))
  | none => src.eat (σ.print (.stderr "failed parsing a function definition"))

def handleExtern (fuel : ℕ) (σ : ParserState S) : Outcome (ParserState S) := do
  let (externParsed, σ) ← src.parseExtern fuel σ
  match externParsed with
  | some proto => pure { σ with output := σ.output ++ externLines proto }
  | none => src.eat (σ.print (.stderr "failed parsing an extern"))

def handleTopLevelExpression (fuel : ℕ) (σ : ParserState S) : Outcome (ParserState S) := do
  let (expr, σ) ← src.parseTopLevelExpression fuel σ
  match expr with
  | some _ => pure (σ.print (.stdout "parsed a top-level expr"))
  | none => src.eat (σ.print (.stderr "failed parsing a top-level expr"))

/-- What `main_loop` does with the current token; nothing at the end of the file. -/
def handleToken (fuel : ℕ) (σ : ParserState S) : Option (Outcome (ParserState S)) :=
  match src.current σ with
  | .eof => none
  | .defToken => some (src.handleDefinition fuel σ)
  | .externToken => some (src.handleExtern fuel σ)
  | .unknown value =>
      if value = char ';' then some (src.eat σ) else some (src.handleTopLevelExpression fuel σ)
  | _ => some (src.handleTopLevelExpression fuel σ)

/-- The loop of `main_loop`. -/
def topLoop : ℕ → ParserState S → Outcome (ParserState S)
  | 0, _ => .outOfFuel
  | fuel + 1, σ =>
      match src.handleToken fuel σ with
      | none => pure σ
      | some handled => handled >>= topLoop fuel

/-- `main_loop`, from a lexer just constructed. -/
def mainLoop (fuel : ℕ) (σ : ParserState S) : Outcome (ParserState S) := do
  let σ ← src.eat σ
  src.topLoop fuel σ

end Source

end InterProcess.Kaleidoscope
