import InterProcess.Kaleidoscope.Items
import InterProcess.Kaleidoscope.Termination

/-!
# The main loop on a text

The parser looks at its lexer only through the tokens, so it comes to the same
on any two sources that go on to return the same ones (`Source.simulates_same`,
`mainLoop_alike`). On an ASCII text with the sentinel the lexer is such a source
for the tokens of the lexemes, with a failed assert where a numeral starts with
the digit 0 (`mainLoop_lexed`). Hence what `main_loop` makes of a list of tokens
it makes of every text whose lexemes stand for them (`mainLoop_text`).
-/

namespace InterProcess.Kaleidoscope

open Outcome Munch

variable {S S' D : Type}

/-! ## Related sources -/

/-- Related states have the same current token, and the next ones are related. -/
structure Source.Simulates (src : Source S D) (src' : Source S' D) (R : S → S' → Prop) :
    Prop where
  current : ∀ {s s'}, R s s' → src.currentToken s = src'.currentToken s'
  next : ∀ {s s'}, R s s' → Alike R (src.getNextToken s) (src'.getNextToken s')

/-- Related lexers, and the same has been printed. -/
def SameState (R : S → S' → Prop) (σ : ParserState S) (σ' : ParserState S') : Prop :=
  R σ.lexer σ'.lexer ∧ σ.output = σ'.output

/-- The same result in such states. -/
def SameResult {α : Type} (R : S → S' → Prop) (r : α × ParserState S) (r' : α × ParserState S') :
    Prop :=
  r.1 = r'.1 ∧ SameState R r.2 r'.2

section Simulates

variable {src : Source S D} {src' : Source S' D} {R : S → S' → Prop}

theorem Source.Simulates.current_eq (h : src.Simulates src' R) {σ : ParserState S}
    {σ' : ParserState S'} (hσ : SameState R σ σ') : src.current σ = src'.current σ' :=
  h.current hσ.1

theorem Source.Simulates.eat (h : src.Simulates src' R) {σ : ParserState S}
    {σ' : ParserState S'} (hσ : SameState R σ σ') :
    Alike (SameState R) (src.eat σ) (src'.eat σ') :=
  (h.next hσ.1).bind fun _ _ hlexer => ⟨hlexer, hσ.2⟩

theorem SameState.print {σ : ParserState S} {σ' : ParserState S'} (hσ : SameState R σ σ')
    (line : Output) : SameState R (σ.print line) (σ'.print line) :=
  ⟨hσ.1, congrArg (· ++ [line]) hσ.2⟩

theorem SameState.logError {σ : ParserState S} {σ' : ParserState S'} (hσ : SameState R σ σ')
    (message : String) :
    SameResult R (logError (D := D) message σ) (logError (D := D) message σ') := by
  refine ⟨rfl, hσ.1, ?_⟩
  show σ.output ++ _ = σ'.output ++ _
  rw [hσ.2]

/-! ## The parser functions -/

variable (src src' R)

/-- Called with depth `n` in related states, the parser functions come to the same. -/
structure AlikeAt (n : ℕ) : Prop where
  expression : ∀ {σ σ'}, SameState R σ σ' →
    Alike (SameResult R) (src.parseExpression n σ) (src'.parseExpression n σ')
  primary : ∀ {σ σ'}, SameState R σ σ' →
    Alike (SameResult R) (src.parsePrimary n σ) (src'.parsePrimary n σ')
  parenthesis : ∀ {σ σ'}, SameState R σ σ' →
    Alike (SameResult R) (src.parseParenthesisExpression n σ)
      (src'.parseParenthesisExpression n σ')
  identifier : ∀ {σ σ'}, SameState R σ σ' →
    Alike (SameResult R) (src.parseIdentifierExpression n σ) (src'.parseIdentifierExpression n σ')
  arguments : ∀ {σ σ'} args, SameState R σ σ' →
    Alike (SameResult R) (src.parseArguments n σ args) (src'.parseArguments n σ' args)
  rhs : ∀ {σ σ'} min lhs, SameState R σ σ' →
    Alike (SameResult R) (src.parseBinarayOperationRhs n σ min lhs)
      (src'.parseBinarayOperationRhs n σ' min lhs)

variable {src src' R}

theorem alikeAt_zero : AlikeAt src src' R 0 where
  expression _ := trivial
  primary _ := trivial
  parenthesis _ := trivial
  identifier _ := trivial
  arguments _ _ := trivial
  rhs _ _ _ := trivial

variable {n : ℕ}

theorem AlikeAt.expression_succ (ih : AlikeAt src src' R n) {σ : ParserState S}
    {σ' : ParserState S'} (hσ : SameState R σ σ') :
    Alike (SameResult R) (src.parseExpression (n + 1) σ) (src'.parseExpression (n + 1) σ') := by
  simp only [Source.parseExpression]
  refine (ih.primary hσ).bind ?_
  rintro ⟨lhs, σ⟩ ⟨_, σ'⟩ ⟨rfl, hσ⟩
  cases lhs with
  | none => exact ⟨rfl, hσ⟩
  | some lhs => exact ih.rhs 0 lhs hσ

theorem Source.Simulates.parseNumberExpression (h : src.Simulates src' R) {σ : ParserState S}
    {σ' : ParserState S'} (hσ : SameState R σ σ') :
    Alike (SameResult R) (src.parseNumberExpression σ) (src'.parseNumberExpression σ') := by
  simp only [Source.parseNumberExpression, h.current_eq hσ]
  cases src'.current σ' with
  | number value => exact (h.eat hσ).bind fun _ _ hσ => ⟨rfl, hσ⟩
  | _ => trivial

theorem AlikeAt.primary_succ (h : src.Simulates src' R) (ih : AlikeAt src src' R n)
    {σ : ParserState S} {σ' : ParserState S'} (hσ : SameState R σ σ') :
    Alike (SameResult R) (src.parsePrimary (n + 1) σ) (src'.parsePrimary (n + 1) σ') := by
  simp only [Source.parsePrimary, h.current_eq hσ]
  cases src'.current σ' with
  | identifier => exact ih.identifier hσ
  | number => exact h.parseNumberExpression hσ
  | leftParenthesis => exact ih.parenthesis hσ
  | eof => exact ⟨rfl, hσ⟩
  | _ => exact hσ.logError _

theorem AlikeAt.parenthesis_succ (h : src.Simulates src' R) (ih : AlikeAt src src' R n)
    {σ : ParserState S} {σ' : ParserState S'} (hσ : SameState R σ σ') :
    Alike (SameResult R) (src.parseParenthesisExpression (n + 1) σ)
      (src'.parseParenthesisExpression (n + 1) σ') := by
  simp only [Source.parseParenthesisExpression]
  refine (h.eat hσ).bind fun σ σ' hσ => (ih.expression hσ).bind ?_
  rintro ⟨expr, σ⟩ ⟨_, σ'⟩ ⟨rfl, hσ⟩
  cases expr with
  | none => exact ⟨rfl, hσ⟩
  | some expr =>
      simp only [h.current_eq hσ]
      cases src'.current σ' with
      | rightParenthesis => exact (h.eat hσ).bind fun _ _ hσ => ⟨rfl, hσ⟩
      | _ => exact hσ.logError _

theorem AlikeAt.identifier_succ (h : src.Simulates src' R) (ih : AlikeAt src src' R n)
    {σ : ParserState S} {σ' : ParserState S'} (hσ : SameState R σ σ') :
    Alike (SameResult R) (src.parseIdentifierExpression (n + 1) σ)
      (src'.parseIdentifierExpression (n + 1) σ') := by
  simp only [Source.parseIdentifierExpression, h.current_eq hσ]
  cases src'.current σ' with
  | identifier name =>
      refine (h.eat hσ).bind fun σ σ' hσ => ?_
      simp only [h.current_eq hσ]
      cases src'.current σ' with
      | leftParenthesis =>
          refine (h.eat hσ).bind fun σ σ' hσ => ?_
          simp only [h.current_eq hσ]
          cases src'.current σ' with
          | rightParenthesis => exact (h.eat hσ).bind fun _ _ hσ => ⟨rfl, hσ⟩
          | _ =>
              refine (ih.arguments [] hσ).bind ?_
              rintro ⟨args, σ⟩ ⟨_, σ'⟩ ⟨rfl, hσ⟩
              cases args with
              | none => exact ⟨rfl, hσ⟩
              | some args => exact (h.eat hσ).bind fun _ _ hσ => ⟨rfl, hσ⟩
      | _ => exact ⟨rfl, hσ⟩
  | _ => trivial

theorem AlikeAt.arguments_succ (h : src.Simulates src' R) (ih : AlikeAt src src' R n)
    (args : List (Expression D)) {σ : ParserState S} {σ' : ParserState S'}
    (hσ : SameState R σ σ') :
    Alike (SameResult R) (src.parseArguments (n + 1) σ args)
      (src'.parseArguments (n + 1) σ' args) := by
  simp only [Source.parseArguments]
  refine (ih.expression hσ).bind ?_
  rintro ⟨arg, σ⟩ ⟨_, σ'⟩ ⟨rfl, hσ⟩
  cases arg with
  | none => exact ⟨rfl, hσ⟩
  | some arg =>
      simp only [h.current_eq hσ]
      cases src'.current σ' with
      | rightParenthesis => exact ⟨rfl, hσ⟩
      | comma => exact (h.eat hσ).bind fun _ _ hσ => ih.arguments _ hσ
      | _ => exact ⟨rfl, (hσ.logError (D := D) _).2⟩

theorem AlikeAt.rhs_succ (h : src.Simulates src' R) (ih : AlikeAt src src' R n) (min : Int)
    (lhs : Expression D) {σ : ParserState S} {σ' : ParserState S'} (hσ : SameState R σ σ') :
    Alike (SameResult R) (src.parseBinarayOperationRhs (n + 1) σ min lhs)
      (src'.parseBinarayOperationRhs (n + 1) σ' min lhs) := by
  simp only [Source.parseBinarayOperationRhs, h.current_eq hσ]
  split
  · exact ⟨rfl, hσ⟩
  · cases getBinaryOperator (src'.current σ') with
    | none => exact hσ.logError _
    | some op =>
        refine (h.eat hσ).bind fun σ₁ σ₁' hσ₁ => (ih.primary hσ₁).bind ?_
        rintro ⟨rhs, σ₂⟩ ⟨_, σ₂'⟩ ⟨rfl, hσ₂⟩
        cases rhs with
        | none => exact ⟨rfl, hσ₂⟩
        | some rhs =>
            simp only [h.current_eq hσ₂]
            split
            · refine (ih.rhs _ rhs hσ₂).bind ?_
              rintro ⟨rhs, σ₃⟩ ⟨_, σ₃'⟩ ⟨rfl, hσ₃⟩
              cases rhs with
              | none => exact ⟨rfl, hσ₃⟩
              | some rhs => exact ih.rhs min _ hσ₃
            · exact ih.rhs min _ hσ₂

theorem alikeAt (h : src.Simulates src' R) (n : ℕ) : AlikeAt src src' R n := by
  induction n with
  | zero => exact alikeAt_zero
  | succ n ih =>
      exact ⟨ih.expression_succ, ih.primary_succ h, ih.parenthesis_succ h, ih.identifier_succ h,
        fun args => ih.arguments_succ h args, fun min lhs => ih.rhs_succ h min lhs⟩

/-! ## The top level -/

theorem readArgNames_alike (h : src.Simulates src' R) (n : ℕ) :
    ∀ {σ σ'} argNames, SameState R σ σ' →
      Alike (SameResult R) (src.readArgNames n σ argNames) (src'.readArgNames n σ' argNames) := by
  induction n with
  | zero => exact fun _ _ => trivial
  | succ n ih =>
      intro σ σ' argNames hσ
      simp only [Source.readArgNames]
      refine (h.eat hσ).bind fun σ σ' hσ => ?_
      simp only [h.current_eq hσ]
      cases src'.current σ' with
      | identifier name => exact ih _ hσ
      | _ => exact ⟨rfl, hσ⟩

theorem SameState.logErrorPrototype {σ : ParserState S} {σ' : ParserState S'}
    (hσ : SameState R σ σ') (message : String) :
    SameResult R (logErrorPrototype message σ) (logErrorPrototype message σ') :=
  ⟨rfl, (hσ.logError (D := Unit) message).2⟩

theorem parsePrototype_alike (h : src.Simulates src' R) (n : ℕ) {σ : ParserState S}
    {σ' : ParserState S'} (hσ : SameState R σ σ') :
    Alike (SameResult R) (src.parsePrototype n σ) (src'.parsePrototype n σ') := by
  simp only [Source.parsePrototype, h.current_eq hσ]
  cases src'.current σ' with
  | identifier functionName =>
      refine (h.eat hσ).bind fun σ σ' hσ => ?_
      simp only [h.current_eq hσ]
      cases src'.current σ' with
      | leftParenthesis =>
          refine (readArgNames_alike h n [] hσ).bind ?_
          rintro ⟨argNames, σ⟩ ⟨_, σ'⟩ ⟨rfl, hσ⟩
          simp only [h.current_eq hσ]
          cases src'.current σ' with
          | rightParenthesis => exact (h.eat hσ).bind fun _ _ hσ => ⟨rfl, hσ⟩
          | _ => exact hσ.logErrorPrototype _
      | _ => exact hσ.logErrorPrototype _
  | _ => exact hσ.logErrorPrototype _

theorem handleDefinition_alike (h : src.Simulates src' R) (n : ℕ) {σ : ParserState S}
    {σ' : ParserState S'} (hσ : SameState R σ σ') :
    Alike (SameState R) (src.handleDefinition n σ) (src'.handleDefinition n σ') := by
  have hdefinition : Alike (SameResult R) (src.parseDefinition n σ)
      (src'.parseDefinition n σ') := by
    refine (h.eat hσ).bind fun σ σ' hσ => (parsePrototype_alike h n hσ).bind ?_
    rintro ⟨proto, σ⟩ ⟨_, σ'⟩ ⟨rfl, hσ⟩
    cases proto with
    | none => exact ⟨rfl, hσ⟩
    | some proto =>
        refine ((alikeAt h n).expression hσ).bind ?_
        rintro ⟨expr, σ⟩ ⟨_, σ'⟩ ⟨rfl, hσ⟩
        exact ⟨rfl, hσ⟩
  refine hdefinition.bind ?_
  rintro ⟨function, σ⟩ ⟨_, σ'⟩ ⟨rfl, hσ⟩
  cases function with
  | some => exact hσ.print _
  | none => exact h.eat (hσ.print _)

theorem handleExtern_alike (h : src.Simulates src' R) (n : ℕ) {σ : ParserState S}
    {σ' : ParserState S'} (hσ : SameState R σ σ') :
    Alike (SameState R) (src.handleExtern n σ) (src'.handleExtern n σ') := by
  refine ((h.eat hσ).bind fun σ σ' hσ => parsePrototype_alike h n hσ).bind ?_
  rintro ⟨externParsed, σ⟩ ⟨_, σ'⟩ ⟨rfl, hσ⟩
  cases externParsed with
  | some proto => exact ⟨hσ.1, congrArg (· ++ externLines proto) hσ.2⟩
  | none => exact h.eat (hσ.print _)

theorem handleTopLevelExpression_alike (h : src.Simulates src' R) (n : ℕ) {σ : ParserState S}
    {σ' : ParserState S'} (hσ : SameState R σ σ') :
    Alike (SameState R) (src.handleTopLevelExpression n σ)
      (src'.handleTopLevelExpression n σ') := by
  have hexpr : Alike (SameResult R) (src.parseTopLevelExpression n σ)
      (src'.parseTopLevelExpression n σ') := by
    refine ((alikeAt h n).expression hσ).bind ?_
    rintro ⟨expr, σ⟩ ⟨_, σ'⟩ ⟨rfl, hσ⟩
    exact ⟨rfl, hσ⟩
  refine hexpr.bind ?_
  rintro ⟨expr, σ⟩ ⟨_, σ'⟩ ⟨rfl, hσ⟩
  cases expr with
  | some => exact hσ.print _
  | none => exact h.eat (hσ.print _)

theorem topLoop_alike (h : src.Simulates src' R) (n : ℕ) :
    ∀ {σ σ'}, SameState R σ σ' → Alike (SameState R) (src.topLoop n σ) (src'.topLoop n σ') := by
  induction n with
  | zero => exact fun _ => trivial
  | succ n ih =>
      intro σ σ' hσ
      simp only [Source.topLoop, Source.handleToken, h.current_eq hσ]
      cases src'.current σ' with
      | eof => exact hσ
      | defToken => exact (handleDefinition_alike h n hσ).bind fun _ _ hσ => ih hσ
      | externToken => exact (handleExtern_alike h n hσ).bind fun _ _ hσ => ih hσ
      | unknown value =>
          by_cases hvalue : value = char ';'
          · simp only [if_pos hvalue]
            exact (h.eat hσ).bind fun _ _ hσ => ih hσ
          · simp only [if_neg hvalue]
            exact (handleTopLevelExpression_alike h n hσ).bind fun _ _ hσ => ih hσ
      | _ => exact (handleTopLevelExpression_alike h n hσ).bind fun _ _ hσ => ih hσ

theorem Source.Simulates.mainLoop (h : src.Simulates src' R) (n : ℕ) {σ : ParserState S}
    {σ' : ParserState S'} (hσ : SameState R σ σ') :
    Alike (SameState R) (src.mainLoop n σ) (src'.mainLoop n σ') :=
  (h.eat hσ).bind fun _ _ hσ => topLoop_alike h n hσ

end Simulates

/-! ## The tokens a source returns -/

/-- The token call number `k` of `get_next_token` returns, from 0 on. -/
def Source.nth (src : Source S D) : ℕ → S → Outcome (Token D)
  | 0, s => do
      let s ← src.getNextToken s
      pure (src.currentToken s)
  | k + 1, s => src.getNextToken s >>= src.nth k

/-- The current token and all the later ones are the same. -/
def Source.Same (src : Source S D) (src' : Source S' D) (s : S) (s' : S') : Prop :=
  src.currentToken s = src'.currentToken s' ∧ ∀ k, src.nth k s = src'.nth k s'

/-- The next states of sources that go on alike go on alike. -/
theorem Source.simulates_same (src : Source S D) (src' : Source S' D) :
    src.Simulates src' (src.Same src') where
  current h := h.1
  next := by
    intro s s' h
    have hfirst := h.2 0
    have hlater := fun k => h.2 (k + 1)
    simp only [Source.nth] at hfirst hlater
    cases hnext : src.getNextToken s with
    | outOfFuel =>
        rw [hnext] at hfirst
        cases hnext' : src'.getNextToken s' with
        | outOfFuel => trivial
        | aborted | done => rw [hnext'] at hfirst; cases hfirst
    | aborted =>
        rw [hnext] at hfirst
        cases hnext' : src'.getNextToken s' with
        | aborted => trivial
        | outOfFuel | done => rw [hnext'] at hfirst; cases hfirst
    | done t =>
        rw [hnext] at hfirst hlater
        cases hnext' : src'.getNextToken s' with
        | outOfFuel | aborted => rw [hnext'] at hfirst; cases hfirst
        | done t' =>
            rw [hnext'] at hfirst hlater
            exact ⟨Outcome.done.inj hfirst, hlater⟩

/-- `main_loop` comes to the same, and prints the same, on sources that return the same. -/
theorem Source.Same.mainLoop_alike {src : Source S D} {src' : Source S' D} {s : S} {s' : S'}
    (h : src.Same src' s s') (n : ℕ) (output : List Output) :
    Alike (fun σ σ' => σ.output = σ'.output) (src.mainLoop n ⟨s, output⟩)
      (src'.mainLoop n ⟨s', output⟩) := by
  have hstart : SameState (src.Same src') ⟨s, output⟩ ⟨s', output⟩ := ⟨h, rfl⟩
  exact ((src.simulates_same src').mainLoop n hstart).mono fun _ _ hσ => hσ.2

/-! ## Texts -/

/-- The current token and what the later calls come to; then `eof_token`s. -/
def Source.results (D : Type) : Source (Token D × List (Option (Token D))) D where
  currentToken := Prod.fst
  getNextToken
    | (_, []) => .done (.eof, [])
    | (_, none :: _) => .aborted
    | (_, some token :: results) => .done (token, results)

theorem nth_results (results : List (Option (Token D))) (k : ℕ) (token : Token D) :
    (Source.results D).nth k (token, results) = .ofOption (answers results k) := by
  induction k generalizing token results with
  | zero => cases results with
    | nil => rfl
    | cons result results => cases result <;> rfl
  | succ k ih => cases results with
    | nil => exact (ih [] .eof).trans rfl
    | cons result results => cases result with
      | none => rfl
      | some token => exact ih results token

theorem nth_list (tokens : List (Token D)) (k : ℕ) (token : Token D) :
    (Source.list D).nth k (token :: tokens) = .done (tokens[k]?.getD .eof) := by
  induction k generalizing token tokens with
  | zero => cases tokens <;> rfl
  | succ k ih => cases tokens with
    | nil =>
        show (Source.list D).nth k [] = _
        have hnil : (Source.list D).nth k [] = (Source.list D).nth k [.eof] := by cases k <;> rfl
        rw [hnil, ih [] .eof]
        rfl
    | cons token tokens => exact ih tokens token

variable [Double D] {asserts : Bool}

theorem nth_lexer (k : ℕ) (lexer : Lexer D) :
    (Lexer.source D asserts).nth k lexer = .ofOption (lexer.nthToken asserts k) := by
  induction k generalizing lexer with
  | zero =>
      simp only [Source.nth, Lexer.source, Lexer.nthToken]
      cases lexer.getNextToken asserts <;> rfl
  | succ k ih =>
      simp only [Source.nth, Lexer.nthToken]
      cases hnext : lexer.getNextToken asserts with
      | none =>
          have hsource : (Lexer.source D asserts).getNextToken lexer = .aborted := by
            simp only [Lexer.source, hnext]
          rw [hsource]
          rfl
      | some next =>
          have hsource : (Lexer.source D asserts).getNextToken lexer = .done next := by
            simp only [Lexer.source, hnext]
          rw [hsource, done_bind, ih]
          rfl

/-- On an ASCII text with the sentinel, whatever its lexemes are, `main_loop` comes to what it
comes to on their results, and prints the same. -/
theorem mainLoop_lexed (asserts : Bool) (s : List Int8) (hascii : IsAscii s)
    (ls : List (List Int8)) (hls : MaximalMunch IsLexeme s ls) (n : ℕ) (output : List Output) :
    Alike (fun σ σ' => σ.output = σ'.output)
      ((Lexer.source D asserts).mainLoop n ⟨Lexer.new (s ++ [endOfFile]), output⟩)
      ((Source.results D).mainLoop n ⟨(.eof, ls.filterMap (lexemeResult asserts)), output⟩) := by
  have hsame : (Lexer.source D asserts).Same (Source.results D) (Lexer.new (s ++ [endOfFile]))
      (.eof, ls.filterMap (lexemeResult asserts)) := by
    refine ⟨rfl, fun k => ?_⟩
    rw [nth_lexer, nth_results, nthToken_sentinel asserts hascii hls]
  exact hsame.mainLoop_alike n output

/-- Where no assert fails the results are the tokens of the lexemes. -/
theorem lexer_same_list {s : List Int8} (hascii : IsAscii s) {ls : List (List Int8)}
    (hls : MaximalMunch IsLexeme s ls) (hzero : asserts = true → ∀ l ∈ ls, ¬ ZeroLed l) :
    (Lexer.source D asserts).Same (Source.list D) (Lexer.new (s ++ [endOfFile]))
      (.eof :: ls.filterMap lexemeToken) := by
  refine ⟨rfl, fun k => ?_⟩
  rw [nth_lexer, nth_list, nthToken_sentinel asserts hascii hls, filterMap_lexemeResult hzero,
    answers_map_some]
  rfl

/-- The lexemes of the text are written as the items, however they are spaced and commented:
then `main_loop` reports every item once, in order and as what it is, nothing else, and
returns. -/
theorem mainLoop_text (D : Type) [Double D] (asserts : Bool) (s : List Int8) (hascii : IsAscii s)
    (ls : List (List Int8)) (hls : MaximalMunch IsLexeme s ls)
    (hzero : asserts = true → ∀ l ∈ ls, ¬ ZeroLed l) (items : List (Item D))
    (hitems : ProgramWriting items (ls.filterMap lexemeToken)) (output : List Output) :
    ∃ lexer, Converges
      (fun n => (Lexer.source D asserts).mainLoop n ⟨Lexer.new (s ++ [endOfFile]), output⟩)
      ⟨lexer, output ++ items.flatMap Item.report⟩ := by
  have hlist : Converges (fun n => (Source.list D).mainLoop n
      ⟨.eof :: ls.filterMap lexemeToken, output⟩) ⟨[], output ++ items.flatMap Item.report⟩ :=
    (Converges.done _).bind (topLoop_converges hitems output)
  have hsame := lexer_same_list (D := D) hascii hls hzero
  obtain ⟨⟨lexer, printed⟩, hprinted, hdone⟩ :=
    Converges.of_alike (mainLoop_extends _ _) (fun n => hsame.mainLoop_alike n output) hlist
  obtain rfl : printed = output ++ items.flatMap Item.report := hprinted
  exact ⟨lexer, hdone⟩

theorem IsLexeme.of_alpha {ch : Int8} {body : List Int8} (h : IsLexeme (ch :: body))
    (halpha : isalpha ch = true) : ∀ c ∈ body, isalnum c = true := by
  generalize hs : ch :: body = l at h
  have hdigit : isdigit ch = false :=
    Bool.eq_false_iff.mpr fun hdigit => by simp [isalpha_of_isdigit hdigit] at halpha
  cases h with
  | word _ hbody =>
      obtain ⟨-, rfl⟩ := List.cons.inj hs
      exact hbody
  | whitespace | symbol | other =>
      obtain ⟨-, rfl⟩ := List.cons.inj hs
      exact List.forall_mem_nil _
  | comment =>
      obtain ⟨rfl, -⟩ := List.cons.inj hs
      cases halpha
  | integer hne h =>
      subst hs
      rw [h ch List.mem_cons_self] at hdigit
      cases hdigit
  | @decimal digits fraction h =>
      cases digits with
      | nil =>
          obtain ⟨rfl, -⟩ := List.cons.inj hs
          cases halpha
      | cons digit digits =>
          obtain ⟨rfl, -⟩ := List.cons.inj hs
          rw [h ch List.mem_cons_self] at hdigit
          cases hdigit

/-- The lexemes of `f;`. -/
theorem maximalMunch_variable : MaximalMunch IsLexeme (text "f;") [text "f", text ";"] := by
  have hother : IsLexeme (text ";") := .other ⟨rfl, by decide, by decide, rfl, rfl, by decide⟩
  have hword : IsLexeme (text "f") := .word rfl (List.forall_mem_nil _)
  have hlast : Longest IsLexeme (text ";") [] :=
    ⟨by decide, hother, fun _ _ hstarts => hstarts.length_le⟩
  have hfirst : Longest IsLexeme (text "f") (text ";") := by
    refine ⟨by decide, hword, ?_⟩
    -- with the `;` it is no word
    rintro l hl ⟨rest, hrest⟩
    rcases l with _ | ⟨ch, _ | ⟨c, body⟩⟩
    · exact Nat.zero_le _
    · exact Nat.le_refl _
    · obtain ⟨rfl, htail⟩ := List.cons.inj hrest
      obtain ⟨rfl, -⟩ := List.cons.inj htail
      cases hl.of_alpha rfl _ List.mem_cons_self
  exact .cons hfirst (.cons hlast .nil)

theorem mainLoop_lexed_variable :
    Alike (fun σ σ' => σ.output = σ'.output)
      ((Lexer.source ℚ true).mainLoop 9 ⟨Lexer.new (text "f;" ++ [endOfFile]), []⟩)
      ((Source.results ℚ).mainLoop 9
        ⟨(.eof, [some (.identifier (text "f")), some (.unknown (char ';'))]), []⟩) :=
  mainLoop_lexed true (text "f;") (by unfold IsAscii; decide +kernel) _ maximalMunch_variable 9 []

theorem mainLoop_text_variable :
    ∃ lexer, Converges
      (fun n => (Lexer.source ℚ true).mainLoop n ⟨Lexer.new (text "f;" ++ [endOfFile]), []⟩)
      ⟨lexer, [.stdout "parsed a top-level expr"]⟩ := by
  have hitem : ItemWriting (.expression (.variable (text "f")))
      ([.identifier (text "f")] : List (Token ℚ)) := .expression (.name 0 (text "f"))
  exact mainLoop_text ℚ true (text "f;") (by unfold IsAscii; decide +kernel) _ maximalMunch_variable
    (fun _ => by decide) [.expression (.variable (text "f"))] (.cons hitem .nil) []

end InterProcess.Kaleidoscope
