import InterProcess.Kaleidoscope.MainLoop
import InterProcess.Kaleidoscope.Tokenise
import Mathlib.Algebra.Order.Group.Nat

/-!
# The main loop ends

Whatever the text is, `main_loop` comes to an end. Each token that is not
`eof_token` costs the lexer a character (`getToken_shortens`); an `eof_token`
may cost none and come again. So what goes down is twice the characters left
plus one while the current token is not `eof_token` (`Source.left`), and it goes
down whenever a token is eaten that is not `eof_token` itself. Every function of
the parser only eats such tokens, and a handler that fails eats one more.

The depth of calls is bounded by four times that measure. Only a failing assert
of the lexer aborts.
-/

namespace InterProcess.Kaleidoscope

open Outcome

variable {S D : Type}

/-! ## More depth changes nothing -/

section Extends

variable (src : Source S D)

/-- The parser functions come to the same when they may go one call deeper. -/
structure ExtendsAt (n : ℕ) : Prop where
  expression : ∀ σ, Extends (src.parseExpression n σ) (src.parseExpression (n + 1) σ)
  primary : ∀ σ, Extends (src.parsePrimary n σ) (src.parsePrimary (n + 1) σ)
  parenthesis : ∀ σ,
    Extends (src.parseParenthesisExpression n σ) (src.parseParenthesisExpression (n + 1) σ)
  identifier : ∀ σ,
    Extends (src.parseIdentifierExpression n σ) (src.parseIdentifierExpression (n + 1) σ)
  arguments : ∀ σ args, Extends (src.parseArguments n σ args) (src.parseArguments (n + 1) σ args)
  rhs : ∀ σ min lhs, Extends (src.parseBinarayOperationRhs n σ min lhs)
    (src.parseBinarayOperationRhs (n + 1) σ min lhs)

variable {src} {n : ℕ}

theorem extendsAt_zero : ExtendsAt src 0 :=
  ⟨fun _ => .inl rfl, fun _ => .inl rfl, fun _ => .inl rfl, fun _ => .inl rfl,
    fun _ _ => .inl rfl, fun _ _ _ => .inl rfl⟩

theorem ExtendsAt.succ (h : ExtendsAt src n) : ExtendsAt src (n + 1) where
  expression σ := by
    simp only [Source.parseExpression]
    refine (h.primary σ).bind fun ⟨lhs, σ⟩ => ?_
    cases lhs with
    | none => exact .refl _
    | some lhs => exact h.rhs σ 0 lhs
  primary σ := by
    simp only [Source.parsePrimary]
    cases src.current σ with
    | identifier => exact h.identifier σ
    | leftParenthesis => exact h.parenthesis σ
    | _ => exact .refl _
  parenthesis σ := by
    simp only [Source.parseParenthesisExpression]
    exact (Extends.refl _).bind fun σ => (h.expression σ).bind fun _ => .refl _
  identifier σ := by
    simp only [Source.parseIdentifierExpression]
    cases src.current σ with
    | identifier name =>
        refine (Extends.refl _).bind fun σ => ?_
        cases src.current σ with
        | leftParenthesis =>
            refine (Extends.refl _).bind fun σ => ?_
            cases src.current σ with
            | rightParenthesis => exact .refl _
            | _ => exact (h.arguments σ []).bind fun _ => .refl _
        | _ => exact .refl _
    | _ => exact .refl _
  arguments σ args := by
    simp only [Source.parseArguments]
    refine (h.expression σ).bind fun ⟨arg, σ⟩ => ?_
    cases arg with
    | none => exact .refl _
    | some arg =>
        simp only
        cases src.current σ with
        | comma => exact (Extends.refl _).bind fun σ => h.arguments σ _
        | _ => exact .refl _
  rhs σ min lhs := by
    simp only [Source.parseBinarayOperationRhs]
    split
    · exact .refl _
    · cases getBinaryOperator (src.current σ) with
      | none => exact .refl _
      | some op =>
          refine (Extends.refl _).bind fun σ' => (h.primary σ').bind fun ⟨rhs, σ'⟩ => ?_
          cases rhs with
          | none => exact .refl _
          | some rhs =>
              simp only
              split
              · refine (h.rhs σ' _ rhs).bind fun ⟨rhs, σ'⟩ => ?_
                cases rhs with
                | none => exact .refl _
                | some rhs => exact h.rhs σ' min _
              · exact h.rhs σ' min _

theorem extendsAt (src : Source S D) (n : ℕ) : ExtendsAt src n := by
  induction n with
  | zero => exact extendsAt_zero
  | succ n ih => exact ih.succ

theorem readArgNames_extends (src : Source S D) (n : ℕ) : ∀ σ argNames,
    Extends (src.readArgNames n σ argNames) (src.readArgNames (n + 1) σ argNames) := by
  induction n with
  | zero => exact fun _ _ => .inl rfl
  | succ n ih =>
      intro σ argNames
      simp only [Source.readArgNames]
      refine (Extends.refl _).bind fun σ => ?_
      cases src.current σ with
      | identifier name => exact ih σ _
      | _ => exact .refl _

theorem parsePrototype_extends (src : Source S D) (n : ℕ) (σ : ParserState S) :
    Extends (src.parsePrototype n σ) (src.parsePrototype (n + 1) σ) := by
  unfold Source.parsePrototype
  cases src.current σ with
  | identifier name =>
      refine (Extends.refl _).bind fun σ => ?_
      cases src.current σ with
      | leftParenthesis => exact (readArgNames_extends src n σ []).bind fun _ => .refl _
      | _ => exact .refl _
  | _ => exact .refl _

theorem handleDefinition_extends (src : Source S D) (n : ℕ) (σ : ParserState S) :
    Extends (src.handleDefinition n σ) (src.handleDefinition (n + 1) σ) := by
  have hdefinition : Extends (src.parseDefinition n σ) (src.parseDefinition (n + 1) σ) := by
    refine (Extends.refl _).bind fun σ => (parsePrototype_extends src n σ).bind fun ⟨proto, σ⟩ => ?_
    cases proto with
    | none => exact .refl _
    | some proto => exact ((extendsAt src n).expression σ).bind fun _ => .refl _
  exact hdefinition.bind fun _ => .refl _

theorem handleExtern_extends (src : Source S D) (n : ℕ) (σ : ParserState S) :
    Extends (src.handleExtern n σ) (src.handleExtern (n + 1) σ) := by
  have hextern : Extends (src.parseExtern n σ) (src.parseExtern (n + 1) σ) :=
    (Extends.refl _).bind fun σ => parsePrototype_extends src n σ
  exact hextern.bind fun _ => .refl _

theorem handleTopLevelExpression_extends (src : Source S D) (n : ℕ) (σ : ParserState S) :
    Extends (src.handleTopLevelExpression n σ) (src.handleTopLevelExpression (n + 1) σ) := by
  have hexpr : Extends (src.parseTopLevelExpression n σ)
      (src.parseTopLevelExpression (n + 1) σ) :=
    ((extendsAt src n).expression σ).bind fun _ => .refl _
  exact hexpr.bind fun _ => .refl _

theorem handleToken_extends (src : Source S D) (n : ℕ) (σ : ParserState S) :
    (src.handleToken n σ = none ∧ src.handleToken (n + 1) σ = none) ∨
      ∃ x y, src.handleToken n σ = some x ∧ src.handleToken (n + 1) σ = some y ∧
        Extends x y := by
  unfold Source.handleToken
  cases src.current σ with
  | eof => exact .inl ⟨rfl, rfl⟩
  | defToken => exact .inr ⟨_, _, rfl, rfl, handleDefinition_extends src n σ⟩
  | externToken => exact .inr ⟨_, _, rfl, rfl, handleExtern_extends src n σ⟩
  | unknown value =>
      simp only
      split
      · exact .inr ⟨_, _, rfl, rfl, .refl _⟩
      · exact .inr ⟨_, _, rfl, rfl, handleTopLevelExpression_extends src n σ⟩
  | _ => exact .inr ⟨_, _, rfl, rfl, handleTopLevelExpression_extends src n σ⟩

theorem topLoop_extends (src : Source S D) (n : ℕ) :
    ∀ σ, Extends (src.topLoop n σ) (src.topLoop (n + 1) σ) := by
  induction n with
  | zero => exact fun _ => .inl rfl
  | succ n ih =>
      intro σ
      simp only [Source.topLoop]
      rcases handleToken_extends src n σ with ⟨hnone, hnone'⟩ | ⟨x, y, hx, hy, hextends⟩
      · rw [hnone, hnone']
        exact .refl _
      · rw [hx, hy]
        exact hextends.bind ih

theorem mainLoop_extends (src : Source S D) (σ : ParserState S) (n : ℕ) :
    Extends (src.mainLoop n σ) (src.mainLoop (n + 1) σ) :=
  (Extends.refl _).bind (topLoop_extends src n)

end Extends

/-! ## What goes down -/

def Token.weight : Token D → ℕ
  | .eof => 0
  | _ => 1

/-- Every token but `eof_token` costs some of what the source has left. -/
structure Source.Shrinks (src : Source S D) (mayAbort : Prop) (size : S → ℕ) : Prop where
  next : ∀ s, (src.getNextToken s).Ends mayAbort fun s' =>
    size s' ≤ size s ∧ (src.currentToken s' ≠ .eof → size s' < size s)

def Source.left (src : Source S D) (size : S → ℕ) (σ : ParserState S) : ℕ :=
  2 * size σ.lexer + (src.current σ).weight

theorem Token.weight_eq {t : Token D} (h : t ≠ .eof) : t.weight = 1 := by
  cases t <;> first | rfl | exact absurd rfl h

section Ends

variable {src : Source S D} {mayAbort : Prop} {size : S → ℕ} {σ : ParserState S} {n : ℕ}

theorem Source.Shrinks.eat (h : src.Shrinks mayAbort size) (σ : ParserState S) :
    (src.eat σ).Ends mayAbort fun σ' => src.left size σ' ≤ src.left size σ ∧
      (src.current σ ≠ .eof → src.left size σ' < src.left size σ) := by
  refine (h.next σ.lexer).bind fun s' ⟨hle, hlt⟩ => ?_
  have hcurrent : src.current ⟨s', σ.output⟩ = src.currentToken s' := rfl
  show 2 * size s' + (src.current ⟨s', σ.output⟩).weight ≤ 2 * size σ.lexer + _ ∧
    (_ → 2 * size s' + (src.current ⟨s', σ.output⟩).weight < 2 * size σ.lexer + _)
  by_cases heof : src.currentToken s' = .eof
  · rw [hcurrent, heof]
    refine ⟨by simp only [Token.weight]; omega, fun hne => ?_⟩
    rw [Token.weight_eq hne]
    simp only [Token.weight]
    omega
  · have hless := hlt heof
    rw [hcurrent, Token.weight_eq heof]
    refine ⟨by omega, fun _ => by omega⟩

/-- A token that is not `eof_token` is eaten. -/
theorem Source.Shrinks.eat_lt (h : src.Shrinks mayAbort size) {t : Token D}
    (hcurrent : src.current σ = t) (ht : t ≠ .eof) :
    (src.eat σ).Ends mayAbort fun σ' => src.left size σ' < src.left size σ :=
  (h.eat σ).mono fun _ hσ' => hσ'.2 (hcurrent ▸ ht)

/-- A function that has eaten nothing has parsed nothing. -/
def Source.Moved {α : Type} (src : Source S D) (size : S → ℕ) (σ : ParserState S)
    (r : Option α × ParserState S) : Prop :=
  src.left size r.2 < src.left size σ ∨ (r.1 = none ∧ r.2.lexer = σ.lexer)

theorem Source.Moved.le {α : Type} {r : Option α × ParserState S}
    (h : src.Moved size σ r) : src.left size r.2 ≤ src.left size σ := by
  rcases h with hlt | ⟨-, hsame⟩
  · exact hlt.le
  · unfold Source.left Source.current
    rw [hsame]

/-- A depth of four calls for each step of the measure, and a few for the way
from one function to the next, suffices. -/
structure EndsAt (src : Source S D) (mayAbort : Prop) (size : S → ℕ) (n : ℕ) : Prop where
  expression : ∀ σ, 4 * src.left size σ + 4 ≤ n →
    (src.parseExpression n σ).Ends mayAbort (src.Moved size σ)
  primary : ∀ σ, 4 * src.left size σ + 3 ≤ n →
    (src.parsePrimary n σ).Ends mayAbort (src.Moved size σ)
  parenthesis : ∀ σ, src.current σ = .leftParenthesis → 4 * src.left size σ + 2 ≤ n →
    (src.parseParenthesisExpression n σ).Ends mayAbort fun r =>
      src.left size r.2 < src.left size σ
  identifier : ∀ σ name, src.current σ = .identifier name → 4 * src.left size σ + 2 ≤ n →
    (src.parseIdentifierExpression n σ).Ends mayAbort fun r =>
      src.left size r.2 < src.left size σ
  arguments : ∀ σ args, 4 * src.left size σ + 5 ≤ n →
    (src.parseArguments n σ args).Ends mayAbort fun r => src.left size r.2 ≤ src.left size σ
  rhs : ∀ σ min lhs, 4 * src.left size σ + 1 ≤ n →
    (src.parseBinarayOperationRhs n σ min lhs).Ends mayAbort fun r =>
      src.left size r.2 ≤ src.left size σ

theorem endsAt_zero : EndsAt src mayAbort size 0 where
  expression _ h := absurd h (by omega)
  primary _ h := absurd h (by omega)
  parenthesis _ _ h := absurd h (by omega)
  identifier _ _ _ h := absurd h (by omega)
  arguments _ _ h := absurd h (by omega)
  rhs _ _ _ h := absurd h (by omega)

theorem EndsAt.expression_succ (h : EndsAt src mayAbort size n)
    (hn : 4 * src.left size σ + 4 ≤ n + 1) :
    (src.parseExpression (n + 1) σ).Ends mayAbort (src.Moved size σ) := by
  simp only [Source.parseExpression]
  refine (h.primary σ (by omega)).bind fun ⟨lhs, σ₁⟩ hmoved => ?_
  cases lhs with
  | none => exact hmoved.imp_right fun hsame => ⟨rfl, hsame.2⟩
  | some lhs =>
      have hlt : src.left size σ₁ < src.left size σ :=
        hmoved.resolve_right (by rintro ⟨hnone, -⟩; cases hnone)
      exact (h.rhs σ₁ 0 lhs (by omega)).mono fun r hr => .inl (by omega)

theorem EndsAt.primary_succ (hsrc : src.Shrinks mayAbort size) (h : EndsAt src mayAbort size n)
    (hn : 4 * src.left size σ + 3 ≤ n + 1) :
    (src.parsePrimary (n + 1) σ).Ends mayAbort (src.Moved size σ) := by
  simp only [Source.parsePrimary]
  split
  · next name hcurrent =>
      exact (h.identifier σ name hcurrent (by omega)).mono fun _ => .inl
  · next value hcurrent =>
      simp only [Source.parseNumberExpression, hcurrent]
      exact (hsrc.eat_lt hcurrent (by simp)).bind fun _ => .inl
  · next hcurrent => exact (h.parenthesis σ hcurrent (by omega)).mono fun _ => .inl
  · exact .inr ⟨rfl, rfl⟩
  · exact .inr ⟨rfl, rfl⟩

theorem EndsAt.parenthesis_succ (hsrc : src.Shrinks mayAbort size)
    (h : EndsAt src mayAbort size n) (hcurrent : src.current σ = .leftParenthesis)
    (hn : 4 * src.left size σ + 2 ≤ n + 1) :
    (src.parseParenthesisExpression (n + 1) σ).Ends mayAbort fun r =>
      src.left size r.2 < src.left size σ := by
  simp only [Source.parseParenthesisExpression]
  refine (hsrc.eat_lt hcurrent (by simp)).bind fun σ₁ hopen => ?_
  refine (h.expression σ₁ (by omega)).bind fun ⟨expr, σ₂⟩ hmoved => ?_
  have hle : src.left size σ₂ ≤ src.left size σ₁ := hmoved.le
  cases expr with
  | none => exact hle.trans_lt hopen
  | some expr =>
      simp only
      split
      · next hclose =>
          refine (hsrc.eat_lt hclose (by simp)).bind fun σ₃ hσ₃ => ?_
          exact (hσ₃.trans_le hle).trans hopen
      · exact hle.trans_lt hopen

theorem EndsAt.identifier_succ (hsrc : src.Shrinks mayAbort size)
    (h : EndsAt src mayAbort size n) {name : List Int8}
    (hcurrent : src.current σ = .identifier name) (hn : 4 * src.left size σ + 2 ≤ n + 1) :
    (src.parseIdentifierExpression (n + 1) σ).Ends mayAbort fun r =>
      src.left size r.2 < src.left size σ := by
  simp only [Source.parseIdentifierExpression, hcurrent]
  refine (hsrc.eat_lt hcurrent (by simp)).bind fun σ₁ hname => ?_
  split
  · next hopen =>
      refine (hsrc.eat_lt hopen (by simp)).bind fun σ₂ hopen => ?_
      -- whatever the arguments come to, the `(` is eaten
      have hcall : ∀ (args : List (Expression D)) (σ₃ : ParserState S),
          src.left size σ₃ < src.left size σ →
            (src.eat σ₃ >>= fun σ => pure (some (Expression.call name args), σ)).Ends mayAbort
              fun r => src.left size r.2 < src.left size σ := by
        intro args σ₃ hlt
        exact (hsrc.eat σ₃).bind fun σ₄ hσ₄ => hσ₄.1.trans_lt hlt
      split
      · exact hcall [] σ₂ (hopen.trans hname)
      · refine (h.arguments σ₂ [] (by omega)).bind fun ⟨args, σ₃⟩ hle => ?_
        have hlt : src.left size σ₃ < src.left size σ := (lt_of_le_of_lt hle hopen).trans hname
        cases args with
        | none => exact hlt
        | some args => exact hcall args σ₃ hlt
  · exact hname

theorem EndsAt.arguments_succ (hsrc : src.Shrinks mayAbort size)
    (h : EndsAt src mayAbort size n) (args : List (Expression D))
    (hn : 4 * src.left size σ + 5 ≤ n + 1) :
    (src.parseArguments (n + 1) σ args).Ends mayAbort fun r =>
      src.left size r.2 ≤ src.left size σ := by
  simp only [Source.parseArguments]
  refine (h.expression σ (by omega)).bind fun ⟨arg, σ₁⟩ hmoved => ?_
  have hle : src.left size σ₁ ≤ src.left size σ := hmoved.le
  cases arg with
  | none => exact hle
  | some arg =>
      simp only
      split
      · exact hle
      · next hcomma =>
          refine (hsrc.eat_lt hcomma (by simp)).bind fun σ₂ hσ₂ => ?_
          exact (h.arguments σ₂ _ (by omega)).mono fun r hr => hr.trans (hσ₂.le.trans hle)
      · exact hle

/-- A pass of the loop eats its operator. -/
theorem EndsAt.rhs_succ (hsrc : src.Shrinks mayAbort size) (h : EndsAt src mayAbort size n)
    (min : Int) (lhs : Expression D) (hn : 4 * src.left size σ + 1 ≤ n + 1) :
    (src.parseBinarayOperationRhs (n + 1) σ min lhs).Ends mayAbort fun r =>
      src.left size r.2 ≤ src.left size σ := by
  simp only [Source.parseBinarayOperationRhs]
  split
  · exact Nat.le_refl (src.left size σ)
  · split
    · exact Nat.le_refl (src.left size σ)
    · next op hop =>
        have hne : src.current σ ≠ .eof := by
          intro heof
          rw [heof] at hop
          cases hop
        refine (hsrc.eat_lt rfl hne).bind fun σ₁ hlt => ?_
        refine (h.primary σ₁ (by omega)).bind fun ⟨rhs, σ₂⟩ hmoved => ?_
        have hle : src.left size σ₂ ≤ src.left size σ₁ := hmoved.le
        cases rhs with
        | none => exact (hle.trans_lt hlt).le
        | some rhs =>
            have hloop : ∀ (lhs : Expression D) (σ₃ : ParserState S),
                src.left size σ₃ < src.left size σ →
                  (src.parseBinarayOperationRhs n σ₃ min lhs).Ends mayAbort fun r =>
                    src.left size r.2 ≤ src.left size σ := by
              intro lhs σ₃ hlt₃
              exact (h.rhs σ₃ min lhs (by omega)).mono fun r hr => le_trans hr hlt₃.le
            simp only
            split
            · refine (h.rhs σ₂ _ rhs (by omega)).bind fun ⟨rhs, σ₃⟩ hσ₃ => ?_
              have hlt₃ : src.left size σ₃ < src.left size σ := (le_trans hσ₃ hle).trans_lt hlt
              cases rhs with
              | none => exact hlt₃.le
              | some rhs => exact hloop _ σ₃ hlt₃
            · exact hloop _ σ₂ (hle.trans_lt hlt)

theorem endsAt (hsrc : src.Shrinks mayAbort size) (n : ℕ) : EndsAt src mayAbort size n := by
  induction n with
  | zero => exact endsAt_zero
  | succ n ih =>
      exact ⟨fun _ => ih.expression_succ, fun _ => ih.primary_succ hsrc,
        fun _ => ih.parenthesis_succ hsrc, fun _ _ => ih.identifier_succ hsrc,
        fun _ args => ih.arguments_succ hsrc args, fun _ min lhs => ih.rhs_succ hsrc min lhs⟩

theorem readArgNames_ends (hsrc : src.Shrinks mayAbort size) (n : ℕ) :
    ∀ σ argNames, src.current σ ≠ .eof → src.left size σ ≤ n →
      (src.readArgNames n σ argNames).Ends mayAbort fun r =>
        src.left size r.2 < src.left size σ := by
  induction n with
  | zero =>
      intro σ argNames hne hn
      -- the current token weighs 1
      have hpos : 0 < src.left size σ := by
        unfold Source.left
        rw [Token.weight_eq hne]
        omega
      omega
  | succ n ih =>
      intro σ argNames hne hn
      simp only [Source.readArgNames]
      refine (hsrc.eat_lt rfl hne).bind fun σ₁ hlt => ?_
      split
      · next name hcurrent =>
          have hne₁ : src.current σ₁ ≠ .eof := by simp [hcurrent]
          exact (ih σ₁ _ hne₁ (by omega)).mono fun r hr => hr.trans hlt
      · exact hlt

theorem parsePrototype_ends (hsrc : src.Shrinks mayAbort size) (hn : src.left size σ ≤ n) :
    (src.parsePrototype n σ).Ends mayAbort fun r => src.left size r.2 ≤ src.left size σ := by
  unfold Source.parsePrototype
  split
  · next name hcurrent =>
      refine (hsrc.eat_lt hcurrent (by simp)).bind fun σ₁ hlt => ?_
      split
      · next hopen =>
          have hne : src.current σ₁ ≠ .eof := by simp [hopen]
          refine (readArgNames_ends hsrc n σ₁ [] hne (by omega)).bind fun ⟨names, σ₂⟩ hσ₂ => ?_
          have hle : src.left size σ₂ ≤ src.left size σ := (hσ₂.trans hlt).le
          simp only
          split
          · exact (hsrc.eat σ₂).bind fun σ₃ hσ₃ => hσ₃.1.trans hle
          · exact hle
      · exact hlt.le
  · exact Nat.le_refl (src.left size σ)

theorem parseDefinition_ends (hsrc : src.Shrinks mayAbort size) (hne : src.current σ ≠ .eof)
    (hn : 4 * src.left size σ + 4 ≤ n) :
    (src.parseDefinition n σ).Ends mayAbort fun r => src.left size r.2 < src.left size σ := by
  refine (hsrc.eat_lt rfl hne).bind fun σ₁ hlt => ?_
  refine (parsePrototype_ends hsrc (by omega)).bind fun ⟨proto, σ₂⟩ hproto => ?_
  have hle : src.left size σ₂ ≤ src.left size σ₁ := hproto
  cases proto with
  | none => exact hle.trans_lt hlt
  | some proto =>
      refine ((endsAt hsrc n).expression σ₂ (by omega)).bind fun ⟨expr, σ₃⟩ hmoved => ?_
      exact (hmoved.le.trans hle).trans_lt hlt

theorem parseExtern_ends (hsrc : src.Shrinks mayAbort size) (hne : src.current σ ≠ .eof)
    (hn : 4 * src.left size σ + 4 ≤ n) :
    (src.parseExtern n σ).Ends mayAbort fun r => src.left size r.2 < src.left size σ :=
  (hsrc.eat_lt rfl hne).bind fun _ hlt =>
    (parsePrototype_ends hsrc (by omega)).mono fun _ hle => hle.trans_lt hlt

theorem parseTopLevelExpression_ends (hsrc : src.Shrinks mayAbort size)
    (hn : 4 * src.left size σ + 4 ≤ n) :
    (src.parseTopLevelExpression n σ).Ends mayAbort (src.Moved size σ) := by
  refine ((endsAt hsrc n).expression σ hn).bind fun ⟨expr, σ₁⟩ hmoved => ?_
  refine hmoved.imp_right fun hsame => ⟨?_, hsame.2⟩
  rw [show expr = none from hsame.1]
  rfl

/-- A handler of a token that is not `eof_token` eats something, if only in its
recovery. -/
theorem handleToken_ends (hsrc : src.Shrinks mayAbort size) (hn : 4 * src.left size σ + 4 ≤ n) :
    (src.current σ = .eof ∧ src.handleToken n σ = none) ∨
      ∃ handled, src.handleToken n σ = some handled ∧
        handled.Ends mayAbort fun σ' => src.left size σ' < src.left size σ := by
  by_cases heof : src.current σ = .eof
  · left
    refine ⟨heof, ?_⟩
    unfold Source.handleToken
    rw [heof]
  right
  have hdefinition : (src.handleDefinition n σ).Ends mayAbort fun σ' =>
      src.left size σ' < src.left size σ := by
    refine (parseDefinition_ends hsrc heof hn).bind fun ⟨function, σ₁⟩ hlt => ?_
    cases function with
    | some function => exact hlt
    | none => exact (hsrc.eat _).mono fun σ₂ hσ₂ => hσ₂.1.trans_lt hlt
  have hextern : (src.handleExtern n σ).Ends mayAbort fun σ' =>
      src.left size σ' < src.left size σ := by
    refine (parseExtern_ends hsrc heof hn).bind fun ⟨externParsed, σ₁⟩ hlt => ?_
    cases externParsed with
    | some proto => exact hlt
    | none => exact (hsrc.eat _).mono fun σ₂ hσ₂ => hσ₂.1.trans_lt hlt
  have hexpression : (src.handleTopLevelExpression n σ).Ends mayAbort fun σ' =>
      src.left size σ' < src.left size σ := by
    refine (parseTopLevelExpression_ends hsrc hn).bind fun ⟨expr, σ₁⟩ hmoved => ?_
    cases expr with
    | some function =>
        exact hmoved.resolve_right (by rintro ⟨hnone, -⟩; cases hnone)
    | none =>
        refine (hsrc.eat _).mono fun σ₂ hσ₂ => ?_
        rcases hmoved with hlt | ⟨-, hsame⟩
        · exact hσ₂.1.trans_lt hlt
        · -- nothing has been eaten, so the token the recovery eats is the first one
          have hleft : src.left size (σ₁.print (.stderr "failed parsing a top-level expr")) =
              src.left size σ := by
            show 2 * size σ₁.lexer + (src.currentToken σ₁.lexer).weight = _
            rw [show σ₁.lexer = σ.lexer from hsame]
            rfl
          have hcurrent : src.currentToken σ₁.lexer ≠ .eof := by
            rw [show σ₁.lexer = σ.lexer from hsame]
            exact heof
          exact hleft ▸ hσ₂.2 hcurrent
  unfold Source.handleToken
  split
  · next heof' => exact absurd heof' heof
  · exact ⟨_, rfl, hdefinition⟩
  · exact ⟨_, rfl, hextern⟩
  · split
    · exact ⟨_, rfl, hsrc.eat_lt rfl heof⟩
    · exact ⟨_, rfl, hexpression⟩
  · exact ⟨_, rfl, hexpression⟩

theorem topLoop_ends (hsrc : src.Shrinks mayAbort size) (n : ℕ) :
    ∀ σ, 4 * src.left size σ + 5 ≤ n →
      (src.topLoop n σ).Ends mayAbort fun σ' => src.current σ' = .eof := by
  induction n with
  | zero => exact fun _ h => absurd h (by omega)
  | succ n ih =>
      intro σ hn
      simp only [Source.topLoop]
      rcases handleToken_ends (σ := σ) (n := n) hsrc (by omega) with
        ⟨heof, hnone⟩ | ⟨handled, hsome, hends⟩
      · rw [hnone]
        exact heof
      · rw [hsome]
        exact hends.bind fun σ' hlt => ih σ' (by omega)

theorem mainLoop_ends (hsrc : src.Shrinks mayAbort size) (σ : ParserState S) :
    (src.mainLoop (4 * src.left size σ + 5) σ).Ends mayAbort fun σ' => src.current σ' = .eof :=
  (hsrc.eat σ).bind fun σ' hσ' => topLoop_ends hsrc _ σ' (by have := hσ'.1; omega)

end Ends

/-! ## The lexer gets shorter -/

section Lexer

theorem Cursor.read_length (cursor : Cursor) :
    cursor.read.reader.length = cursor.reader.length - 1 := by
  obtain ⟨last, reader⟩ := cursor
  cases reader <;> rfl

theorem lexIdentifier_length (identifier : List Int8) (last : Int8) (reader : List Int8) :
    (lexIdentifier identifier last reader).2.reader.length ≤ reader.length - 1 := by
  induction reader generalizing identifier last with
  | nil => exact Nat.le_refl 0
  | cons ch reader ih =>
      unfold lexIdentifier
      split
      · exact Nat.le_trans (ih _ ch) (Nat.sub_le _ _)
      · exact Nat.le_refl _

theorem lexDigits_length {α : Type} (add : α → Int8 → α) (state : α) (last : Int8)
    (reader : List Int8) :
    (lexDigits add state last reader).2.reader.length ≤ reader.length := by
  induction reader generalizing state last with
  | nil => exact Nat.le_refl 0
  | cons ch reader ih =>
      unfold lexDigits
      split
      · exact Nat.le_trans (ih _ ch) (Nat.le_succ _)
      · exact Nat.le_refl _

/-- What the lexer may do from a reader of `length` characters: abort on an
assert, or leave fewer of them, unless it has come to the end. -/
def Shortens (asserts : Bool) (length : ℕ) : Option (Option (Token D) × Cursor) → Prop
  | none => asserts = true
  | some (token, rest) =>
      rest.reader.length ≤ length ∧ (token.getD .eof ≠ .eof → rest.reader.length < length)

theorem Shortens.mono {asserts : Bool} {length length' : ℕ}
    {result : Option (Option (Token D) × Cursor)} (h : Shortens asserts length result)
    (hle : length ≤ length') : Shortens asserts length' result := by
  cases result with
  | none => exact h
  | some result => exact ⟨h.1.trans hle, fun hne => (h.2 hne).trans_le hle⟩

theorem Shortens.of_lt {asserts : Bool} {length : ℕ} {token : Option (Token D)} {rest : Cursor}
    (h : rest.reader.length < length) : Shortens asserts length (some (token, rest)) :=
  ⟨h.le, fun _ => h⟩

variable [Double D]

theorem asserts_of_lexNumber {asserts : Bool} {cursor : Cursor}
    (h : lexNumber (D := D) asserts cursor = none) : asserts = true := by
  by_contra hasserts
  rw [Bool.not_eq_true] at hasserts
  subst hasserts
  unfold lexNumber at h
  simp only [Bool.false_and, Bool.and_false, Bool.false_eq_true, if_false] at h
  split_ifs at h

theorem lexDigits_of_not_digit {α : Type} (add : α → Int8 → α) (state : α) (cursor : Cursor)
    (h : isdigit cursor.last = false) :
    lexDigits add state cursor.last cursor.reader = (state, cursor) := by
  obtain ⟨last, reader⟩ := cursor
  cases reader with
  | nil => rfl
  | cons ch reader =>
      unfold lexDigits
      rw [if_neg (by simpa using h)]

/-- `lex_number` reads its first character. -/
theorem lexNumber_length {asserts : Bool} {cursor rest : Cursor} {num : D}
    (h : lexNumber asserts cursor = some (num, rest))
    (hstart : isdigit cursor.last = true ∨ cursor.last = char '.') :
    rest.reader.length ≤ cursor.reader.length - 1 := by
  -- the part from the `.` on only makes the reader shorter
  have hpoint : ∀ (num : D) (before : Cursor),
      (lexDigits addFraction ((1 : D), num) before.read.last before.read.reader).2.reader.length ≤
        before.reader.length - 1 := by
    intro num before
    rw [← before.read_length]
    exact lexDigits_length addFraction (1, num) _ _
  unfold lexNumber at h
  by_cases hdigit : isdigit cursor.last = true
  · have hdigits := lexDigits_length addDigit (addDigit (0 : D) cursor.last) cursor.read.last
      cursor.read.reader
    rw [cursor.read_length] at hdigits
    simp only [hdigit, if_true] at h
    split_ifs at h <;> cases h
    · exact hdigits
    · exact ((hpoint _ _).trans (Nat.sub_le _ 1)).trans hdigits
  · have hlast : cursor.last = char '.' := hstart.resolve_left hdigit
    rw [Bool.not_eq_true] at hdigit
    simp only [hdigit, Bool.false_and, Bool.false_eq_true, if_false,
      lexDigits_of_not_digit addDigit (0 : D) cursor hdigit] at h
    rw [if_neg (not_not.2 hlast)] at h
    cases h
    exact hpoint _ cursor

/-- The character a call of `get_token` goes by, after the whitespace. -/
def Reaches (cursor after : Cursor) : Prop :=
  cursor.reader ≠ [] ∧ skipWhitespace cursor.last cursor.reader = (true, after)

theorem Reaches.length_le {cursor after : Cursor} (h : Reaches cursor after) :
    0 < cursor.reader.length ∧ after.reader.length ≤ cursor.reader.length := by
  have hwhitespace := skipWhitespace_length cursor.last cursor.reader
  rw [h.2] at hwhitespace
  exact ⟨List.length_pos_of_ne_nil h.1, hwhitespace⟩

/-- How a call of `get_token` ends. -/
inductive Gets (asserts : Bool) : Cursor → Option (Option (Token D) × Cursor) → Prop
  | empty {cursor : Cursor} (hreader : cursor.reader = []) :
      Gets asserts cursor (some (none, cursor))
  | exhausted {cursor after : Cursor} (hreader : cursor.reader ≠ [])
      (hskip : skipWhitespace cursor.last cursor.reader = (false, after)) :
      Gets asserts cursor (some (none, after))
  | symbol {cursor after : Cursor} {token : Token D} (hreaches : Reaches cursor after)
      (htoken : (symbols D).lookup after.last = some token) :
      Gets asserts cursor (some (some token, after.read))
  | word {cursor after : Cursor} (hreaches : Reaches cursor after)
      (halpha : isalpha after.last = true) :
      Gets asserts cursor
        (some (some (identifierToken (lexIdentifier [after.last] after.last after.reader).1),
          (lexIdentifier [after.last] after.last after.reader).2))
  | assertFails {cursor after : Cursor} (hreaches : Reaches cursor after)
      (hnumber : lexNumber (D := D) asserts after = none) : Gets asserts cursor none
  | number {cursor after rest : Cursor} {value : D} (hreaches : Reaches cursor after)
      (hstart : isdigit after.last = true ∨ after.last = char '.')
      (hnumber : lexNumber asserts after = some (value, rest)) :
      Gets asserts cursor (some (some (.number value), rest))
  | comment {cursor after : Cursor} {result : Option (Option (Token D) × Cursor)}
      (hreaches : Reaches cursor after) (hhash : after.last = char '#')
      (hrest : Gets asserts (skipComment after.last after.reader) result) :
      Gets asserts cursor result
  | lastComment {cursor after : Cursor} (hreaches : Reaches cursor after)
      (hhash : after.last = char '#')
      (hend : (skipComment after.last after.reader).last = endOfFile) :
      Gets asserts cursor (some (some .eof, skipComment after.last after.reader))
  | endOfFile {cursor after : Cursor} (hreaches : Reaches cursor after)
      (hend : after.last = endOfFile) : Gets asserts cursor (some (some .eof, after))
  | unknown {cursor after : Cursor} (hreaches : Reaches cursor after)
      (hend : after.last ≠ Kaleidoscope.endOfFile) :
      Gets asserts cursor (some (some (.unknown after.last), after.read))

theorem gets_getToken (asserts : Bool) (cursor : Cursor) :
    Gets asserts cursor (getToken (D := D) asserts cursor) := by
  induction hlength : cursor.reader.length using Nat.strong_induction_on generalizing cursor with
  | _ length ih =>
  subst hlength
  by_cases hreader : cursor.reader = []
  · rw [getToken, dif_pos hreader]
    exact .empty hreader
  rcases hskip : skipWhitespace cursor.last cursor.reader with ⟨_ | _, after⟩
  · rw [getToken_of_exhausted asserts hreader hskip]
    exact .exhausted hreader hskip
  have hreaches : Reaches cursor after := ⟨hreader, hskip⟩
  rw [getToken_of_skip asserts hreader hskip]
  split
  · next htoken => exact .symbol hreaches htoken
  split
  · next halpha => exact .word hreaches halpha
  split
  · next hstart =>
      simp only [Bool.or_eq_true, decide_eq_true_eq] at hstart
      cases hnumber : lexNumber (D := D) asserts after with
      | none => exact .assertFails hreaches hnumber
      | some result => exact .number hreaches hstart hnumber
  split
  · next hhash =>
      have hle := hreaches.length_le
      have hlt := skipComment_length after.last after.reader
      simp only
      split
      · exact .comment hreaches hhash (ih _ (by omega) _ rfl)
      · next hend => exact .lastComment hreaches hhash (not_not.mp hend)
  split
  · next hend => exact .endOfFile hreaches hend
  · next hend => exact .unknown hreaches hend

theorem Gets.shortens {asserts : Bool} {cursor : Cursor}
    {result : Option (Option (Token D) × Cursor)} (h : Gets asserts cursor result) :
    Shortens asserts cursor.reader.length result := by
  induction h with
  | empty => exact ⟨Nat.le_refl _, fun h => absurd rfl h⟩
  | @exhausted cursor after _ hskip =>
      have hwhitespace := skipWhitespace_length cursor.last cursor.reader
      rw [hskip] at hwhitespace
      exact ⟨hwhitespace, fun h => absurd rfl h⟩
  | @symbol cursor after _ hreaches | @unknown cursor after hreaches =>
      have hle := hreaches.length_le
      have hread := after.read_length
      exact .of_lt (by omega)
  | @word cursor after hreaches =>
      have hle := hreaches.length_le
      have hlt := lexIdentifier_length [after.last] after.last after.reader
      exact .of_lt (by omega)
  | assertFails _ hnumber => exact asserts_of_lexNumber hnumber
  | number hreaches hstart hnumber =>
      have hle := hreaches.length_le
      have hlt := lexNumber_length hnumber hstart
      exact .of_lt (by omega)
  | @comment cursor after _ hreaches _ _ ih =>
      have hle := hreaches.length_le
      have hlt := skipComment_length after.last after.reader
      exact ih.mono (by omega)
  | @lastComment cursor after hreaches =>
      have hle := hreaches.length_le
      have hlt := skipComment_length after.last after.reader
      exact ⟨by omega, fun h => absurd rfl h⟩
  | endOfFile hreaches => exact ⟨hreaches.length_le.2, fun h => absurd rfl h⟩

theorem getToken_shortens (asserts : Bool) (cursor : Cursor) :
    Shortens asserts cursor.reader.length (getToken (D := D) asserts cursor) :=
  (gets_getToken asserts cursor).shortens

theorem Lexer.shrinks (D : Type) [Double D] (asserts : Bool) :
    (Lexer.source D asserts).Shrinks (asserts = true) fun lexer => lexer.cursor.reader.length where
  next lexer := by
    have hshortens := getToken_shortens (D := D) asserts lexer.cursor
    simp only [Lexer.source, Lexer.getNextToken]
    cases htoken : getToken (D := D) asserts lexer.cursor with
    | none =>
        rw [htoken] at hshortens
        exact hshortens
    | some result =>
        rw [htoken] at hshortens
        exact hshortens

end Lexer

/-- On any buffer `main_loop` returns at the end of the file, unless an assert
of the lexer fails; from some depth on the depth of the calls does not matter. -/
theorem mainLoop_terminates (D : Type) [Double D] (asserts : Bool) (buffer : List Int8) :
    ∃ result : Outcome (ParserState (Lexer D)),
      (result = .aborted ∧ asserts = true ∨
        ∃ σ, result = .done σ ∧ (Lexer.source D asserts).current σ = .eof) ∧
      ∃ n, ∀ m, n ≤ m → (Lexer.source D asserts).mainLoop m ⟨Lexer.new buffer, []⟩ = result := by
  let start : ParserState (Lexer D) := ⟨Lexer.new buffer, []⟩
  have hends := mainLoop_ends (Lexer.shrinks D asserts) start
  refine ⟨_, ?_, _, hends.settles (mainLoop_extends _ start)⟩
  revert hends
  cases (Lexer.source D asserts).mainLoop _ start with
  | outOfFuel => exact False.elim
  | aborted => exact fun hasserts => .inl ⟨rfl, hasserts⟩
  | done σ => exact fun heof => .inr ⟨σ, rfl, heof⟩

end InterProcess.Kaleidoscope
