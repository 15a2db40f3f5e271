import InterProcess.Kaleidoscope.Parser

/-!
# What the parser accepts

A writing of an expression is a list of tokens: those of the expression in
order, with parentheses where the precedences ask for them and anywhere else.
`parse_expression` accepts the writings of an expression and nothing else
(`parseExpression_iff_writing`).
-/

namespace InterProcess.Kaleidoscope

open Outcome

variable {D : Type}

def BinaryOperator.token : BinaryOperator → Token D
  | .lessThan => .less
  | .addition => .plus
  | .subtraction => .minus
  | .multiplication => .star

/-- How tightly the operator binds. -/
def BinaryOperator.precedence : BinaryOperator → Int
  | .lessThan => 10
  | .addition => 20
  | .subtraction => 30
  | .multiplication => 40

mutual

/-- `Writing min e ts`: the tokens `ts` write `e` where an operator at the top
must bind at least as tightly as `min`, or be inside parentheses. A left operand
is written at its operator's precedence, a right operand just above it. -/
inductive Writing : Int → Expression D → List (Token D) → Prop
  | number (min : Int) (value : D) : Writing min (.number value) [.number value]
  | name (min : Int) (name : List Int8) : Writing min (.variable name) [.identifier name]
  | call (min : Int) (calle : List Int8) {args : List (Expression D)} {ts : List (Token D)}
      (hargs : WritingArguments args ts) :
      Writing min (.call calle args)
        (.identifier calle :: .leftParenthesis :: (ts ++ [.rightParenthesis]))
  | binary {min : Int} {op : BinaryOperator} {lhs rhs : Expression D} {ls rs : List (Token D)}
      (hmin : min ≤ op.precedence) (hlhs : Writing op.precedence lhs ls)
      (hrhs : Writing (op.precedence + 1) rhs rs) :
      Writing min (.binary op lhs rhs) (ls ++ op.token :: rs)
  | parentheses (min : Int) {e : Expression D} {ts : List (Token D)} (h : Writing 0 e ts) :
      Writing min e (.leftParenthesis :: (ts ++ [.rightParenthesis]))

/-- The arguments of a call, separated by commas. -/
inductive WritingArguments : List (Expression D) → List (Token D) → Prop
  | nil : WritingArguments [] []
  | single {arg : Expression D} {ts : List (Token D)} (harg : Writing 0 arg ts) :
      WritingArguments [arg] ts
  | cons {arg : Expression D} {args : List (Expression D)} {ts us : List (Token D)}
      (harg : Writing 0 arg ts) (hargs : WritingArguments args us) (hne : args ≠ []) :
      WritingArguments (arg :: args) (ts ++ .comma :: us)

end

/-- The tokens still to come, then `eof_token`s. -/
def Source.list (D : Type) : Source (List (Token D)) D where
  currentToken ts := ts.headD .eof
  getNextToken ts := .done ts.tail

/-! ## Operators -/

theorem getBinaryOperator_eq_some {t : Token D} {op : BinaryOperator} :
    getBinaryOperator t = some op ↔ t = op.token := by
  constructor
  · intro h
    cases t <;> cases h <;> rfl
  · rintro rfl
    cases op <;> rfl

@[simp] theorem getBinaryOperator_token (op : BinaryOperator) :
    getBinaryOperator (op.token : Token D) = some op :=
  getBinaryOperator_eq_some.mpr rfl

@[simp] theorem getTokenPrecendence_token (op : BinaryOperator) :
    getTokenPrecendence (op.token : Token D) = op.precedence := by
  cases op <;> rfl

theorem getTokenPrecendence_of_none {t : Token D} (h : getBinaryOperator t = none) :
    getTokenPrecendence t = -1 := by
  cases t <;> first | rfl | cases h

/-- Where less is asked of an operator at the top, a writing stays one. -/
theorem Writing.mono {min min' : Int} {e : Expression D} {ts : List (Token D)}
    (h : Writing min e ts) (hle : min' ≤ min) : Writing min' e ts := by
  cases h with
  | number => exact .number _ _
  | name => exact .name _ _
  | call _ _ hargs => exact .call _ _ hargs
  | binary hmin hlhs hrhs => exact .binary (by omega) hlhs hrhs
  | parentheses _ h => exact .parentheses _ h

/-! ## Reading from a list -/

section Sound

variable {σ σ' : ParserState (List (Token D))}

/-- From `σ` to `σ'` the tokens `ts` are consumed. -/
def Consumes (σ : ParserState (List (Token D))) (ts : List (Token D))
    (σ' : ParserState (List (Token D))) : Prop :=
  σ.lexer = ts ++ σ'.lexer

/-- What the parser makes of the current token. -/
def precedenceAt (σ : ParserState (List (Token D))) : Int :=
  getTokenPrecendence ((Source.list D).current σ)

theorem consumes_eat {t : Token D} (hcurrent : (Source.list D).current σ = t) (ht : t ≠ .eof)
    (heat : (Source.list D).eat σ = .done σ') : Consumes σ [t] σ' := by
  obtain ⟨lexer, output⟩ := σ
  cases heat
  cases lexer with
  | nil => exact absurd hcurrent.symm ht
  | cons u us =>
      obtain rfl : u = t := hcurrent
      rfl

theorem Consumes.trans {σ'' : ParserState (List (Token D))} {ts us : List (Token D)}
    (h : Consumes σ ts σ') (h' : Consumes σ' us σ'') : Consumes σ (ts ++ us) σ'' := by
  unfold Consumes at *
  rw [h, h', List.append_assoc]

/-- The parser functions, called with depth `n`, return only what is written
in the tokens they consume. -/
structure SoundAt (D : Type) (n : ℕ) : Prop where
  expression : ∀ {σ e σ'}, (Source.list D).parseExpression n σ = .done (some e, σ') →
    ∃ ts, Consumes σ ts σ' ∧ Writing 0 e ts
  primary : ∀ {σ e σ'}, (Source.list D).parsePrimary n σ = .done (some e, σ') →
    ∃ ts, Consumes σ ts σ' ∧ ∀ min, Writing min e ts
  parenthesis : ∀ {σ e σ'}, (Source.list D).current σ = .leftParenthesis →
    (Source.list D).parseParenthesisExpression n σ = .done (some e, σ') →
    ∃ ts, Consumes σ ts σ' ∧ ∀ min, Writing min e ts
  identifier : ∀ {σ e σ'}, (Source.list D).parseIdentifierExpression n σ = .done (some e, σ') →
    ∃ ts, Consumes σ ts σ' ∧ ∀ min, Writing min e ts
  arguments : ∀ {σ args es σ'}, (Source.list D).parseArguments n σ args = .done (some es, σ') →
    ∃ new ts, es = args ++ new ∧ Consumes σ ts σ' ∧ new ≠ [] ∧ WritingArguments new ts ∧
      (Source.list D).current σ' = .rightParenthesis
  rhs : ∀ {σ min lhs e σ' ls}, Writing (max min (precedenceAt σ)) lhs ls →
    (Source.list D).parseBinarayOperationRhs n σ min lhs = .done (some e, σ') →
    ∃ ts, Consumes σ ts σ' ∧ Writing min e (ls ++ ts) ∧ precedenceAt σ' < min

theorem soundAt_zero : SoundAt D 0 where
  expression := nofun
  primary := nofun
  parenthesis := fun _ => nofun
  identifier := nofun
  arguments := nofun
  rhs := fun _ => nofun

theorem SoundAt.expression_succ {n : ℕ} (h : SoundAt D n) {e : Expression D}
    (hrun : (Source.list D).parseExpression (n + 1) σ = .done (some e, σ')) :
    ∃ ts, Consumes σ ts σ' ∧ Writing 0 e ts := by
  simp only [Source.parseExpression, bind_eq_done] at hrun
  obtain ⟨⟨lhs, σ₁⟩, hprimary, hrest⟩ := hrun
  cases lhs with
  | none => cases hrest
  | some lhs =>
      obtain ⟨ls, hls, hlhs⟩ := h.primary hprimary
      obtain ⟨ts, hts, hwriting, -⟩ := h.rhs (hlhs _) hrest
      exact ⟨ls ++ ts, hls.trans hts, hwriting⟩

theorem SoundAt.parenthesis_succ {n : ℕ} (h : SoundAt D n) {e : Expression D}
    (hcurrent : (Source.list D).current σ = .leftParenthesis)
    (hrun : (Source.list D).parseParenthesisExpression (n + 1) σ = .done (some e, σ')) :
    ∃ ts, Consumes σ ts σ' ∧ ∀ min, Writing min e ts := by
  simp only [Source.parseParenthesisExpression, bind_eq_done] at hrun
  obtain ⟨σ₁, heat, ⟨expr, σ₂⟩, hexpr, hrest⟩ := hrun
  have hopen := consumes_eat hcurrent (by simp) heat
  cases expr with
  | none => cases hrest
  | some expr =>
      obtain ⟨ts, hts, hwriting⟩ := h.expression hexpr
      simp only at hrest
      split at hrest
      · next hclose =>
          obtain ⟨σ₃, heat', hdone⟩ := bind_eq_done.mp hrest
          cases hdone
          exact ⟨_, (hopen.trans hts).trans (consumes_eat hclose (by simp) heat'),
            fun min => .parentheses min hwriting⟩
      · cases hrest

theorem SoundAt.identifier_succ {n : ℕ} (h : SoundAt D n) {e : Expression D}
    (hrun : (Source.list D).parseIdentifierExpression (n + 1) σ = .done (some e, σ')) :
    ∃ ts, Consumes σ ts σ' ∧ ∀ min, Writing min e ts := by
  simp only [Source.parseIdentifierExpression] at hrun
  split at hrun
  · next identifier hcurrent =>
      obtain ⟨σ₁, heat, hrest⟩ := bind_eq_done.mp hrun
      have hname := consumes_eat hcurrent (by simp) heat
      split at hrest
      · next hopen =>
          obtain ⟨σ₂, heat₂, hrest⟩ := bind_eq_done.mp hrest
          have hopen := consumes_eat hopen (by simp) heat₂
          have hcall : ∀ {es ts σ₃}, Consumes σ₂ ts σ₃ → WritingArguments es ts →
              (Source.list D).current σ₃ = .rightParenthesis →
              ((Source.list D).eat σ₃ >>= fun σ => pure (some (.call identifier es), σ)) =
                .done (some e, σ') → ∃ ts, Consumes σ ts σ' ∧ ∀ min, Writing min e ts := by
            intro es ts σ₃ hts hargs hclose hdone
            obtain ⟨σ₄, heat₄, hdone⟩ := bind_eq_done.mp hdone
            cases hdone
            exact ⟨_, hname.trans (hopen.trans (hts.trans (consumes_eat hclose (by simp) heat₄))),
              fun min => .call min identifier hargs⟩
          split at hrest
          · next hclose => exact hcall (List.nil_append _).symm .nil hclose hrest
          · obtain ⟨⟨args, σ₃⟩, hargs, hrest⟩ := bind_eq_done.mp hrest
            cases args with
            | none => cases hrest
            | some es =>
                obtain ⟨new, ts, rfl, hts, -, hwriting, hclose⟩ := h.arguments hargs
                exact hcall hts hwriting hclose hrest
      · cases hrest
        exact ⟨_, hname, fun min => .name min identifier⟩
  · cases hrun

theorem SoundAt.primary_succ {n : ℕ} (h : SoundAt D n) {e : Expression D}
    (hrun : (Source.list D).parsePrimary (n + 1) σ = .done (some e, σ')) :
    ∃ ts, Consumes σ ts σ' ∧ ∀ min, Writing min e ts := by
  simp only [Source.parsePrimary] at hrun
  split at hrun
  · exact h.identifier hrun
  · next value hcurrent =>
      simp only [Source.parseNumberExpression, hcurrent] at hrun
      obtain ⟨σ₁, heat, hdone⟩ := bind_eq_done.mp hrun
      cases hdone
      exact ⟨_, consumes_eat hcurrent (by simp) heat, fun min => .number min value⟩
  · next hcurrent => exact h.parenthesis hcurrent hrun
  · cases hrun
  · cases hrun

theorem SoundAt.arguments_succ {n : ℕ} (h : SoundAt D n) {args es : List (Expression D)}
    (hrun : (Source.list D).parseArguments (n + 1) σ args = .done (some es, σ')) :
    ∃ new ts, es = args ++ new ∧ Consumes σ ts σ' ∧ new ≠ [] ∧ WritingArguments new ts ∧
      (Source.list D).current σ' = .rightParenthesis := by
  simp only [Source.parseArguments, bind_eq_done] at hrun
  obtain ⟨⟨arg, σ₁⟩, harg, hrest⟩ := hrun
  cases arg with
  | none => cases hrest
  | some arg =>
      obtain ⟨ts, hts, hwriting⟩ := h.expression harg
      simp only at hrest
      split at hrest
      · next hclose =>
          cases hrest
          exact ⟨[arg], ts, rfl, hts, List.cons_ne_nil _ _, .single hwriting, hclose⟩
      · next hcomma =>
          obtain ⟨σ₂, heat, hrest⟩ := bind_eq_done.mp hrest
          obtain ⟨new, us, rfl, hus, hne, hnew, hclose⟩ := h.arguments hrest
          exact ⟨arg :: new, _, by rw [List.append_assoc]; rfl,
            hts.trans ((consumes_eat hcomma (by simp) heat).trans hus), List.cons_ne_nil _ _,
            .cons hwriting hnew hne, hclose⟩
      · cases hrest

/-- The loop invariant: what is written so far may be a left operand of the
operator that comes next, and the whole where `min` is asked for. -/
theorem SoundAt.rhs_succ {n : ℕ} (h : SoundAt D n) {min : Int} {lhs e : Expression D}
    {ls : List (Token D)} (hlhs : Writing (max min (precedenceAt σ)) lhs ls)
    (hrun : (Source.list D).parseBinarayOperationRhs (n + 1) σ min lhs = .done (some e, σ')) :
    ∃ ts, Consumes σ ts σ' ∧ Writing min e (ls ++ ts) ∧ precedenceAt σ' < min := by
  simp only [Source.parseBinarayOperationRhs] at hrun
  split at hrun
  · next hlt =>
      -- the loop ends in front of an operator that binds less tightly
      cases hrun
      refine ⟨[], rfl, ?_, hlt⟩
      rw [List.append_nil]
      exact hlhs.mono (by omega)
  · next hge =>
      split at hrun
      · cases hrun
      · next op hop =>
          have hcurrent := getBinaryOperator_eq_some.mp hop
          have hprecedence : precedenceAt σ = op.precedence := by
            rw [precedenceAt, hcurrent, getTokenPrecendence_token]
          obtain ⟨σ₁, heat, hrest⟩ := bind_eq_done.mp hrun
          obtain ⟨⟨rhs, σ₂⟩, hprimary, hrest⟩ := bind_eq_done.mp hrest
          cases rhs with
          | none => cases hrest
          | some rhs =>
              obtain ⟨rs, hrs, hrhs⟩ := h.primary hprimary
              have hop := consumes_eat hcurrent (by cases op <;> simp [BinaryOperator.token]) heat
              -- the pass ends with the right operand `rhs'`, and the loop goes on
              have hnext : ∀ {rhs' us σ₃}, Consumes σ₁ us σ₃ →
                  Writing (op.precedence + 1) rhs' us → precedenceAt σ₃ < op.precedence + 1 →
                  (Source.list D).parseBinarayOperationRhs n σ₃ min (.binary op lhs rhs') =
                    .done (some e, σ') →
                  ∃ ts, Consumes σ ts σ' ∧ Writing min e (ls ++ ts) ∧ precedenceAt σ' < min := by
                intro rhs' us σ₃ hus hrhs' hprecedence₃ hloop
                have hmin : min ≤ op.precedence := by unfold precedenceAt at hprecedence; omega
                have hbinary : Writing (max min (precedenceAt σ₃)) (.binary op lhs rhs')
                    (ls ++ op.token :: us) :=
                  .binary (Int.max_le.mpr ⟨hmin, by omega⟩) (hlhs.mono (by omega)) hrhs'
                obtain ⟨ts, hts, hwriting, hlt⟩ := h.rhs hbinary hloop
                refine ⟨_, hop.trans (hus.trans hts), ?_, hlt⟩
                simpa using hwriting
              simp only at hrest
              split at hrest
              · obtain ⟨⟨rhs', σ₃⟩, htighter, hrest⟩ := bind_eq_done.mp hrest
                cases rhs' with
                | none => cases hrest
                | some rhs' =>
                    obtain ⟨us, hus, hrhs', hlt⟩ := h.rhs (hrhs _) htighter
                    rw [hcurrent, getTokenPrecendence_token] at hrhs' hlt
                    exact hnext (hrs.trans hus) hrhs' hlt hrest
              · next hnot =>
                  rw [hcurrent, getTokenPrecendence_token] at hnot
                  exact hnext hrs (hrhs _) (by unfold precedenceAt; omega) hrest

theorem soundAt (n : ℕ) : SoundAt D n := by
  induction n with
  | zero => exact soundAt_zero
  | succ n ih =>
      exact ⟨ih.expression_succ, ih.primary_succ, ih.parenthesis_succ, ih.identifier_succ,
        ih.arguments_succ, ih.rhs_succ⟩

end Sound

/-! ## Every writing is read -/

section Complete

/-- The precedence of the first token of what is left. -/
def headPrecedence (l : List (Token D)) : Int := getTokenPrecendence (l.headD .eof)

/-- With enough depth `parse_primary` gets from `l` to `l'` and returns `e`. -/
def PrimaryTo (l : List (Token D)) (e : Expression D) (l' : List (Token D)) : Prop :=
  ∀ output, Converges (fun n => (Source.list D).parsePrimary n ⟨l, output⟩)
    (some e, ⟨l', output⟩)

def ExpressionTo (l : List (Token D)) (e : Expression D) (l' : List (Token D)) : Prop :=
  ∀ output, Converges (fun n => (Source.list D).parseExpression n ⟨l, output⟩)
    (some e, ⟨l', output⟩)

def ArgumentsTo (args : List (Expression D)) (l : List (Token D)) (es : List (Expression D))
    (l' : List (Token D)) : Prop :=
  ∀ output, Converges (fun n => (Source.list D).parseArguments n ⟨l, output⟩ args)
    (some es, ⟨l', output⟩)

def RhsTo (min : Int) (lhs : Expression D) (l : List (Token D)) (e : Expression D)
    (l' : List (Token D)) : Prop :=
  ∀ output, Converges (fun n => (Source.list D).parseBinarayOperationRhs n ⟨l, output⟩ min lhs)
    (some e, ⟨l', output⟩)

variable {l₁ l₂ l₃ l₄ u : List (Token D)} {e lhs rhs : Expression D} {min : Int}
  {op : BinaryOperator}

theorem expressionTo (hprimary : PrimaryTo l₁ lhs l₂) (hrhs : RhsTo 0 lhs l₂ e l₃) :
    ExpressionTo l₁ e l₃ := by
  intro output
  apply Converges.succ
  simp only [Source.parseExpression]
  exact (hprimary output).bind (hrhs output)

theorem rhsTo_stop (h : headPrecedence l₁ < min) : RhsTo min lhs l₁ lhs l₁ := by
  intro output
  apply Converges.succ
  have hstop : getTokenPrecendence ((Source.list D).current ⟨l₁, output⟩) < min := h
  simp only [Source.parseBinarayOperationRhs, hstop, if_true]
  exact .done _

/-- A pass of the loop. The right operand is complete when the loop above the
operator's precedence has nothing to do. -/
theorem rhsTo_step {rhs₀ : Expression D} (hmin : min ≤ op.precedence)
    (hprimary : PrimaryTo l₁ rhs₀ l₂) (hrhs : RhsTo (op.precedence + 1) rhs₀ l₂ rhs l₃)
    (hloop : RhsTo min (.binary op lhs rhs) l₃ e l₄) : RhsTo min lhs (op.token :: l₁) e l₄ := by
  intro output
  apply Converges.succ
  have hcurrent : (Source.list D).current ⟨op.token :: l₁, output⟩ = op.token := rfl
  have heat : (Source.list D).eat ⟨op.token :: l₁, output⟩ = .done ⟨l₁, output⟩ := rfl
  have hge : ¬ op.precedence < min := by omega
  simp only [Source.parseBinarayOperationRhs, hcurrent, heat, getTokenPrecendence_token,
    getBinaryOperator_token, if_neg hge, done_bind]
  refine (hprimary output).bind ?_
  by_cases htighter : op.precedence < getTokenPrecendence ((Source.list D).current ⟨l₂, output⟩)
  · simp only [htighter, if_true]
    exact (hrhs output).bind (hloop output)
  · -- no tighter operator follows: the operand is the primary expression
    have hstop : headPrecedence l₂ < op.precedence + 1 := by
      have hhead : headPrecedence l₂ =
        getTokenPrecendence ((Source.list D).current ⟨l₂, output⟩) := rfl
      omega
    have heq := (hrhs output).unique (rhsTo_stop hstop output)
    obtain ⟨rfl, rfl⟩ : rhs = rhs₀ ∧ l₃ = l₂ := by simpa using heq
    simp only [htighter, if_false]
    exact hloop output

theorem primaryTo_number (value : D) (u : List (Token D)) :
    PrimaryTo (.number value :: u) (.number value) u := by
  intro output
  apply Converges.succ
  exact .done _

theorem primaryTo_variable (name : List Int8) (hu : u.headD .eof ≠ .leftParenthesis) :
    PrimaryTo (.identifier name :: u) (.variable name) u := by
  intro output
  apply Converges.succ
  apply Converges.succ
  have hcurrent : (Source.list D).current ⟨.identifier name :: u, output⟩ = .identifier name := rfl
  have heat : (Source.list D).eat ⟨.identifier name :: u, output⟩ = .done ⟨u, output⟩ := rfl
  simp only [Source.parsePrimary, Source.parseIdentifierExpression, hcurrent, heat, done_bind]
  split
  · next hopen => exact absurd hopen hu
  · exact .done _

theorem primaryTo_parentheses (h : ExpressionTo l₁ e (.rightParenthesis :: u)) :
    PrimaryTo (.leftParenthesis :: l₁) e u := by
  intro output
  apply Converges.succ
  apply Converges.succ
  show Converges (fun n => (Source.list D).parseParenthesisExpression (n + 1)
    ⟨.leftParenthesis :: l₁, output⟩) _
  simp only [Source.parseParenthesisExpression]
  exact (Converges.done _).bind ((h output).bind (.done _))

theorem argumentsTo_single {args : List (Expression D)}
    (h : ExpressionTo l₁ e (.rightParenthesis :: u)) :
    ArgumentsTo args l₁ (args ++ [e]) (.rightParenthesis :: u) := by
  intro output
  apply Converges.succ
  simp only [Source.parseArguments]
  exact (h output).bind (.done _)

theorem argumentsTo_cons {args es : List (Expression D)} (h : ExpressionTo l₁ e (.comma :: l₂))
    (hrest : ArgumentsTo (args ++ [e]) l₂ es u) : ArgumentsTo args l₁ es u := by
  intro output
  apply Converges.succ
  simp only [Source.parseArguments]
  exact (h output).bind ((Converges.done _).bind (hrest output))

theorem primaryTo_call_nil (calle : List Int8) (u : List (Token D)) :
    PrimaryTo (.identifier calle :: .leftParenthesis :: .rightParenthesis :: u)
      (.call calle []) u := by
  intro output
  apply Converges.succ
  apply Converges.succ
  exact .done _

/-- No argument starts with the `)` that would end the list. -/
theorem head_of_argumentsTo {args es : List (Expression D)} (h : ArgumentsTo args l₁ es l₂) :
    l₁.headD .eof ≠ .rightParenthesis := by
  intro hclose
  obtain ⟨n, hn⟩ := h []
  have hrun := hn (n + 3) (by omega)
  have hcurrent : (Source.list D).current ⟨l₁, []⟩ = .rightParenthesis := hclose
  simp only [Source.parseArguments, Source.parseExpression, Source.parsePrimary, hcurrent] at hrun
  cases hrun

theorem primaryTo_call (calle : List Int8) {args : List (Expression D)}
    (h : ArgumentsTo [] l₁ args (.rightParenthesis :: u)) :
    PrimaryTo (.identifier calle :: .leftParenthesis :: l₁) (.call calle args) u := by
  intro output
  apply Converges.succ
  apply Converges.succ
  show Converges (fun n => (Source.list D).parseIdentifierExpression (n + 1)
    ⟨.identifier calle :: .leftParenthesis :: l₁, output⟩) _
  have hcurrent : (Source.list D).current
    ⟨.identifier calle :: .leftParenthesis :: l₁, output⟩ = .identifier calle := rfl
  have heat : (Source.list D).eat ⟨.identifier calle :: .leftParenthesis :: l₁, output⟩ =
    .done ⟨.leftParenthesis :: l₁, output⟩ := rfl
  have hcurrent₂ : (Source.list D).current ⟨.leftParenthesis :: l₁, output⟩ =
    .leftParenthesis := rfl
  have heat₂ : (Source.list D).eat ⟨.leftParenthesis :: l₁, output⟩ = .done ⟨l₁, output⟩ := rfl
  simp only [Source.parseIdentifierExpression, hcurrent, heat, hcurrent₂, heat₂, done_bind]
  split
  · next hclose => exact absurd hclose (head_of_argumentsTo h)
  · exact (h output).bind ((Converges.done _).bind (.done _))

/-- However the text goes on, as long as the next operator binds no tighter
than `min`: `parse_primary` reads the leftmost operand of `e`, and the loop gets
from there to where all of `e` is its left operand. -/
def Climbs (min : Int) (e : Expression D) (ts : List (Token D)) : Prop :=
  ∀ u : List (Token D), u.headD .eof ≠ .leftParenthesis → headPrecedence u ≤ min →
    ∃ e₀ mid, PrimaryTo (ts ++ u) e₀ (mid ++ u) ∧
      ∀ p ≤ min, ∀ e' l', RhsTo p e u e' l' → RhsTo p e₀ (mid ++ u) e' l'

theorem climbs_of_primaryTo {ts : List (Token D)}
    (h : ∀ u : List (Token D), u.headD .eof ≠ .leftParenthesis → PrimaryTo (ts ++ u) e u) :
    Climbs min e ts :=
  fun u hu _ => ⟨e, [], h u hu, fun _ _ _ _ hrhs => hrhs⟩

theorem Climbs.binary {ls rs : List (Token D)} (hmin : min ≤ op.precedence)
    (hlhs : Climbs op.precedence lhs ls) (hrhs : Climbs (op.precedence + 1) rhs rs) :
    Climbs min (.binary op lhs rhs) (ls ++ op.token :: rs) := by
  intro u hu hprecedence
  obtain ⟨r₀, rmid, hrprimary, hrrest⟩ := hrhs u hu (by omega)
  have hhead : headPrecedence (op.token :: (rs ++ u)) = op.precedence :=
    getTokenPrecendence_token op
  obtain ⟨l₀, lmid, hlprimary, hlrest⟩ := hlhs (op.token :: (rs ++ u))
    (by cases op <;> simp [BinaryOperator.token]) (by omega)
  refine ⟨l₀, lmid ++ op.token :: rs, by simpa using hlprimary, fun p hp e' l' hloop => ?_⟩
  -- what follows binds no tighter than `op`, so the right operand ends here
  have hstop : RhsTo (op.precedence + 1) rhs u rhs u := rhsTo_stop (by omega)
  have hpass := rhsTo_step (by omega : p ≤ op.precedence) hrprimary
    (hrrest _ (Int.le_refl _) rhs u hstop) hloop
  simpa using hlrest p (by omega) e' l' hpass

theorem Climbs.expressionTo {ts : List (Token D)} (h : Climbs 0 e ts)
    (hu : u.headD .eof ≠ .leftParenthesis) (hprecedence : headPrecedence u < 0) :
    ExpressionTo (ts ++ u) e u := by
  obtain ⟨e₀, mid, hprimary, hrest⟩ := h u hu (by omega)
  exact Kaleidoscope.expressionTo hprimary (hrest 0 (Int.le_refl 0) e u (rhsTo_stop hprecedence))

/-- An argument and the token after it. -/
theorem Climbs.argumentTo {ts : List (Token D)} (h : Climbs 0 e ts) {t : Token D}
    (ht : t ≠ .leftParenthesis) (hoperator : getBinaryOperator t = none) (u : List (Token D)) :
    ExpressionTo (ts ++ t :: u) e (t :: u) := by
  refine h.expressionTo ht ?_
  show getTokenPrecendence t < 0
  rw [getTokenPrecendence_of_none hoperator]
  decide

mutual

theorem Writing.climbs {min : Int} {e : Expression D} {ts : List (Token D)} :
    Writing min e ts → Climbs min e ts
  | .number _ value => climbs_of_primaryTo fun u _ => primaryTo_number value u
  | .name _ name => climbs_of_primaryTo fun u hu => primaryTo_variable name hu
  | .binary hmin hlhs hrhs => hlhs.climbs.binary hmin hrhs.climbs
  | .parentheses _ h => climbs_of_primaryTo fun u _ => by
      have hbody := h.climbs.argumentTo (t := .rightParenthesis) (by simp) rfl u
      simpa using primaryTo_parentheses hbody
  | @Writing.call _ _ calle args _ hargs => climbs_of_primaryTo fun u _ => by
      by_cases hne : args = []
      · subst hne
        cases hargs
        exact primaryTo_call_nil calle u
      · simpa using primaryTo_call calle (hargs.argumentsTo hne [] u)

theorem WritingArguments.argumentsTo {args : List (Expression D)} {ts : List (Token D)} :
    WritingArguments args ts → args ≠ [] → ∀ (acc : List (Expression D)) (u : List (Token D)),
      ArgumentsTo acc (ts ++ .rightParenthesis :: u) (acc ++ args) (.rightParenthesis :: u)
  | .nil, hne, _, _ => absurd rfl hne
  | .single harg, _, acc, u => argumentsTo_single (harg.climbs.argumentTo (by simp) rfl u)
  | @WritingArguments.cons _ arg _ _ _ harg hargs hne, _, acc, u => by
      have hrest := hargs.argumentsTo hne (acc ++ [arg]) u
      rw [List.append_assoc, List.singleton_append] at hrest
      rw [List.append_assoc, List.cons_append]
      exact argumentsTo_cons (harg.climbs.argumentTo (by simp) rfl _) hrest

end

end Complete

/-- In front of a token that is neither a binary operator nor a `(`,
`parse_expression` returns `e` and stops right there iff what it has read is a
writing of `e`. -/
theorem parseExpression_iff_writing (e : Expression D) (ts : List (Token D)) (t : Token D)
    (rest : List (Token D)) (output : List Output) (hoperator : getBinaryOperator t = none)
    (hparenthesis : t ≠ .leftParenthesis) :
    Converges (fun n => (Source.list D).parseExpression n ⟨ts ++ t :: rest, output⟩)
        (some e, ⟨t :: rest, output⟩) ↔ Writing 0 e ts := by
  constructor
  · rintro ⟨n, hn⟩
    obtain ⟨ts', hts', hwriting⟩ := (soundAt n).expression (hn n (Nat.le_refl n))
    rw [List.append_cancel_right hts']
    exact hwriting
  · intro h
    exact h.climbs.argumentTo hparenthesis hoperator rest output

/-- `a + (1)` in front of the end of the text. -/
theorem parseExpression_sum :
    Converges (fun n => (Source.list ℕ).parseExpression n
        ⟨[.identifier (text "a"), .plus, .leftParenthesis, .number 1, .rightParenthesis, .eof], []⟩)
      (some (.binary .addition (.variable (text "a")) (.number 1)), ⟨[.eof], []⟩) :=
  (parseExpression_iff_writing _
      [.identifier (text "a"), .plus, .leftParenthesis, .number 1, .rightParenthesis]
      .eof [] [] rfl (by simp)).mpr
    (.binary (by decide) (.name _ (text "a")) (.parentheses _ (.number _ 1)))

end InterProcess.Kaleidoscope
