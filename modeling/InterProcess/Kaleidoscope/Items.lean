import InterProcess.Kaleidoscope.MainLoop
import InterProcess.Kaleidoscope.Writing

/-!
# What the main loop makes of a program

A program is a list of items, each written as a list of tokens and followed by
a `;`. `mainLoop_items`: whatever the items and however they are written,
`main_loop` reports each of them once, in order and as what it is, reports
nothing else, and returns at the end.
-/

namespace InterProcess.Kaleidoscope

open Outcome

variable {D : Type}

inductive Item (D : Type)
  | definition (proto : Prototype) (body : Expression D)
  | external (proto : Prototype)
  | expression (e : Expression D)

/-- A name and the argument names in parentheses. -/
def Prototype.tokens (proto : Prototype) : List (Token D) :=
  .identifier proto.name :: .leftParenthesis ::
    (proto.args.map Token.identifier ++ [.rightParenthesis])

inductive ItemWriting : Item D → List (Token D) → Prop
  | definition (proto : Prototype) {body : Expression D} {ts : List (Token D)}
      (hbody : Writing 0 body ts) :
      ItemWriting (.definition proto body) (.defToken :: (proto.tokens ++ ts))
  | external (proto : Prototype) :
      ItemWriting (.external proto) (.externToken :: proto.tokens)
  | expression {e : Expression D} {ts : List (Token D)} (he : Writing 0 e ts) :
      ItemWriting (.expression e) ts

def semicolon : Token D := .unknown (char ';')

/-- Items, each followed by a `;`. -/
inductive ProgramWriting : List (Item D) → List (Token D) → Prop
  | nil : ProgramWriting [] []
  | cons {item : Item D} {items : List (Item D)} {ts us : List (Token D)}
      (hitem : ItemWriting item ts) (hitems : ProgramWriting items us) :
      ProgramWriting (item :: items) (ts ++ semicolon :: us)

/-- What is printed when the item is parsed. -/
def Item.report : Item D → List Output
  | .definition _ _ => [.stdout "parsed a function definition"]
  | .external proto => externLines proto
  | .expression _ => [.stdout "parsed a top-level expr"]

/-! ## The parts of an item -/

section Parts

variable (u : List (Token D)) (output : List Output)

/-- The loop stops at the first token that is no name. -/
theorem readArgNames_converges {t : Token D} (ht : ∀ name, t ≠ .identifier name) :
    ∀ (args acc : List (List Int8)) (last : Token D),
      Converges (fun n => (Source.list D).readArgNames n
        ⟨last :: (args.map Token.identifier ++ t :: u), output⟩ acc)
        (acc ++ args, ⟨t :: u, output⟩) := by
  intro args
  induction args with
  | nil =>
      intro acc last
      apply Converges.succ
      have heat : (Source.list D).eat ⟨last :: t :: u, output⟩ = .done ⟨t :: u, output⟩ := rfl
      have hcurrent : (Source.list D).current ⟨t :: u, output⟩ = t := rfl
      simp only [Source.readArgNames, List.map_nil, List.nil_append, heat, done_bind, hcurrent,
        List.append_nil]
      exact .done _
  | cons arg args ih =>
      intro acc last
      apply Converges.succ
      have hrest := ih (acc ++ [arg]) (.identifier arg)
      rw [List.append_assoc, List.singleton_append] at hrest
      exact hrest

/-- A prototype is consumed up to the token behind its `)`. -/
theorem parsePrototype_converges (proto : Prototype) :
    Converges (fun n => (Source.list D).parsePrototype n ⟨proto.tokens ++ u, output⟩)
      (some proto, ⟨u, output⟩) := by
  have hnames := readArgNames_converges u output (t := .rightParenthesis) nofun proto.args []
    .leftParenthesis
  simp only [Prototype.tokens, List.cons_append, List.append_assoc, List.nil_append] at hnames ⊢
  exact hnames.bind (.done _)

/-- In front of a `;` an expression ends. -/
theorem parseExpression_converges {e : Expression D} {ts : List (Token D)} (h : Writing 0 e ts) :
    Converges (fun n => (Source.list D).parseExpression n ⟨ts ++ semicolon :: u, output⟩)
      (some e, ⟨semicolon :: u, output⟩) :=
  h.climbs.argumentTo (by simp [semicolon]) rfl u output

theorem handleDefinition_converges (proto : Prototype) {body : Expression D}
    {ts : List (Token D)} (hbody : Writing 0 body ts) :
    Converges (fun n => (Source.list D).handleDefinition n
        ⟨.defToken :: (proto.tokens ++ (ts ++ semicolon :: u)), output⟩)
      ⟨semicolon :: u, output ++ (Item.definition proto body).report⟩ := by
  have hproto := parsePrototype_converges (ts ++ semicolon :: u) output proto
  have hdefinition : Converges (fun n => (Source.list D).parseDefinition n
      ⟨.defToken :: (proto.tokens ++ (ts ++ semicolon :: u)), output⟩)
      (some ⟨proto, body⟩, ⟨semicolon :: u, output⟩) :=
    (Converges.done _).bind
      (hproto.bind ((parseExpression_converges u output hbody).bind (.done _)))
  exact hdefinition.bind (.done _)

theorem handleExtern_converges (proto : Prototype) :
    Converges (fun n => (Source.list D).handleExtern n
        ⟨.externToken :: (proto.tokens ++ semicolon :: u), output⟩)
      ⟨semicolon :: u, output ++ (Item.external (D := D) proto).report⟩ := by
  have hproto := parsePrototype_converges (D := D) (semicolon :: u) output proto
  have hextern : Converges (fun n => (Source.list D).parseExtern n
      ⟨.externToken :: (proto.tokens ++ semicolon :: u), output⟩)
      (some proto, ⟨semicolon :: u, output⟩) := (Converges.done _).bind hproto
  exact hextern.bind (.done _)

theorem handleTopLevelExpression_converges {e : Expression D} {ts : List (Token D)}
    (he : Writing 0 e ts) :
    Converges (fun n => (Source.list D).handleTopLevelExpression n ⟨ts ++ semicolon :: u, output⟩)
      ⟨semicolon :: u, output ++ (Item.expression e).report⟩ := by
  have hexpr : Converges (fun n => (Source.list D).parseTopLevelExpression n
      ⟨ts ++ semicolon :: u, output⟩) (some ⟨⟨[], []⟩, e⟩, ⟨semicolon :: u, output⟩) :=
    (parseExpression_converges u output he).bind (.done _)
  exact hexpr.bind (.done _)

/-- The first token of an expression. -/
def Token.startsExpression : Token D → Bool
  | .identifier _ | .number _ | .leftParenthesis => true
  | _ => false

theorem Writing.head {min : Int} {e : Expression D} {ts : List (Token D)} :
    Writing min e ts → ∃ t rest, ts = t :: rest ∧ t.startsExpression = true
  | .number _ value => ⟨.number value, [], rfl, rfl⟩
  | .name _ identifier => ⟨.identifier identifier, [], rfl, rfl⟩
  | .call _ calle _ => ⟨.identifier calle, _, rfl, rfl⟩
  | .parentheses _ _ => ⟨.leftParenthesis, _, rfl, rfl⟩
  | .binary _ hlhs _ => by
      obtain ⟨t, rest, rfl, ht⟩ := hlhs.head
      exact ⟨t, _, List.cons_append .., ht⟩

/-- The loop calls the function for an item, and that ends at the `;`. -/
theorem handleToken_converges {item : Item D} {ts : List (Token D)} (h : ItemWriting item ts) :
    ∃ handled, (∀ n, (Source.list D).handleToken n ⟨ts ++ semicolon :: u, output⟩ =
        some (handled n)) ∧
      Converges handled ⟨semicolon :: u, output ++ item.report⟩ := by
  cases h with
  | @definition proto body ts hbody =>
      have hdone := handleDefinition_converges u output proto hbody
      rw [← List.append_assoc, ← List.cons_append] at hdone
      exact ⟨_, fun _ => rfl, hdone⟩
  | external proto => exact ⟨_, fun _ => rfl, handleExtern_converges u output proto⟩
  | expression he =>
      refine ⟨_, fun n => ?_, handleTopLevelExpression_converges u output he⟩
      obtain ⟨t, rest, rfl, ht⟩ := he.head
      cases t <;> first | rfl | cases ht

end Parts

/-- The loop handles an item, eats the `;` and goes on. -/
theorem topLoop_converges {items : List (Item D)} {ts : List (Token D)}
    (h : ProgramWriting items ts) : ∀ output,
      Converges (fun n => (Source.list D).topLoop n ⟨ts, output⟩)
        ⟨[], output ++ items.flatMap Item.report⟩ := by
  induction h with
  | nil =>
      intro output
      apply Converges.succ
      rw [List.flatMap_nil, List.append_nil]
      exact .done _
  | @cons item items ts us hitem hitems ih =>
      intro output
      apply Converges.succ
      obtain ⟨handled, hhandled, hdone⟩ := handleToken_converges us output hitem
      simp only [Source.topLoop, hhandled]
      refine hdone.bind (Converges.succ ?_)
      have heat : ∀ n, (Source.list D).handleToken n
          ⟨semicolon :: us, output ++ item.report⟩ = some (.done ⟨us, output ++ item.report⟩) :=
        fun _ => rfl
      simp only [Source.topLoop, heat]
      rw [List.flatMap_cons, ← List.append_assoc]
      exact (Converges.done _).bind (ih (output ++ item.report))

/-- `main_loop` on a program reports every item once, in order and as what it
is, nothing else, and returns. A lexer just constructed has an `eof_token` in
front of its tokens. -/
theorem mainLoop_items (items : List (Item D)) (ts : List (Token D))
    (h : ProgramWriting items ts) :
    Converges (fun n => (Source.list D).mainLoop n ⟨.eof :: ts, []⟩)
      ⟨[], items.flatMap Item.report⟩ :=
  (Converges.done _).bind (topLoop_converges h [])

/-- `extern sin(arg);` and `sin(1);`. -/
theorem mainLoop_items_externSin :
    Converges (fun n => (Source.list ℕ).mainLoop n
        ⟨[.eof, .externToken, .identifier (text "sin"), .leftParenthesis,
          .identifier (text "arg"), .rightParenthesis, semicolon,
          .identifier (text "sin"), .leftParenthesis, .number 1, .rightParenthesis, semicolon], []⟩)
      ⟨[], [.stdout "parsed an extern", .stdout "name: sin", .stdout "    arg: arg",
        .stdout "parsed a top-level expr"]⟩ :=
  mainLoop_items
    [.external ⟨text "sin", [text "arg"]⟩, .expression (.call (text "sin") [.number 1])] _
    (.cons (.external ⟨text "sin", [text "arg"]⟩)
      (.cons (.expression (.call 0 (text "sin") (.single (.number 0 1)))) .nil))

end InterProcess.Kaleidoscope
