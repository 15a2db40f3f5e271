import InterProcess.Kaleidoscope.Termination

/-!
# Calling `get_token` until it returns `false`

A client calls `get_token` in a loop, as `main` does to print the tokens. Every
token but `eof_token` costs a character of the buffer, so there are no more of
them than characters. But `eof_token` costs none: the lexer does not eat the
end-of-file character, and as long as its reader has something behind it the
call returns `true` with `eof_token` again and again.

No loop of the lexer goes past an end-of-file character (`Passes`), so the calls
come to an end iff there is none but at the very end of the buffer.
-/

namespace InterProcess.Kaleidoscope

/-- What call number `k` of `get_token` returns, from 0 on: a token, or nothing for `false`;
`none` once an assert has failed. -/
def nthGetToken {D : Type} [Double D] (asserts : Bool) :
    ℕ → Cursor → Option (Option (Token D))
  | 0, cursor => (getToken asserts cursor).map Prod.fst
  | k + 1, cursor => (getToken (D := D) asserts cursor).bind fun result =>
      nthGetToken asserts k result.2

/-- A lexer just constructed. -/
def Cursor.start (buffer : List Int8) : Cursor := ⟨char ' ', buffer⟩

/-- The lexer has gone on over characters that are not the end-of-file character. -/
def Passes (cursor after : Cursor) : Prop :=
  ∃ passed, endOfFile ∉ passed ∧
    cursor.last :: cursor.reader = passed ++ after.last :: after.reader

section Passes

variable {cursor cursor' after : Cursor}

theorem Passes.refl (cursor : Cursor) : Passes cursor cursor := ⟨[], List.not_mem_nil, rfl⟩

theorem Passes.trans (h : Passes cursor cursor') (h' : Passes cursor' after) :
    Passes cursor after := by
  obtain ⟨passed, hpassed, heq⟩ := h
  obtain ⟨passed', hpassed', heq'⟩ := h'
  refine ⟨passed ++ passed', ?_, by rw [heq, heq', List.append_assoc]⟩
  rw [List.mem_append]
  exact not_or.mpr ⟨hpassed, hpassed'⟩

/-- One character is passed. -/
theorem Passes.cons {last ch : Int8} {reader : List Int8} (hlast : last ≠ endOfFile) :
    Passes ⟨last, ch :: reader⟩ ⟨ch, reader⟩ :=
  ⟨[last], by simpa using hlast.symm, rfl⟩

theorem Passes.read (hlast : cursor.last ≠ endOfFile) : Passes cursor cursor.read := by
  obtain ⟨last, reader⟩ := cursor
  cases reader with
  | nil => exact .refl _
  | cons ch reader => exact .cons hlast

/-- What the lexer has not passed has the end-of-file character before its end iff what it had
not passed before has. -/
theorem Passes.mem_iff (h : Passes cursor after) :
    endOfFile ∈ (cursor.last :: cursor.reader).dropLast ↔
      endOfFile ∈ (after.last :: after.reader).dropLast := by
  obtain ⟨passed, hpassed, heq⟩ := h
  rw [heq, List.dropLast_append_of_ne_nil (List.cons_ne_nil _ _), List.mem_append]
  exact or_iff_right hpassed

end Passes

/-! ## The loops -/

theorem ne_endOfFile {p : Int8 → Bool} {ch : Int8} (h : p ch = true) (hend : p endOfFile = false) :
    ch ≠ endOfFile := by
  rintro rfl
  rw [hend] at h
  cases h

theorem skipWhitespace_passes (last : Int8) (reader : List Int8) :
    Passes ⟨last, reader⟩ (skipWhitespace last reader).2 := by
  induction reader generalizing last with
  | nil => exact .refl _
  | cons ch reader ih =>
      unfold skipWhitespace
      split
      · next hspace => exact (Passes.cons (ne_endOfFile hspace rfl)).trans (ih ch)
      · exact .refl _

theorem lexIdentifier_passes (identifier : List Int8) {last : Int8} (reader : List Int8)
    (hlast : last ≠ endOfFile) :
    Passes ⟨last, reader⟩ (lexIdentifier identifier last reader).2 := by
  induction reader generalizing identifier last with
  | nil => exact .refl _
  | cons ch reader ih =>
      unfold lexIdentifier
      split
      · next halnum => exact (Passes.cons hlast).trans (ih _ (ne_endOfFile halnum rfl))
      · exact .cons hlast

theorem skipComment_passes {last : Int8} (reader : List Int8) (hlast : last ≠ endOfFile) :
    Passes ⟨last, reader⟩ (skipComment last reader) := by
  induction reader generalizing last with
  | nil => exact .refl _
  | cons ch reader ih =>
      unfold skipComment
      split
      · next hinside => exact (Passes.cons hlast).trans (ih hinside.1)
      · exact .cons hlast

theorem lexDigits_passes {α : Type} (add : α → Int8 → α) (state : α) (last : Int8)
    (reader : List Int8) : Passes ⟨last, reader⟩ (lexDigits add state last reader).2 := by
  induction reader generalizing state last with
  | nil => exact .refl _
  | cons ch reader ih =>
      unfold lexDigits
      split
      · next hdigit => exact (Passes.cons (ne_endOfFile hdigit rfl)).trans (ih _ ch)
      · exact .refl _

variable {D : Type} [Double D]

theorem lexNumber_passes {asserts : Bool} {cursor after : Cursor} {num : D}
    (h : lexNumber asserts cursor = some (num, after)) : Passes cursor after := by
  have hpoint : ∀ (num : D) (before : Cursor), before.last = char '.' →
      Passes before
        (lexDigits addFraction ((1 : D), num) before.read.last before.read.reader).2 := by
    intro num before hdot
    exact (Passes.read (by rw [hdot]; decide)).trans (lexDigits_passes _ _ _ _)
  unfold lexNumber at h
  by_cases hdigit : isdigit cursor.last = true
  · have hread : Passes cursor cursor.read := .read (ne_endOfFile hdigit rfl)
    have hdigits := hread.trans
      (lexDigits_passes addDigit (addDigit (0 : D) cursor.last) cursor.read.last cursor.read.reader)
    simp only [hdigit, if_true] at h
    split_ifs at h with hassert hdot <;> cases h
    · exact hdigits
    · exact hdigits.trans (hpoint _ _ (not_not.mp hdot))
  · have hdigits := lexDigits_passes addDigit (0 : D) cursor.last cursor.reader
    rw [Bool.not_eq_true] at hdigit
    simp only [hdigit, Bool.false_and, Bool.false_eq_true, if_false] at h
    split_ifs at h with hdot <;> cases h
    · exact hdigits
    · exact hdigits.trans (hpoint _ _ (not_not.mp hdot))

/-! ## One call -/

/-- Where a call of `get_token` leaves the lexer: at the end of the buffer when it returns
`false`, on an end-of-file character when it returns `eof_token`. -/
def Proceeds (cursor : Cursor) : Option (Option (Token D) × Cursor) → Prop
  | none => True
  | some (none, after) => Passes cursor after ∧ after.reader = []
  | some (some token, after) => Passes cursor after ∧ (token = .eof → after.last = endOfFile)

omit [Double D] in
theorem Proceeds.of_passes {cursor cursor' : Cursor}
    {result : Option (Option (Token D) × Cursor)} (hpasses : Passes cursor cursor')
    (h : Proceeds cursor' result) : Proceeds cursor result := by
  cases result with
  | none => trivial
  | some result =>
      obtain ⟨token, after⟩ := result
      cases token with
      | none => exact ⟨hpasses.trans h.1, h.2⟩
      | some token => exact ⟨hpasses.trans h.1, h.2⟩

/-- A token that is not `eof_token`. -/
theorem Proceeds.token {α : Type} {cursor after : Cursor} {token : Token α} (hne : token ≠ .eof)
    (h : Passes cursor after) : Proceeds cursor (some (some token, after)) :=
  ⟨h, fun heof => absurd heof hne⟩

theorem skipWhitespace_false {last : Int8} {reader : List Int8} {after : Cursor}
    (h : skipWhitespace last reader = (false, after)) : after.reader = [] := by
  induction reader generalizing last with
  | nil =>
      obtain ⟨-, rfl⟩ := Prod.mk.inj h
      rfl
  | cons ch reader ih =>
      unfold skipWhitespace at h
      split at h
      · exact ih h
      · cases h

theorem Reaches.passes {cursor after : Cursor} (h : Reaches cursor after) :
    Passes cursor after := by
  have hpasses := skipWhitespace_passes cursor.last cursor.reader
  rw [h.2] at hpasses
  exact hpasses

theorem Gets.proceeds {asserts : Bool} {cursor : Cursor}
    {result : Option (Option (Token D) × Cursor)} (h : Gets asserts cursor result) :
    Proceeds cursor result := by
  induction h with
  | empty hreader => exact ⟨.refl _, hreader⟩
  | @exhausted cursor after _ hskip =>
      have hpasses := skipWhitespace_passes cursor.last cursor.reader
      rw [hskip] at hpasses
      exact ⟨hpasses, skipWhitespace_false hskip⟩
  | symbol hreaches htoken =>
      refine .of_passes hreaches.passes (.token ?_ (.read ?_))
      · rintro rfl
        exact lookup_ne_eof _ htoken
      · intro hend
        rw [hend] at htoken
        cases htoken
  | word hreaches halpha =>
      exact .of_passes hreaches.passes (.token (identifierToken_ne_eof _)
        (lexIdentifier_passes _ _ (ne_endOfFile halpha rfl)))
  | assertFails => trivial
  | number hreaches _ hnumber =>
      exact .of_passes hreaches.passes (.token nofun (lexNumber_passes hnumber))
  | @comment cursor after _ hreaches hhash _ ih =>
      have hcomment : Passes after (skipComment after.last after.reader) :=
        skipComment_passes _ (by rw [hhash]; decide)
      exact .of_passes hreaches.passes (.of_passes hcomment ih)
  | @lastComment cursor after hreaches hhash hend =>
      have hcomment : Passes after (skipComment after.last after.reader) :=
        skipComment_passes _ (by rw [hhash]; decide)
      exact .of_passes hreaches.passes ⟨hcomment, fun _ => hend⟩
  | endOfFile hreaches hend => exact ⟨hreaches.passes, fun _ => hend⟩
  | unknown hreaches hend => exact .of_passes hreaches.passes (.token nofun (.read hend))

theorem getToken_proceeds (asserts : Bool) (cursor : Cursor) :
    Proceeds cursor (getToken (D := D) asserts cursor) := (gets_getToken asserts cursor).proceeds

/-- The end-of-file character is not eaten. -/
theorem getToken_endOfFile (asserts : Bool) {reader : List Int8} (hreader : reader ≠ []) :
    getToken (D := D) asserts ⟨endOfFile, reader⟩ = some (some .eof, ⟨endOfFile, reader⟩) := by
  rw [getToken_of_skip asserts hreader (skipWhitespace_of_not_space reader rfl)]
  rfl

/-! ## The loop -/

theorem nthGetToken_of_false {asserts : Bool} {cursor after : Cursor} (hafter : after.reader = [])
    (htoken : getToken (D := D) asserts cursor = some (none, after)) (k : ℕ) :
    nthGetToken (D := D) asserts k cursor = some none := by
  induction k generalizing cursor with
  | zero => rw [nthGetToken, htoken, Option.map_some]
  | succ k ih =>
      rw [nthGetToken, htoken, Option.bind_some]
      refine ih ?_
      rw [getToken, dif_pos hafter]

theorem nthGetToken_of_abort {asserts : Bool} {cursor : Cursor}
    (htoken : getToken (D := D) asserts cursor = none) (k : ℕ) :
    nthGetToken (D := D) asserts k cursor = none := by
  cases k with
  | zero => rw [nthGetToken, htoken, Option.map_none]
  | succ k => rw [nthGetToken, htoken, Option.bind_none]

theorem nthGetToken_endOfFile (asserts : Bool) {reader : List Int8} (hreader : reader ≠ [])
    (k : ℕ) : nthGetToken (D := D) asserts k ⟨endOfFile, reader⟩ = some (some .eof) := by
  induction k with
  | zero => rw [nthGetToken, getToken_endOfFile asserts hreader, Option.map_some]
  | succ k ih => rw [nthGetToken, getToken_endOfFile asserts hreader, Option.bind_some, ih]

/-- How the loop goes on from call number `n` on: the assert of `lex_number` fails, or
`get_token` returns `false` for ever, or it returns `eof_token` for ever. The last is so iff
the end-of-file character comes before the end. -/
def LoopEnds (D : Type) [Double D] (asserts : Bool) (cursor : Cursor) (n : ℕ) : Prop :=
  (asserts = true ∧ ∀ k, n ≤ k → nthGetToken (D := D) asserts k cursor = none) ∨
  (endOfFile ∉ (cursor.last :: cursor.reader).dropLast ∧
    ∀ k, n ≤ k → nthGetToken (D := D) asserts k cursor = some none) ∨
  (endOfFile ∈ (cursor.last :: cursor.reader).dropLast ∧
    ∀ k, n ≤ k → nthGetToken (D := D) asserts k cursor = some (some .eof))

/-- One more call before. -/
theorem LoopEnds.succ {asserts : Bool} {cursor after : Cursor} {token : Token D} {n : ℕ}
    (htoken : getToken (D := D) asserts cursor = some (some token, after))
    (hpasses : Passes cursor after) (h : LoopEnds D asserts after n) :
    LoopEnds D asserts cursor (n + 1) := by
  have hlater : ∀ value, (∀ k, n ≤ k → nthGetToken (D := D) asserts k after = value) →
      ∀ k, n + 1 ≤ k → nthGetToken (D := D) asserts k cursor = value := by
    intro value hvalue k hk
    obtain ⟨k, rfl⟩ : ∃ j, k = j + 1 := ⟨k - 1, by omega⟩
    rw [nthGetToken, htoken, Option.bind_some]
    exact hvalue k (by omega)
  rcases h with ⟨hasserts, h⟩ | ⟨hnone, h⟩ | ⟨hsome, h⟩
  · exact .inl ⟨hasserts, hlater _ h⟩
  · exact .inr (.inl ⟨mt hpasses.mem_iff.mp hnone, hlater _ h⟩)
  · exact .inr (.inr ⟨hpasses.mem_iff.mpr hsome, hlater _ h⟩)

/-- From any cursor the calls return no more tokens than there are characters left, before they
go on in one of the three ways. -/
theorem loopEnds (asserts : Bool) (cursor : Cursor) :
    ∃ n, n ≤ cursor.reader.length ∧
      (∀ k < n, ∃ token, nthGetToken (D := D) asserts k cursor = some (some token)) ∧
      LoopEnds D asserts cursor n := by
  induction hlength : cursor.reader.length using Nat.strong_induction_on generalizing cursor with
  | _ length ih =>
  subst hlength
  have hproceeds := getToken_proceeds (D := D) asserts cursor
  have hshortens := getToken_shortens (D := D) asserts cursor
  rcases htoken : getToken (D := D) asserts cursor with _ | ⟨_ | token, after⟩ <;>
    rw [htoken] at hproceeds hshortens
  · exact ⟨0, Nat.zero_le _, nofun, .inl ⟨hshortens, fun k _ => nthGetToken_of_abort htoken k⟩⟩
  · obtain ⟨hpasses, hafter⟩ := hproceeds
    refine ⟨0, Nat.zero_le _, nofun, .inr (.inl ⟨?_, fun k _ =>
      nthGetToken_of_false hafter htoken k⟩)⟩
    rw [hpasses.mem_iff, hafter]
    exact List.not_mem_nil
  · obtain ⟨hpasses, heof⟩ := hproceeds
    by_cases hlt : after.reader.length < cursor.reader.length
    · -- a token that costs a character
      obtain ⟨n, hn, htokens, hends⟩ := ih _ hlt after rfl
      refine ⟨n + 1, by omega, fun k hk => ?_, hends.succ htoken hpasses⟩
      cases k with
      | zero => exact ⟨token, by rw [nthGetToken, htoken, Option.map_some]⟩
      | succ k =>
          rw [nthGetToken, htoken, Option.bind_some]
          exact htokens k (by omega)
    · -- the end-of-file character, with something behind it
      obtain rfl : token = .eof := by
        by_contra hne
        exact hlt (hshortens.2 hne)
      have hreader : cursor.reader ≠ [] := by
        intro hnil
        rw [getToken, dif_pos hnil] at htoken
        cases htoken
      have hafter : after.reader ≠ [] := by
        have hpos := List.length_pos_of_ne_nil hreader
        exact List.ne_nil_of_length_pos (by omega)
      obtain ⟨last, reader⟩ := after
      obtain rfl : last = endOfFile := heof rfl
      refine ⟨0, Nat.zero_le _, nofun, .inr (.inr ⟨?_, fun k _ => ?_⟩)⟩
      · rw [hpasses.mem_iff, List.dropLast_cons_of_ne_nil hafter]
        exact List.mem_cons_self
      · cases k with
        | zero => rw [nthGetToken, htoken, Option.map_some]
        | succ k =>
            rw [nthGetToken, htoken, Option.bind_some]
            exact nthGetToken_endOfFile asserts hafter k

theorem start_mem_dropLast (buffer : List Int8) :
    endOfFile ∈ ((Cursor.start buffer).last :: (Cursor.start buffer).reader).dropLast ↔
      endOfFile ∈ buffer.dropLast := by
  cases buffer with
  | nil => exact Iff.rfl
  | cons ch buffer =>
      simp only [Cursor.start]
      rw [List.dropLast_cons_of_ne_nil (List.cons_ne_nil ch buffer), List.mem_cons]
      exact or_iff_right (by decide)

/-- A client that calls `get_token` until it returns `false` gets no more tokens than the
buffer has characters, and `false` from then on, unless the assert of `lex_number` fails or an
end-of-file character comes before the last character: then `eof_token` is returned for ever. -/
theorem getToken_loop (D : Type) [Double D] (asserts : Bool) (buffer : List Int8) :
    ∃ n, n ≤ buffer.length ∧
      (∀ k < n, ∃ token,
        nthGetToken (D := D) asserts k (Cursor.start buffer) = some (some token)) ∧
      ((asserts = true ∧
          ∀ k, n ≤ k → nthGetToken (D := D) asserts k (Cursor.start buffer) = none) ∨
        (endOfFile ∉ buffer.dropLast ∧
          ∀ k, n ≤ k → nthGetToken (D := D) asserts k (Cursor.start buffer) = some none) ∨
        (endOfFile ∈ buffer.dropLast ∧
          ∀ k, n ≤ k →
            nthGetToken (D := D) asserts k (Cursor.start buffer) = some (some .eof))) := by
  obtain ⟨n, hn, htokens, hends⟩ := loopEnds (D := D) asserts (Cursor.start buffer)
  refine ⟨n, hn, htokens, ?_⟩
  rw [LoopEnds, start_mem_dropLast] at hends
  exact hends

/-- A character of value -1 before the last one: no call returns `false`. -/
theorem not_getToken_loop : ¬∃ n, ∀ k, n ≤ k →
    nthGetToken (D := ℚ) false k (Cursor.start [endOfFile, char 'x']) = some none := by
  rintro ⟨n, h⟩
  have hfirst : getToken (D := ℚ) false (Cursor.start [endOfFile, char 'x']) =
      some (some .eof, ⟨endOfFile, [char 'x']⟩) := by
    have hskip : skipWhitespace (char ' ') [endOfFile, char 'x'] =
        (true, ⟨endOfFile, [char 'x']⟩) := rfl
    rw [getToken_of_skip false (List.cons_ne_nil _ _) hskip]
    rfl
  have hlater := h (n + 1) (Nat.le_succ n)
  rw [nthGetToken, hfirst, Option.bind_some,
    nthGetToken_endOfFile false (List.cons_ne_nil _ _)] at hlater
  cases hlater

end InterProcess.Kaleidoscope
