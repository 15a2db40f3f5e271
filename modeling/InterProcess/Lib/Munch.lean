import Mathlib.Data.List.Basic
import Mathlib.Data.List.Infix
import Mathlib.Tactic.ByContra

/-!
# Maximal munch

A text is cut into lexemes from the left, and each time the longest lexeme the
rest starts with is taken. Over any alphabet and any notion of lexeme there is
at most one way to do so, and there is one as soon as some lexeme starts every
text that is not empty.
-/

namespace InterProcess.Munch

variable {α : Type*} (IsLexeme : List α → Prop)

/-- `l` is the longest lexeme at the start of `l ++ rest`. -/
structure Longest (l rest : List α) : Prop where
  ne_nil : l ≠ []
  isLexeme : IsLexeme l
  longest : ∀ l', IsLexeme l' → l' <+: l ++ rest → l'.length ≤ l.length

/-- The lexemes of a text, each the longest possible. -/
inductive MaximalMunch : List α → List (List α) → Prop
  | nil : MaximalMunch [] []
  | cons {l rest : List α} {ls : List (List α)} (hl : Longest IsLexeme l rest)
      (hrest : MaximalMunch rest ls) : MaximalMunch (l ++ rest) (l :: ls)

variable {IsLexeme}

/-- What comes after the longest lexeme does not continue it. -/
theorem Longest.not_isLexeme_append {l rest : List α} {c : α} (h : Longest IsLexeme l (c :: rest)) :
    ¬ IsLexeme (l ++ [c]) := by
  intro hlonger
  have hle := h.longest _ hlonger ⟨rest, by simp⟩
  rw [List.length_append, List.length_singleton] at hle
  omega

theorem Longest.unique {l l' rest rest' : List α} (h : Longest IsLexeme l rest)
    (h' : Longest IsLexeme l' rest') (heq : l ++ rest = l' ++ rest') :
    l = l' ∧ rest = rest' := by
  have hle : l.length ≤ l'.length := h'.longest l h.isLexeme ⟨rest, heq⟩
  have hge : l'.length ≤ l.length := h.longest l' h'.isLexeme ⟨rest', heq.symm⟩
  exact List.append_inj heq (le_antisymm hle hge)

/-- No character is lost, and none is used twice. -/
theorem MaximalMunch.flatten {s : List α} {ls : List (List α)} (h : MaximalMunch IsLexeme s ls) :
    ls.flatten = s := by
  induction h with
  | nil => rfl
  | cons hl hrest ih => rw [List.flatten_cons, ih]

theorem MaximalMunch.unique {s : List α} {ls ls' : List (List α)}
    (h : MaximalMunch IsLexeme s ls) (h' : MaximalMunch IsLexeme s ls') : ls = ls' := by
  induction h generalizing ls' with
  | nil =>
      generalize hs : ([] : List α) = s at h'
      cases h' with
      | nil => rfl
      | cons hl hrest => exact absurd (List.append_eq_nil_iff.mp hs.symm).1 hl.ne_nil
  | @cons l rest ls hl hrest ih =>
      generalize hs : l ++ rest = s at h'
      cases h' with
      | nil => exact absurd (List.append_eq_nil_iff.mp hs).1 hl.ne_nil
      | cons hl' hrest' =>
          obtain ⟨rfl, rfl⟩ := hl.unique hl' hs
          rw [ih hrest']

theorem MaximalMunch.of_mem {s : List α} {ls : List (List α)} (h : MaximalMunch IsLexeme s ls) :
    ∀ l ∈ ls, l ≠ [] ∧ IsLexeme l := by
  induction h with
  | nil => exact List.forall_mem_nil _
  | cons hl hrest ih => exact List.forall_mem_cons.mpr ⟨⟨hl.ne_nil, hl.isLexeme⟩, ih⟩

theorem MaximalMunch.eq_nil {ls : List (List α)} (h : MaximalMunch IsLexeme [] ls) : ls = [] :=
  h.unique .nil

/-- A text of one character is one lexeme. -/
theorem MaximalMunch.eq_singleton {c : α} {ls : List (List α)}
    (h : MaximalMunch IsLexeme [c] ls) : ls = [[c]] := by
  generalize hs : [c] = s at h
  cases h with
  | nil => cases hs
  | @cons l rest ls hl hrest =>
      obtain ⟨d, l, rfl⟩ := List.exists_cons_of_ne_nil hl.ne_nil
      obtain ⟨rfl, hnil⟩ := List.cons.inj hs
      obtain ⟨rfl, rfl⟩ := List.append_eq_nil_iff.mp hnil.symm
      rw [hrest.eq_nil]
      rfl

/-- Among the lexemes a text starts with there is a longest one. -/
theorem exists_longest {s l : List α} (hne : l ≠ []) (hl : IsLexeme l) (hstarts : l <+: s) :
    ∃ l' rest, s = l' ++ rest ∧ Longest IsLexeme l' rest := by
  by_contra hnone
  -- otherwise there would be longer and longer ones
  have hlonger : ∀ n, ∃ l', n ≤ l'.length ∧ l' ≠ [] ∧ IsLexeme l' ∧ l' <+: s := by
    intro n
    induction n with
    | zero => exact ⟨l, Nat.zero_le _, hne, hl, hstarts⟩
    | succ n ih =>
        obtain ⟨l', hlen, hne', hl', rest, rfl⟩ := ih
        by_contra hmax
        refine hnone ⟨l', rest, rfl, hne', hl', fun l'' hl'' hstarts'' => ?_⟩
        by_contra hlt
        exact hmax ⟨l'', by omega, fun hnil => by simp [hnil] at hlt, hl'', hstarts''⟩
  obtain ⟨l', hlen, -, -, hstarts'⟩ := hlonger (s.length + 1)
  have hle := hstarts'.length_le
  omega

theorem exists_maximalMunch
    (hstart : ∀ s : List α, s ≠ [] → ∃ l, l ≠ [] ∧ IsLexeme l ∧ l <+: s) (s : List α) :
    ∃ ls, MaximalMunch IsLexeme s ls := by
  induction hn : s.length using Nat.strong_induction_on generalizing s with
  | _ n ih =>
      by_cases hs : s = []
      · exact ⟨[], hs ▸ .nil⟩
      · obtain ⟨l, hne, hl, hstarts⟩ := hstart s hs
        obtain ⟨l', rest, rfl, hlongest⟩ := exists_longest hne hl hstarts
        have hpos := List.length_pos_of_ne_nil hlongest.ne_nil
        rw [List.length_append] at hn
        obtain ⟨ls, hls⟩ := ih rest.length (by omega) rest rfl
        exact ⟨l' :: ls, .cons hlongest hls⟩

end InterProcess.Munch
