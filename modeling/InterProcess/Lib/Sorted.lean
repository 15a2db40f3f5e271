import Mathlib.Algebra.Order.Group.Abs
import Mathlib.Data.List.Basic
import Mathlib.Tactic.Abel

/-!
# Cutting a sorted list, and travelling along one

A sorted list is cut in two by a predicate that only holds from some point on;
that point is what `List.findIdx` finds. `travel` is the distance covered by
going through a list from a start; in one direction it is the distance of the
ends.
-/

namespace InterProcess.Sorted

variable {α : Type*}

/-! ## Cuts -/

theorem findIdx_append {p : α → Bool} {low high : List α} (hlow : ∀ x ∈ low, p x = false)
    (hhigh : ∀ x ∈ high, p x = true) : (low ++ high).findIdx p = low.length := by
  induction low with
  | nil =>
      cases high with
      | nil => rfl
      | cons x high => rw [List.nil_append, List.findIdx_cons, hhigh x List.mem_cons_self]; rfl
  | cons x low ih =>
      rw [List.cons_append, List.findIdx_cons, hlow x List.mem_cons_self,
        ih fun y hy => hlow y (List.mem_cons_of_mem x hy)]
      rfl

theorem exists_cut {r : α → α → Prop} {l : List α} (hsorted : l.Pairwise r) (p : α → Prop)
    (hp : ∀ x y, r x y → p x → p y) :
    ∃ low high, l = low ++ high ∧ (∀ x ∈ low, ¬p x) ∧ ∀ x ∈ high, p x := by
  induction l with
  | nil => exact ⟨[], [], rfl, by simp, by simp⟩
  | cons x l ih =>
      rw [List.pairwise_cons] at hsorted
      by_cases hx : p x
      · refine ⟨[], x :: l, rfl, by simp, ?_⟩
        intro y hy
        rcases List.mem_cons.1 hy with rfl | hy
        · exact hx
        · exact hp x y (hsorted.1 y hy) hx
      · obtain ⟨low, high, rfl, hlow, hhigh⟩ := ih hsorted.2
        refine ⟨x :: low, high, rfl, ?_, hhigh⟩
        intro y hy
        rcases List.mem_cons.1 hy with rfl | hy
        · exact hx
        · exact hlow y hy

/-! ## The last of a sorted list -/

section Last

variable [LinearOrder α]

theorem le_getLastD {start : α} {l : List α} (h : (start :: l).Pairwise (· ≤ ·)) :
    ∀ x ∈ start :: l, x ≤ l.getLastD start := by
  induction l generalizing start with
  | nil => intro x hx; exact (List.mem_singleton.1 hx).le
  | cons y l ih =>
      rw [List.pairwise_cons] at h
      intro x hx
      rw [List.getLastD_cons]
      rcases List.mem_cons.1 hx with rfl | hx
      · exact (h.1 y List.mem_cons_self).trans (ih h.2 y List.mem_cons_self)
      · exact ih h.2 x hx

theorem getLastD_eq_top {start top : α} {l : List α} (h : (start :: l).Pairwise (· ≤ ·))
    (hmem : top ∈ start :: l) (hle : ∀ x ∈ start :: l, x ≤ top) : l.getLastD start = top :=
  le_antisymm (hle _ List.getLastD_mem_cons) (le_getLastD h top hmem)

theorem getLastD_eq_bottom {start bottom : α} {l : List α} (h : (start :: l).Pairwise (· ≥ ·))
    (hmem : bottom ∈ start :: l) (hge : ∀ x ∈ start :: l, bottom ≤ x) :
    l.getLastD start = bottom :=
  getLastD_eq_top (α := αᵒᵈ) h hmem hge

end Last

/-! ## Travel -/

section Travel

variable [AddCommGroup α] [LinearOrder α]

/-- The distance covered from `start` through the list. -/
def travel : α → List α → α
  | _, [] => 0
  | start, x :: l => |x - start| + travel x l

theorem travel_append (start : α) (l l' : List α) :
    travel start (l ++ l') = travel start l + travel (l.getLastD start) l' := by
  induction l generalizing start with
  | nil => exact (zero_add _).symm
  | cons x l ih =>
      rw [List.cons_append, travel, travel, ih, add_assoc, List.getLastD_cons]

/-- A reflected list is as long a way. -/
theorem travel_neg (start : α) (l : List α) :
    travel (-start) (l.map Neg.neg) = travel start l := by
  induction l generalizing start with
  | nil => rfl
  | cons x l ih =>
      rw [List.map_cons, travel, travel, ih, neg_sub_neg, abs_sub_comm]

variable [IsOrderedAddMonoid α]

theorem travel_ascending {start : α} {l : List α} (h : (start :: l).Pairwise (· ≤ ·)) :
    travel start l = l.getLastD start - start := by
  induction l generalizing start with
  | nil => exact (sub_self start).symm
  | cons x l ih =>
      rw [List.pairwise_cons] at h
      have hle : start ≤ x := h.1 x List.mem_cons_self
      rw [travel, ih h.2, List.getLastD_cons, abs_of_nonneg (sub_nonneg.2 hle)]
      abel

theorem travel_descending {start : α} {l : List α} (h : (start :: l).Pairwise (· ≥ ·)) :
    travel start l = start - l.getLastD start := by
  induction l generalizing start with
  | nil => exact (sub_self start).symm
  | cons x l ih =>
      rw [List.pairwise_cons] at h
      have hle : x ≤ start := h.1 x List.mem_cons_self
      rw [travel, ih h.2, List.getLastD_cons, abs_of_nonpos (sub_nonpos.2 hle)]
      abel

/-- Up through `up` and back through `down`, in terms of the highest and the
lowest place. -/
theorem travel_up_down {start top bottom : α} {up down : List α}
    (hup : (start :: up).Pairwise (· < ·)) (hdown : (start :: down).Pairwise (· ≥ ·))
    (htop : top ∈ up ++ down) (hle : ∀ x ∈ up ++ down, x ≤ top)
    (hbottom : bottom ∈ up ++ down) (hge : ∀ x ∈ up ++ down, bottom ≤ x) :
    travel start (up ++ down) =
      if start < top then (top - start) + (if bottom ≤ start then top - bottom else 0)
      else start - bottom := by
  have hstart := (List.pairwise_cons.1 hup).1
  have hfall := List.pairwise_cons.1 hdown
  have hrise := hup.imp fun h => le_of_lt h
  have hback : (up.getLastD start :: down).Pairwise (· ≥ ·) := by
    refine List.pairwise_cons.2 ⟨fun x hx => (hfall.1 x hx).trans ?_, hfall.2⟩
    exact le_getLastD hrise start List.mem_cons_self
  rw [travel_append, travel_ascending hrise, travel_descending hback]
  by_cases hlt : start < top
  · -- the head turns at the top
    have hturn : up.getLastD start = top := by
      refine getLastD_eq_top hrise (List.mem_cons_of_mem _ ?_) (List.forall_mem_cons.2 ⟨hlt.le, ?_⟩)
      · exact (List.mem_append.1 htop).resolve_right fun h => absurd hlt (hfall.1 top h).not_gt
      · exact fun x hx => hle x (List.mem_append_left _ hx)
    rw [hturn] at hback ⊢
    rw [if_pos hlt]
    by_cases hbelow : bottom ≤ start
    · have hbottom' : bottom ∈ down :=
        (List.mem_append.1 hbottom).resolve_left fun h => absurd (hstart bottom h) hbelow.not_gt
      rw [if_pos hbelow, getLastD_eq_bottom hback (List.mem_cons_of_mem _ hbottom')
        (List.forall_mem_cons.2 ⟨hge top htop, fun x hx => hge x (List.mem_append_right _ hx)⟩)]
    · have hdown' : down = [] := by
        refine List.eq_nil_iff_forall_not_mem.2 fun x hx => hbelow ?_
        exact (hge x (List.mem_append_right _ hx)).trans (hfall.1 x hx)
      rw [if_neg hbelow, hdown', List.getLastD_nil, sub_self]
  · -- nothing is above
    have hup' : up = [] := by
      refine List.eq_nil_iff_forall_not_mem.2 fun x hx => hlt ?_
      exact (hstart x hx).trans_le (hle x (List.mem_append_left _ hx))
    subst hup'
    rw [if_neg hlt, List.getLastD_nil, sub_self, zero_add,
      getLastD_eq_bottom hdown (List.mem_cons_of_mem _ hbottom)
        (List.forall_mem_cons.2 ⟨(hge top htop).trans (not_lt.1 hlt), hge⟩)]

end Travel

end InterProcess.Sorted
