import Mathlib.Algebra.BigOperators.Group.List.Basic
import Mathlib.Algebra.Order.BigOperators.Group.List
import Mathlib.Algebra.Order.Ring.Nat
import Mathlib.Data.List.Dedup
import Mathlib.Data.List.Perm.Subperm
import Mathlib.Tactic.Abel

/-!
# Weighted majorities

A list of voters has the sum of their weights. Two lists of distinct voters that each weigh more
than half of a total have a common voter, as soon as the total bounds what distinct voters can
weigh together (`common_of_majorities`). A headcount is the weight that is one everywhere.
-/

namespace Quorums

variable {α M : Type} [AddCommMonoid M]

/-- The weight of a list of voters. -/
def weight (w : α → M) (l : List α) : M := (l.map w).sum

@[simp] theorem weight_nil (w : α → M) : weight w [] = 0 := rfl

@[simp] theorem weight_cons (w : α → M) (a : α) (l : List α) :
    weight w (a :: l) = w a + weight w l := by
  simp [weight]

@[simp] theorem weight_append (w : α → M) (l l' : List α) :
    weight w (l ++ l') = weight w l + weight w l' := by
  simp [weight]

theorem weight_perm {w : α → M} {l l' : List α} (h : l.Perm l') : weight w l = weight w l' :=
  (h.map w).sum_eq

@[simp] theorem weight_one (l : List α) : weight (fun _ => 1) l = l.length := by
  simp [weight]

/-- Voters without weight do not count. -/
theorem weight_filter {w : α → M} {p : α → Bool} {l : List α} (h : ∀ a ∈ l, p a = false → w a = 0) :
    weight w (l.filter p) = weight w l := by
  induction l with
  | nil => rfl
  | cons a l ih =>
    have hrest := ih (fun b hb => h b (List.mem_cons_of_mem _ hb))
    cases hp : p a with
    | true => rw [List.filter_cons_of_pos hp, weight_cons, weight_cons, hrest]
    | false =>
      rw [List.filter_cons_of_neg (by simp [hp]), weight_cons, h a (List.mem_cons_self ..) hp,
        zero_add, hrest]

section Order

variable [LinearOrder M] [IsOrderedCancelAddMonoid M] {w : α → M}

theorem weight_nonneg (hw : ∀ a, 0 ≤ w a) (l : List α) : 0 ≤ weight w l :=
  List.sum_nonneg (by simpa using fun a _ => hw a)

/-- Fewer voters weigh less. -/
theorem weight_le_of_sublist (hw : ∀ a, 0 ≤ w a) {l l' : List α} (h : l.Sublist l') :
    weight w l ≤ weight w l' := by
  induction h with
  | slnil => exact le_rfl
  | @cons l l' a _ ih =>
    rw [weight_cons]
    exact ih.trans (le_add_of_nonneg_left (hw a))
  | @cons_cons l l' a _ ih =>
    rw [weight_cons, weight_cons]
    exact add_le_add_right ih _

/-- Distinct voters among others weigh less than those. -/
theorem weight_le_of_subset (hw : ∀ a, 0 ≤ w a) {l l' : List α} (hl : l.Nodup) (h : l ⊆ l') :
    weight w l ≤ weight w l' := by
  obtain ⟨k, hperm, hsub⟩ := hl.subperm h
  rw [← weight_perm hperm]
  exact weight_le_of_sublist hw hsub

/-- **Two majorities of one total have a common voter.** -/
theorem common_of_majorities {total : M} {l l' : List α} (hl : l.Nodup) (hl' : l'.Nodup)
    (hbound : (l ++ l').Nodup → weight w (l ++ l') ≤ total)
    (h : total < weight w l + weight w l) (h' : total < weight w l' + weight w l') :
    ∃ a, a ∈ l ∧ a ∈ l' := by
  by_contra hno
  push Not at hno
  have hnodup : (l ++ l').Nodup :=
    List.nodup_append.mpr ⟨hl, hl', fun a ha b hb hab => hno a ha (hab ▸ hb)⟩
  have hle := hbound hnodup
  rw [weight_append] at hle
  have hlt : total + total < total + total :=
    calc total + total
        < (weight w l + weight w l) + (weight w l' + weight w l') := add_lt_add h h'
      _ = (weight w l + weight w l') + (weight w l + weight w l') := by abel
      _ ≤ total + total := add_le_add hle hle
  exact lt_irrefl _ hlt

end Order

end Quorums
