import Mathlib.Algebra.BigOperators.Group.Finset.Basic
import Mathlib.Algebra.Order.Group.Defs
import Mathlib.Algebra.Order.Monoid.Unbundled.Basic
import Mathlib.Algebra.Group.Basic
import Mathlib.Data.List.Sort
import Mathlib.Data.List.NodupEquivFin

/-!
# The heaviest entries of a list

The entries at the front of a list that goes down weigh at least as much as any other choice of as
many entries, whatever their signs. `reach` takes entries from the front until a bound is reached;
on a list that goes down no smaller choice of entries reaches the bound.
-/

namespace Heaviest

variable {α M : Type} [AddCommGroup M] [LinearOrder M]

section Front

variable [IsOrderedAddMonoid M]

/-- One more entry before a list that goes down makes its front no lighter. -/
theorem sum_take_le_cons {a : M} {l : List M} (h : (a :: l).Pairwise (· ≥ ·)) {k : ℕ}
    (hk : k ≤ l.length) : (l.take k).sum ≤ ((a :: l).take k).sum := by
  cases k with
  | zero => simp
  | succ k =>
    have hlast : l[k] ≤ a := (List.pairwise_cons.mp h).1 _ (List.getElem_mem _)
    rw [List.take_succ_eq_append_getElem hk, List.sum_append, List.sum_singleton,
      List.take_succ_cons, List.sum_cons, add_comm]
    exact add_le_add_left hlast _

/-- **The front of a list that goes down is the heaviest choice** of as many entries. -/
theorem sum_sublist_le {l s : List M} (hl : l.Pairwise (· ≥ ·)) (hs : s.Sublist l) :
    s.sum ≤ (l.take s.length).sum := by
  induction hs with
  | slnil => simp
  | cons a hsub ih =>
    have htail := ih (List.pairwise_cons.mp hl).2
    exact htail.trans (sum_take_le_cons hl hsub.length_le)
  | cons_cons a hsub ih =>
    have htail := ih (List.pairwise_cons.mp hl).2
    rw [List.sum_cons, List.length_cons, List.take_succ_cons, List.sum_cons]
    exact add_le_add_right htail a

/-- A set of entries of a list without repetitions, against the front of the list. -/
theorem sum_finset_le [DecidableEq α] {w : α → M} {l : List α} (hl : (l.map w).Pairwise (· ≥ ·))
    (hd : l.Nodup) {S : Finset α} (hS : ∀ a ∈ S, a ∈ l) :
    ∑ a ∈ S, w a ≤ ((l.take S.card).map w).sum := by
  have hmem : S = (l.filter (· ∈ S)).toFinset := by
    ext a
    simp only [List.mem_toFinset, List.mem_filter, decide_eq_true_eq]
    exact ⟨fun ha => ⟨hS a ha, ha⟩, fun ha => ha.2⟩
  have hnodup : (l.filter (· ∈ S)).Nodup := hd.filter _
  have hcard : S.card = (l.filter (· ∈ S)).length := by
    conv_lhs => rw [hmem, List.toFinset_card_of_nodup hnodup]
  have hsum : ∑ a ∈ S, w a = ((l.filter (· ∈ S)).map w).sum := by
    conv_lhs => rw [hmem, List.sum_toFinset _ hnodup]
  rw [hsum, hcard, List.map_take, ← List.length_map (f := w)]
  exact sum_sublist_le hl (List.filter_sublist.map w)

end Front

/-! ## Taking entries until a bound is reached -/

/-- The entries from the front up to the first that brings the sum, `acc` at the start, to `p`. -/
def reach (w : α → M) (p : M) : M → List α → List α
  | _, [] => []
  | acc, a :: l => a :: if p ≤ acc + w a then [] else reach w p (acc + w a) l

variable {w : α → M} {p : M}

theorem reach_prefix (acc : M) (l : List α) : reach w p acc l <+: l := by
  induction l generalizing acc with
  | nil => exact List.prefix_rfl
  | cons a l ih =>
    unfold reach
    split
    · exact ⟨l, rfl⟩
    · exact (List.prefix_cons_inj a).mpr (ih _)

theorem reach_map {β : Type} {f : α → β} {w' : β → M} {acc : M} {l : List α}
    (hw : ∀ a ∈ l, w' (f a) = w a) : (reach w p acc l).map f = reach w' p acc (l.map f) := by
  induction l generalizing acc with
  | nil => rfl
  | cons a l ih =>
    have htail : (reach w p (acc + w a) l).map f = reach w' p (acc + w a) (l.map f) :=
      ih fun b hb => hw b (List.mem_cons_of_mem _ hb)
    simp only [reach, List.map_cons, hw a List.mem_cons_self, ← htail]
    split <;> rfl

/-- Short of the last entry taken, the bound is not reached. -/
theorem sum_lt_of_lt_reach {acc : M} {l : List α} {k : ℕ} (hacc : acc < p)
    (hk : k < (reach w p acc l).length) : acc + ((l.take k).map w).sum < p := by
  induction l generalizing acc k with
  | nil => simp [reach] at hk
  | cons a l ih =>
    cases k with
    | zero => simpa using hacc
    | succ k =>
      rw [List.take_succ_cons, List.map_cons, List.sum_cons, ← add_assoc]
      unfold reach at hk
      by_cases hstop : p ≤ acc + w a
      · simp [hstop] at hk
      · rw [if_neg hstop, List.length_cons] at hk
        exact ih (not_le.mp hstop) (by omega)

/-- The entries taken reach the bound, or all are taken and no front of the list reaches it. -/
theorem reach_cases {acc : M} {l : List α} (hacc : acc < p) :
    p ≤ acc + ((reach w p acc l).map w).sum ∨
      reach w p acc l = l ∧ ∀ k, acc + ((l.take k).map w).sum < p := by
  induction l generalizing acc with
  | nil =>
    right
    exact ⟨rfl, fun k => by simpa using hacc⟩
  | cons a l ih =>
    unfold reach
    by_cases hstop : p ≤ acc + w a
    · left
      simp [hstop]
    · rw [if_neg hstop, List.map_cons, List.sum_cons, ← add_assoc]
      rcases ih (not_le.mp hstop) with hreached | ⟨hall, hshort⟩
      · exact .inl hreached
      · refine .inr ⟨by rw [hall], fun k => ?_⟩
        cases k with
        | zero => simpa using hacc
        | succ k =>
          have := hshort k
          rwa [List.take_succ_cons, List.map_cons, List.sum_cons, ← add_assoc]

/-- **No smaller set of entries reaches the bound.** -/
theorem sum_lt_of_card_lt [IsOrderedAddMonoid M] [DecidableEq α] {l : List α} (hl : (l.map w).Pairwise (· ≥ ·))
    (hd : l.Nodup) (hp : 0 < p) {S : Finset α} (hS : ∀ a ∈ S, a ∈ l)
    (hcard : S.card < (reach w p 0 l).length) : ∑ a ∈ S, w a < p := by
  have hfront := sum_lt_of_lt_reach (w := w) hp hcard
  rw [zero_add] at hfront
  exact (sum_finset_le hl hd hS).trans_lt hfront

end Heaviest
