import Mathlib.Data.List.Dedup
import Mathlib.Data.List.Perm.Basic

/-!
# One vote a voter

A list of votes is counted in its order, and of each voter the first vote counts (`firsts`). Who is
counted does not depend on the order (`mem_map_firsts`); what is counted does not either when the
votes of each voter agree (`map_firsts_perm`).
-/

namespace Quorums

variable {α β κ : Type} [DecidableEq κ]

/-- The first vote of each voter that is not among those seen. -/
def firsts (voter : α → κ) : List κ → List α → List α
  | _, [] => []
  | seen, a :: l =>
    if voter a ∈ seen then firsts voter seen l else a :: firsts voter (seen ++ [voter a]) l

variable {voter : α → κ} {seen : List κ} {l l' : List α}

theorem firsts_subset (voter : α → κ) (seen : List κ) (l : List α) : firsts voter seen l ⊆ l := by
  induction l generalizing seen with
  | nil => exact fun _ h => h
  | cons a l ih =>
    unfold firsts
    split
    · exact List.Subset.trans (ih seen) (List.subset_cons_self _ _)
    · exact List.cons_subset_cons _ (ih _)

/-- **The counted voters are those that voted** and were not seen. -/
theorem mem_map_firsts {k : κ} :
    k ∈ (firsts voter seen l).map voter ↔ k ∈ l.map voter ∧ k ∉ seen := by
  induction l generalizing seen with
  | nil => simp [firsts]
  | cons a l ih =>
    unfold firsts
    split
    · next ha =>
      rw [ih, List.map_cons, List.mem_cons]
      refine ⟨fun h => ⟨Or.inr h.1, h.2⟩, fun h => ⟨?_, h.2⟩⟩
      rcases h.1 with rfl | hmem
      · exact absurd ha h.2
      · exact hmem
    · next ha =>
      rw [List.map_cons, List.mem_cons, ih, List.map_cons, List.mem_cons, List.mem_append,
        List.mem_singleton, not_or]
      constructor
      · rintro (rfl | ⟨hmem, hseen, -⟩)
        · exact ⟨Or.inl rfl, ha⟩
        · exact ⟨Or.inr hmem, hseen⟩
      · rintro ⟨rfl | hmem, hseen⟩
        · exact Or.inl rfl
        · by_cases hk : k = voter a
          · exact Or.inl hk
          · exact Or.inr ⟨hmem, hseen, hk⟩

/-- Nobody is counted twice. -/
theorem nodup_map_firsts (voter : α → κ) (seen : List κ) (l : List α) :
    ((firsts voter seen l).map voter).Nodup := by
  induction l generalizing seen with
  | nil => exact List.nodup_nil
  | cons a l ih =>
    unfold firsts
    split
    · exact ih seen
    · rw [List.map_cons, List.nodup_cons]
      refine ⟨fun hmem => ?_, ih _⟩
      exact (mem_map_firsts.mp hmem).2 (by simp)

/-- Votes of distinct voters all count. -/
theorem firsts_of_nodup (hnodup : (l.map voter).Nodup) (hseen : ∀ a ∈ l, voter a ∉ seen) :
    firsts voter seen l = l := by
  induction l generalizing seen with
  | nil => rfl
  | cons a l ih =>
    rw [List.map_cons, List.nodup_cons] at hnodup
    rw [firsts, if_neg (hseen a (List.mem_cons_self ..)), ih hnodup.2]
    intro b hb hmem
    rcases List.mem_append.mp hmem with hmem | hmem
    · exact hseen b (List.mem_cons_of_mem _ hb) hmem
    · exact hnodup.1 (List.mem_map.mpr ⟨b, hb, List.mem_singleton.mp hmem⟩)

/-- The counted voters of two orders are the same. -/
theorem map_voter_firsts_perm (h : l.Perm l') :
    ((firsts voter [] l).map voter).Perm ((firsts voter [] l').map voter) := by
  refine (List.perm_ext_iff_of_nodup (nodup_map_firsts ..) (nodup_map_firsts ..)).mpr fun k => ?_
  rw [mem_map_firsts, mem_map_firsts, (h.map voter).mem_iff]

/-- **Where the votes of each voter agree, the order of the votes does not matter.** -/
theorem map_firsts_perm [Inhabited β] {f : α → β} (h : l.Perm l')
    (hagree : ∀ a ∈ l, ∀ b ∈ l, voter a = voter b → f a = f b) :
    ((firsts voter [] l).map f).Perm ((firsts voter [] l').map f) := by
  -- the vote of a voter, read off any of its votes
  let vote : κ → β := fun k => ((l.find? (fun a => voter a == k)).map f).getD default
  have hvote : ∀ a ∈ l, f a = vote (voter a) := by
    intro a ha
    have hsome : (l.find? fun b => voter b == voter a).isSome = true :=
      List.find?_isSome.mpr ⟨a, ha, by simp⟩
    obtain ⟨b, hb⟩ := Option.isSome_iff_exists.mp hsome
    have hsame : voter b = voter a := by simpa using List.find?_some hb
    show f a = ((l.find? (fun b => voter b == voter a)).map f).getD default
    rw [hb]
    exact (hagree b (List.mem_of_find?_eq_some hb) a ha hsame).symm
  have hmap : ∀ l₁ : List α, l₁ ⊆ l → l₁.map f = (l₁.map voter).map vote := by
    intro l₁ hsub
    rw [List.map_map]
    exact List.map_congr_left fun a ha => hvote a (hsub ha)
  have hsub : firsts voter [] l' ⊆ l :=
    List.Subset.trans (firsts_subset voter [] l') h.symm.subset
  rw [hmap _ (firsts_subset ..), hmap _ hsub]
  exact (map_voter_firsts_perm h).map vote

end Quorums
