import Mathlib.Data.List.Dedup
import Mathlib.Data.List.Forall2
import Mathlib.Data.List.Pairwise
import Mathlib.Data.List.Sort
import Mathlib.Data.Prod.Lex

/-!
# Lists

Facts about `List.Forall₂` (the partner of a member, and pairwise relations carried along), and
`sorted(set(l))`, which depends on the members of `l` only.
-/

namespace Py

/-! ## Related lists -/

section Related

variable {α β : Type} {R : α → β → Prop} {l : List α} {l' : List β}

/-- Every member of the second list has a partner in the first. -/
theorem exists_left_of_forall₂ (h : List.Forall₂ R l l') {b : β} (hb : b ∈ l') :
    ∃ a ∈ l, R a b := by
  induction h with
  | nil => cases hb
  | cons hhead _ ih =>
    rcases List.mem_cons.mp hb with rfl | hb
    · exact ⟨_, List.mem_cons_self .., hhead⟩
    · obtain ⟨a, ha, hab⟩ := ih hb
      exact ⟨a, List.mem_cons_of_mem _ ha, hab⟩

/-- Every member of the first list has a partner in the second. -/
theorem exists_right_of_forall₂ (h : List.Forall₂ R l l') {a : α} (ha : a ∈ l) :
    ∃ b ∈ l', R a b :=
  exists_left_of_forall₂ (List.Forall₂.flip h) ha

/-- A pairwise relation is carried along a related list. -/
theorem pairwise_of_forall₂ {S : α → α → Prop} {S' : β → β → Prop}
    (himp : ∀ a b a' b', R a a' → R b b' → S a b → S' a' b') (h : List.Forall₂ R l l')
    (hl : l.Pairwise S) : l'.Pairwise S' := by
  induction h with
  | nil => exact .nil
  | cons hhead htail ih =>
    rw [List.pairwise_cons] at hl ⊢
    refine ⟨fun b' hb' => ?_, ih hl.2⟩
    obtain ⟨b, hb, hbb'⟩ := exists_left_of_forall₂ htail hb'
    exact himp _ _ _ _ hhead hbb' (hl.1 b hb)

/-- A traversal returns the list of the results. -/
theorem forall₂_of_mapM {ε : Type} {f : α → Except ε β} {l : List α} {l' : List β}
    (h : l.mapM f = .ok l') : List.Forall₂ (fun a b => f a = .ok b) l l' := by
  induction l generalizing l' with
  | nil =>
    cases h
    exact .nil
  | cons a l ih =>
    rw [List.mapM_cons] at h
    cases hhead : f a with
    | error e =>
      rw [hhead] at h
      cases h
    | ok b =>
      cases htail : l.mapM f with
      | error e =>
        rw [hhead, htail] at h
        cases h
      | ok t =>
        rw [hhead, htail] at h
        cases h
        exact .cons hhead (ih htail)

/-- A traversal returns exactly when every step does. -/
theorem exists_mapM_eq_ok {ε : Type} {f : α → Except ε β} {l : List α} :
    (∃ l', l.mapM f = .ok l') ↔ ∀ a ∈ l, ∃ b, f a = .ok b := by
  constructor
  · rintro ⟨l', h⟩ a ha
    obtain ⟨b, -, hb⟩ := exists_right_of_forall₂ (forall₂_of_mapM h) ha
    exact ⟨b, hb⟩
  · intro h
    induction l with
    | nil => exact ⟨[], rfl⟩
    | cons a l ih =>
      obtain ⟨b, hb⟩ := h a (by simp)
      obtain ⟨t, ht⟩ := ih (fun c hc => h c (by simp [hc]))
      exact ⟨b :: t, by rw [List.mapM_cons, hb, ht]; rfl⟩

/-- A traversal depends on what its function gives at the items. -/
theorem mapM_congr_map {ε : Type} {f g : α → Except ε β} {l l' : List α}
    (h : l.map f = l'.map g) : l.mapM f = l'.mapM g := by
  induction l generalizing l' with
  | nil =>
    cases l' with
    | nil => rfl
    | cons b l' => cases h
  | cons a l ih =>
    cases l' with
    | nil => cases h
    | cons b l' =>
      obtain ⟨hhead, htail⟩ := List.cons.inj h
      rw [List.mapM_cons, List.mapM_cons, hhead, ih htail]

end Related

/-! ## Sorted sets -/

section SortedSet

variable {α : Type} [LinearOrder α]

/-- `sorted(set(l))`. -/
def sortedSet (l : List α) : List α := l.dedup.insertionSort (· ≤ ·)

@[simp] theorem mem_sortedSet {l : List α} {a : α} : a ∈ sortedSet l ↔ a ∈ l := by
  simp [sortedSet]

theorem sortedSet_eq_nil {l : List α} : sortedSet l = [] ↔ l = [] := by
  simp only [List.eq_nil_iff_forall_not_mem, mem_sortedSet]

theorem nodup_sortedSet (l : List α) : (sortedSet l).Nodup :=
  (List.perm_insertionSort _ _).nodup_iff.mpr (List.nodup_dedup l)

theorem sortedSet_sorted (l : List α) : (sortedSet l).Pairwise (· ≤ ·) :=
  List.pairwise_insertionSort _ _

/-- **A sorted set depends on the members only.** -/
theorem sortedSet_congr {l l' : List α} (h : ∀ a, a ∈ l ↔ a ∈ l') : sortedSet l = sortedSet l' := by
  have hperm : l.dedup.Perm l'.dedup :=
    (List.perm_ext_iff_of_nodup (List.nodup_dedup _) (List.nodup_dedup _)).mpr (by simpa using h)
  refine List.Perm.eq_of_pairwise' (sortedSet_sorted l) (sortedSet_sorted l') ?_
  exact ((List.perm_insertionSort _ _).trans hperm).trans (List.perm_insertionSort _ _).symm

/-- What is sorted and free of repetitions is its own sorted set. -/
theorem sortedSet_of_pairwise_lt {l : List α} (h : l.Pairwise (· < ·)) : sortedSet l = l := by
  have hnodup : l.Nodup := h.imp ne_of_lt
  rw [sortedSet, hnodup.dedup]
  exact (h.imp le_of_lt).insertionSort_eq

end SortedSet

end Py
