import Mathlib.Data.List.MinMax
import Mathlib.Data.List.Perm.Basic

/-!
# The first maximum of a list, over its permutations

A scan that keeps the best entry so far and replaces it by a strictly better one finds
`List.argmax`, the first entry with the largest key. The key it finds is the same for every order
of the list. What else it finds depends on the order exactly when two entries with the largest key
differ in it (`firstMax_map_perm_iff`).
-/

namespace FirstMax

variable {α β γ δ : Type} [LinearOrder β] {f : α → β}

/-- The entry the scan finds. -/
def firstMax (f : α → β) (l : List α) : Option α := l.argmax f

@[simp] theorem firstMax_nil : firstMax f [] = none := rfl

@[simp] theorem firstMax_singleton (a : α) : firstMax f [a] = some a := rfl

theorem firstMax_concat (l : List α) (a : α) :
    firstMax f (l ++ [a])
      = (firstMax f l).elim (some a) fun c => if f c < f a then some a else some c := by
  unfold firstMax
  rw [List.argmax_concat]
  cases l.argmax f with
  | none => rfl
  | some c => rfl

/-- An entry no other one exceeds. -/
def IsMax (f : α → β) (l : List α) (a : α) : Prop := a ∈ l ∧ ∀ b ∈ l, f b ≤ f a

theorem isMax_of_firstMax {l : List α} {a : α} (h : firstMax f l = some a) : IsMax f l a :=
  ⟨List.argmax_mem h, fun _ hb => List.le_of_mem_argmax hb h⟩

theorem IsMax.perm {l l' : List α} {a : α} (h : IsMax f l a) (hperm : l'.Perm l) :
    IsMax f l' a :=
  ⟨hperm.mem_iff.mpr h.1, fun b hb => h.2 b (hperm.mem_iff.mp hb)⟩

/-- Two maxima have one key. -/
theorem IsMax.key_eq {l : List α} {a b : α} (ha : IsMax f l a) (hb : IsMax f l b) : f a = f b :=
  le_antisymm (hb.2 a ha.1) (ha.2 b hb.1)

/-- A maximum at the front is the one that is found. -/
theorem firstMax_cons_of_isMax {l : List α} {a : α} (h : IsMax f (a :: l) a) :
    firstMax f (a :: l) = some a := by
  unfold firstMax
  rw [List.argmax_cons]
  cases hl : l.argmax f with
  | none => rfl
  | some c =>
    have hle : f c ≤ f a := h.2 c (List.mem_cons_of_mem _ (List.argmax_mem hl))
    show (if f a < f c then some c else some a) = some a
    rw [if_neg (not_lt.mpr hle)]

theorem firstMax_isSome_iff {l : List α} :
    (firstMax f l).isSome = true ↔ ∃ a, a ∈ l := by
  unfold firstMax
  rw [Option.isSome_iff_ne_none, Ne, List.argmax_eq_none]
  exact List.isEmpty_eq_false_iff.symm.trans List.isEmpty_eq_false_iff_exists_mem

/-- The key is found in every order. -/
theorem firstMax_key_perm {l l' : List α} (hperm : l'.Perm l) :
    (firstMax f l').map f = (firstMax f l).map f := by
  cases h' : firstMax f l' with
  | none =>
    have hnil : l' = [] := List.argmax_eq_none.mp h'
    have hnil' : l = [] := by
      rw [hnil] at hperm
      exact hperm.symm.eq_nil
    rw [hnil']
    rfl
  | some a' => cases h : firstMax f l with
    | none =>
      have hnil : l = [] := List.argmax_eq_none.mp h
      have hnil' : l' = [] := by
        rw [hnil] at hperm
        exact hperm.eq_nil
      rw [hnil'] at h'
      cases h'
    | some a =>
      have hkey := ((isMax_of_firstMax h').perm hperm.symm).key_eq (isMax_of_firstMax h)
      simp [hkey]

/-- **What depends on the order.** The list is selected from a list whose order may change. -/
theorem firstMax_map_perm_iff {sel : δ → Option α} {g : α → γ} {l : List δ} :
    (∀ l' : List δ, l'.Perm l →
        (firstMax f (l'.filterMap sel)).map g = (firstMax f (l.filterMap sel)).map g)
      ↔ ∀ a b, IsMax f (l.filterMap sel) a → IsMax f (l.filterMap sel) b → g a = g b := by
  constructor
  · intro horder
    -- any maximum is found when its entry comes first
    have hfound : ∀ a, IsMax f (l.filterMap sel) a →
        some (g a) = (firstMax f (l.filterMap sel)).map g := by
      intro a ha
      obtain ⟨d, hd, hsel⟩ := List.mem_filterMap.mp ha.1
      obtain ⟨s, t, hsplit⟩ := List.append_of_mem hd
      have hperm : (d :: (s ++ t)).Perm l := hsplit ▸ List.perm_middle.symm
      have hfront : (d :: (s ++ t)).filterMap sel = a :: (s ++ t).filterMap sel :=
        List.filterMap_cons_some hsel
      have hmax : IsMax f (a :: (s ++ t).filterMap sel) a :=
        hfront ▸ ha.perm (hperm.filterMap sel)
      rw [← horder _ hperm, hfront, firstMax_cons_of_isMax hmax, Option.map_some]
    intro a b ha hb
    exact Option.some.inj ((hfound a ha).trans (hfound b hb).symm)
  · intro hsame l' hperm
    have hperm' := hperm.filterMap sel
    have hkey := firstMax_key_perm (f := f) hperm'
    cases h' : firstMax f (l'.filterMap sel) with
    | none => cases h : firstMax f (l.filterMap sel) with
      | none => rfl
      | some a =>
        rw [h', h] at hkey
        cases hkey
    | some a' => cases h : firstMax f (l.filterMap sel) with
      | none =>
        rw [h', h] at hkey
        cases hkey
      | some a =>
        have heq := hsame a' a ((isMax_of_firstMax h').perm hperm'.symm) (isMax_of_firstMax h)
        simp [heq]

end FirstMax
