import NeuraHash.Python.Dict
import NeuraHash.Python.Float
import NeuraHash.Quorums.Majority

/-!
# Stakes held as floats

A stake map binds voters to floats that are not negative: finite, or infinite. When its values have
a finite sum every one of them is finite, and the map is a weight function on the voters
(`exists_weights`), so the majority argument of exact weights applies.
-/

namespace Py

open Quorums

/-- A float that is not negative (and not `nan`). -/
def PyFloat.Nonneg (x : PyFloat) : Prop := x = .inf ∨ ∃ q, 0 ≤ q ∧ x = .fin q

namespace PyFloat

theorem nonneg_zero : PyFloat.Nonneg 0 := Or.inr ⟨0, le_rfl, rfl⟩

/-- `max(0.0, x)`; a `nan` gives zero. -/
theorem nonneg_max (x : PyFloat) : (FloatOps.max 0 x).Nonneg := by
  cases x with
  | fin q => exact Or.inr ⟨Max.max 0 q, le_max_left 0 q, FloatOps.max_fin 0 q⟩
  | inf => exact Or.inl rfl
  | negInf => exact nonneg_zero
  | nan => exact nonneg_zero

theorem Nonneg.add {x y : PyFloat} (hx : x.Nonneg) (hy : y.Nonneg) : (x + y).Nonneg := by
  rcases hx with rfl | ⟨p, hp, rfl⟩ <;> rcases hy with rfl | ⟨q, hq, rfl⟩
  · exact Or.inl rfl
  · exact Or.inl rfl
  · exact Or.inl rfl
  · exact Or.inr ⟨p + q, add_nonneg hp hq, fin_add p q⟩

/-- A sum of floats does not depend on their order. -/
theorem foldl_add_perm {l l' : List PyFloat} (h : l.Perm l') (x : PyFloat) :
    l.foldl (· + ·) x = l'.foldl (· + ·) x := h.foldl_op_eq

/-- The sum of finite floats. -/
theorem sum_fin (l : List ℚ) : FloatOps.sum (l.map PyFloat.fin) = .fin l.sum := by
  have hfold : ∀ (l : List ℚ) (s : ℚ), (l.map PyFloat.fin).foldl (· + ·) (PyFloat.fin s)
      = .fin (s + l.sum) := by
    intro l
    induction l with
    | nil => simp
    | cons q l ih =>
      intro s
      rw [List.map_cons, List.foldl_cons, fin_add, ih, List.sum_cons, add_assoc]
  have := hfold l 0
  rwa [zero_add] at this

/-- A finite sum of floats that are not negative has finite terms. -/
theorem terms_fin_of_sum {l : List PyFloat} (hl : ∀ x ∈ l, x.Nonneg) {t : ℚ}
    (h : FloatOps.sum l = .fin t) : ∀ x ∈ l, ∃ q, 0 ≤ q ∧ x = .fin q := by
  have hinf : ∀ l : List PyFloat, (∀ x ∈ l, x.Nonneg) → l.foldl (· + ·) PyFloat.inf = .inf := by
    intro l
    induction l with
    | nil => exact fun _ => rfl
    | cons x l ih =>
      intro hl
      have hx : PyFloat.inf + x = .inf := by
        rcases hl x (by simp) with rfl | ⟨q, _, rfl⟩ <;> rfl
      rw [List.foldl_cons, hx]
      exact ih fun y hy => hl y (by simp [hy])
  have hfin : ∀ (l : List PyFloat), (∀ x ∈ l, x.Nonneg) → ∀ s : ℚ,
      l.foldl (· + ·) (PyFloat.fin s) = .fin t → ∀ x ∈ l, ∃ q, 0 ≤ q ∧ x = .fin q := by
    intro l
    induction l with
    | nil => simp
    | cons x l ih =>
      intro hl s hs
      have hrest : ∀ y ∈ l, y.Nonneg := fun y hy => hl y (by simp [hy])
      rcases hl x (by simp) with rfl | ⟨q, hq, rfl⟩
      · rw [List.foldl_cons, show PyFloat.fin s + .inf = .inf from rfl, hinf l hrest] at hs
        cases hs
      · rw [List.foldl_cons, fin_add] at hs
        intro y hy
        rcases List.mem_cons.mp hy with rfl | hy
        · exact ⟨q, hq, rfl⟩
        · exact ih hrest _ hs y hy
  exact hfin l hl 0 h

end PyFloat

namespace Dict

variable {α : Type} [DecidableEq α]

/-- **A stake map with a finite total is a weight function.** -/
theorem exists_weights {d : Dict α PyFloat} (hd : d.All PyFloat.Nonneg) {t : ℚ}
    (h : FloatOps.sum d.values = .fin t) :
    ∃ w : α → ℚ, (∀ a, 0 ≤ w a) ∧ (∀ a, d.getD a 0 = .fin (w a)) ∧ (∀ a ∉ d.keys, w a = 0)
      ∧ t = weight w d.keys := by
  have hvalue : ∀ a, ∃ q, 0 ≤ q ∧ d.getD a 0 = .fin q := by
    intro a
    unfold getD
    cases hget : d.get? a with
    | none => exact ⟨0, le_rfl, rfl⟩
    | some x =>
      refine PyFloat.terms_fin_of_sum ?_ h x (List.mem_map.mpr ⟨(a, x), mem_entries_iff.mpr hget, rfl⟩)
      intro y hy
      obtain ⟨e, he, rfl⟩ := List.mem_map.mp hy
      exact hd e.1 e.2 (mem_entries_iff.mp he)
  choose w hw hget using hvalue
  refine ⟨w, hw, hget, ?_, ?_⟩
  · intro a ha
    have hnone := hget a
    rw [getD, get?_eq_none_iff.mpr ha] at hnone
    exact (PyFloat.fin.inj hnone).symm
  · have hvalues : d.values = (d.keys.map w).map PyFloat.fin := by
      rw [values, keys, List.map_map, List.map_map]
      refine List.map_congr_left fun e he => ?_
      have := hget e.1
      rwa [getD, mem_entries_iff.mp (show (e.1, e.2) ∈ d.entries from he)] at this
    rw [hvalues, PyFloat.sum_fin] at h
    exact (PyFloat.fin.inj h).symm

/-- The stakes of some voters, looked up and summed. -/
theorem sum_getD_eq {d : Dict α PyFloat} {w : α → ℚ} (hw : ∀ a, d.getD a 0 = .fin (w a))
    (l : List α) : FloatOps.sum (l.map (fun a => d.getD a 0)) = .fin (weight w l) := by
  have hmap : l.map (fun a => d.getD a 0) = (l.map w).map PyFloat.fin := by
    rw [List.map_map]
    exact List.map_congr_left fun a _ => hw a
  rw [hmap, PyFloat.sum_fin]
  rfl

/-- Distinct voters hold at most the total. -/
theorem weight_le_keys {d : Dict α PyFloat} {w : α → ℚ} (hw : ∀ a, 0 ≤ w a)
    (hzero : ∀ a ∉ d.keys, w a = 0) {l : List α} (hl : l.Nodup) :
    weight w l ≤ weight w d.keys := by
  rw [← weight_filter (p := fun a => decide (a ∈ d.keys)) (l := l)
    (fun a _ ha => hzero a (by simpa using ha))]
  refine weight_le_of_subset hw (hl.filter _) fun a ha => ?_
  simpa using (List.mem_filter.mp ha).2

end Dict

end Py
