import Mathlib.Algebra.BigOperators.Group.List.Basic
import Mathlib.Algebra.Order.Group.Int
import Mathlib.Tactic.Linarith

/-!
# Tilings of an interval

Labelled half-open ranges `(x, lo, hi)` tile an interval when each begins where the one before it
ends. `tiles_layOut` is the rule for ranges laid out by their widths, `Tiles.append` puts two
tilings together, and `Tiles.countP_eq_one` says that a point is in one range exactly.
-/

namespace Systems

variable {α : Type}

/-- The ranges tile the interval from the first bound to the second. -/
inductive Tiles : ℤ → ℤ → List (α × ℤ × ℤ) → Prop where
  | nil (a : ℤ) : Tiles a a []
  | cons {a b c : ℤ} {ranges : List (α × ℤ × ℤ)} (x : α) (hle : a ≤ b) (h : Tiles b c ranges) :
      Tiles a c ((x, a, b) :: ranges)

/-- A range has a point. -/
def inRange (h : ℤ) (r : α × ℤ × ℤ) : Bool := r.2.1 ≤ h && h < r.2.2

theorem inRange_iff {h : ℤ} {r : α × ℤ × ℤ} : inRange h r = true ↔ r.2.1 ≤ h ∧ h < r.2.2 := by
  unfold inRange
  rw [Bool.and_eq_true, decide_eq_true_eq, decide_eq_true_eq]

/-- Ranges of some widths, one after the other. -/
def layOut : ℤ → List (α × ℤ) → List (α × ℤ × ℤ)
  | _, [] => []
  | a, (x, w) :: rest => (x, a, a + w) :: layOut (a + w) rest

section Tiles

variable {a b c h : ℤ} {ranges ranges' : List (α × ℤ × ℤ)}

theorem Tiles.le (htiles : Tiles a b ranges) : a ≤ b := by
  induction htiles with
  | nil => exact le_rfl
  | cons _ hle _ ih => exact hle.trans ih

theorem Tiles.append (htiles : Tiles a b ranges) (htiles' : Tiles b c ranges') :
    Tiles a c (ranges ++ ranges') := by
  induction htiles with
  | nil => exact htiles'
  | cons x hle _ ih => exact .cons x hle (ih htiles')

/-- The ranges of a tiling begin and end within it. -/
theorem Tiles.bounds (htiles : Tiles a b ranges) {r : α × ℤ × ℤ} (hr : r ∈ ranges) :
    a ≤ r.2.1 ∧ r.2.2 ≤ b := by
  induction htiles with
  | nil => cases hr
  | cons x hle h ih =>
    rcases List.mem_cons.mp hr with rfl | hr
    · exact ⟨le_rfl, h.le⟩
    · exact ⟨hle.trans (ih hr).1, (ih hr).2⟩

/-- A point outside the interval is in no range. -/
theorem Tiles.countP_eq_zero (htiles : Tiles a b ranges) (hout : h < a ∨ b ≤ h) :
    ranges.countP (inRange h) = 0 := by
  rw [List.countP_eq_zero]
  intro r hr hin
  obtain ⟨hlo, hhi⟩ := htiles.bounds hr
  rw [inRange_iff] at hin
  omega

/-- **A point of the interval is in one range exactly.** -/
theorem Tiles.countP_eq_one (htiles : Tiles a b ranges) (hlo : a ≤ h) (hhi : h < b) :
    ranges.countP (inRange h) = 1 := by
  induction htiles with
  | nil => omega
  | @cons a b c rest x hle htiles ih =>
    by_cases hin : h < b
    · rw [List.countP_cons_of_pos (inRange_iff.mpr ⟨hlo, hin⟩),
        htiles.countP_eq_zero (Or.inl hin)]
    · rw [List.countP_cons_of_neg fun h' => hin (inRange_iff.mp h').2]
      exact ih (by omega) hhi

theorem Tiles.not_inRange (htiles : Tiles a b ranges) (hout : h < a ∨ b ≤ h) {r : α × ℤ × ℤ}
    (hr : r ∈ ranges) : inRange h r = false :=
  (Bool.not_eq_true _).mp (List.countP_eq_zero.mp (htiles.countP_eq_zero hout) r hr)

theorem Tiles.exists_inRange (htiles : Tiles a b ranges) (hlo : a ≤ h) (hhi : h < b) :
    ∃ r ∈ ranges, inRange h r = true := by
  have hone := htiles.countP_eq_one hlo hhi
  exact List.countP_pos_iff.mp (by omega)

/-- The last range of a tiling ends where the interval does. -/
theorem Tiles.last {r : α × ℤ × ℤ} (htiles : Tiles a b (ranges ++ [r])) : r.2.2 = b := by
  induction ranges generalizing a with
  | nil =>
    cases htiles with
    | cons x hle h =>
      cases h
      rfl
  | cons r' ranges ih =>
    cases htiles with
    | cons x hle h => exact ih h

end Tiles

/-- **Ranges of widths that are not negative tile the interval up to their sum.** -/
theorem tiles_layOut {ws : List (α × ℤ)} (h : ∀ w ∈ ws, 0 ≤ w.2) (a : ℤ) :
    Tiles a (a + (ws.map Prod.snd).sum) (layOut a ws) := by
  induction ws generalizing a with
  | nil =>
    rw [List.map_nil, List.sum_nil, add_zero]
    exact .nil a
  | cons w ws ih =>
    obtain ⟨x, w⟩ := w
    have hw : 0 ≤ w := h (x, w) (List.mem_cons_self ..)
    have hrest := ih (fun w' hw' => h w' (List.mem_cons_of_mem _ hw')) (a + w)
    rw [List.map_cons, List.sum_cons, ← add_assoc]
    exact .cons x (by omega) hrest

end Systems
