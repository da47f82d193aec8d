import Mathlib.Data.List.Infix
import Mathlib.Tactic.Common

/-!
# Windows of a text, and runs of hits

`windowAt l n i` are the `n` items of a list from place `i`. Two texts share a run when it occurs in
both; every window of a shared run occurs in the other text (`Shared.windows`). The converse fails:
`runTo` counts the places in a row whose windows occur somewhere, and they may occur in different
places.
-/

namespace Systems

/-! ## Windows -/

section windows

variable {α : Type} {l g s : List α} {n m i j : ℕ}

def windowAt (l : List α) (n i : ℕ) : List α := (l.drop i).take n

theorem length_windowAt (h : i + n ≤ l.length) : (windowAt l n i).length = n := by
  unfold windowAt
  rw [List.length_take, List.length_drop]
  omega

theorem infix_windowAt (l : List α) (n i : ℕ) : windowAt l n i <:+: l :=
  (List.take_prefix n _).isInfix.trans (List.drop_suffix i l).isInfix

/-- A text occurs in another where it is one of its windows. -/
theorem infix_iff_windowAt : g <:+: l ↔ ∃ i, i + g.length ≤ l.length ∧ windowAt l g.length i = g := by
  constructor
  · rintro ⟨a, b, rfl⟩
    refine ⟨a.length, ?_, ?_⟩
    · rw [List.length_append, List.length_append]
      omega
    · unfold windowAt
      rw [List.append_assoc, List.drop_left, List.take_left]
  · rintro ⟨i, -, h⟩
    rw [← h]
    exact infix_windowAt l _ i

/-- A window of a window. -/
theorem windowAt_windowAt (h : j + n ≤ m) : windowAt (windowAt l m i) n j = windowAt l n (i + j) := by
  unfold windowAt
  rw [List.drop_take, List.drop_drop, List.take_take, Nat.min_eq_left (by omega)]

/-! ## Shared runs -/

variable {sources : List (List α)}

/-- A text of `m` items occurs in the list and inside one of the sources. -/
def Shared (sources : List (List α)) (l : List α) (m : ℕ) : Prop :=
  ∃ g, g.length = m ∧ g <:+: l ∧ ∃ s ∈ sources, g <:+: s

theorem Shared.mono (h : Shared sources l m) (hn : n ≤ m) : Shared sources l n := by
  obtain ⟨g, rfl, hl, s, hs, hg⟩ := h
  have hpre : g.take n <:+: g := (List.take_prefix n g).isInfix
  exact ⟨g.take n, by rw [List.length_take]; omega, hpre.trans hl, s, hs, hpre.trans hg⟩

/-- **Every window of a shared run occurs in the source.** -/
theorem Shared.windows (h : Shared sources l m) :
    ∃ i, i + m ≤ l.length ∧ ∀ j, j + n ≤ m → ∃ s ∈ sources, windowAt l n (i + j) <:+: s := by
  obtain ⟨g, rfl, hl, s, hs, hg⟩ := h
  obtain ⟨i, hi, hwin⟩ := infix_iff_windowAt.mp hl
  refine ⟨i, hi, fun j hj => ⟨s, hs, ?_⟩⟩
  rw [← windowAt_windowAt hj, hwin]
  exact (infix_windowAt g n j).trans hg

/-- One window that occurs is a shared run. -/
theorem shared_of_window (hi : i + n ≤ l.length) (hs : s ∈ sources) (h : windowAt l n i <:+: s) :
    Shared sources l n :=
  ⟨_, length_windowAt hi, infix_windowAt l n i, s, hs, h⟩

end windows

/-! ## Runs of hits -/

section runs

variable (W : ℕ → Prop) [DecidablePred W]

/-- How many hits in a row stand right before a place. -/
def runTo : ℕ → ℕ
  | 0 => 0
  | p + 1 => if W p then runTo p + 1 else 0

variable {W} {p i k : ℕ}

@[simp] theorem runTo_zero : runTo W 0 = 0 := rfl

theorem runTo_succ_of_hit (h : W p) : runTo W (p + 1) = runTo W p + 1 := if_pos h

theorem runTo_succ_of_miss (h : ¬ W p) : runTo W (p + 1) = 0 := if_neg h

theorem runTo_le (p : ℕ) : runTo W p ≤ p := by
  induction p with
  | zero => exact Nat.le_refl 0
  | succ p ih =>
    by_cases h : W p
    · rw [runTo_succ_of_hit h]
      omega
    · rw [runTo_succ_of_miss h]
      omega

/-- The places of the run are hits. -/
theorem hit_of_runTo (hi : p - runTo W p ≤ i) (hp : i < p) : W i := by
  induction p with
  | zero => omega
  | succ p ih =>
    by_cases h : W p
    · rw [runTo_succ_of_hit h] at hi
      -- the last place is a hit, the others are those of the run before it
      by_cases hlast : i = p
      · rw [hlast]
        exact h
      · exact ih (by omega) (by omega)
    · rw [runTo_succ_of_miss h] at hi
      omega

/-- Hits in a row are part of the run they end. -/
theorem le_runTo (h : ∀ j, j < k → W (i + j)) : k ≤ runTo W (i + k) := by
  induction k with
  | zero => omega
  | succ k ih =>
    show k + 1 ≤ runTo W (i + k + 1)
    rw [runTo_succ_of_hit (h k (by omega))]
    have := ih fun j hj => h j (by omega)
    omega

end runs

end Systems
