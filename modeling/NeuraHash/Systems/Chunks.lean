import Mathlib.Data.List.Basic
import Mathlib.Data.List.Range
import Mathlib.Tactic.Ring

/-!
# Loops over chunks

`starts n k` are the numbers from zero below `n` in steps of `k`. A loop that handles the chunk from
each of them handles every index once and in order (`flatMap_blocks`), and every item of a list
(`flatMap_slices`).
-/

namespace Systems

variable {α : Type}

/-- `range(0, n, k)`. -/
def starts (n k : ℕ) : List ℕ := (List.range ((n + k - 1) / k)).map (· * k)

theorem mem_starts {n k c : ℕ} (hk : 1 ≤ k) : c ∈ starts n k ↔ c < n ∧ k ∣ c := by
  unfold starts
  rw [List.mem_map]
  constructor
  · rintro ⟨i, hi, rfl⟩
    rw [List.mem_range, Nat.lt_div_iff_mul_lt hk] at hi
    exact ⟨by omega, Dvd.intro_left i rfl⟩
  · rintro ⟨hlt, i, rfl⟩
    refine ⟨i, ?_, Nat.mul_comm i k⟩
    rw [List.mem_range, Nat.lt_div_iff_mul_lt hk, Nat.mul_comm]
    omega

/-- The chunks reach the end. -/
theorem le_starts (n : ℕ) {k : ℕ} (hk : 1 ≤ k) : n ≤ (n + k - 1) / k * k := by
  have hmod := Nat.div_add_mod (n + k - 1) k
  have hlt := Nat.mod_lt (n + k - 1) hk
  rw [Nat.mul_comm] at hmod
  omega

/-- **The indices of the chunks are all indices, in order.** -/
theorem flatMap_blocks (n : ℕ) {k : ℕ} (hk : 1 ≤ k) :
    (starts n k).flatMap (fun c => List.range' c (min n (c + k) - c)) = List.range n := by
  -- after `m` chunks
  have hblocks : ∀ m, ((List.range m).map (· * k)).flatMap
      (fun c => List.range' c (min n (c + k) - c)) = List.range (min n (m * k)) := by
    intro m
    induction m with
    | zero => simp
    | succ m ih =>
      rw [List.range_succ, List.map_append, List.flatMap_append, ih]
      have hsucc : (m + 1) * k = m * k + k := Nat.succ_mul m k
      rw [hsucc]
      show List.range _ ++ ([m * k].flatMap _) = _
      rw [List.flatMap_singleton]
      rcases Nat.le_total n (m * k) with hle | hle
      · rw [Nat.min_eq_left hle, Nat.min_eq_left (by omega), Nat.sub_eq_zero_of_le hle]
        simp
      · obtain ⟨d, hd⟩ : ∃ d, min n (m * k + k) = m * k + d :=
          ⟨min n (m * k + k) - m * k, by omega⟩
        rw [Nat.min_eq_right hle, hd, Nat.add_sub_cancel_left, List.range_eq_range',
          List.range_eq_range', ← List.range'_append_1, Nat.zero_add]
  unfold starts
  rw [hblocks, Nat.min_eq_left (le_starts n hk)]

/-- **The slices of a list at the chunks are the list.** -/
theorem flatMap_slices (l : List α) {k : ℕ} (hk : 1 ≤ k) :
    (starts l.length k).flatMap (fun c => (l.drop c).take k) = l := by
  have hblocks : ∀ m, ((List.range m).map (· * k)).flatMap (fun c => (l.drop c).take k)
      = l.take (m * k) := by
    intro m
    induction m with
    | zero => simp
    | succ m ih =>
      rw [List.range_succ, List.map_append, List.flatMap_append, ih, Nat.succ_mul, List.take_add]
      simp
  unfold starts
  rw [hblocks, List.take_of_length_le (le_starts l.length hk)]

end Systems
