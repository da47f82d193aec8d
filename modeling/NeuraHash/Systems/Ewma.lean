import Mathlib.Logic.Function.Iterate
import Mathlib.Order.Lattice
import Mathlib.Tactic.Linarith
import Mathlib.Algebra.Order.Group.Int

/-!
# An integer average that follows a sample

`towards d e s` moves `e` by the `d`-th part of its distance to `s`, rounded down. Rounding makes it
asymmetric: from above the average comes down to the sample, from below it stops where less than
`d` is missing (`Settled`). It never passes the sample (`between_towards`), and for one sample it
settles within as many steps as the distance (`settled_iterate`).
-/

namespace Ewma

/-- One step of the average, of weight one in `d`. -/
def towards (d e s : ℤ) : ℤ := e + (s - e) / d

/-- Where the average no longer moves: at the sample, or less than `d` below. -/
def Settled (d e s : ℤ) : Prop := s - (d - 1) ≤ e ∧ e ≤ s

variable {d e s : ℤ}

/-- A sample at the average or above it does not lower it, and is not passed. -/
theorem towards_up (hd : 1 ≤ d) (h : e ≤ s) : e ≤ towards d e s ∧ towards d e s ≤ s := by
  have hnonneg : 0 ≤ (s - e) / d := Int.ediv_nonneg (by omega) (by omega)
  have hle : (s - e) / d ≤ s - e := Int.ediv_le_self _ (by omega)
  unfold towards
  omega

/-- A sample below the average lowers it, and is not passed. -/
theorem towards_down (hd : 1 ≤ d) (h : s < e) : s ≤ towards d e s ∧ towards d e s < e := by
  have hneg : (s - e) / d < 0 := Int.ediv_neg_of_neg_of_pos (by omega) (by omega)
  have hge : s - e ≤ (s - e) / d := by
    refine Int.le_ediv_of_mul_le (by omega) ?_
    have := Int.mul_le_mul_of_nonpos_left (show s - e ≤ 0 by omega) hd
    omega
  unfold towards
  omega

theorem between_towards (hd : 1 ≤ d) : min e s ≤ towards d e s ∧ towards d e s ≤ max e s := by
  rcases Int.lt_or_le s e with h | h
  · have := towards_down hd h
    omega
  · have := towards_up hd h
    omega

theorem towards_of_settled (h : Settled d e s) : towards d e s = e := by
  have hzero : (s - e) / d = 0 := Int.ediv_eq_zero_of_lt (by have := h.2; omega) (by
    have := h.1
    omega)
  unfold towards
  omega

/-- Where it is not settled, the distance to the sample falls. -/
theorem natAbs_towards_lt (hd : 1 ≤ d) (h : ¬ Settled d e s) :
    (s - towards d e s).natAbs < (s - e).natAbs := by
  rcases Int.lt_or_le s e with hlt | hle
  · have := towards_down hd hlt
    omega
  · have hmiss : d ≤ s - e := by
      by_contra hnot
      exact h ⟨by omega, hle⟩
    have hone : 1 ≤ (s - e) / d := Int.le_ediv_of_mul_le (by omega) (by omega)
    have hup := towards_up hd hle
    unfold towards at *
    omega

/-- **The average settles**, at the latest after as many steps as its distance to the sample, and
stays there. -/
theorem settled_iterate (hd : 1 ≤ d) (n : ℕ) :
    ∀ e, (s - e).natAbs ≤ n → Settled d ((towards d · s)^[n] e) s := by
  induction n with
  | zero =>
    intro e h
    show Settled d e s
    exact ⟨by omega, by omega⟩
  | succ n ih =>
    intro e h
    rw [Function.iterate_succ_apply]
    by_cases hsettled : Settled d e s
    · -- it is there already, and does not move
      have hfixed : (fun x => towards d x s) e = e := towards_of_settled hsettled
      rw [towards_of_settled hsettled, Function.iterate_fixed hfixed n]
      exact hsettled
    · have := natAbs_towards_lt hd hsettled
      exact ih _ (by omega)

end Ewma
