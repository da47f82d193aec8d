import Mathlib.Data.List.GetD
import Mathlib.Dynamics.PeriodicPts.Defs

/-!
# Lists read in a circle

`cycle l` is the sequence that runs through `l` again and again. Two lists have one sequence exactly
when they have one shortest block: a prefix that a divisor of the length repeats. The length of the
block is the minimal period of the sequence under the shift, so it does not depend on the list.
-/

namespace Cycles

open Function

variable {α : Type} {l l' : List α}

/-- Entry `E` of the sequence: `l[E % len(l)]`. -/
def cycle (l : List α) (E : ℕ) : Option α := l[E % l.length]?

def shift (f : ℕ → Option α) (E : ℕ) : Option α := f (E + 1)

theorem shift_iterate (f : ℕ → Option α) (p E : ℕ) : shift^[p] f E = f (E + p) := by
  induction p generalizing E with
  | zero => rfl
  | succ p ih =>
    rw [iterate_succ_apply']
    show shift^[p] f (E + 1) = _
    rw [ih, Nat.add_right_comm, Nat.add_assoc]

theorem isPeriodicPt_iff {f : ℕ → Option α} {p : ℕ} :
    IsPeriodicPt shift p f ↔ ∀ E, f (E + p) = f E := by
  unfold IsPeriodicPt IsFixedPt
  rw [funext_iff]
  exact forall_congr' fun E => by rw [shift_iterate]

theorem isPeriodicPt_length : IsPeriodicPt shift l.length (cycle l) :=
  isPeriodicPt_iff.mpr fun E => by simp only [cycle, Nat.add_mod_right]

/-- A period takes every entry to one of the first `p`. -/
theorem cycle_mod {p : ℕ} (h : IsPeriodicPt shift p (cycle l)) (E : ℕ) :
    cycle l (E % p) = cycle l E := by
  have hmul := isPeriodicPt_iff.mp (h.mul_const (E / p)) (E % p)
  rw [Nat.mod_add_div] at hmul
  exact hmul.symm

theorem cycle_eq (hl : l ≠ []) (i : ℕ) : ∃ a, cycle l i = some a := by
  have hpos : 0 < l.length := List.length_pos_iff.mpr hl
  exact ⟨_, List.getElem?_eq_getElem (Nat.mod_lt i hpos)⟩

theorem cycle_of_lt {i : ℕ} (hi : i < l.length) : cycle l i = l[i]? := by
  unfold cycle
  rw [Nat.mod_eq_of_lt hi]

/-! ## The shortest block -/

/-- `n % p == 0 and all(l[i] == l[i % p] for i in range(n))`. -/
def isPeriod [DecidableEq α] (l : List α) (p : ℕ) : Bool :=
  l.length % p == 0 && (List.range l.length).all fun i => l[i]? == l[i % p]?

/-- The entries up to the minimal period. -/
noncomputable def block (l : List α) : List α := l.take (minimalPeriod shift (cycle l))

theorem minimalPeriod_dvd : minimalPeriod shift (cycle l) ∣ l.length :=
  isPeriodicPt_length.minimalPeriod_dvd

theorem minimalPeriod_pos (hl : l ≠ []) : 0 < minimalPeriod shift (cycle l) :=
  isPeriodicPt_length.minimalPeriod_pos (List.length_pos_iff.mpr hl)

theorem minimalPeriod_le (hl : l ≠ []) : minimalPeriod shift (cycle l) ≤ l.length :=
  Nat.le_of_dvd (List.length_pos_iff.mpr hl) minimalPeriod_dvd

theorem isPeriod_iff [DecidableEq α] {p : ℕ} (hl : l ≠ []) (hp : 0 < p) :
    isPeriod l p = true ↔ p ∣ l.length ∧ IsPeriodicPt shift p (cycle l) := by
  unfold isPeriod
  rw [Bool.and_eq_true, beq_iff_eq, List.all_eq_true]
  simp only [List.mem_range, beq_iff_eq]
  rw [← Nat.dvd_iff_mod_eq_zero]
  refine and_congr_right fun hdvd => ?_
  have hpos : 0 < l.length := List.length_pos_iff.mpr hl
  have hmod : ∀ i, i % p < l.length := fun i =>
    (Nat.mod_lt i hp).trans_le (Nat.le_of_dvd hpos hdvd)
  constructor
  · intro h
    -- an entry is the one at its remainder, and `p` leaves the remainder as it is
    have hentry : ∀ E, cycle l E = l[E % p]? := fun E => by
      have := h (E % l.length) (Nat.mod_lt E hpos)
      rw [Nat.mod_mod_of_dvd E hdvd] at this
      exact this
    exact isPeriodicPt_iff.mpr fun E => by rw [hentry, hentry, Nat.add_mod_right]
  · intro h i hi
    rw [← cycle_of_lt hi, ← cycle_of_lt (hmod i), cycle_mod h]

/-- The first period found is the minimal one. -/
theorem find?_isPeriod [DecidableEq α] (hl : l ≠ []) :
    (List.range' 1 l.length).find? (isPeriod l) = some (minimalPeriod shift (cycle l)) := by
  have hpos := minimalPeriod_pos hl
  have hle := minimalPeriod_le hl
  have hmin : isPeriod l (minimalPeriod shift (cycle l)) = true :=
    (isPeriod_iff hl hpos).mpr ⟨minimalPeriod_dvd, isPeriodicPt_minimalPeriod _ _⟩
  rw [List.find?_range'_eq_some]
  refine ⟨hmin, by simp only [List.mem_range'_1]; omega, fun q hq hlt => ?_⟩
  have hnot : ¬ isPeriod l q = true := fun hperiod => by
    have hq := ((isPeriod_iff hl (by omega)).mp hperiod).2
    have := hq.minimalPeriod_le (by omega)
    omega
  simpa using hnot

theorem getElem?_block {i : ℕ} (hi : i < minimalPeriod shift (cycle l)) (hl : l ≠ []) :
    (block l)[i]? = cycle l i := by
  unfold block
  rw [List.getElem?_take_of_lt hi, cycle_of_lt (hi.trans_le (minimalPeriod_le hl))]

theorem length_block (hl : l ≠ []) : (block l).length = minimalPeriod shift (cycle l) := by
  unfold block
  rw [List.length_take, Nat.min_eq_left (minimalPeriod_le hl)]

/-- The block repeats to the sequence of the list. -/
theorem cycle_block (hl : l ≠ []) : cycle (block l) = cycle l := by
  funext E
  have hpos := minimalPeriod_pos hl
  show (block l)[E % (block l).length]? = _
  rw [length_block hl, getElem?_block (Nat.mod_lt E hpos) hl,
    cycle_mod (isPeriodicPt_minimalPeriod _ _)]

/-- **Two lists have one block exactly when they have one sequence.** -/
theorem block_eq_iff (hl : l ≠ []) (hl' : l' ≠ []) : block l = block l' ↔ cycle l = cycle l' := by
  constructor
  · intro h
    rw [← cycle_block hl, ← cycle_block hl', h]
  · intro h
    refine List.ext_getElem? fun i => ?_
    by_cases hi : i < minimalPeriod shift (cycle l)
    · rw [getElem?_block hi hl, getElem?_block (h ▸ hi) hl', h]
    · rw [List.getElem?_eq_none (by rw [length_block hl]; omega),
        List.getElem?_eq_none (by rw [length_block hl', ← h]; omega)]

end Cycles
