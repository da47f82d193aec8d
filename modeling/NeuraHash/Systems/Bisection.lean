import Mathlib.Algebra.Order.Field.Basic
import Mathlib.Order.WithBot
import Mathlib.Tactic.Linarith

/-!
# Bisecting a response that may diverge

A `Response` is zero at zero, does not decrease, and has a bounded rate where it is finite; `⊤` is a
response that diverged. A bracket (`Brackets`) has a lower end whose response is short of the target
by more than a gap, and an argument of the target below its upper end. The bracket stays one when an
end moves to any point between (`Brackets.raise`, `Brackets.cut`), and it cannot be so narrow that
the response rises by less than the gap over it (`Brackets.gap_lt`).
-/

namespace Bisection

variable {F : Type} [Field F] [LinearOrder F] [IsStrictOrderedRing F]

structure Response (F : Type) [Field F] [LinearOrder F] [IsStrictOrderedRing F] where
  value : F → WithTop F
  zero : value 0 = (0 : F)
  mono : ∀ x y, 0 ≤ x → x ≤ y → value x ≤ value y
  rate : F
  lipschitz : ∀ x y a b : F, 0 ≤ x → x ≤ y → value x = a → value y = b → b - a ≤ rate * (y - x)

/-- A response diverges only above some argument. -/
theorem Response.eq_top_of_le {R : Response F} {x y : F} (hx : 0 ≤ x) (hxy : x ≤ y)
    (h : R.value x = ⊤) : R.value y = ⊤ :=
  top_le_iff.mp (h ▸ R.mono x y hx hxy)

structure Brackets (R : Response F) (target gap lo hi : F) : Prop where
  nonneg : 0 ≤ lo
  short : ∃ a : F, R.value lo = a ∧ a < target - gap
  reached : ∃ x : F, lo ≤ x ∧ x ≤ hi ∧ R.value x = target

variable {R : Response F} {target gap lo hi m : F}

/-- From zero everything up to an argument of the target is a bracket. -/
theorem Brackets.start (hgap : gap < target) (h : ∃ x : F, 0 ≤ x ∧ x ≤ hi ∧ R.value x = target) :
    Brackets R target gap 0 hi :=
  ⟨le_rfl, ⟨0, R.zero, by linarith⟩, h⟩

theorem Brackets.le (h : Brackets R target gap lo hi) : lo ≤ hi := by
  obtain ⟨x, hlo, hhi, -⟩ := h.reached
  exact hlo.trans hhi

/-- The lower end moves up to a point that falls short. -/
theorem Brackets.raise (h : Brackets R target gap lo hi) (hgap : 0 ≤ gap) (hm : lo ≤ m)
    (hshort : ∃ a : F, R.value m = a ∧ a < target - gap) : Brackets R target gap m hi := by
  have hm0 : 0 ≤ m := h.nonneg.trans hm
  obtain ⟨a, ha, hlt⟩ := hshort
  obtain ⟨x, hlo, hhi, hx⟩ := h.reached
  refine ⟨hm0, ⟨a, ha, hlt⟩, x, ?_, hhi, hx⟩
  by_contra hxm
  -- an argument of the target below the point would exceed what the point reaches
  have hle := R.mono x m (h.nonneg.trans hlo) (le_of_lt (not_le.mp hxm))
  rw [hx, ha, WithTop.coe_le_coe] at hle
  linarith

/-- The upper end moves down to a point that reaches the target, or diverges. -/
theorem Brackets.cut (h : Brackets R target gap lo hi) (hm : lo ≤ m)
    (hreach : (target : WithTop F) ≤ R.value m) : Brackets R target gap lo m := by
  have hm0 : 0 ≤ m := h.nonneg.trans hm
  obtain ⟨x, hlo, hhi, hx⟩ := h.reached
  refine ⟨h.nonneg, h.short, ?_⟩
  by_cases hxm : x ≤ m
  · exact ⟨x, hlo, hxm, hx⟩
  · have hle := R.mono m x hm0 (le_of_lt (not_le.mp hxm))
    rw [hx] at hle
    exact ⟨m, hm, le_rfl, le_antisymm hle hreach⟩

/-- **A bracket is wide**: over it the response rises by more than the gap. -/
theorem Brackets.gap_lt (h : Brackets R target gap lo hi) (hgap : 0 ≤ gap) :
    gap < R.rate * (hi - lo) := by
  obtain ⟨a, ha, hlt⟩ := h.short
  obtain ⟨x, hlo, hhi, hx⟩ := h.reached
  have hrise : target - a ≤ R.rate * (x - lo) :=
    R.lipschitz lo x a target h.nonneg hlo ha hx
  have hrate : 0 < R.rate := by
    by_contra hneg
    have hprod : R.rate * (x - lo) ≤ 0 :=
      mul_nonpos_of_nonpos_of_nonneg (not_lt.mp hneg) (sub_nonneg.mpr hlo)
    linarith
  have hwide : R.rate * (x - lo) ≤ R.rate * (hi - lo) :=
    mul_le_mul_of_nonneg_left (by linarith) hrate.le
  linarith

end Bisection
