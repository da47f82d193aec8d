import Mathlib.Tactic.Ring
import NeuraHash.Systems.Bisection

/-!
# The dose search (`bisect_lr_for_drift`)

The dose of a layer is a drift; the miner finds the learning rate that lands it. One small probe
pass gives a seed (its lr halved while the pass diverges), the seed is bracketed upwards by factors
of four, and the bracket is bisected. A pass that diverges counts as an infinite drift. The
arithmetic is that of an ordered field.

`dose_search` bounds the passes, says that a converged solution is one of them and is within the
tolerance, and that the bisection converges when the drift is a response with an argument of the
target in the last bracket and the bracket is narrow enough for its rate.
-/

namespace NeuraHash

variable {F : Type}

/-! ## Passes -/

/-- What `pass_fn(lr)` does: it returns a finite drift or a value that is not, or raises
`NonFiniteDoseError`. -/
inductive PassOutcome (F : Type) where
  | drift (rho : F)
  | nonFinite
  | raised

/-- `_pass_or_diverged`: a pass that diverged is plus infinity. -/
def PassOutcome.rho : PassOutcome F → WithTop F
  | drift rho => rho
  | nonFinite => ⊤
  | raised => ⊤

/-- An entry of the trace. -/
structure DosePass (F : Type) where
  it : ℤ
  lr : F
  rho : WithTop F

/-- `rho != float("inf")`. -/
def DosePass.finite (p : DosePass F) : Bool :=
  match p.rho with
  | ⊤ => false
  | (_ : F) => true

/-- `pass_fn`; it may depend on the passes before. -/
abbrev PassFn (F : Type) := List (DosePass F) → F → PassOutcome F

/-- The arguments of `bisect_lr_for_drift`. A seed that is not finite is `⊤`. -/
structure DoseOptions (F : Type) where
  tol : F
  maxBisect : ℕ
  seedLr : Option (WithTop F)
  rhoUnitLr1 : Option F
  nBatches : ℤ
  maxBracket : ℕ
  maxBackoff : ℕ
  probeFrac : F

inductive DoseError where
  | valueError
  | zeroDivision
  | nonFiniteDose
  | driftBisection

/-- What `measure_drift_slope` returns. -/
structure SlopeProbe (F : Type) where
  lr : F
  rho : F
  slope : F
  backoffs : ℕ

/-- The variables of the search: the bracket, the last pass, and the trace. -/
structure DoseSearch (F : Type) where
  lo : F
  hi : F
  lr : F
  rho : WithTop F
  brackets : ℕ
  trace : List (DosePass F)

/-- What `bisect_lr_for_drift` returns. -/
structure DoseSolution (F : Type) where
  lr : F
  achievedRho : WithTop F
  targetRho : F
  relErr : WithTop F
  tol : F
  converged : Bool
  passes : ℕ
  brackets : ℕ
  diverged : ℕ
  probe : Option (SlopeProbe F)
  trace : List (DosePass F)

/-- `_pass(lr, it)`. -/
def onePass (pass : PassFn F) (trace : List (DosePass F)) (lr : F) (it : ℤ) : DosePass F :=
  ⟨it, lr, (pass trace lr).rho⟩

/-- Every entry of the trace is what the pass gave when it was made. -/
def Recorded (pass : PassFn F) (trace : List (DosePass F)) : Prop :=
  ∀ pre p post, trace = pre ++ p :: post → p.rho = (pass pre p.lr).rho

/-- The trace is recorded and ends with the last pass of the search. -/
structure Traced (pass : PassFn F) (s : DoseSearch F) : Prop where
  recorded : Recorded pass s.trace
  last : ∃ pre it, s.trace = pre ++ [⟨it, s.lr, s.rho⟩]

theorem recorded_nil {pass : PassFn F} : Recorded pass [] := by
  intro pre p post h
  simp at h

theorem recorded_pass {pass : PassFn F} {trace : List (DosePass F)} (h : Recorded pass trace)
    (lr : F) (it : ℤ) : Recorded pass (trace ++ [onePass pass trace lr it]) := by
  intro pre p post hsplit
  rcases List.eq_nil_or_concat post with rfl | ⟨post', q, rfl⟩
  · obtain ⟨rfl, hp⟩ := List.append_inj' hsplit rfl
    cases hp
    rfl
  · rw [List.concat_eq_append, ← List.cons_append, ← List.append_assoc] at hsplit
    exact h pre p post' (List.append_inj' hsplit rfl).1

/-! ## The search -/

variable [Field F] [LinearOrder F]

/-- `abs(rho - target) <= tol * target`. -/
def within (target tol : F) (rho : WithTop F) : Bool :=
  match rho with
  | ⊤ => false
  | (x : F) => |x - target| ≤ tol * target

section Search

variable (pass : PassFn F) (o : DoseOptions F) (target : F)

/-- The loop of `measure_drift_slope`, with so many probes left. -/
def probeFrom : ℕ → ℕ → F → List (DosePass F) → Except DoseError (SlopeProbe F) × List (DosePass F)
  | 0, _, _, trace => (.error .nonFiniteDose, trace)
  | left + 1, k, lr, trace =>
    let p := onePass pass trace lr (-100 - k)
    match p.rho with
    | ⊤ => probeFrom left (k + 1) (lr * (1 / 2)) (trace ++ [p])
    | (rho : F) =>
      if 0 < rho ∧ lr = 0 then (.error .zeroDivision, trace ++ [p])
      else (.ok ⟨lr, rho, if 0 < rho then rho / lr else 0, k⟩, trace ++ [p])

/-- `measure_drift_slope(pass_fn, target)`. -/
def measureDriftSlope : Except DoseError (SlopeProbe F) × List (DosePass F) :=
  probeFrom pass (o.maxBackoff + 1) 0 (target * o.probeFrac) []

/-- The seed: given, computed from a given slope, or measured. -/
def seedOf : Except DoseError (WithTop F × Option (SlopeProbe F)) × List (DosePass F) :=
  match o.seedLr with
  | some seed => (.ok (seed, none), [])
  | none =>
    if o.rhoUnitLr1.getD 0 ≠ 0 then
      let slope := o.rhoUnitLr1.getD 0 * max 1 (o.nBatches : F)
      (.ok ((target / max (10 ^ (-30 : ℤ)) slope : F), none), [])
    else match measureDriftSlope pass o target with
      | (.error e, trace) => (.error e, trace)
      | (.ok probe, trace) =>
        (.ok ((if 0 < probe.slope then target / probe.slope else probe.lr : F), some probe), trace)

/-- The bracket is still below the target: `rho < target and abs(rho - target) > tol * target`. -/
def short (rho : WithTop F) : Bool := rho < target && !within target o.tol rho

/-- One step of the `x4` loop. -/
def bracketStep (s : DoseSearch F) : DoseSearch F :=
  let p := onePass pass s.trace (s.hi * 4) (-2 - s.brackets)
  ⟨s.hi, s.hi * 4, s.hi * 4, p.rho, s.brackets + 1, s.trace ++ [p]⟩

/-- The `x4` loop, with so many steps left. -/
def bracketFrom : ℕ → DoseSearch F → DoseSearch F
  | 0, s => s
  | left + 1, s =>
    if short o target s.rho && decide (s.hi < 10 ^ 12) then bracketFrom left (bracketStep pass s) else s

/-- One step of the bisection; a diverged midpoint is not below the target and becomes the upper
end. -/
def bisectStep (it : ℤ) (s : DoseSearch F) : DoseSearch F :=
  let mid := 1 / 2 * (s.lo + s.hi)
  let p := onePass pass s.trace mid it
  if p.rho < target then ⟨mid, s.hi, mid, p.rho, s.brackets, s.trace ++ [p]⟩
  else ⟨s.lo, mid, mid, p.rho, s.brackets, s.trace ++ [p]⟩

/-- The bisection, with so many steps left. -/
def bisectFrom : ℕ → ℤ → DoseSearch F → DoseSearch F
  | 0, _, s => s
  | left + 1, it, s =>
    if within target o.tol s.rho then s
    else bisectFrom left (it + 1) (bisectStep pass target it s)

/-- The search as the bisection finds it: seeded and bracketed. -/
def bracketed : Except DoseError (DoseSearch F × Option (SlopeProbe F)) × List (DosePass F) :=
  if ¬ 0 < target then (.error .valueError, [])
  else match seedOf pass o target with
    | (.error e, trace) => (.error e, trace)
    | (.ok (seed, probe), trace) => match seed with
      | ⊤ => (.error .valueError, trace)
      | (hi : F) =>
        if ¬ 0 < hi then (.error .valueError, trace)
        else
          let p := onePass pass trace hi (-1)
          let s := bracketFrom pass o target o.maxBracket ⟨0, hi, hi, p.rho, 0, trace ++ [p]⟩
          (.ok (s, probe), s.trace)

/-- `abs(rho - target) / target`. -/
def relErr (rho : WithTop F) : WithTop F := rho.map fun x => |x - target| / target

/-- `bisect_lr_for_drift(pass_fn, target, ...)`, and the passes it made. -/
def bisectLrForDrift : Except DoseError (DoseSolution F) × List (DosePass F) :=
  match bracketed pass o target with
  | (.error e, trace) => (.error e, trace)
  | (.ok (s, probe), _) =>
    let s := bisectFrom pass o target o.maxBisect 0 s
    if s.trace.all fun p => !p.finite then (.error .nonFiniteDose, s.trace)
    else
      (.ok
        { lr := s.lr
          achievedRho := s.rho
          targetRho := target
          relErr := relErr target s.rho
          tol := o.tol
          converged := relErr target s.rho ≤ o.tol
          passes := s.trace.length
          brackets := s.brackets
          diverged := s.trace.countP fun p => !p.finite
          probe := probe
          trace := s.trace }, s.trace)

/-- `solve_drift_or_refuse`. -/
def solveDriftOrRefuse : Except DoseError (DoseSolution F) × List (DosePass F) :=
  match bisectLrForDrift pass o target with
  | (.error e, trace) => (.error e, trace)
  | (.ok sol, trace) => if sol.converged then (.ok sol, trace) else (.error .driftBisection, trace)

end Search

/-! ## The trace -/

section Trace

variable {pass : PassFn F} {o : DoseOptions F} {target : F}

/-- The probe phase makes at most as many passes as it has probes. -/
theorem probeFrom_trace (left k : ℕ) (lr : F) {trace : List (DosePass F)}
    (h : Recorded pass trace) :
    Recorded pass (probeFrom pass left k lr trace).2
      ∧ (probeFrom pass left k lr trace).2.length ≤ trace.length + left := by
  induction left generalizing k lr trace with
  | zero => exact ⟨h, le_rfl⟩
  | succ left ih =>
    have hpass := recorded_pass h lr (-100 - k)
    have hlength : (trace ++ [onePass pass trace lr (-100 - k)]).length = trace.length + 1 := by
      simp
    unfold probeFrom
    dsimp only
    split
    · obtain ⟨hrec, hle⟩ := ih (k + 1) (lr * (1 / 2)) hpass
      exact ⟨hrec, by omega⟩
    · split
      · exact ⟨hpass, by dsimp only; omega⟩
      · exact ⟨hpass, by dsimp only; omega⟩

theorem seedOf_trace (pass : PassFn F) (o : DoseOptions F) (target : F) :
    Recorded pass (seedOf pass o target).2
      ∧ (seedOf pass o target).2.length ≤ o.maxBackoff + 1 := by
  unfold seedOf
  split
  · exact ⟨recorded_nil, by simp⟩
  · split
    · exact ⟨recorded_nil, by simp⟩
    · have hprobe : Recorded pass (measureDriftSlope pass o target).2
          ∧ (measureDriftSlope pass o target).2.length ≤ 0 + (o.maxBackoff + 1) :=
        probeFrom_trace (o.maxBackoff + 1) 0 (target * o.probeFrac) recorded_nil
      rw [Nat.zero_add] at hprobe
      split
      · next hmeasure =>
        rw [hmeasure] at hprobe
        exact hprobe
      · next hmeasure =>
        rw [hmeasure] at hprobe
        exact hprobe

omit [LinearOrder F] in
theorem bracketStep_traced {s : DoseSearch F} (h : Recorded pass s.trace) :
    Traced pass (bracketStep pass s) :=
  ⟨recorded_pass h _ _, s.trace, -2 - s.brackets, rfl⟩

theorem bisectStep_traced {s : DoseSearch F} (h : Recorded pass s.trace) (it : ℤ) :
    Traced pass (bisectStep pass target it s) := by
  unfold bisectStep
  dsimp only
  split
  · exact ⟨recorded_pass h _ _, s.trace, it, rfl⟩
  · exact ⟨recorded_pass h _ _, s.trace, it, rfl⟩

theorem length_bisectStep (s : DoseSearch F) (it : ℤ) :
    (bisectStep pass target it s).trace.length = s.trace.length + 1 := by
  unfold bisectStep
  dsimp only
  split
  · simp
  · simp

theorem bracketFrom_trace (left : ℕ) {s : DoseSearch F} (h : Traced pass s) :
    Traced pass (bracketFrom pass o target left s)
      ∧ (bracketFrom pass o target left s).trace.length ≤ s.trace.length + left := by
  induction left generalizing s with
  | zero => exact ⟨h, le_rfl⟩
  | succ left ih =>
    unfold bracketFrom
    split
    · obtain ⟨htraced, hle⟩ := ih (bracketStep_traced h.recorded)
      have hlength : (bracketStep pass s).trace.length = s.trace.length + 1 := by
        simp [bracketStep]
      exact ⟨htraced, by omega⟩
    · exact ⟨h, by omega⟩

theorem bisectFrom_trace (left : ℕ) (it : ℤ) {s : DoseSearch F} (h : Traced pass s) :
    Traced pass (bisectFrom pass o target left it s)
      ∧ (bisectFrom pass o target left it s).trace.length ≤ s.trace.length + left := by
  induction left generalizing s it with
  | zero => exact ⟨h, le_rfl⟩
  | succ left ih =>
    unfold bisectFrom
    split
    · exact ⟨h, by omega⟩
    · obtain ⟨htraced, hle⟩ := ih (it + 1) (bisectStep_traced h.recorded it)
      have hlength : (bisectStep pass target it s).trace.length = s.trace.length + 1 :=
        length_bisectStep s it
      exact ⟨htraced, by omega⟩

/-- The passes up to the end of the bracketing. -/
theorem bracketed_trace (pass : PassFn F) (o : DoseOptions F) (target : F) :
    Recorded pass (bracketed pass o target).2
      ∧ (bracketed pass o target).2.length ≤ o.maxBackoff + o.maxBracket + 2
      ∧ ∀ s probe, (bracketed pass o target).1 = .ok (s, probe) →
          Traced pass s ∧ s.trace = (bracketed pass o target).2 := by
  obtain ⟨hrec, hle⟩ := seedOf_trace pass o target
  unfold bracketed
  split
  · exact ⟨recorded_nil, by simp, fun s probe h => by cases h⟩
  · split
    · next e trace hseed =>
      rw [hseed] at hrec hle
      exact ⟨hrec, by dsimp only at hle ⊢; omega, fun s probe h => by cases h⟩
    · next seed probe trace hseed =>
      rw [hseed] at hrec hle
      dsimp only at hrec hle
      split
      · exact ⟨hrec, by dsimp only; omega, fun s probe h => by cases h⟩
      · next hi =>
        split
        · exact ⟨hrec, by dsimp only; omega, fun s probe h => by cases h⟩
        · have hfirst : Traced pass (⟨0, hi, hi, (onePass pass trace hi (-1)).rho, 0,
              trace ++ [onePass pass trace hi (-1)]⟩ : DoseSearch F) :=
            ⟨recorded_pass hrec _ _, trace, -1, rfl⟩
          obtain ⟨htraced, hlength⟩ : Traced pass (bracketFrom pass o target o.maxBracket
              ⟨0, hi, hi, (onePass pass trace hi (-1)).rho, 0, trace ++ [onePass pass trace hi (-1)]⟩)
              ∧ _ := bracketFrom_trace o.maxBracket hfirst
          rw [List.length_append, List.length_singleton] at hlength
          refine ⟨htraced.recorded, by dsimp only; omega, fun s probe' h => ?_⟩
          cases h
          exact ⟨htraced, rfl⟩

end Trace

/-! ## The tolerance -/

section Tolerance

variable [IsStrictOrderedRing F] {target tol : F} {rho : WithTop F}

theorem within_iff : within target tol rho = true ↔
    ∃ x : F, rho = x ∧ |x - target| ≤ tol * target := by
  induction rho with
  | top => simp [within]
  | coe x => simp [within]

/-- `rel <= tol` is the test of the loops. -/
theorem relErr_le_iff (htarget : 0 < target) :
    relErr target rho ≤ (tol : WithTop F) ↔ within target tol rho = true := by
  rw [within_iff]
  induction rho with
  | top => simp [relErr]
  | coe x =>
    have hdiv : |x - target| / target ≤ tol ↔ |x - target| ≤ tol * target := div_le_iff₀ htarget
    simpa [relErr] using hdiv

/-- A drift below the target and not within the tolerance falls short by more than it. -/
theorem short_iff {o : DoseOptions F} (hgap : 0 ≤ o.tol * target) :
    short o target rho = true ↔ ∃ a : F, rho = a ∧ a < target - o.tol * target := by
  unfold short
  induction rho with
  | top => simp
  | coe x =>
    simp only [Bool.and_eq_true, decide_eq_true_eq, WithTop.coe_lt_coe, Bool.not_eq_true',
      within, decide_eq_false_iff_not, not_le, WithTop.coe_inj, exists_eq_left']
    constructor
    · rintro ⟨hlt, hfar⟩
      rw [abs_of_neg (sub_neg.mpr hlt)] at hfar
      linarith
    · intro hlt
      have hbelow : x < target := by linarith
      refine ⟨hbelow, ?_⟩
      rw [abs_of_neg (sub_neg.mpr hbelow)]
      linarith

end Tolerance

/-! ## A drift that responds -/

section Response

open Bisection

variable [IsStrictOrderedRing F] {f : F → PassOutcome F} {R : Response F} {o : DoseOptions F}
  {target : F}

/-- What the bracketing keeps: the upper end was the last pass, and the lower end falls short. -/
structure Seated (R : Response F) (o : DoseOptions F) (target : F) (s : DoseSearch F) : Prop where
  nonneg : 0 ≤ s.lo
  pos : 0 < s.hi
  le : s.lo ≤ s.hi
  short : ∃ a : F, R.value s.lo = a ∧ a < target - o.tol * target
  rho : s.rho = R.value s.hi

theorem Seated.step (hgap : 0 ≤ o.tol * target) (hf : ∀ lr, 0 ≤ lr → (f lr).rho = R.value lr)
    {s : DoseSearch F} (h : Seated R o target s) (hshort : NeuraHash.short o target s.rho = true) :
    Seated R o target (bracketStep (fun _ => f) s) := by
  obtain ⟨a, ha, hlt⟩ := (short_iff hgap).mp hshort
  have hhi := h.pos
  refine ⟨hhi.le, ?_, ?_, ⟨a, h.rho ▸ ha, hlt⟩, ?_⟩
  · show 0 < s.hi * 4
    linarith
  · show s.hi ≤ s.hi * 4
    linarith
  · show (f (s.hi * 4)).rho = R.value (s.hi * 4)
    exact hf _ (by linarith)

theorem Seated.bracketFrom (hgap : 0 ≤ o.tol * target)
    (hf : ∀ lr, 0 ≤ lr → (f lr).rho = R.value lr) (left : ℕ) {s : DoseSearch F}
    (h : Seated R o target s) :
    Seated R o target (bracketFrom (fun _ => f) o target left s) := by
  induction left generalizing s with
  | zero => exact h
  | succ left ih =>
    unfold NeuraHash.bracketFrom
    split
    · next hgo =>
      rw [Bool.and_eq_true] at hgo
      exact ih (h.step hgap hf hgo.1)
    · exact h

omit [IsStrictOrderedRing F] in
/-- The bisection stops where the tolerance is met. -/
theorem bisectFrom_of_within {pass : PassFn F} (left : ℕ) (it : ℤ) {s : DoseSearch F}
    (h : within target o.tol s.rho = true) : bisectFrom pass o target left it s = s := by
  cases left with
  | zero => rfl
  | succ left =>
    unfold bisectFrom
    rw [if_pos h]

/-- **The bisection converges.** The induction is on the steps left: each one meets the tolerance or
leaves a bracket of half the width, and after the last one the bracket would be too narrow. -/
theorem bisectFrom_within (hgap : 0 ≤ o.tol * target)
    (hf : ∀ lr, 0 ≤ lr → (f lr).rho = R.value lr) (left : ℕ) (it : ℤ) {s : DoseSearch F}
    (h : Brackets R target (o.tol * target) s.lo s.hi)
    (hwidth : R.rate * (s.hi - s.lo) ≤ o.tol * target * 2 ^ left) :
    within target o.tol (bisectFrom (fun _ => f) o target left it s).rho = true := by
  induction left generalizing s it with
  | zero =>
    have hwide := h.gap_lt hgap
    rw [pow_zero, mul_one] at hwidth
    exact absurd hwide (not_lt.mpr hwidth)
  | succ left ih =>
    unfold bisectFrom
    split
    · next hdone => exact hdone
    · next hgo =>
      have hle := h.le
      have hlo := h.nonneg
      have hmid : s.lo ≤ 1 / 2 * (s.lo + s.hi) := by linarith
      have hrho : (f (1 / 2 * (s.lo + s.hi))).rho = R.value (1 / 2 * (s.lo + s.hi)) :=
        hf _ (hlo.trans hmid)
      have hhalf : ∀ w : F, w = 1 / 2 * (s.hi - s.lo) → R.rate * w ≤ o.tol * target * 2 ^ left := by
        rintro w rfl
        rw [pow_succ] at hwidth
        linarith
      by_cases hlt : (f (1 / 2 * (s.lo + s.hi))).rho < target
      · have hstep : bisectStep (fun _ => f) target it s
            = ⟨1 / 2 * (s.lo + s.hi), s.hi, 1 / 2 * (s.lo + s.hi),
              (f (1 / 2 * (s.lo + s.hi))).rho, s.brackets,
              s.trace ++ [⟨it, 1 / 2 * (s.lo + s.hi), (f (1 / 2 * (s.lo + s.hi))).rho⟩]⟩ := by
          unfold bisectStep
          exact if_pos hlt
        rw [hstep]
        by_cases hnear : within target o.tol (f (1 / 2 * (s.lo + s.hi))).rho = true
        · rw [bisectFrom_of_within left (it + 1) hnear]
          exact hnear
        · -- the midpoint falls short and becomes the lower end
          have hshort : short o target (f (1 / 2 * (s.lo + s.hi))).rho = true := by
            unfold short
            rw [decide_eq_true hlt, Bool.eq_false_iff.mpr hnear]
            rfl
          obtain ⟨a, ha, hbelow⟩ := (short_iff hgap).mp hshort
          refine ih (it + 1) (h.raise hgap hmid ⟨a, hrho ▸ ha, hbelow⟩) (hhalf _ ?_)
          ring
      · have hstep : bisectStep (fun _ => f) target it s
            = ⟨s.lo, 1 / 2 * (s.lo + s.hi), 1 / 2 * (s.lo + s.hi),
              (f (1 / 2 * (s.lo + s.hi))).rho, s.brackets,
              s.trace ++ [⟨it, 1 / 2 * (s.lo + s.hi), (f (1 / 2 * (s.lo + s.hi))).rho⟩]⟩ := by
          unfold bisectStep
          exact if_neg hlt
        rw [hstep]
        refine ih (it + 1) (h.cut hmid (hrho ▸ not_lt.mp hlt)) (hhalf _ ?_)
        ring

/-- The first pass after the seed seats the bracket. -/
theorem seated_of_bracketed (hgap : 0 ≤ o.tol * target) (hsmall : o.tol * target < target)
    (hf : ∀ lr, 0 ≤ lr → (f lr).rho = R.value lr) {s : DoseSearch F}
    {probe : Option (SlopeProbe F)} (h : (bracketed (fun _ => f) o target).1 = .ok (s, probe)) :
    Seated R o target s := by
  unfold bracketed at h
  split at h
  · cases h
  · split at h
    · cases h
    · split at h
      · cases h
      · next hi _ =>
        split at h
        · cases h
        · next hpos =>
          cases h
          have hhi : 0 < hi := not_not.mp hpos
          refine Seated.bracketFrom hgap hf o.maxBracket
            ⟨le_rfl, hhi, hhi.le, ⟨0, R.zero, ?_⟩, hf hi hhi.le⟩
          linarith

/-- A probe that does not diverge is found: the probes are made down to the last back-off. -/
theorem probeFrom_ok (hf : ∀ lr, 0 ≤ lr → (f lr).rho = R.value lr) (left k : ℕ) {lr : F}
    (hlr : 0 < lr) (hfinite : R.value (lr / 2 ^ left) ≠ ⊤) (trace : List (DosePass F)) :
    ∃ probe, (probeFrom (fun _ => f) (left + 1) k lr trace).1 = .ok probe ∧ 0 < probe.lr := by
  induction left generalizing k lr trace with
  | zero =>
    rw [pow_zero, div_one, ← hf lr hlr.le] at hfinite
    obtain ⟨x, hx⟩ := WithTop.ne_top_iff_exists.mp hfinite
    unfold probeFrom
    simp only [onePass, ← hx]
    rw [if_neg (fun h => hlr.ne' h.2)]
    exact ⟨_, rfl, hlr⟩
  | succ left ih =>
    unfold probeFrom
    dsimp only
    cases hrho : (onePass (fun _ => f) trace lr (-100 - (k : ℤ))).rho with
    | top =>
      have hnext : R.value (lr * (1 / 2) / 2 ^ left) ≠ ⊤ := by
        have heq : lr * (1 / 2) / 2 ^ left = lr / 2 ^ (left + 1) := by
          rw [pow_succ]
          ring
        rw [heq]
        exact hfinite
      exact ih (k + 1) (by linarith) hnext _
    | coe x =>
      dsimp only
      rw [if_neg (fun h => hlr.ne' h.2)]
      exact ⟨_, rfl, hlr⟩

/-- A measured seed gives a bracket when the smallest probe does not diverge. -/
theorem bracketed_of_probe (htarget : 0 < target) (hf : ∀ lr, 0 ≤ lr → (f lr).rho = R.value lr)
    (hseed : o.seedLr = none) (hslope : o.rhoUnitLr1.getD 0 = 0) (hfrac : 0 < o.probeFrac)
    (hfinite : R.value (target * o.probeFrac / 2 ^ o.maxBackoff) ≠ ⊤) :
    ∃ s probe, (bracketed (fun _ => f) o target).1 = .ok (s, probe) := by
  have hlr : 0 < target * o.probeFrac := mul_pos htarget hfrac
  obtain ⟨probe, hprobe, hpos⟩ := probeFrom_ok hf o.maxBackoff 0 hlr hfinite []
  have hmeasure : measureDriftSlope (fun _ => f) o target
      = (.ok probe, (measureDriftSlope (fun _ => f) o target).2) := Prod.ext hprobe rfl
  have hok : seedOf (fun _ => f) o target
      = (.ok ((if 0 < probe.slope then target / probe.slope else probe.lr : F), some probe),
          (measureDriftSlope (fun _ => f) o target).2) := by
    unfold seedOf
    rw [hseed]
    dsimp only
    rw [if_neg (not_not.mpr hslope), hmeasure]
  have hhi : 0 < (if 0 < probe.slope then target / probe.slope else probe.lr) := by
    split
    · next h => exact div_pos htarget h
    · exact hpos
  unfold bracketed
  rw [if_neg (not_not.mpr htarget), hok]
  dsimp only
  rw [if_neg (not_not.mpr hhi)]
  exact ⟨_, _, rfl⟩

end Response

/-! ## The result -/

section Result

open Bisection

variable [IsStrictOrderedRing F] {pass : PassFn F} {o : DoseOptions F} {target : F}

omit [IsStrictOrderedRing F] in
/-- The search once it is bracketed. -/
theorem bisectLrForDrift_of_bracketed {s : DoseSearch F} {probe : Option (SlopeProbe F)}
    (h : (bracketed pass o target).1 = .ok (s, probe)) :
    (bisectLrForDrift pass o target).2 = (bisectFrom pass o target o.maxBisect 0 s).trace
      ∧ ((bisectFrom pass o target o.maxBisect 0 s).trace.all (fun p => !p.finite) = true →
          (bisectLrForDrift pass o target).1 = .error .nonFiniteDose)
      ∧ ((bisectFrom pass o target o.maxBisect 0 s).trace.all (fun p => !p.finite) = false →
          ∃ sol, (bisectLrForDrift pass o target).1 = .ok sol
            ∧ sol.lr = (bisectFrom pass o target o.maxBisect 0 s).lr
            ∧ sol.achievedRho = (bisectFrom pass o target o.maxBisect 0 s).rho
            ∧ sol.passes = (bisectFrom pass o target o.maxBisect 0 s).trace.length
            ∧ sol.converged
              = decide (relErr target (bisectFrom pass o target o.maxBisect 0 s).rho ≤ o.tol)) := by
  have hbracketed : bracketed pass o target = (.ok (s, probe), (bracketed pass o target).2) :=
    Prod.ext h rfl
  unfold bisectLrForDrift
  rw [hbracketed]
  dsimp only
  split
  · next hall =>
    refine ⟨rfl, fun _ => rfl, fun hsome => ?_⟩
    rw [hall] at hsome
    cases hsome
  · next hsome =>
    refine ⟨rfl, fun hall => absurd hall hsome, fun _ => ⟨_, rfl, rfl, rfl, rfl, rfl⟩⟩

omit [IsStrictOrderedRing F] in
/-- A search that is not bracketed ends with its probes. -/
theorem bisectLrForDrift_of_error {e : DoseError} (h : (bracketed pass o target).1 = .error e) :
    bisectLrForDrift pass o target = (.error e, (bracketed pass o target).2) := by
  have hbracketed : bracketed pass o target = (.error e, (bracketed pass o target).2) :=
    Prod.ext h rfl
  unfold bisectLrForDrift
  rw [hbracketed]

omit [IsStrictOrderedRing F] in
/-- The passes of a search. -/
theorem search_passes (pass : PassFn F) (o : DoseOptions F) (target : F) :
    Recorded pass (bisectLrForDrift pass o target).2
      ∧ (bisectLrForDrift pass o target).2.length
          ≤ o.maxBackoff + o.maxBracket + o.maxBisect + 2 := by
  obtain ⟨hrec, hle, hok⟩ := bracketed_trace pass o target
  cases hb : (bracketed pass o target).1 with
  | error e =>
    rw [bisectLrForDrift_of_error hb]
    exact ⟨hrec, by dsimp only; omega⟩
  | ok found =>
    obtain ⟨s, probe⟩ := found
    obtain ⟨htraced, hsame⟩ := hok s probe hb
    obtain ⟨htraced', hlength⟩ : Traced pass (bisectFrom pass o target o.maxBisect 0 s) ∧ _ :=
      bisectFrom_trace o.maxBisect 0 htraced
    rw [(bisectLrForDrift_of_bracketed hb).1]
    refine ⟨htraced'.recorded, hlength.trans ?_⟩
    rw [hsame]
    omega

/-- **A converged solution is the last pass**, within the tolerance. -/
theorem search_sound (htarget : 0 < target) {sol : DoseSolution F}
    (hsol : (bisectLrForDrift pass o target).1 = .ok sol) (hconv : sol.converged = true) :
    ∃ pre it x, (bisectLrForDrift pass o target).2 = pre ++ [⟨it, sol.lr, sol.achievedRho⟩]
      ∧ pass pre sol.lr = .drift x ∧ sol.achievedRho = x ∧ |x - target| ≤ o.tol * target := by
  cases hb : (bracketed pass o target).1 with
  | error e =>
    rw [bisectLrForDrift_of_error hb] at hsol
    cases hsol
  | ok found =>
    obtain ⟨s, probe⟩ := found
    obtain ⟨htraced, -⟩ := (bracketed_trace pass o target).2.2 s probe hb
    obtain ⟨htraced', -⟩ : Traced pass (bisectFrom pass o target o.maxBisect 0 s) ∧ _ :=
      bisectFrom_trace o.maxBisect 0 htraced
    obtain ⟨htrace, hnone, hsome⟩ := bisectLrForDrift_of_bracketed hb
    cases hall : (bisectFrom pass o target o.maxBisect 0 s).trace.all (fun p => !p.finite) with
    | true =>
      rw [hnone hall] at hsol
      cases hsol
    | false =>
      obtain ⟨sol', hsol', hlr, hrho, -, hconv'⟩ := hsome hall
      cases hsol.symm.trans hsol'
      rw [hconv, eq_comm, decide_eq_true_eq, relErr_le_iff htarget, within_iff] at hconv'
      obtain ⟨x, hx, hnear⟩ := hconv'
      obtain ⟨pre, it, hlast⟩ := htraced'.last
      refine ⟨pre, it, x, ?_, ?_, hrho.trans hx, hnear⟩
      · rw [htrace, hlast, hlr, hrho]
      · -- the last entry is what the pass gave, and only a finite drift is finite
        have hgave := htraced'.recorded pre _ [] hlast
        dsimp only at hgave
        rw [← hlr, hx] at hgave
        cases hpass : pass pre sol.lr with
        | drift y =>
          rw [hpass] at hgave
          rw [WithTop.coe_inj.mp hgave]
        | nonFinite =>
          rw [hpass] at hgave
          cases hgave
        | raised =>
          rw [hpass] at hgave
          cases hgave

/-- **A response is landed** once its bracket has an argument of the target and is narrow enough. -/
theorem search_converges {f : F → PassOutcome F} {R : Response F} (htarget : 0 < target)
    (htol : 0 < o.tol) (htol1 : o.tol < 1) (hf : ∀ lr, 0 ≤ lr → (f lr).rho = R.value lr)
    {s : DoseSearch F} {probe : Option (SlopeProbe F)}
    (hb : (bracketed (fun _ => f) o target).1 = .ok (s, probe))
    (hreach : ∃ x : F, 0 ≤ x ∧ x ≤ s.hi ∧ R.value x = target)
    (hwidth : R.rate * (s.hi - s.lo) ≤ o.tol * target * 2 ^ o.maxBisect) :
    ∃ sol, (bisectLrForDrift (fun _ => f) o target).1 = .ok sol ∧ sol.converged = true := by
  have hgap : 0 ≤ o.tol * target := (mul_pos htol htarget).le
  have hsmall : o.tol * target < target := by
    calc o.tol * target < 1 * target := mul_lt_mul_of_pos_right htol1 htarget
      _ = target := one_mul target
  have hseated := seated_of_bracketed hgap hsmall hf hb
  obtain ⟨x, hx0, hxhi, hx⟩ := hreach
  have hbracket : Brackets R target (o.tol * target) s.lo s.hi := by
    obtain ⟨a, ha, hlt⟩ := hseated.short
    refine ⟨hseated.nonneg, ⟨a, ha, hlt⟩, x, ?_, hxhi, hx⟩
    by_contra hxlo
    have hle := R.mono x s.lo hx0 (le_of_lt (not_le.mp hxlo))
    rw [hx, ha, WithTop.coe_le_coe] at hle
    linarith
  have hwithin := bisectFrom_within hgap hf o.maxBisect 0 hbracket hwidth
  obtain ⟨htraced, -⟩ := (bracketed_trace (fun _ => f) o target).2.2 s probe hb
  obtain ⟨htraced', -⟩ :
      Traced (fun _ => f) (bisectFrom (fun _ => f) o target o.maxBisect 0 s) ∧ _ :=
    bisectFrom_trace o.maxBisect 0 htraced
  have hsome : (bisectFrom (fun _ => f) o target o.maxBisect 0 s).trace.all (fun p => !p.finite)
      = false := by
    obtain ⟨pre, it, hlast⟩ := htraced'.last
    obtain ⟨y, hy, -⟩ := within_iff.mp hwithin
    rw [hlast, List.all_append, hy]
    simp [DosePass.finite]
  obtain ⟨sol, hsol, -, -, -, hconv⟩ := (bisectLrForDrift_of_bracketed hb).2.2 hsome
  refine ⟨sol, hsol, ?_⟩
  rw [hconv, decide_eq_true_eq, relErr_le_iff htarget]
  exact hwithin

/-- **The dose search.** For every pass function, which may depend on the passes before: the passes
are bounded, and a solution reported as converged, which is the only one `solve_drift_or_refuse`
returns, is the last pass and within the tolerance. For a drift that responds (zero at zero, not
decreasing, of bounded rate below divergence): it converges when the bracket reaches an argument of
the target and is narrow enough for the rate; and a measured seed does give a bracket when the
smallest probe does not diverge. -/
theorem dose_search (o : DoseOptions F) (target : F) (htarget : 0 < target) (htol : 0 < o.tol)
    (htol1 : o.tol < 1) :
    (∀ pass : PassFn F,
      (bisectLrForDrift pass o target).2.length ≤ o.maxBackoff + o.maxBracket + o.maxBisect + 2
      ∧ Recorded pass (bisectLrForDrift pass o target).2
      ∧ (∀ sol, (bisectLrForDrift pass o target).1 = .ok sol → sol.converged = true →
          ∃ pre it x, (bisectLrForDrift pass o target).2 = pre ++ [⟨it, sol.lr, sol.achievedRho⟩]
            ∧ pass pre sol.lr = .drift x ∧ sol.achievedRho = x ∧ |x - target| ≤ o.tol * target)
      ∧ ∀ sol, (solveDriftOrRefuse pass o target).1 = .ok sol →
          (bisectLrForDrift pass o target).1 = .ok sol ∧ sol.converged = true)
    ∧ ∀ (f : F → PassOutcome F) (R : Response F), (∀ lr, 0 ≤ lr → (f lr).rho = R.value lr) →
      (∀ s probe, (bracketed (fun _ => f) o target).1 = .ok (s, probe) →
        (∃ x : F, 0 ≤ x ∧ x ≤ s.hi ∧ R.value x = target) →
        R.rate * (s.hi - s.lo) ≤ o.tol * target * 2 ^ o.maxBisect →
        ∃ sol, (bisectLrForDrift (fun _ => f) o target).1 = .ok sol ∧ sol.converged = true)
      ∧ (o.seedLr = none → o.rhoUnitLr1.getD 0 = 0 → 0 < o.probeFrac →
        R.value (target * o.probeFrac / 2 ^ o.maxBackoff) ≠ ⊤ →
        ∃ s probe, (bracketed (fun _ => f) o target).1 = .ok (s, probe)) := by
  refine ⟨fun pass => ?_, fun f R hf => ⟨?_, ?_⟩⟩
  · obtain ⟨hrec, hle⟩ := search_passes pass o target
    refine ⟨hle, hrec, fun sol hsol hconv => search_sound htarget hsol hconv, fun sol hsol => ?_⟩
    unfold solveDriftOrRefuse at hsol
    split at hsol
    · cases hsol
    · next sol' trace hfound =>
      split at hsol
      · next hconv =>
        cases hsol
        rw [hfound]
        exact ⟨rfl, hconv⟩
      · cases hsol
  · intro s probe hb hreach hwidth
    exact search_converges htarget htol htol1 hf hb hreach hwidth
  · intro hseed hslope hfrac hfinite
    exact bracketed_of_probe htarget hf hseed hslope hfrac hfinite

end Result

/-! ## A drift that diverges above ten -/

/-- The drift is the lr, up to ten. -/
def cappedPass (lr : ℚ) : PassOutcome ℚ := if lr ≤ 10 then .drift lr else .raised

def cappedResponse : Bisection.Response ℚ where
  value x := if x ≤ 10 then x else ⊤
  zero := by simp
  mono x y _ hxy := by
    split
    · split
      · exact WithTop.coe_le_coe.mpr hxy
      · exact le_top
    · next hx =>
      rw [if_neg (fun hy => hx (hxy.trans hy))]
  rate := 1
  lipschitz x y a b _ _ hx hy := by
    split at hx
    · split at hy
      · cases hx
        cases hy
        rw [one_mul]
      · cases hy
    · cases hx

def cappedOptions : DoseOptions ℚ where
  tol := 1 / 10
  maxBisect := 5
  seedLr := some (3 : ℚ)
  rhoUnitLr1 := none
  nBatches := 1
  maxBracket := 2
  maxBackoff := 3
  probeFrac := 1 / 1000

theorem dose_search_capped :
    (bisectLrForDrift (fun _ => cappedPass) cappedOptions 1).2.length ≤ 12
      ∧ ∃ sol, (bisectLrForDrift (fun _ => cappedPass) cappedOptions 1).1 = .ok sol
          ∧ sol.converged = true := by
  obtain ⟨hany, hresponse⟩ := dose_search cappedOptions 1 (by decide) (by decide +kernel)
    (by decide +kernel)
  have hf : ∀ lr, 0 ≤ lr → (cappedPass lr).rho = cappedResponse.value lr := by
    intro lr _
    show (if lr ≤ 10 then PassOutcome.drift lr else .raised).rho = if lr ≤ 10 then (lr : WithTop ℚ) else ⊤
    split
    · rfl
    · rfl
  have hb : (bracketed (fun _ => cappedPass) cappedOptions 1).1
      = .ok (⟨0, 3, 3, (3 : ℚ), 0, [⟨-1, 3, (3 : ℚ)⟩]⟩, none) := by
    rfl
  refine ⟨(hany fun _ => cappedPass).1, ?_⟩
  refine (hresponse cappedPass cappedResponse hf).1 _ _ hb ⟨1, by decide, by decide +kernel, ?_⟩ ?_
  · show (if (1 : ℚ) ≤ 10 then ((1 : ℚ) : WithTop ℚ) else ⊤) = _
    rw [if_pos (by decide +kernel)]
  · show (1 : ℚ) * (3 - 0) ≤ 1 / 10 * 1 * 2 ^ 5
    decide +kernel

end NeuraHash
