import NeuraHash.Merge.Gate
import NeuraHash.Python.Json

/-!
# Batched merges (`neurahash/diloco_merge.py`)

`applyDeltasWeightedGated` merges several deltas at once: each is probed on its own, the improving
ones are combined with weights proportional to their gains, and when the combination fails the gate
they are applied one by one, best first.
-/

namespace NeuraHash

open Py

/-! ## The model -/

/-- A contribution: its record and its delta. -/
structure MergeCandidate (F : Type) where
  record : Dict String Json
  delta : Params F

/-- A probed candidate. -/
structure MergeProbe (F : Type) where
  idx : ℕ
  candidate : MergeCandidate F
  gain : F
  keys : List String
  verdict : GateVerdict F

inductive MergeMode where
  /-- `combined` -/
  | combined
  /-- `serial_fallback` -/
  | serialFallback
  /-- `all_rejected` -/
  | allRejected
  deriving DecidableEq

/-- A row of `per_candidate`. -/
structure CandidateRow (F : Type) where
  record : Dict String Json
  gain : F
  weight : F
  accepted : Bool
  keysMatched : ℕ
  deltaNorm : Option F

structure BatchResult (F : Type) where
  mode : MergeMode
  accepted : Bool
  baseVal : Option F
  mergedVal : Option F
  /-- In input order. -/
  perCandidate : List (CandidateRow F)
  appliedOrder : List String

section

variable {F : Type} [FloatOps F]

/-- `str(rec.get("delta_cid", ""))`. -/
def MergeCandidate.deltaCid (T : PyText) (c : MergeCandidate F) : String :=
  (c.record.getD "delta_cid" (.str "")).toStr T

/-- The merge of one candidate alone. -/
def mergeSingle (np : Numpy F) (trunk : Params F) (c : MergeCandidate F) (evalFn : Params F → F)
    (outer margin : F) (apply : Bool) : BatchResult F × Params F :=
  let (v, trunk') := gate np trunk c.delta evalFn outer margin apply
  let gain := match v.accepted, v.baseVal, v.mergedVal with
    | true, some base, some merged => base - merged
    | _, _, _ => 0
  ({ mode := if v.accepted then .combined else .allRejected
     accepted := v.accepted
     baseVal := v.baseVal
     mergedVal := v.mergedVal
     perCandidate := [⟨c.record, gain, if v.accepted then FloatOps.lit 1 else 0, v.accepted,
       v.keysMatched, v.deltaNorm⟩]
     appliedOrder := [] }, trunk')

/-- The probes of the candidates, each against the same trunk. -/
def probeAll (np : Numpy F) (trunk : Params F) (evalFn : Params F → F) (outer margin baseVal : F)
    (candidates : List (MergeCandidate F)) : List (MergeProbe F) :=
  candidates.zipIdx.map (fun (c, idx) =>
    let verdict := (gate np trunk c.delta evalFn outer margin false).1
    { idx := idx
      candidate := c
      gain := match verdict.mergedVal with
        | some merged => baseVal - merged
        | none => 0
      keys := matchedKeys trunk c.delta
      verdict := verdict })

/-- The candidates that help on their own. -/
def positives (probes : List (MergeProbe F)) : List (MergeProbe F) :=
  probes.filter (fun p => FloatOps.lt 0 p.gain)

/-- `sum(positive gains)`. -/
def gainSum (probes : List (MergeProbe F)) : F := FloatOps.sum ((positives probes).map MergeProbe.gain)

/-- `w_i = gain_i / sum(positive gains)`. -/
def MergeProbe.weight (probes : List (MergeProbe F)) (p : MergeProbe F) : F := p.gain / gainSum probes

/-- The weighted sum of the improving deltas, key by key. -/
def weightedDelta (trunk : Params F) (probes : List (MergeProbe F)) : Params F :=
  (positives probes).foldl (fun acc p => p.keys.foldl (fun acc k =>
    match trunk.get? k, p.candidate.delta.get? k with
    | some t, some d =>
      let a := (acc.get? k).getD (.ofFn t.shape (fun _ => 0))
      acc.set k (.ofFn t.shape (fun i => a.get i + p.weight probes * d.get i))
    | _, _ => acc) acc) ∅

/-- The gain-weighted combination of the improving candidates, on a copy of the trunk. -/
def combinedTrunk (np : Numpy F) (trunk : Params F) (outer : F) (probes : List (MergeProbe F)) :
    Params F :=
  (weightedDelta trunk probes).entries.foldl (fun combined e =>
    match trunk.get? e.1 with
    | some t => combined.set e.1
        (.ofFn t.shape (fun i => np.float32 (t.get i + outer * e.2.get i)))
    | none => combined) trunk

/-- Descending gain, then ascending `delta_cid`. -/
def serialBefore (T : PyText) (p q : MergeProbe F) : Prop :=
  FloatOps.lt q.gain p.gain = true
    ∨ FloatOps.lt p.gain q.gain = false ∧ p.candidate.deltaCid T ≤ q.candidate.deltaCid T

instance (T : PyText) : DecidableRel (serialBefore (F := F) T) :=
  fun _ _ => inferInstanceAs (Decidable (_ ∨ _ ∧ _))

/-- The order of the serial fallback. -/
def serialOrder (T : PyText) (probes : List (MergeProbe F)) : List (MergeProbe F) :=
  (positives probes).insertionSort (serialBefore T)

/-- What one step of the fallback attributed. -/
structure SerialStep (F : Type) where
  idx : ℕ
  gain : F
  accepted : Bool

/-- The serial fallback: each candidate in turn against the trunk so far. The trunk reached, its
loss and the steps. -/
def serialMerge (np : Numpy F) (evalFn : Params F → F) (outer margin : F) :
    Params F → F → List (MergeProbe F) → Params F × F × List (SerialStep F)
  | work, running, [] => (work, running, [])
  | work, running, p :: ps =>
    let (v, work') := gate np work p.candidate.delta evalFn outer margin true
    match v.accepted, v.mergedVal with
    | true, some merged =>
      let (last, loss, steps) := serialMerge np evalFn outer margin work' merged ps
      (last, loss, ⟨p.idx, running - merged, true⟩ :: steps)
    | _, _ =>
      let (last, loss, steps) := serialMerge np evalFn outer margin work' running ps
      (last, loss, ⟨p.idx, 0, false⟩ :: steps)

/-- `_blank_pc`. -/
def blankRow (p : MergeProbe F) (gain weight : F) (accepted : Bool) : CandidateRow F :=
  ⟨p.candidate.record, gain, weight, accepted, p.verdict.keysMatched, p.verdict.deltaNorm⟩

/-- A row of the combined merge: an improving candidate is paid its share of the drop. -/
def combinedRow (probes : List (MergeProbe F)) (drop : F) (p : MergeProbe F) : CandidateRow F :=
  if FloatOps.lt 0 p.gain then
    blankRow p (drop * p.weight probes) (p.weight probes) true
  else blankRow p 0 0 false

/-- A row of the serial fallback: what its step attributed. -/
def serialRow (probes : List (MergeProbe F)) (steps : List (SerialStep F)) (p : MergeProbe F) :
    CandidateRow F :=
  match steps.find? (fun s => s.idx == p.idx) with
  | some s => blankRow p s.gain (p.weight probes) s.accepted
  | none => blankRow p 0 0 false

/-- `apply_deltas_weighted_gated(global_trunk_np, candidates, eval_fn, outer, margin, apply)`: the
result and the trunk after it. -/
def applyDeltasWeightedGated (np : Numpy F) (T : PyText) (trunk : Params F)
    (candidates : List (MergeCandidate F)) (evalFn : Params F → F) (outer margin : F) (apply : Bool) :
    BatchResult F × Params F :=
  match candidates with
  | [c] => mergeSingle np trunk c evalFn outer margin apply
  | _ =>
    let baseVal := evalFn trunk
    let probes := probeAll np trunk evalFn outer margin baseVal candidates
    if positives probes = [] then
      ({ mode := .allRejected, accepted := false, baseVal := some baseVal
         mergedVal := some baseVal
         perCandidate := probes.map (fun p => blankRow p 0 0 false), appliedOrder := [] }, trunk)
    else
      let combined := combinedTrunk np trunk outer probes
      let combinedVal := evalFn combined
      if FloatOps.le combinedVal (baseVal - margin) then
        ({ mode := .combined, accepted := true, baseVal := some baseVal
           mergedVal := some combinedVal
           perCandidate := probes.map (combinedRow probes (baseVal - combinedVal))
           appliedOrder := [] }, if apply then combined else trunk)
      else
        let order := serialOrder T probes
        let (work, running, steps) := serialMerge np evalFn outer margin trunk baseVal order
        ({ mode := .serialFallback, accepted := steps.any SerialStep.accepted
           baseVal := some baseVal, mergedVal := some running
           perCandidate := probes.map (serialRow probes steps)
           appliedOrder := order.map (fun p => p.candidate.deltaCid T) },
          if apply then work else trunk)

variable {np : Numpy F} {evalFn : Params F → F} {outer margin : F}

/-- A batch of several candidates, or of none. -/
theorem batch_several {T : PyText} {trunk : Params F} {candidates : List (MergeCandidate F)}
    {apply : Bool} (h : ¬ ∃ c, candidates = [c]) :
    applyDeltasWeightedGated np T trunk candidates evalFn outer margin apply =
      let probes := probeAll np trunk evalFn outer margin (evalFn trunk) candidates
      let combined := combinedTrunk np trunk outer probes
      let run := serialMerge np evalFn outer margin trunk (evalFn trunk) (serialOrder T probes)
      if positives probes = [] then
        ({ mode := .allRejected, accepted := false, baseVal := some (evalFn trunk)
           mergedVal := some (evalFn trunk)
           perCandidate := probes.map (fun p => blankRow p 0 0 false), appliedOrder := [] }, trunk)
      else if FloatOps.le (evalFn combined) (evalFn trunk - margin) then
        ({ mode := .combined, accepted := true, baseVal := some (evalFn trunk)
           mergedVal := some (evalFn combined)
           perCandidate := probes.map (combinedRow probes (evalFn trunk - evalFn combined))
           appliedOrder := [] }, if apply then combined else trunk)
      else
        ({ mode := .serialFallback, accepted := run.2.2.any SerialStep.accepted
           baseVal := some (evalFn trunk), mergedVal := some run.2.1
           perCandidate := probes.map (serialRow probes run.2.2)
           appliedOrder := (serialOrder T probes).map (fun p => p.candidate.deltaCid T) },
          if apply then run.1 else trunk) := by
  match candidates, h with
  | [], _ => rfl
  | [c], h => exact absurd ⟨c, rfl⟩ h
  | _ :: _ :: _, _ => rfl

/-! ## The serial fallback -/

/-- A step of the fallback moves the trunk, or leaves it and attributes nothing. -/
theorem serialMerge_cons (np : Numpy F) (evalFn : Params F → F) (outer margin : F) (work : Params F)
    (running : F) (p : MergeProbe F) (ps : List (MergeProbe F)) :
    (∃ work' merged, merged = evalFn work' ∧ FloatOps.lt merged (evalFn work - margin) = true
        ∧ serialMerge np evalFn outer margin work running (p :: ps) =
          let (last, loss, steps) := serialMerge np evalFn outer margin work' merged ps
          (last, loss, ⟨p.idx, running - merged, true⟩ :: steps))
      ∨ serialMerge np evalFn outer margin work running (p :: ps) =
          let (last, loss, steps) := serialMerge np evalFn outer margin work running ps
          (last, loss, ⟨p.idx, 0, false⟩ :: steps) := by
  cases haccepted :
    (gate np work p.candidate.delta evalFn outer margin true).1.accepted with
  | true =>
    obtain ⟨merged, -, hmerged, hafter, hlt⟩ := gate_accepted haccepted
    refine Or.inl ⟨merged, evalFn merged, rfl, hlt, ?_⟩
    rw [serialMerge]
    dsimp only
    rw [haccepted, hmerged, hafter]
    rfl
  | false =>
    have hafter := gate_rejected haccepted
    right
    rw [serialMerge]
    dsimp only
    rw [haccepted, hafter]

/-- The loss of the fallback is the loss of its trunk. -/
theorem serialMerge_loss {work : Params F} {running : F} (hrunning : running = evalFn work)
    (ps : List (MergeProbe F)) :
    (serialMerge np evalFn outer margin work running ps).2.1
      = evalFn (serialMerge np evalFn outer margin work running ps).1 := by
  induction ps generalizing work running with
  | nil => exact hrunning
  | cons p ps ih =>
    rcases serialMerge_cons np evalFn outer margin work running p ps with
      ⟨work', merged, hmerged, -, heq⟩ | heq
    · rw [heq]
      exact ih hmerged
    · rw [heq]
      exact ih hrunning

/-- The steps follow the order. -/
theorem map_idx_serialMerge (work : Params F) (running : F) (ps : List (MergeProbe F)) :
    (serialMerge np evalFn outer margin work running ps).2.2.map SerialStep.idx
      = ps.map MergeProbe.idx := by
  induction ps generalizing work running with
  | nil => rfl
  | cons p ps ih =>
    rcases serialMerge_cons np evalFn outer margin work running p ps with
      ⟨work', merged, -, -, heq⟩ | heq
    · rw [heq]
      exact congrArg (p.idx :: ·) (ih _ _)
    · rw [heq]
      exact congrArg (p.idx :: ·) (ih _ _)

/-- Without an accepted step the trunk is where it was. -/
theorem serialMerge_rejected {work : Params F} {running : F} {ps : List (MergeProbe F)}
    (h : (serialMerge np evalFn outer margin work running ps).2.2.any SerialStep.accepted = false) :
    (serialMerge np evalFn outer margin work running ps).1 = work := by
  induction ps generalizing running with
  | nil => rfl
  | cons p ps ih =>
    rcases serialMerge_cons np evalFn outer margin work running p ps with
      ⟨work', merged, -, -, heq⟩ | heq
    · rw [heq] at h
      simp at h
    · rw [heq] at h ⊢
      simp only [List.any_cons, Bool.false_or] at h
      exact ih h

end

end NeuraHash
